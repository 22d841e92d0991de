import EdgeClient.Bytes
import EdgeClient.IoFailure
import EdgeClient.Path

/-!
# Trees of files

The files that a program can see, as a value: what stands at which place, and which directory it
works in. Paths are resolved part by part, and every part but the last has to be a directory; so has
the last one if a slash follows it. A tree may also hold sockets, of whatever kind the user of this
module likes.
-/

namespace EdgeClient

/-- What can stand at a place in a tree. -/
inductive FileNode (σ : Type) where
  /-- A directory. -/
  | directory
  /-- A file and what is in it. -/
  | file (contents : Bytes)
  /-- A socket. -/
  | socket (peer : σ)

/-- A tree of files. -/
structure Files (σ : Type) where
  /-- Where the program works: the names that lead there from the root. -/
  workingDirectory : List String
  /-- What stands where. Directories on the way to something need no entry of their own. -/
  entries : List (List String × FileNode σ)

namespace Files

variable {σ : Type}

/-- The longest name in a directory. -/
def maxNameSize : Nat := 255

/-- The longest path. -/
def maxPathSize : Nat := 4095

/-- What stands at a place, given by the names that lead there from the root. -/
def node? (files : Files σ) (place : List String) : Option (FileNode σ) :=
  match files.entries.find? fun entry => entry.1 == place with
  | some (_, node) => some node
  | none =>
    if place.isPrefixOf files.workingDirectory
        || files.entries.any fun entry => place.isPrefixOf entry.1 then
      some .directory
    else
      none

/-- Follows the parts of a path from a place. -/
def walk (files : Files σ) : (place parts : List String) → Except IoFailure (List String)
  | place, [] => .ok place
  | place, part :: rest =>
    match files.node? place with
    | some .directory =>
      if part = "" ∨ part = "." then
        walk files place rest
      else if part = ".." then
        walk files place.dropLast rest
      else if maxNameSize < part.utf8ByteSize then
        .error .fileNameTooLong
      else
        match files.node? (place ++ [part]) with
        | some _ => walk files (place ++ [part]) rest
        | none => .error .noSuchFile
    | some _ => .error .notADirectory
    | none => .error .noSuchFile

/-- What a path names. -/
def resolve (files : Files σ) (path : String) : Except IoFailure (FileNode σ) :=
  if path.isEmpty then
    .error .noSuchFile
  else if maxPathSize < path.utf8ByteSize then
    .error .fileNameTooLong
  else
    let start := if Path.isAbsolute path then [] else files.workingDirectory
    match files.walk start (path.splitOn "/") with
    | .error e => .error e
    | .ok place =>
      match files.node? place with
      | some node => .ok node
      | none => .error .noSuchFile

/-- Reads a file. -/
def read (files : Files σ) (path : String) : Except IoFailure Bytes :=
  if path.toList.contains '\x00' then
    .error .nulInFileName
  else
    match files.resolve path with
    | .error e => .error e
    | .ok .directory => .error .isADirectory
    | .ok (.file contents) => .ok contents
    | .ok (.socket _) => .error .noSuchDevice

/-- The longest path that fits into the address of a socket. -/
def maxSocketPathSize : Nat := 107

/-- Why a name outside the tree, given by its size, does not lead to a socket: it has to fit into an
address, has to have something in it, and even then nothing listens there. -/
def nameObstacle (size : Nat) : IoFailure :=
  if maxSocketPathSize < size then .socketNameTooLong
  else if size = 0 then .invalidArgument
  else .connectionRefused

/-- Finds the socket that a path names. What follows a zero character at the start is a name outside
the tree. -/
def socket (files : Files σ) (path : String) : Except IoFailure σ :=
  if path.toList.head? = some '\x00' then
    .error (nameObstacle (path.utf8ByteSize - 1))
  else if path.toList.contains '\x00' then
    .error .nulInSocketPath
  else if maxSocketPathSize < path.utf8ByteSize then
    .error .socketPathTooLong
  else if path.isEmpty then
    .error .invalidArgument
  else
    match files.resolve path with
    | .error e => .error e
    | .ok (.socket peer) => .ok peer
    | .ok _ => .error .connectionRefused

end Files

end EdgeClient
