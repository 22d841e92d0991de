/-!
# Failures of the system underneath

What the operating system or a transport gives as the reason when a file cannot be read, a
connection cannot be opened, or a read or write on it does not succeed.
-/

namespace EdgeClient

/-- Why an operation on a file or a transport failed. -/
inductive IoFailure where
  /-- The peer dropped the connection. -/
  | connectionReset
  /-- The peer no longer reads. -/
  | brokenPipe
  /-- The stream broke off. -/
  | unexpectedEof
  /-- The transport waited too long. -/
  | timedOut
  /-- A write was accepted without taking any byte. -/
  | writeZero
  /-- There is no way to the address. -/
  | networkUnreachable
  /-- Nothing listens at the address. -/
  | connectionRefused
  /-- The address is not valid. -/
  | invalidArgument
  /-- The path of a socket does not fit into an address. -/
  | socketPathTooLong
  /-- A name of a socket outside the file system does not fit into an address. -/
  | socketNameTooLong
  /-- The path of a socket has a zero character in it. -/
  | nulInSocketPath
  /-- There is nothing at the path. -/
  | noSuchFile
  /-- A part of the path is not a directory. -/
  | notADirectory
  /-- The path names a directory. -/
  | isADirectory
  /-- The path or a part of it is too long. -/
  | fileNameTooLong
  /-- The path has a zero character in it. -/
  | nulInFileName
  /-- The path names something that cannot be opened. -/
  | noSuchDevice
  /-- A text file does not hold UTF-8. -/
  | invalidUtf8
  /-- A reason given by the system in its own words. -/
  | other (text : String)
  deriving DecidableEq, Repr

/-- The wording of a failure. -/
def IoFailure.message : IoFailure → String
  | .connectionReset => "connection reset"
  | .brokenPipe => "broken pipe"
  | .unexpectedEof => "unexpected end of file"
  | .timedOut => "timed out"
  | .writeZero => "write zero"
  | .networkUnreachable => "Network is unreachable (os error 101)"
  | .connectionRefused => "Connection refused (os error 111)"
  | .invalidArgument => "Invalid argument (os error 22)"
  | .socketPathTooLong => "path must be shorter than SUN_LEN"
  | .socketNameTooLong => "abstract socket name must be shorter than SUN_LEN"
  | .nulInSocketPath => "paths must not contain interior null bytes"
  | .noSuchFile => "No such file or directory (os error 2)"
  | .notADirectory => "Not a directory (os error 20)"
  | .isADirectory => "Is a directory (os error 21)"
  | .fileNameTooLong => "File name too long (os error 36)"
  | .nulInFileName => "file name contained an unexpected NUL byte"
  | .noSuchDevice => "No such device or address (os error 6)"
  | .invalidUtf8 => "stream did not contain valid UTF-8"
  | .other text => text

end EdgeClient
