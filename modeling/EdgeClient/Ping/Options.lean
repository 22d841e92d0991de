import EdgeClient.Config.Basic

/-!
# The command line of `edgedb-ping`

Arguments are read from left to right. An option has a long name and possibly a letter; its value
follows as the next argument, after an equals sign, or directly after the letter. Letters of options
without a value can be run together. No option may be given twice, a value that looks like an option
has to follow an equals sign, and there are no other arguments. The first thing that is wrong ends
the reading, and so does asking for help or for the version.
-/

namespace EdgeClient.Ping

/-- The options of the program. -/
inductive OptionName where
  /-- A named instance whose credentials are used. -/
  | instanceName
  /-- A credentials file. -/
  | credentialsFile
  /-- The host of the server. -/
  | host
  /-- The port of the server. -/
  | port
  /-- Whom to log in as. -/
  | user
  /-- The database to use. -/
  | database
  /-- The password. -/
  | password
  /-- A socket in the file system. -/
  | unixPath
  /-- To make the connection secure. -/
  | tls
  /-- A file with certificates to trust. -/
  | tlsCaFile
  /-- How many seconds connecting may take. -/
  | timeout
  /-- To say more. -/
  | verbose
  /-- To explain the options. -/
  | help
  /-- To say which version of the program this is. -/
  | version
  deriving DecidableEq, Repr

namespace OptionName

/-- All options. -/
def all : List OptionName :=
  [.instanceName, .credentialsFile, .host, .port, .user, .database, .password, .unixPath, .tls,
    .tlsCaFile, .timeout, .verbose, .help, .version]

/-- The long name of an option. -/
def long : OptionName → String
  | .instanceName => "instance"
  | .credentialsFile => "credentials-file"
  | .host => "host"
  | .port => "port"
  | .user => "user"
  | .database => "database"
  | .password => "password"
  | .unixPath => "unix-path"
  | .tls => "tls"
  | .tlsCaFile => "tls-ca-file"
  | .timeout => "timeout"
  | .verbose => "verbose"
  | .help => "help"
  | .version => "version"

/-- The letter of an option, if it has one. -/
def letter? : OptionName → Option Char
  | .instanceName => some 'I'
  | .host => some 'H'
  | .port => some 'P'
  | .user => some 'u'
  | .database => some 'd'
  | .verbose => some 'v'
  | .help => some 'h'
  | .version => some 'V'
  | _ => none

/-- Whether an option has a value. -/
def takesValue : OptionName → Bool
  | .tls | .verbose | .help | .version => false
  | _ => true

end OptionName

/-- What the command line asks for in running the program. -/
structure Options where
  /-- A named instance whose credentials are used. -/
  instanceName : Option String := none
  /-- A credentials file. -/
  credentialsFile : Option String := none
  /-- The host of the server. -/
  host : String := Config.defaultHost
  /-- The port of the server. -/
  port : UInt16 := Config.defaultPort
  /-- Whom to log in as. -/
  user : String := "edgedb"
  /-- The database to use; named like the user if not set. -/
  database : Option String := none
  /-- The password. -/
  password : Option String := none
  /-- A socket in the file system. -/
  unixPath : Option String := none
  /-- Whether to make the connection secure. -/
  tls : Bool := false
  /-- A file with certificates to trust. -/
  tlsCaFile : Option String := none
  /-- How many seconds connecting may take. -/
  timeout : Nat := 10
  /-- Whether to say more. -/
  verbose : Bool := false
  deriving DecidableEq, Repr

/-- What a command line means. -/
inductive Command where
  /-- To try a connection. -/
  | run (options : Options)
  /-- To explain the options. -/
  | help
  /-- To say which version of the program this is. -/
  | version
  /-- Nothing: the command line is wrong. -/
  | misuse
  deriving DecidableEq, Repr

/-! ## Values -/

/-- The number that a text of decimal digits is; there has to be at least one. -/
def digits? (cs : List Char) : Option Nat :=
  if !cs.isEmpty && cs.all Char.isDigit then
    some (cs.foldl (fun n c => 10 * n + (c.toNat - 48)) 0)
  else
    none

/-- A number without a minus sign; a plus sign may come first. -/
def natural? (value : String) : Option Nat :=
  match value.toList with
  | '+' :: rest => digits? rest
  | cs => digits? cs

/-- A port: a number up to 65535. Zero may have a minus sign. -/
def port? (value : String) : Option UInt16 :=
  match value.toList with
  | '-' :: rest => if digits? rest = some 0 then some 0 else none
  | _ =>
    match natural? value with
    | some n => if n ≤ 65535 then some (UInt16.ofNat n) else none
    | none => none

/-- A number of seconds, of up to 64 bits. -/
def seconds? (value : String) : Option Nat :=
  (natural? value).filter (· < 0x10000000000000000)

/-- A path, which must not be empty. -/
def path? (value : String) : Option String :=
  if value.isEmpty then none else some value

/-- Sets an option; fails if the value is not acceptable. -/
def Options.set? (options : Options) (name : OptionName) (value : String) : Option Options :=
  match name with
  | .instanceName => some { options with instanceName := some value }
  | .credentialsFile => (path? value).map fun path => { options with credentialsFile := some path }
  | .host => some { options with host := value }
  | .port => (port? value).map fun port => { options with port }
  | .user => some { options with user := value }
  | .database => some { options with database := some value }
  | .password => some { options with password := some value }
  | .unixPath => (path? value).map fun path => { options with unixPath := some path }
  | .tls => some { options with tls := true }
  | .tlsCaFile => (path? value).map fun path => { options with tlsCaFile := some path }
  | .timeout => (seconds? value).map fun timeout => { options with timeout }
  | .verbose => some { options with verbose := true }
  | .help | .version => some options

/-! ## Arguments -/

/-- A command line in the middle of being read. -/
structure Reading where
  /-- What the arguments so far ask for. -/
  options : Options := {}
  /-- The options given so far. -/
  given : List OptionName := []

/-- What is known after an argument: how to read on, or what the command line means. -/
abbrev Progress := Except Command Reading

/-- Takes in an option with its value, or with any text if it has none. -/
def Reading.give (r : Reading) (name : OptionName) (value : String) : Progress :=
  match name with
  | .help => .error .help
  | .version => .error .version
  | _ =>
    if r.given.contains name then
      .error .misuse
    else
      match r.options.set? name value with
      | some options => .ok ⟨options, name :: r.given⟩
      | none => .error .misuse

/-- What an argument of letters leads to: how to read on, and the option that still needs its value
from the next argument. -/
def Reading.giveLetters (r : Reading) :
    List Char → Except Command (Reading × Option OptionName)
  | [] => .ok (r, none)
  | c :: rest =>
    match OptionName.all.find? fun name => name.letter? == some c with
    | none => .error .misuse
    | some name =>
      if name.takesValue then
        match rest with
        | [] => .ok (r, some name)
        | '=' :: value => (r.give name (String.ofList value)).map fun r => (r, none)
        | value => (r.give name (String.ofList value)).map fun r => (r, none)
      else
        match r.give name "" with
        | .ok r => r.giveLetters rest
        | .error command => .error command

/-- What an argument with a long name leads to, given what follows its two dashes. -/
def Reading.giveLong (r : Reading) (text : List Char) :
    Except Command (Reading × Option OptionName) :=
  let long := String.ofList (text.takeWhile (· != '='))
  match OptionName.all.find? fun name => name.long == long with
  | none => .error .misuse
  | some name =>
    match name.takesValue, text.dropWhile (· != '=') with
    | true, [] => .ok (r, some name)
    | true, _ :: value => (r.give name (String.ofList value)).map fun r => (r, none)
    | false, [] => (r.give name "").map fun r => (r, none)
    | false, _ :: _ => .error .misuse

/-- What one argument leads to. A lone pair of dashes is dealt with elsewhere. -/
def Reading.giveArgument (r : Reading) (argument : String) :
    Except Command (Reading × Option OptionName) :=
  match argument.toList with
  | '-' :: '-' :: text => r.giveLong text
  | '-' :: c :: letters => r.giveLetters (c :: letters)
  | _ => .error .misuse

/-- Whether an argument looks like an option and so is not taken as a value. -/
def looksLikeOption (argument : String) : Bool :=
  match argument.toList with
  | '-' :: _ :: _ => true
  | _ => false

/-- Takes in all arguments; `waiting` is the option whose value the next one has to be. -/
def Reading.giveAll (r : Reading) (waiting : Option OptionName) : List String → Progress
  | [] =>
    match waiting with
    | none => .ok r
    | some _ => .error .misuse
  | argument :: rest =>
    match waiting with
    | some name =>
      if looksLikeOption argument then
        .error .misuse
      else
        match r.give name argument with
        | .ok r => r.giveAll none rest
        | .error command => .error command
    | none =>
      if argument = "--" then
        if rest.isEmpty then .ok r else .error .misuse
      else
        match r.giveArgument argument with
        | .ok (r, waiting) => r.giveAll waiting rest
        | .error command => .error command

/-- What a command line means. An instance and a credentials file exclude each other. -/
def Command.ofArguments (arguments : List String) : Command :=
  match ({} : Reading).giveAll none arguments with
  | .error command => command
  | .ok r =>
    if r.options.instanceName.isSome && r.options.credentialsFile.isSome then
      .misuse
    else
      .run r.options

end EdgeClient.Ping
