import EdgeClient.Connection.Network
import EdgeClient.Path
import EdgeClient.Ping.Options
import EdgeClient.Text.Style

/-!
# Trying a connection

`edgedb-ping` builds connection settings from its options, opens the connection, says how it went
and closes it again. What it needs from outside is the value of environment variables, the contents
of files and a network; what comes of it is a report, which knows its own text and exit code.
-/

namespace EdgeClient.Ping

open Text (Style)

/-- Why the program did not succeed. -/
inductive Failure where
  /-- The connection failed, or its settings could not be used. -/
  | connection (e : ConnectionError)
  /-- There is no directory for settings. -/
  | noConfigDirectory
  /-- The file with certificates to trust could not be read. -/
  | unreadableAuthorities (path : String) (reason : IoFailure)
  deriving DecidableEq, Repr

/-- The wording of a failure; a wrapped cause is repeated at the end. -/
def Failure.message : Failure → String
  | .connection e =>
    match e.cause? with
    | some cause => e.message ++ ": " ++ cause
    | none => e.message
  | .noConfigDirectory => "cannot locate the config directory"
  | .unreadableAuthorities path reason => s!"cannot read CA file {path}: " ++ reason.message

/-- What the server advises to do about a failure. -/
def Failure.hint? : Failure → Option String
  | .connection e => e.serverError?.bind ServerError.hint
  | _ => none

/-! ## Settings -/

/-- The value of an environment variable, if it is set. -/
abbrev Environment := String → Option String

/-- The variable that a password may come from. -/
def passwordVariable : String := "EDGEDB_PASSWORD"

/-- The credentials file that the options ask for, if any. -/
def credentialsPath (options : Options) (environment : Environment) :
    Except Failure (Option String) :=
  match options.instanceName with
  | some name =>
    match Path.configDirectory? (environment "XDG_CONFIG_HOME") (environment "HOME") with
    | some directory => .ok (some (Path.instanceCredentials directory name))
    | none => .error .noConfigDirectory
  | none => .ok options.credentialsFile

/-- The settings that options ask for when there is no credentials file. -/
def plainConfig (options : Options) : Config where
  host := options.host
  port := options.port
  user := options.user
  database := options.database.getD options.user

/-- The settings that options without certificates add to others. -/
def adjust (options : Options) (environment : Environment) (config : Config) : Config :=
  { config with
    password := options.password <|> environment passwordVariable <|> config.password
    unixSocket := options.unixPath <|> config.unixSocket
    tls := if options.tls || options.tlsCaFile.isSome then some (config.tls.getD {}) else config.tls
    connectTimeout := .ofSeconds options.timeout }

/-- The connection settings that options ask for. -/
def buildConfig {m : Type → Type} [Monad m] (options : Options) (environment : Environment)
    (contents : String → m (Except IoFailure Bytes)) : m (Except Failure Config) := do
  match credentialsPath options environment with
  | .error e => return .error e
  | .ok path? =>
    let base : Except Failure Config ← match path? with
      | none => pure (.ok (plainConfig options))
      | some path => do
        match Credentials.ofFile (← contents path) with
        | .ok credentials => pure (.ok (Config.ofCredentials credentials))
        | .error e => pure (.error (.connection (.config (.credentials path e))))
    match base with
    | .error e => return .error e
    | .ok base =>
      let config := adjust options environment base
      match options.tlsCaFile with
      | none => return .ok config
      | some path =>
        match ← contents path with
        | .error reason => return .error (.unreadableAuthorities path reason)
        | .ok text =>
          let tls := { config.tls.getD {} with authorities := some text }
          return .ok { config with tls := some tls }

/-- What the settings connect to: user, place and database. -/
def target (config : Config) : String :=
  let place := match config.unixSocket with
    | some path => path
    | none => config.host ++ ":" ++ toString config.port.toNat
  config.user ++ "@" ++ place ++ "/" ++ config.database

/-! ## Styles -/

/-- What a variable says about styles, if it is set: no by a zero, and yes by anything else. -/
def styleSetting (environment : Environment) (name : String) : Option Bool :=
  (environment name).map (· != "0")

/-- Whether output is styled. A variable can force styles, another one can forbid them, in this
order; otherwise a terminal gets them, unless a third one says no. -/
def usesStyles (environment : Environment) (onTerminal : Bool) : Bool :=
  if styleSetting environment "CLICOLOR_FORCE" = some true then true
  else if (environment "NO_COLOR").isSome then false
  else (styleSetting environment "CLICOLOR").getD true && onTerminal

/-! ## Reports -/

/-- How a run went. -/
structure Report where
  /-- What the program said it connects to, if it was to say so. -/
  announced : Option String := none
  /-- What it connected to, and the version spoken there, if it did. -/
  reached : Option (String × Option ProtocolVersion) := none
  /-- Why it did not succeed in the end. -/
  failure : Option Failure := none
  deriving DecidableEq, Repr

namespace Report

/-- What the program prints; `elapsed` is how long connecting took. -/
def output (report : Report) (styled : Bool) (elapsed : String) : String :=
  let announced := match report.announced with
    | some target => Style.dimmed.applyIf styled "Connecting to:" ++ " " ++ target ++ "\n"
    | none => ""
  let reached := match report.reached with
    | some (target, version) =>
      let version := (version.map ProtocolVersion.toText).getD "?"
      Style.green.applyIf styled "✓" ++ " " ++ Style.cyan.applyIf styled target ++ " " ++
        Style.dimmed.applyIf styled s!"(protocol {version}, {elapsed})" ++ "\n"
    | none => ""
  announced ++ reached

/-- What the program prints about a failure. -/
def complaint (report : Report) (styled : Bool) : Option String :=
  report.failure.map fun failure =>
    let hint := match failure.hint? with
      | some hint => Style.yellow.applyIf styled "Hint:" ++ " " ++ hint ++ "\n"
      | none => ""
    Style.boldRed.applyIf styled "Error:" ++ " " ++ failure.message ++ "\n" ++ hint

/-- The exit code of the program. -/
def exitCode (report : Report) : Nat :=
  if report.failure.isSome then 1 else 0

end Report

/-- The exit code for a wrong command line. -/
def misuseExitCode : Nat := 2

/-- What the program says about its version. -/
def versionText : String := "edgedb-ping 0.1.0\n"

/-- Everything that a run depends on. -/
structure Surroundings where
  /-- The environment variables. -/
  environment : Environment
  /-- The contents of files. -/
  contents : String → Except IoFailure Bytes
  /-- Who answers at which address. -/
  network : Network
  /-- Where nonces come from. -/
  nonces : NonceSource

/-- A report, and the connection as the run left it if a peer answered. -/
abbrev Run := Report × Option Connection

/-- Opens a connection with the given settings and closes it again. -/
def tryConnection (around : Surroundings) (config : Config) (announced : Option String) : Run :=
  match around.network.connect config around.nonces with
  | ⟨.error e, connection⟩ => ({ announced, failure := some (.connection e) }, connection)
  | ⟨.ok _, none⟩ => ({ announced }, none)
  | ⟨.ok _, some c⟩ =>
    let reached := some (target config, c.session.version)
    match Connection.close c with
    | .ok _ c => ({ announced, reached }, some c)
    | .error (.failed e) c => ({ announced, reached, failure := some (.connection e) }, some c)
    | .error .gaveUp c => ({ announced, reached }, some c)

/-- Runs the program with the given options. -/
def run (around : Surroundings) (options : Options) : Run :=
  let contents (path : String) : Id (Except IoFailure Bytes) := around.contents path
  match buildConfig options around.environment contents with
  | .error failure => ({ failure := some failure }, none)
  | .ok config =>
    tryConnection around config (if options.verbose then some (target config) else none)

end EdgeClient.Ping
