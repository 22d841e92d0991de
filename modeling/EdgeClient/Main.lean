import EdgeClient.Ping.Help
import EdgeClient.Ping.Report
import Std.Async.DNS
import Std.Async.TCP
import Std.Async.Timer

/-!
# The program `edgedb-ping`

The outermost layer: it gets arguments, environment, files, time and random numbers from the system,
carries bytes between a socket and `Handshake.react`, and prints the report. What is said at which
point is decided by the modules below.
-/

namespace EdgeClient.Ping

open Std.Async

/-- The failure with the given number and text. Some of the system's parts count downwards. -/
def failureWithCode (code : UInt32) (details : String) : IoFailure :=
  match if code < 0x80000000 then code else 0 - code with
  | 2 => .noSuchFile
  | 20 => .notADirectory
  | 21 => .isADirectory
  | 36 => .fileNameTooLong
  | 101 => .networkUnreachable
  | 111 => .connectionRefused
  | number => .other s!"{details} (os error {number})"

/-- The failure that the system reports. -/
def failureOf (e : IO.Error) : IoFailure :=
  match e with
  | .noFileOrDirectory _ code details | .inappropriateType _ code details
  | .invalidArgument _ code details | .noSuchThing _ code details
  | .permissionDenied _ code details | .resourceVanished code details
  | .unsupportedOperation code details | .otherError code details => failureWithCode code details
  | e => .other (toString e)

/-- The contents of a file. -/
def contentsOf (path : String) : IO (Except IoFailure Bytes) := do
  try
    return .ok (← IO.FS.readBinFile path).toList
  catch e =>
    return .error (failureOf e)

/-- The environment, as far as the program looks at it. -/
def readEnvironment : IO Environment := do
  let names :=
    [passwordVariable, "XDG_CONFIG_HOME", "HOME", "CLICOLOR_FORCE", "NO_COLOR", "CLICOLOR"]
  let mut known : List (String × String) := []
  for name in names do
    if let some value ← IO.getEnv name then
      known := (name, value) :: known
  return fun name => known.lookup name

/-- Nonces that nobody can foresee. -/
def randomNonces : IO NonceSource :=
  return .ofSeed (← IO.getRandomBytes 32).toList

/-! ## Carrying bytes -/

/-- A conversation over a socket, which ends with an error of the connection if it fails. -/
abbrev Live := ExceptT ConnectionError Async

/-- Has the system do something. -/
def Live.system {α : Type} (act : Async α) : Live α := ExceptT.mk do
  try
    return .ok (← act)
  catch e =>
    return .error (.io (failureOf e))

/-- Sends a message. -/
def Live.say (socket : TCP.Socket.Client) (message : ClientMessage) : Live Unit := do
  match message.toBytes with
  | .error e => throw (.wire e)
  | .ok bs => Live.system (socket.send ⟨bs.toArray⟩)

/-- Goes on with a handshake until it ends. -/
partial def Live.negotiate (config : Config) (socket : TCP.Socket.Client) (handshake : Handshake)
    (inbox : Inbox) : Live Session := do
  match inbox.next? with
  | .error e => throw (.wire e)
  | .ok none =>
    match ← Live.system (socket.recv? 8192) with
    | none => throw .closed
    | some bs => Live.negotiate config socket handshake (inbox.feed bs.toList)
  | .ok (some (frame, inbox)) =>
    match ServerMessage.decode frame with
    | .error e => throw (.wire e)
    | .ok message =>
      match handshake.react config message with
      | .wait next => Live.negotiate config socket next inbox
      | .say reply next =>
        Live.say socket reply
        Live.negotiate config socket next inbox
      | .finish session => return session
      | .fail e _ => throw e
      | .hangUp e _ =>
        try Live.system socket.shutdown catch _ => pure ()
        throw e

/-- The address of a socket. -/
def socketAddress (address : Std.Net.IPAddr) (port : UInt16) : Std.Net.SocketAddress :=
  match address with
  | .v4 addr => .v4 ⟨addr, port⟩
  | .v6 addr => .v6 ⟨addr, port⟩

/-- Connects to the first address that answers; `reason` is why those before did not. -/
def Live.dialAny (port : UInt16) (reason : ConnectionError) :
    List Std.Net.IPAddr → Live TCP.Socket.Client
  | [] => throw reason
  | address :: rest => do
    let socket ← Live.system TCP.Socket.Client.mk
    try
      Live.system (socket.connect (socketAddress address port))
      return socket
    catch e =>
      Live.dialAny port e rest

/-- Connects to the server that the settings name. -/
def Live.dial (config : Config) : Live TCP.Socket.Client := do
  if config.unixSocket.isSome then
    throw (.io (.other "sockets in the file system are not available"))
  let addresses ← Live.system (DNS.getAddrInfo config.host (toString config.port.toNat))
  let socket ← Live.dialAny config.port (.io (.other "no address for the host")) addresses.toList
  match config.tls with
  | none => return socket
  | some tls => throw (.tls (tls.obstacle config.host))

/-- Opens the connection that the settings ask for. -/
def Live.connect (config : Config) (nonces : NonceSource) :
    Live (TCP.Socket.Client × Session) := do
  let socket ← Live.dial config
  Live.say socket (Handshake.proposal config)
  let handshake := Handshake.afterProposal {} nonces
  return (socket, ← Live.negotiate config socket handshake {})

/-- Runs a conversation within a time limit. -/
def Live.within {α : Type} (budget : Duration) (act : Live α) : Live α := ExceptT.mk do
  let late : Async (Except ConnectionError α) := do
    sleep (.ofNat (min budget.ticks 0x4000000000000))
    return .error (.timeout budget)
  have : Inhabited (Except ConnectionError α) := ⟨.error (.timeout budget)⟩
  Async.race act.run late

/-- Says goodbye and closes the socket. -/
def Live.close (socket : TCP.Socket.Client) : Live Unit := do
  Live.say socket .terminate
  Live.system socket.shutdown

/-! ## Running -/

/-- Opens a connection, says how it went and closes it again. -/
def ping (config : Config) (styled : Bool) : IO Report := do
  let nonces ← randomNonces
  let started ← IO.monoNanosNow
  match ← (Live.within config.connectTimeout (Live.connect config nonces)).run.block with
  | .error e => return { failure := some (.connection e) }
  | .ok (socket, session) =>
    let elapsed : Duration := ⟨(← IO.monoNanosNow) - started⟩
    let reached := some (target config, session.version)
    IO.print ({ reached : Report }.output styled elapsed.toText)
    match ← (Live.close socket).run.block with
    | .ok _ => return { reached }
    | .error e => return { reached, failure := some (.connection e) }

/-- Runs the program with the given options. -/
def runLive (options : Options) (environment : Environment) (styled : Bool) : IO Report := do
  match ← buildConfig options environment contentsOf with
  | .error failure => return { failure := some failure }
  | .ok config =>
    if options.verbose then
      IO.print ({ announced := some (target config) : Report }.output styled "")
    ping config styled

end EdgeClient.Ping

open EdgeClient in
/-- Reads the command line, does what it asks for and answers with the exit code. -/
def main (arguments : List String) : IO UInt32 := do
  match Ping.Command.ofArguments arguments with
  | .misuse =>
    IO.eprint Ping.usageText
    return UInt32.ofNat Ping.misuseExitCode
  | .help =>
    IO.print Ping.helpText
    return 0
  | .version =>
    IO.print Ping.versionText
    return 0
  | .run options =>
    let environment ← Ping.readEnvironment
    let styled := Ping.usesStyles environment (← (← IO.getStdout).isTty)
    let report ← Ping.runLive options environment styled
    IO.eprint ((report.complaint styled).getD "")
    return UInt32.ofNat report.exitCode
