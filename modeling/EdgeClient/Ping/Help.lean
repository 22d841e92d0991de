import EdgeClient.Ping.Options

/-!
# The help text of `edgedb-ping`

One line for each option: how it is written on the command line, and what it is for.
-/

namespace EdgeClient.Ping

namespace OptionName

/-- What stands for the value of an option in the help text. -/
def placeholder (name : OptionName) : String :=
  String.ofList (name.long.toList.map fun c => if c = '-' then '_' else c.toUpper)

/-- What an option is for. -/
def purpose : OptionName → String
  | .instanceName => "Named instance; credentials are read from the config directory"
  | .credentialsFile => "Path to a credentials JSON file"
  | .host => "Host of the server [default: " ++ Config.defaultHost ++ "]"
  | .port => "Port of the server [default: " ++ toString Config.defaultPort.toNat ++ "]"
  | .user => "User to log in as [default: edgedb]"
  | .database => "Defaults to the user name"
  | .password => "Password [env: EDGEDB_PASSWORD]"
  | .unixPath => "Connect over a Unix domain socket instead of TCP"
  | .tls => "Use TLS with the platform trust store"
  | .tlsCaFile => "Trust only the certificates in this PEM file (implies --tls)"
  | .timeout => "Connect timeout in seconds [default: 10]"
  | .verbose => "Say what is connected to"
  | .help => "Print help"
  | .version => "Print version"

/-- How an option is written on the command line. -/
def spelling (name : OptionName) : String :=
  let letter := match name.letter? with
    | some c => "-" ++ c.toString ++ ", "
    | none => "    "
  let value := if name.takesValue then " <" ++ name.placeholder ++ ">" else ""
  letter ++ "--" ++ name.long ++ value

end OptionName

/-- How many columns the spellings of options take in the help text. -/
def spellingColumns : Nat := 45

/-- The line of an option in the help text. -/
def helpLine (name : OptionName) : String :=
  let spelling := name.spelling
  let gap := String.ofList (List.replicate (spellingColumns - spelling.length) ' ')
  "  " ++ spelling ++ gap ++ name.purpose ++ "\n"

/-- How the program is called. -/
def usageText : String := "Usage: edgedb-ping [OPTIONS]\n"

/-- What the program says when it is asked for help. -/
def helpText : String :=
  "Check that an EdgeDB server accepts a connection\n\n" ++ usageText ++ "\nOptions:\n" ++
    String.join (OptionName.all.map helpLine)

end EdgeClient.Ping
