import EdgeClient.Credentials
import EdgeClient.Text.Duration

/-!
# Connection settings

All that is needed to open and authenticate one connection.
-/

namespace EdgeClient

/-- How a secure connection is made. -/
structure TlsSettings where
  /-- The certificates to trust, as text with markers; those of the system if not set. -/
  authorities : Option Bytes := none
  /-- How strictly the server is checked. -/
  security : TlsSecurity := .default
  deriving DecidableEq, Repr

/-- How long a connection may take unless it is said otherwise. -/
def Config.defaultTimeout : Duration := .ofSeconds 10

/-- The settings of one connection. -/
structure Config where
  /-- Where the server is. -/
  host : String
  /-- The port that the server listens on. -/
  port : UInt16
  /-- Whom to log in as. -/
  user : String
  /-- The database to use. -/
  database : String
  /-- The password, if one is needed. -/
  password : Option String := none
  /-- How long opening and authenticating may take together. -/
  connectTimeout : Duration := Config.defaultTimeout
  /-- How to make the connection secure; not at all if not set. -/
  tls : Option TlsSettings := none
  /-- A socket in the file system to use in place of host and port. -/
  unixSocket : Option String := none
  deriving DecidableEq, Repr

namespace Config

/-- The host of a local server. -/
def defaultHost : String := "127.0.0.1"

/-- The port of a local server. -/
def defaultPort : UInt16 := 5656

/-- Settings for a local server, with a database named like the user. -/
def forUser (user : String) : Config :=
  { host := defaultHost, port := defaultPort, user, database := user }

/-- The settings that credentials ask for. The connection is secure if the credentials have
certificates or say how strictly to check the server. -/
def ofCredentials (c : Credentials) : Config where
  host := c.host.getD defaultHost
  port := c.port.getD defaultPort
  user := c.user
  database := c.database.getD c.user
  password := c.password
  tls :=
    if c.tlsCertData.isSome || c.tlsSecurity.isSome then
      some ⟨c.tlsCertData.map Bytes.ofString, c.tlsSecurity.getD .default⟩
    else
      none

/-- The connection parameters that the client sends, in order. -/
def handshakeParams (config : Config) : List (String × String) :=
  [("database", config.database), ("user", config.user)]

end Config

end EdgeClient
