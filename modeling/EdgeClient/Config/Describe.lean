import EdgeClient.Config.Basic
import EdgeClient.Text.Outline

/-!
# Describing settings

Settings are shown to people without giving away the password: it is replaced by a mark that only
says that there is one.
-/

namespace EdgeClient

open Text

/-- The description of settings for secure connections; certificates are shown as their bytes. -/
def TlsSettings.outline (tls : TlsSettings) : Outline :=
  .record "TlsConfig" [
    ("ca_pem", .option (tls.authorities.map fun bs =>
      .list (bs.map fun b => .leaf (toString b.toNat)))),
    ("security", .leaf tls.security.caseName)]

namespace Config

/-- What stands in place of a password. -/
def redacted : String := "<redacted>"

/-- The description of settings. -/
def outline (config : Config) : Outline :=
  .record "EdgeConfig" [
    ("host", .leaf (quoted config.host)),
    ("port", .leaf (toString config.port.toNat)),
    ("user", .leaf (quoted config.user)),
    ("database", .leaf (quoted config.database)),
    ("password", .option (config.password.map fun _ => .leaf (quoted redacted))),
    ("connect_timeout", .leaf config.connectTimeout.toText),
    ("tls", .option (config.tls.map TlsSettings.outline)),
    ("unix_socket", .option (config.unixSocket.map fun path => .leaf (quoted path)))]

/-- The description of settings on one line. -/
def describe (config : Config) : String := config.outline.flat

/-- The description of settings over several lines. -/
def describePretty (config : Config) : String := config.outline.pretty 0

end Config

end EdgeClient
