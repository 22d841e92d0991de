import EdgeClient.BigEndian
import EdgeClient.Bytes
import EdgeClient.Config.Basic
import EdgeClient.Config.Describe
import EdgeClient.Connection.Basic
import EdgeClient.Connection.Error
import EdgeClient.Connection.Handshake
import EdgeClient.Connection.Network
import EdgeClient.Connection.Patience
import EdgeClient.Connection.Session
import EdgeClient.Connection.Transport
import EdgeClient.Credentials
import EdgeClient.Crypto.Hmac
import EdgeClient.Crypto.Sha256
import EdgeClient.Files
import EdgeClient.IoFailure
import EdgeClient.Json.Document
import EdgeClient.Json.Number
import EdgeClient.Json.Printer
import EdgeClient.Json.Rounding
import EdgeClient.Json.Token
import EdgeClient.Json.Value
import EdgeClient.Main
import EdgeClient.Message.Client
import EdgeClient.Message.Server
import EdgeClient.Message.ServerError
import EdgeClient.Message.Version
import EdgeClient.Path
import EdgeClient.Ping.Help
import EdgeClient.Ping.Options
import EdgeClient.Ping.Report
import EdgeClient.Scalar
import EdgeClient.Scram.Attributes
import EdgeClient.Scram.Conversation
import EdgeClient.Scram.Error
import EdgeClient.Scram.Nonce
import EdgeClient.Text.Base64
import EdgeClient.Text.Duration
import EdgeClient.Text.Hex
import EdgeClient.Text.Invisible
import EdgeClient.Text.Outline
import EdgeClient.Text.Quoted
import EdgeClient.Text.Style
import EdgeClient.Tls.Authorities
import EdgeClient.Tls.Error
import EdgeClient.Tls.Hostname
import EdgeClient.Tls.Security
import EdgeClient.Uuid
import EdgeClient.Wire.Error
import EdgeClient.Wire.Frame
import EdgeClient.Wire.Reader
import EdgeClient.Wire.Writer
import EdgeClient.Proofs.Scram.Steps
import EdgeClient.Proofs.Text.Base64
import EdgeClient.Proofs.Scram.Agreement
import EdgeClient.Proofs.BigEndian
import EdgeClient.Proofs.Wire.Framing
import EdgeClient.Proofs.Message.ClientFrames
import EdgeClient.Proofs.Connection.Receiving
import EdgeClient.Proofs.Connection.Sending
import EdgeClient.Proofs.Connection.HandshakeRun
import EdgeClient.Proofs.Connection.Progress
import EdgeClient.Proofs.Scram.Sizes
import EdgeClient.Proofs.Connection.Replies
import EdgeClient.Proofs.Connection.ProvingServer
import EdgeClient.Proofs.Connection.Acceptance
import EdgeClient.Proofs.Connection.MutualAuthentication
import EdgeClient.Proofs.Connection.Refusal
import EdgeClient.Proofs.Connection.VersionGate
import EdgeClient.Proofs.Connection.Delivery
import EdgeClient.Proofs.Connection.Secrecy
import EdgeClient.Proofs.Message.Attributes
import EdgeClient.Proofs.Message.ServerLayouts
import EdgeClient.Proofs.Wire.Reassembly
import EdgeClient.Proofs.Scalar.Form
import EdgeClient.Proofs.Wire.Composition
import EdgeClient.Proofs.Scalar.Rows
import EdgeClient.Proofs.Wire.Calls
import EdgeClient.Proofs.Wire.Bracketing
import EdgeClient.Proofs.Connection.Reception
import EdgeClient.Proofs.Connection.OutgoingStream
import EdgeClient.Proofs.Connection.LifeCycle
import EdgeClient.Proofs.Connection.GivingUp
import EdgeClient.Proofs.Connection.Decision
import EdgeClient.Proofs.Wire.Accounting
import EdgeClient.Proofs.Message.ClientReading
import EdgeClient.Proofs.Json.WholeNumbers
import EdgeClient.Proofs.Json.Literals
import EdgeClient.Proofs.Json.Tokens
import EdgeClient.Proofs.Json.Grammar
import EdgeClient.Proofs.Json.RoundTrip
import EdgeClient.Proofs.Credentials.Location
import EdgeClient.Proofs.Credentials.RoundTrip
import EdgeClient.Proofs.Message.SelfDelimiting
import EdgeClient.Proofs.Wire.Consumption
import EdgeClient.Proofs.Scalar.Reencoding
import EdgeClient.Proofs.Scram.Challenges
import EdgeClient.Proofs.Requests
import EdgeClient.Proofs.Scram.Retries
import EdgeClient.Proofs.Wire.Draining
import EdgeClient.Proofs.Wire.Misuse
import EdgeClient.Proofs.Wire.ReservedFields
import EdgeClient.Proofs.Scram.Names
import EdgeClient.Proofs.Json.FloatingPoint
import EdgeClient.Proofs.Json.Decimals
import EdgeClient.Proofs.Json.Scaling
import EdgeClient.Proofs.Credentials.Ports
import EdgeClient.Proofs.Credentials.KnownMembers
import EdgeClient.Proofs.Wire.Rounds
import EdgeClient.Proofs.Message.DeclaredCounts
