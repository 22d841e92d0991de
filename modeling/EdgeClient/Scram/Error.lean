import EdgeClient.Text.Hex

/-!
# Reasons why authentication fails

The causes that end an authentication exchange, with their wording in one place. Those that blame
the form of a server string say what is wrong with it.
-/

namespace EdgeClient

/-- The largest number of key derivation rounds that a server may ask for. -/
def maxIterations : Nat := 0x100000

/-- What is wrong with the form of a server string. -/
inductive Malformation where
  /-- The salt is not base 64. -/
  | saltEncoding
  /-- The iteration count is not a number of 32 bits. -/
  | iterationSyntax
  /-- An extension is asked for that the client would have to know. -/
  | mandatoryExtension
  /-- There is no nonce. -/
  | missingNonce
  /-- There is no salt. -/
  | missingSalt
  /-- There is no iteration count. -/
  | missingIterations
  /-- The iteration count is zero. -/
  | zeroIterations
  /-- The iteration count is above the limit. -/
  | tooManyIterations (count : Nat)
  /-- The last server string has no signature. -/
  | missingVerifier
  /-- The signature is not base 64. -/
  | signatureEncoding
  /-- The server claims success without having sent its signature. -/
  | noServerSignature
  deriving DecidableEq, Repr

/-- The wording of a malformation. -/
def Malformation.message : Malformation → String
  | .saltEncoding => "invalid salt base64"
  | .iterationSyntax => "invalid iteration count"
  | .mandatoryExtension => "unsupported mandatory extension"
  | .missingNonce => "missing nonce"
  | .missingSalt => "missing salt"
  | .missingIterations => "missing iteration count"
  | .zeroIterations => "iteration count must be positive"
  | .tooManyIterations count => s!"iteration count {count} exceeds {maxIterations}"
  | .missingVerifier => "missing verifier"
  | .signatureEncoding => "invalid signature base64"
  | .noServerSignature => "authentication completed without a server signature"

/-- Why authentication failed. -/
inductive AuthError where
  /-- The server wants a proof, and no password is configured. -/
  | missingPassword
  /-- The server sent a request that is not valid at this point. -/
  | unexpectedStatus (status : UInt32)
  /-- A server string has the wrong form. -/
  | malformed (reason : Malformation)
  /-- The server's nonce is not a longer form of the client's. -/
  | nonceMismatch
  /-- The server reports an error inside the exchange. -/
  | rejected (reason : String)
  /-- The server's signature is wrong: it does not know the password. -/
  | verificationFailed
  /-- The exchange is over already. -/
  | finished
  deriving DecidableEq, Repr

/-- The wording of an authentication error. -/
def AuthError.message : AuthError → String
  | .missingPassword => "password required for SCRAM-SHA-256 authentication"
  | .unexpectedStatus status =>
    let code := Text.hex status.toNat
    s!"unexpected authentication status: 0x{code}"
  | .malformed reason => "malformed SCRAM server message: " ++ reason.message
  | .nonceMismatch => "server nonce doesn't contain client nonce"
  | .rejected reason => "server rejected authentication: " ++ reason
  | .verificationFailed => "server signature verification failed"
  | .finished => "SCRAM conversation already finished"

end EdgeClient
