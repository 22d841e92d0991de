import EdgeClient.Text.Base64
import EdgeClient.Tls.Error

/-!
# Certificates to trust

Certificates come as text: base 64 between a line that begins a section and one that ends it, the
kind of section being named in both (RFC 7468). Lines between sections are skipped, and so are
sections of unknown kinds, but every section has to be ended, and one of a known kind has to hold
base 64. A section that begins inside another one takes its place and what was in it. Of a
certificate itself only the outermost layer is looked at: it has to be one sequence, and nothing may
follow it.
-/

namespace EdgeClient.Tls

/-- The text that begins a section. -/
def beginMark : List Char := "-----BEGIN ".toList

/-- The text that ends a section of the given kind. -/
def endMark (kind : List Char) : List Char := "-----END ".toList ++ kind ++ "-----".toList

/-- The kind of section whose certificates are trusted. -/
def certificateKind : List Char := "CERTIFICATE".toList

/-- The kinds of sections whose content has to be base 64. -/
def knownKinds : List (List Char) :=
  certificateKind :: ["CERTIFICATE REQUEST", "X509 CRL", "PUBLIC KEY", "PRIVATE KEY",
    "RSA PRIVATE KEY", "EC PRIVATE KEY", "ECHCONFIG"].map String.toList

/-- Whether a character ends a line. -/
def isLineEnd (c : Char) : Bool := c == '\n' || c == '\r'

/-- Whether a character is white space inside a section. -/
def isBlank (c : Char) : Bool := c == ' ' || ('\t' ≤ c && c ≤ '\r')

/-- The kind of the section that a line begins; the line has to close with five dashes, which may
have spaces around them. -/
def kindOf? (line : List Char) : Option (List Char) :=
  let closing := line.reverse.takeWhile fun c => c == '-' || c == ' '
  if closing.count '-' = 5 then
    let size := line.length - (closing.reverse.dropWhile (· != '-')).length
    some ((line.take size).drop beginMark.length)
  else
    none

/-- The certificates in a text, given its lines, the kind of the section that is open and the lines
in it, latest first. -/
def readLines : (opened : Option (List Char)) → (content lines : List (List Char)) →
    Except TlsError (List Bytes)
  | none, _, [] => .ok []
  | some _, _, [] => .error (.invalidCertificate "section has no end")
  | opened, content, line :: rest =>
    if beginMark.isPrefixOf line then
      match kindOf? line with
      | some kind => readLines (some kind) content rest
      | none => .error (.invalidCertificate "section has no proper beginning")
    else
      match opened with
      | none => readLines none content rest
      | some kind =>
        if (endMark kind).isPrefixOf line then
          if knownKinds.contains kind then
            match Base64.decode (content.reverse.flatten.filter fun c => !isBlank c) with
            | none => .error (.invalidCertificate "section is not base 64")
            | some der => do
              let later ← readLines none [] rest
              return if kind = certificateKind then der :: later else later
          else
            readLines none [] rest
        else
          readLines (some kind) (line :: content) rest

/-- The size of a sequence's content and the bytes after its length field, if its length is well
formed. -/
def lengthOf? : Bytes → Option (Nat × Bytes)
  | first :: rest =>
    if first < 0x80 then
      some (first.toNat, rest)
    else
      let count := first.toNat - 0x80
      if 1 ≤ count ∧ count ≤ 4 ∧ count ≤ rest.length then
        some ((rest.take count).foldl (fun n b => 256 * n + b.toNat) 0, rest.drop count)
      else
        none
  | [] => none

/-- Whether bytes are one sequence and nothing else. -/
def isSequence : Bytes → Bool
  | 0x30 :: rest =>
    match lengthOf? rest with
    | some (size, content) => content.length == size
    | none => false
  | _ => false

/-- The certificates in the text that settings give. -/
def readAuthorities (text : Bytes) : Except TlsError (List Bytes) := do
  let chars := text.map fun b => Char.ofNat b.toNat
  let certificates ← readLines none [] (chars.splitOnP isLineEnd)
  if certificates.all isSequence then
    return certificates
  else
    throw (.invalidCertificate "not a certificate")

end EdgeClient.Tls
