/-!
# Names that a certificate can be for

A certificate is for a name in the domain name system or for an address. A name is made of labels
with dots between them; a label has up to 63 letters, digits, hyphens and underscores with no hyphen
at either end, and the last one is not a number.
-/

namespace EdgeClient.Tls

/-- Whether a text is a label of a domain name. -/
def isLabel (label : List Char) : Bool :=
  !label.isEmpty && label.length ≤ 63
    && label.all (fun c => c.isAlphanum || c == '-' || c == '_')
    && label.head? != some '-' && label.getLast? != some '-'

/-- Whether a text is a domain name. A dot at its end is allowed. -/
def isDomainName (name : String) : Bool :=
  let labels := (name.splitOn ".").map String.toList
  let labels := if labels.getLast? == some [] then labels.dropLast else labels
  name.length ≤ 253 && !labels.isEmpty && labels.all isLabel
    && !(labels.getLast?.getD []).all Char.isDigit

/-- Whether a text is a number from 0 to 255 in decimal without leading zeros. -/
def isOctet (text : String) : Bool :=
  match text.toNat? with
  | some n => n ≤ 255 && toString n == text
  | none => false

/-- Whether a text is an address of four numbers. -/
def isAddress4 (name : String) : Bool :=
  let numbers := name.splitOn "."
  numbers.length == 4 && numbers.all isOctet

/-- Whether a text looks like an address of eight groups: hexadecimal digits, colons and dots. -/
def isAddress6 (name : String) : Bool :=
  let cs := name.toList
  cs.contains ':' && cs.all fun c =>
    c.isDigit || ('a' ≤ c && c ≤ 'f') || ('A' ≤ c && c ≤ 'F') || c == ':' || c == '.'

/-- Whether a certificate can be for a host. -/
def isServerName (host : String) : Bool :=
  isDomainName host || isAddress4 host || isAddress6 host

end EdgeClient.Tls
