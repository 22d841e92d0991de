import EdgeClient.Wire.Reader

/-!
# Errors reported by the server

A server that refuses something says how serious it is, gives a code and a text, and adds
attributes: byte strings under numeric keys, of which two have a meaning here.
-/

namespace EdgeClient

/-- How serious a reported error is. -/
inductive Severity where
  /-- The command failed. -/
  | error
  /-- The connection is lost. -/
  | fatal
  /-- The server is going down. -/
  | panic
  /-- A code that has no name. -/
  | other (code : UInt8)
  deriving DecidableEq, Repr

namespace Severity

/-- The severity with the given code. -/
def ofByte (code : UInt8) : Severity :=
  if code = 120 then .error
  else if code = 200 then .fatal
  else if code = 255 then .panic
  else .other code

/-- The text of a severity. -/
def toText : Severity → String
  | .error => "ERROR"
  | .fatal => "FATAL"
  | .panic => "PANIC"
  | .other code => s!"SEVERITY({code})"

/-- The name of a severity's case. -/
def caseName : Severity → String
  | .error => "Error"
  | .fatal => "Fatal"
  | .panic => "Panic"
  | .other code => s!"Other({code})"

end Severity

/-- Byte strings under numeric keys, by ascending key and with no key twice. -/
abbrev Attributes := List (UInt16 × Bytes)

namespace Attributes

/-- Sets the value under a key, in place of one that was there. -/
def insert (key : UInt16) (value : Bytes) : Attributes → Attributes
  | [] => [(key, value)]
  | (k, v) :: rest =>
    if key < k then (key, value) :: (k, v) :: rest
    else if key = k then (key, value) :: rest
    else (k, v) :: insert key value rest

/-- The attributes that a list of settings leaves: for each key the last value. -/
def ofList (settings : List (UInt16 × Bytes)) : Attributes :=
  settings.foldl (fun attributes (key, value) => attributes.insert key value) []

/-- The value under a key. -/
def get? (attributes : Attributes) (key : UInt16) : Option Bytes :=
  attributes.lookup key

end Attributes

/-- An error as the server reports it. -/
structure ServerError where
  /-- How serious it is. -/
  severity : Severity
  /-- The number of the kind of error. -/
  code : UInt32
  /-- What went wrong. -/
  text : String
  /-- Further information. -/
  attributes : Attributes
  deriving DecidableEq, Repr

namespace ServerError

/-- The key of the attribute that says what to do about the error. -/
def hintKey : UInt16 := 1

/-- The key of the attribute that says more about the error. -/
def detailsKey : UInt16 := 2

/-- An attribute that is well-formed text. -/
def textAttribute (e : ServerError) (key : UInt16) : Option String := do
  let bs ← e.attributes.get? key
  bs.toString?

/-- What to do about the error. -/
def hint (e : ServerError) : Option String := e.textAttribute hintKey

/-- More about the error. -/
def details (e : ServerError) : Option String := e.textAttribute detailsKey

/-- The wording of the error: severity, code, text and hint. -/
def message (e : ServerError) : String :=
  let severity := e.severity.toText
  let code := Text.paddedHex 8 e.code.toNat
  let text := e.text
  let hint := match e.hint with
    | some hint => s!" (hint: {hint})"
    | none => ""
  s!"{severity} 0x{code}: {text}{hint}"

/-- Reads one attribute. -/
def readAttribute : Read (UInt16 × Bytes) := do
  let key ← Read.uint16
  let value ← Read.bytesField
  return (key, value)

/-- Reads an error from the front of a payload. -/
def read : Read ServerError := do
  let severity ← Read.uint8
  let code ← Read.uint32
  let text ← Read.stringField
  let count ← Read.uint16
  let settings ← Read.replicate count.toNat readAttribute
  return ⟨Severity.ofByte severity, code, text, Attributes.ofList settings⟩

end ServerError

end EdgeClient
