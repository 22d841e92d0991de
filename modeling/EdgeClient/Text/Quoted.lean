import EdgeClient.Text.Hex
import EdgeClient.Text.Invisible

/-!
# Quoted text

Text inside messages is put in double quotes so that its ends and its odd characters can be seen.
Quotes and backslashes are escaped, common controls have short escapes, and every other invisible
character is given by its code point. Single quotes stand as they are.
-/

namespace EdgeClient.Text

/-- One character as it stands inside the quotes. -/
def quotedChar (c : Char) : String :=
  match c with
  | '"' => "\\\""
  | '\\' => "\\\\"
  | '\n' => "\\n"
  | '\r' => "\\r"
  | '\t' => "\\t"
  | '\x00' => "\\0"
  | c =>
    if isInvisible c then
      let code := hex c.toNat
      s!"\\u\x7b{code}\x7d"
    else
      c.toString

/-- A text in double quotes. -/
def quoted (s : String) : String :=
  "\"" ++ String.join (s.toList.map quotedChar) ++ "\""

end EdgeClient.Text
