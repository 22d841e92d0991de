/-!
# Styled text

A terminal shows text in a style once it has been told so by an escape sequence, until another
sequence resets it. Styled text stands between the two. A reset in the text itself would end the
style too early, so the style is turned on again behind it.
-/

namespace EdgeClient.Text

/-- A way to show text. -/
structure Style where
  /-- The numbers that turn it on, in the order in which they are given. -/
  codes : List Nat
  deriving DecidableEq, Repr

namespace Style

/-- Faint. -/
def dimmed : Style := ⟨[2]⟩
/-- Bold, and red. -/
def boldRed : Style := ⟨[1, 31]⟩
/-- Green. -/
def green : Style := ⟨[32]⟩
/-- Yellow. -/
def yellow : Style := ⟨[33]⟩
/-- Cyan. -/
def cyan : Style := ⟨[36]⟩

/-- The sequence that ends all styles. -/
def reset : List Char := "\x1b[0m".toList

/-- The sequence that turns a style on. -/
def turnOn (style : Style) : List Char :=
  ("\x1b[" ++ ";".intercalate (style.codes.map toString) ++ "m").toList

/-- A text in which `on` follows every reset. -/
def resume (on : List Char) : List Char → List Char
  | '\x1b' :: '[' :: '0' :: 'm' :: rest => reset ++ on ++ resume on rest
  | c :: rest => c :: resume on rest
  | [] => []

/-- A text in a style. -/
def apply (style : Style) (text : String) : String :=
  let on := style.turnOn
  String.ofList (on ++ resume on text.toList ++ reset)

/-- A text in a style, or as it is where styles are not wanted. -/
def applyIf (style : Style) (styled : Bool) (text : String) : String :=
  if styled then style.apply text else text

/-- Text without a reset in it is not changed between the two sequences. -/
theorem resume_eq_self {on text : List Char} (h : '\x1b' ∉ text) : resume on text = text := by
  fun_induction resume on text with
  | case1 => simp at h
  | case2 c rest _ ih => rw [ih fun hm => h (List.mem_cons_of_mem _ hm)]
  | case3 => rfl

end Style

end EdgeClient.Text
