import EdgeClient.Proofs.BigEndian
import EdgeClient.Wire.Reader
import EdgeClient.Wire.Writer
import Mathlib.Tactic.SplitIfs

/-!
# Fields

A byte string travels behind a field with its length, and a text as the bytes of its UTF-8 form.
Every field is read by slices of the window, and reads follow each other by `bind`: the laws of
these two are all that is needed to say what a read does.
-/

namespace EdgeClient

namespace Bytes

/-- A byte string as a field: its length, then its bytes. -/
def field (bs : Bytes) : Bytes := BigEndian.encode lengthFieldSize bs.length ++ bs

/-- A text as a field. -/
def textField (s : String) : Bytes := (ofString s).field

theorem length_field (bs : Bytes) : (field bs).length = lengthFieldSize + bs.length := by
  rw [field, List.length_append, BigEndian.length_encode]

theorem length_textField (s : String) :
    (textField s).length = lengthFieldSize + (ofString s).length :=
  length_field _

/-- The UTF-8 form of a text that was read is what it was read from. -/
theorem ofString_of_toString? {bs : Bytes} {s : String} (h : bs.toString? = some s) :
    Bytes.ofString s = bs := by
  unfold Bytes.toString? String.fromUTF8? at h
  split_ifs at h with hv
  obtain rfl := Option.some.inj h
  simp [Bytes.ofString, String.fromUTF8]

end Bytes

namespace Read

variable {α β : Type} {window rest : Bytes}

/-- A read that is made of two succeeds when both do, one after the other. -/
theorem bind_ok {x : Read α} {f : α → Read β} {b : β} (h : (x >>= f) window = .ok b rest) :
    ∃ a mid, x window = .ok a mid ∧ f a mid = .ok b rest := by
  have h' : EStateM.bind x f window = .ok b rest := h
  unfold EStateM.bind at h'
  split at h'
  · rename_i a mid hx
    exact ⟨a, mid, hx, h'⟩
  · exact absurd h' (by simp)

/-- A read that is made of two goes on where the first one stopped. -/
theorem bind_of_ok {x : Read α} {f : α → Read β} {a : α} (h : x window = .ok a rest) :
    (x >>= f) window = f a rest := by
  show EStateM.bind x f window = _
  rw [EStateM.bind, h]

theorem bind_of_error {x : Read α} {f : α → Read β} {e : WireError} (h : x window = .error e rest) :
    (x >>= f) window = .error e rest := by
  show EStateM.bind x f window = _
  rw [EStateM.bind, h]

/-- A read that is made of two fails when the first one does, or the second one after it. -/
theorem bind_error {x : Read α} {f : α → Read β} {e : WireError}
    (h : (x >>= f) window = .error e rest) :
    x window = .error e rest ∨ ∃ a mid, x window = .ok a mid ∧ f a mid = .error e rest := by
  cases hx : x window with
  | ok a mid => exact Or.inr ⟨a, mid, rfl, (bind_of_ok hx).symm.trans h⟩
  | error e' left =>
    obtain ⟨rfl, rfl⟩ := EStateM.Result.error.inj ((bind_of_error (f := f) hx).symm.trans h)
    exact Or.inl rfl

/-- A read that is made of two depends on what the first one comes to, and on nothing else. -/
theorem bind_of_eq {x y : Read α} {other : Bytes} (f : α → Read β) (h : x window = y other) :
    (x >>= f) window = (y >>= f) other := by
  show EStateM.bind x f window = EStateM.bind y f other
  rw [EStateM.bind, EStateM.bind, h]

theorem slice_of_le {n : Nat} (h : n ≤ window.length) :
    slice n window = .ok (window.take n) (window.drop n) := by
  rw [slice, if_pos (Bytes.covers_iff.mpr h)]

theorem slice_of_lt {n : Nat} (h : window.length < n) :
    slice n window = .error (.underrun n window.length) window := by
  rw [slice, if_neg fun hc => absurd (Bytes.covers_iff.mp hc) (Nat.not_le.mpr h)]

theorem slice_ok {n : Nat} {bs : Bytes} (h : slice n window = .ok bs rest) :
    window = bs ++ rest ∧ bs.length = n := by
  unfold slice at h
  split_ifs at h with hc
  obtain ⟨rfl, rfl⟩ := EStateM.Result.ok.inj h
  exact ⟨(List.take_append_drop n window).symm, List.length_take_of_le (Bytes.covers_iff.mp hc)⟩

theorem slice_append (bs rest : Bytes) : slice bs.length (bs ++ rest) = .ok bs rest := by
  have hc : Bytes.covers bs.length (bs ++ rest) = true := by
    rw [Bytes.covers_iff, List.length_append]
    exact Nat.le_add_right _ _
  rw [slice, if_pos hc, List.take_left, List.drop_left]

end Read

end EdgeClient
