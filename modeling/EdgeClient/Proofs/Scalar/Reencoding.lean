import EdgeClient.Proofs.Scalar.Form
import EdgeClient.Proofs.Wire.Consumption

/-!
# Writing what was read

A value that was read is written again as the bytes it was read from. Truth is the exception: any
byte but zero is read as true, and true is written as one. The types, the widths that are laid down
for them, the reads and the writes are four tables, and all of them have to agree for this
(`ScalarType.restores_decode`).
-/

namespace EdgeClient

namespace ScalarType

/-- What is written for the bytes that a value was read from. -/
def canonical : ScalarType → Bytes → Bytes
  | .bool, bs => bs.map fun byte => if byte = 0 then 0 else 1
  | _, bs => bs

/-- What becomes of a value that was read from the front of a window. -/
structure Restores (t : ScalarType) (value : Scalar) (window consumed rest : Bytes) : Prop where
  window_eq : window = consumed ++ rest
  type_eq : value.type = t
  /-- Any writer gets the bytes back at its end, and is left alone otherwise. -/
  encode_eq : ∀ w : Writer, t.encode value w = .ok () (w.append (t.canonical consumed))
  length_eq : consumed.length = t.width.sizeIn window
  /-- Nothing behind these bytes is needed. -/
  decode_consumed : t.decode consumed = .ok value []
  /-- Nothing behind the window is looked at. -/
  decode_append : ∀ more, t.decode (window ++ more) = .ok value (rest ++ more)

end ScalarType

namespace Scalar

variable {value : Scalar} {bs : Bytes}

/-- Only a text or a byte string whose length fits in its field has a form. -/
theorem fits_of_form (h : value.form bs) : value.Fits := by
  cases value with
  | str text => exact h.1
  | bytes content => exact h.1
  | _ => exact trivial

theorem toBytes_of_form (h : value.form bs) : value.toBytes = value.type.canonical bs := by
  cases value with
  | str text => exact h.2.symm
  | bytes content => exact h.2.symm
  | bool b =>
    obtain ⟨byte, rfl, rfl⟩ := h
    by_cases hzero : byte = 0
    · subst hzero
      decide
    · have htrue : (byte != 0) = true := bne_iff_ne.mpr hzero
      show BigEndian.encode 1 (byte != 0).toNat = [if byte = 0 then 0 else 1]
      rw [htrue, if_neg hzero]
      decide
  | _ => exact Eq.symm h

end Scalar

namespace ScalarType

variable {t : ScalarType} {value : Scalar} {window consumed rest : Bytes}

/-- A value that was read has a form, so it is not too long to be written. -/
theorem encode_of_form (h : value.form consumed) (w : Writer) :
    value.type.encode value w = .ok () (w.append (value.type.canonical consumed)) := by
  have hwrite : value.write w = .ok () (w.append value.toBytes) :=
    (value.writes_write w).elim And.right fun hn => absurd (Scalar.fits_of_form h) hn.1
  rw [encode_type, EStateM.adaptExcept, hwrite, Scalar.toBytes_of_form h]

/-- What a read leaves is what stands behind the width of its type. -/
theorem length_consumed (h : t.decode (consumed ++ rest) = .ok value rest) :
    consumed.length = t.width.sizeIn (consumed ++ rest) := by
  cases Read.Call.metered_scalar t (consumed ++ rest) with
  | short _ hx => exact absurd (hx.symm.trans h) (by simp)
  | illegible _ _ hx => exact absurd (hx.symm.trans h) (by simp)
  | taken a hsize _ hx =>
    -- the width is what the window has lost, and these are the bytes in front of the rest
    obtain ⟨-, hdrop⟩ := EStateM.Result.ok.inj (hx.symm.trans h)
    have hlen := congrArg List.length hdrop
    rw [List.length_drop, List.length_append] at hlen
    rw [List.length_append] at hsize
    show consumed.length = Read.Call.needs (.scalar t) (consumed ++ rest)
    have htakes : Read.Call.takes (.scalar t) (consumed ++ rest) =
      Read.Call.needs (.scalar t) (consumed ++ rest) := rfl
    omega

/-- Reading a value takes bytes off the front of the window that make up the whole of the value: it
is written as them again, they are as many as its type says, and no others were looked at. -/
theorem restores_decode (h : t.decode window = .ok value rest) :
    ∃ consumed, t.Restores value window consumed rest := by
  obtain ⟨consumed, ⟨rfl, hform⟩, rfl⟩ := (reads_decode t _ _ _).mp h
  have hreads : ∀ after, value.type.decode (consumed ++ after) = .ok value after := fun after =>
    (reads_decode value.type _ _ _).mpr ⟨consumed, ⟨rfl, hform⟩, rfl⟩
  refine ⟨consumed, rfl, rfl, encode_of_form hform, length_consumed h, ?_, fun more => ?_⟩
  · have hend := hreads []
    rwa [List.append_nil] at hend
  · rw [List.append_assoc]
    exact hreads (rest ++ more)

theorem restores_decode_seven :
    ScalarType.bool.decode [7, 9] = .ok (.bool true) [9] ∧
      ∃ consumed, ScalarType.bool.Restores (.bool true) [7, 9] consumed [9] := by
  have hread : ScalarType.bool.decode [7, 9] = .ok (.bool true) [9] := rfl
  exact ⟨hread, restores_decode hread⟩

end ScalarType

end EdgeClient
