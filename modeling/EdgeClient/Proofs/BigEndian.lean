import EdgeClient.BigEndian
import Mathlib.Algebra.Group.Nat.Defs
import Mathlib.Data.List.Induction

/-!
# Bytes and the numbers they stand for

The other half of the law in `EdgeClient.BigEndian`: bytes are the ones that their number is
written with, so numbers of a width and byte strings of that length are the same thing.
-/

namespace EdgeClient.BigEndian

theorem encode_decode {width : Nat} {bs : Bytes} (h : bs.length = width) :
    encode width (decode bs) = bs := by
  induction width generalizing bs with
  | zero => rw [List.length_eq_zero_iff.mp h, encode]
  | succ width ih =>
    rcases List.eq_nil_or_concat bs with rfl | ⟨front, b, rfl⟩
    · exact absurd h (by simp)
    · rw [List.concat_eq_append] at h ⊢
      have hb := b.toNat_lt
      have hfront : front.length = width := by simpa using h
      have hdiv : (256 * decode front + b.toNat) / 256 = decode front := by omega
      have hmod : UInt8.ofNat (256 * decode front + b.toNat) = b := by
        apply UInt8.toNat_inj.mp
        rw [UInt8.toNat_ofNat']
        omega
      rw [decode_append_singleton, encode, hdiv, ih hfront, hmod]

theorem encode_byte (b : UInt8) : encode 1 b.toNat = [b] := by
  simp [encode]

theorem decode_lt (bs : Bytes) : decode bs < limit bs.length := by
  induction bs using List.reverseRecOn with
  | nil => decide
  | append_singleton front b ih =>
    have hb := b.toNat_lt
    rw [decode_append_singleton, List.length_append, List.length_singleton, limit]
    omega

end EdgeClient.BigEndian
