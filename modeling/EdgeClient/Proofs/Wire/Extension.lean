import EdgeClient.Proofs.Wire.Layouts

/-!
# Bytes behind a window

A read that has come to an answer, or to an error other than that of a short window, has seen all it
wants to see: bytes that come in behind the window change nothing, and are left as they are
(`Read.Stands`). This passes from reads to those that are made of them, loops included. It makes
what is read self-delimiting: where a window is used up, each shorter one runs out of bytes.
-/

namespace EdgeClient

/-- Whether an error says that the window was too short. -/
def WireError.IsUnderrun (e : WireError) : Prop :=
  ∃ needed remaining, e = .underrun needed remaining

namespace Read

variable {α β : Type} {x : Read α} {f : α → Read β} {window : Bytes}

/-- Whether what a read comes to on a window stands when bytes come in behind it. Only a read that
ran out of bytes may come to something else. -/
structure Stands (x : Read α) (window : Bytes) : Prop where
  ok : ∀ {a rest}, x window = .ok a rest → ∀ more, x (window ++ more) = .ok a (rest ++ more)
  error : ∀ {e rest}, x window = .error e rest →
    e.IsUnderrun ∨ ∀ more, x (window ++ more) = .error e (rest ++ more)

theorem stands_pure (a : α) (window : Bytes) : Stands (pure a) window where
  ok h more := by
    obtain ⟨rfl, rfl⟩ := EStateM.Result.ok.inj h
    rfl
  error h := nomatch h

theorem stands_throw (e : WireError) (window : Bytes) : Stands (throw e : Read α) window where
  ok h := nomatch h
  error h := by
    obtain ⟨rfl, rfl⟩ := EStateM.Result.error.inj h
    exact Or.inr fun more => rfl

/-- What stands first goes on with the bytes that it left, to which the same bytes come in. -/
theorem Stands.bind (hx : x.Stands window)
    (hf : ∀ a rest, x window = .ok a rest → (f a).Stands rest) : (x >>= f).Stands window := by
  cases hxw : x window with
  | error e left =>
    have hbind : (x >>= f) window = .error e left := bind_of_error hxw
    refine ⟨fun h => absurd (hbind.symm.trans h) (by simp), fun h => ?_⟩
    obtain ⟨rfl, rfl⟩ := EStateM.Result.error.inj (hbind.symm.trans h)
    rcases hx.error hxw with hunder | hmore
    · exact Or.inl hunder
    · exact Or.inr fun more => bind_of_error (hmore more)
  | ok a left =>
    have hbind : (x >>= f) window = f a left := bind_of_ok hxw
    have hbehind : ∀ more, (x >>= f) (window ++ more) = f a (left ++ more) := fun more =>
      bind_of_ok (hx.ok hxw more)
    have hfa := hf a left hxw
    refine ⟨fun h more => ?_, fun h => ?_⟩
    · rw [hbehind]
      exact hfa.ok (hbind.symm.trans h) more
    · rcases hfa.error (hbind.symm.trans h) with hunder | hmore
      · exact Or.inl hunder
      · exact Or.inr fun more => (hbehind more).trans (hmore more)

theorem Stands.map (hx : x.Stands window) (g : α → β) :
    Stands (x >>= fun a => pure (g a)) window :=
  hx.bind fun a rest _ => stands_pure (g a) rest

/-! ## Fields -/

theorem stands_slice (n : Nat) (window : Bytes) : (slice n).Stands window where
  ok h more := by
    obtain ⟨rfl, rfl⟩ := slice_ok h
    rw [List.append_assoc]
    exact slice_append _ _
  error h := by
    unfold slice at h
    split_ifs at h with hc
    obtain ⟨rfl, -⟩ := EStateM.Result.error.inj h
    exact Or.inl ⟨n, window.length, rfl⟩

theorem stands_word (width : Nat) (window : Bytes) : (word width).Stands window :=
  (stands_slice width window).map _

theorem stands_uint8 (window : Bytes) : uint8.Stands window := (stands_word 1 window).map _

theorem stands_uint16 (window : Bytes) : uint16.Stands window := (stands_word 2 window).map _

theorem stands_uint32 (window : Bytes) : uint32.Stands window := (stands_word 4 window).map _

theorem stands_peekUInt32 (window : Bytes) : peekUInt32.Stands window where
  ok h more := by
    obtain ⟨⟨rest, hwindow⟩, rfl⟩ := peekUInt32_iff.mp h
    refine peekUInt32_iff.mpr ⟨⟨rest ++ more, ?_⟩, rfl⟩
    rw [← List.append_assoc, ← hwindow]
  error h := by
    cases hread : uint32 window with
    | ok n rest =>
      have hpeek : peekUInt32 window = .ok n window := by rw [peekUInt32, hread]
      exact absurd (hpeek.symm.trans h) (by simp)
    | error e rest =>
      have hpeek : peekUInt32 window = .error e window := by rw [peekUInt32, hread]
      obtain ⟨rfl, rfl⟩ := EStateM.Result.error.inj (hpeek.symm.trans h)
      rcases (stands_uint32 window).error hread with hunder | hmore
      · exact Or.inl hunder
      · exact Or.inr fun more => by rw [peekUInt32, hmore]

theorem stands_bytesField (window : Bytes) : bytesField.Stands window :=
  (stands_peekUInt32 window).bind fun _ rest _ => (stands_slice _ rest).map _

theorem stands_stringField (window : Bytes) : stringField.Stands window := by
  refine (stands_bytesField window).bind fun bs rest _ => ?_
  cases bs.toString? with
  | some s => exact stands_pure s rest
  | none => exact stands_throw .invalidUtf8 rest

/-! ## Loops -/

theorem stands_repeatUnit {entry : Read Unit} (he : ∀ window, entry.Stands window) (count : Nat)
    (window : Bytes) : (repeatUnit entry count).Stands window := by
  induction count generalizing window with
  | zero => exact stands_pure () window
  | succ count ih => exact (he window).bind fun _ rest _ => ih rest

theorem stands_repeatOnto {entry : Read α} (he : ∀ window, entry.Stands window) (count : Nat)
    (read : List α) (window : Bytes) : (repeatOnto entry count read).Stands window := by
  induction count generalizing read window with
  | zero => exact stands_pure read.reverse window
  | succ count ih => exact (he window).bind fun a rest _ => ih (a :: read) rest

theorem stands_replicate {entry : Read α} (he : ∀ window, entry.Stands window) (count : Nat)
    (window : Bytes) : (replicate count entry).Stands window :=
  stands_repeatOnto he count [] window

/-! ## Windows that are used up -/

/-- Where a window is used up, a shorter one runs out of bytes: it cannot have been answered, for
then the rest of the window would have been left. -/
theorem Stands.underrun_of_cutOff {front : Bytes} {a : α} (hx : x.Stands front)
    (h : x window = .ok a []) (hfront : front <+: window) (hne : front ≠ window) :
    ∃ needed remaining left, x front = .error (.underrun needed remaining) left := by
  obtain ⟨back, rfl⟩ := hfront
  have hback : back ≠ [] := by
    rintro rfl
    exact hne (List.append_nil front).symm
  cases hread : x front with
  | ok a' rest =>
    have hleft := (EStateM.Result.ok.inj ((hx.ok hread back).symm.trans h)).2
    exact absurd (List.append_eq_nil_iff.mp hleft).2 hback
  | error e left =>
    rcases hx.error hread with ⟨needed, remaining, rfl⟩ | hmore
    · exact ⟨needed, remaining, left, rfl⟩
    · exact absurd ((hmore back).symm.trans h) (by simp)

end Read

end EdgeClient
