import EdgeClient.Proofs.Wire.Consumption
import EdgeClient.Proofs.Wire.Extension

/-!
# Rounds of a loop

A counted list is read by a loop, and how often the loop may go round is up to whoever wrote the
count. How often it does go round is up to the window. Every entry takes bytes, so there comes a
round that has too few of them, and that round is the last one (`Read.rounds_le`). A count that the
window has no room for has no say beyond that: the loop fails, and in the same way whatever the
count is (`Read.replicate_overcounted`).

A loop fails exactly where one of its entries does, behind whole ones
(`Read.replicate_eq_error_iff`), and for the reason that this entry has: there are too few bytes for
it, or a field in it is no text.
-/

namespace EdgeClient

/-- Values that each take a number of bytes take that many bytes each in a sequence. -/
theorem Layout.size_mul_length_le {α : Type} {entry : Layout α} {size : Nat} {values : List α}
    {form : Bytes} (hsize : ∀ a front, entry a front → size ≤ front.length)
    (h : entry.sequence values form) : size * values.length ≤ form.length := by
  induction values generalizing form with
  | nil => exact Nat.zero_le _
  | cons a values ih =>
    obtain ⟨front, back, hfront, hback, rfl⟩ := sequence_cons.mp h
    have ha := hsize a front hfront
    have hvalues := ih hback
    rw [List.length_cons, Nat.mul_succ, List.length_append]
    omega

namespace Read

variable {α β : Type} {x : Read α} {f : α → Read β}

/-! ## Why a read fails -/

/-- Whether a read fails for no other reason than that its window is too short. -/
def RunsOut (x : Read α) : Prop := ∀ window e rest, x window = .error e rest → e.IsUnderrun

theorem runsOut_pure (a : α) : RunsOut (pure a) := fun _ _ _ h => nomatch h

theorem RunsOut.bind (hx : x.RunsOut) (hf : ∀ a, (f a).RunsOut) : (x >>= f).RunsOut := by
  intro window e rest h
  rcases bind_error h with h | ⟨a, mid, -, h⟩
  · exact hx _ _ _ h
  · exact hf a _ _ _ h

theorem RunsOut.map (hx : x.RunsOut) (g : α → β) : RunsOut (x >>= fun a => pure (g a)) :=
  hx.bind fun a => runsOut_pure (g a)

theorem RunsOut.repeatUnit {entry : Read Unit} (h : entry.RunsOut) (count : Nat) :
    (repeatUnit entry count).RunsOut := by
  induction count with
  | zero => exact runsOut_pure ()
  | succ count ih => exact h.bind fun _ => ih

theorem runsOut_of_metered (h : ∀ window, ∃ size moved, Metered x window size moved True) :
    x.RunsOut := by
  intro window e rest hx
  obtain ⟨size, moved, hmetered⟩ := h window
  cases hmetered with
  | short _ hshort =>
    obtain ⟨rfl, -⟩ := EStateM.Result.error.inj (hshort.symm.trans hx)
    exact ⟨size, window.length, rfl⟩
  | taken a _ _ hok => exact absurd (hok.symm.trans hx) (by simp)
  | illegible _ hlegible _ => exact absurd trivial hlegible

theorem runsOut_uint16 : uint16.RunsOut :=
  (runsOut_of_metered fun window => ⟨2, 2, metered_word 2 window⟩).map _

theorem runsOut_bytesField : bytesField.RunsOut :=
  runsOut_of_metered fun window => ⟨_, _, metered_bytesField window⟩

/-- Whether bytes begin with a field that should hold a text and holds none. -/
def IsIllegible (window : Bytes) : Prop :=
  ∃ bs field rest, Layout.bytes bs field ∧ bs.toString? = none ∧ window = field ++ rest

theorem stringField_error {window left : Bytes} {e : WireError}
    (h : stringField window = .error e left) :
    e.IsUnderrun ∨ e = .invalidUtf8 ∧ IsIllegible window := by
  rcases bind_error h with h | ⟨bs, mid, hbytes, h⟩
  · exact Or.inl (runsOut_bytesField _ _ _ h)
  · -- the field is there, so it is what it holds
    cases htext : bs.toString? with
    | some s =>
      rw [htext] at h
      exact nomatch h
    | none =>
      rw [htext] at h
      obtain ⟨rfl, rfl⟩ := EStateM.Result.error.inj h
      obtain ⟨field, hfield, hwindow⟩ := (reads_bytesField _ _ _).mp hbytes
      exact Or.inr ⟨rfl, bs, field, mid, hfield, htext, hwindow⟩

theorem stringField_of_isIllegible {window : Bytes} (h : IsIllegible window) :
    ∃ left, stringField window = .error .invalidUtf8 left := by
  obtain ⟨bs, field, rest, hfield, hbs, rfl⟩ := h
  exact ⟨rest, stringField_of_noText (reads_bytesField.of_form hfield rest) hbs⟩

/-! ## Where a loop fails -/

section

variable {entry : Read α} {layout : Layout α} {count : Nat} {read : List α} {window rest : Bytes}

theorem repeatOnto_of_ok {a : α} (h : entry window = .ok a rest) :
    repeatOnto entry (count + 1) read window = repeatOnto entry count (a :: read) rest :=
  bind_of_ok h

theorem repeatOnto_of_error {e : WireError} (h : entry window = .error e rest) :
    repeatOnto entry (count + 1) read window = .error e rest :=
  bind_of_error h

/-- A loop whose entries have no value is the one that collects them, without what it collects. -/
theorem repeatUnit_eq_repeatOnto (entry : Read Unit) (count : Nat) (read : List Unit)
    (window : Bytes) :
    repeatUnit entry count window = (repeatOnto entry count read >>= fun _ => pure ()) window := by
  induction count generalizing read window with
  | zero => rfl
  | succ count ih =>
    cases hentry : entry window with
    | ok a rest =>
      have hunit : repeatUnit entry (count + 1) window = repeatUnit entry count rest :=
        bind_of_ok hentry
      rw [hunit, ih (a :: read), bind_of_eq _ (repeatOnto_of_ok hentry)]
    | error e rest =>
      have hunit : repeatUnit entry (count + 1) window = .error e rest := bind_of_error hentry
      rw [hunit, bind_of_error (repeatOnto_of_error hentry)]

/-- Whole entries at the front of a window are read one by one. -/
theorem repeatOnto_of_sequence (he : entry.Reads layout) {values : List α} {form : Bytes}
    (h : layout.sequence values form) (count : Nat) (read : List α) (rest : Bytes) :
    repeatOnto entry (count + values.length) read (form ++ rest) =
      repeatOnto entry count (values.reverse ++ read) rest := by
  induction values generalizing form read with
  | nil =>
    obtain rfl := Layout.sequence_nil.mp h
    rfl
  | cons a values ih =>
    obtain ⟨front, back, hfront, hback, rfl⟩ := Layout.sequence_cons.mp h
    have hentry := he.of_form hfront (back ++ rest)
    rw [List.length_cons, ← Nat.add_assoc, List.append_assoc, repeatOnto_of_ok hentry, ih hback,
      List.reverse_cons, List.append_assoc, List.singleton_append]

/-- A loop fails exactly where an entry does, behind fewer whole ones than it was to read. -/
theorem repeatOnto_eq_error_iff (he : entry.Reads layout) {e : WireError} {left : Bytes} :
    repeatOnto entry count read window = .error e left ↔
      ∃ values form rest, values.length < count ∧ layout.sequence values form ∧
        window = form ++ rest ∧ entry rest = .error e left := by
  constructor
  · intro h
    induction count generalizing read window with
    | zero => exact nomatch h
    | succ count ih =>
      cases hentry : entry window with
      | ok a rest =>
        obtain ⟨front, hfront, rfl⟩ := (he _ _ _).mp hentry
        rw [repeatOnto_of_ok hentry] at h
        obtain ⟨values, form, rest, hlen, hform, rfl, herror⟩ := ih h
        exact ⟨a :: values, front ++ form, rest, Nat.succ_lt_succ hlen,
          Layout.sequence_cons.mpr ⟨front, form, hfront, hform, rfl⟩,
          (List.append_assoc _ _ _).symm, herror⟩
      | error e' left' =>
        rw [repeatOnto_of_error hentry] at h
        obtain ⟨rfl, rfl⟩ := EStateM.Result.error.inj h
        exact ⟨[], [], window, Nat.succ_pos _, Layout.sequence_nil.mpr rfl, rfl, hentry⟩
  · rintro ⟨values, form, rest, hlen, hform, rfl, herror⟩
    obtain ⟨further, rfl⟩ := Nat.exists_eq_add_of_lt hlen
    rw [Nat.add_assoc, Nat.add_comm values.length, repeatOnto_of_sequence he hform]
    exact repeatOnto_of_error herror

theorem replicate_eq_error_iff (he : entry.Reads layout) {e : WireError} {left : Bytes} :
    replicate count entry window = .error e left ↔
      ∃ values form rest, values.length < count ∧ layout.sequence values form ∧
        window = form ++ rest ∧ entry rest = .error e left :=
  repeatOnto_eq_error_iff he

/-- A loop that has failed fails in the same way with more rounds to go. -/
theorem replicate_error_of_le (he : entry.Reads layout) {more : Nat} {e : WireError} {left : Bytes}
    (h : replicate count entry window = .error e left) (hle : count ≤ more) :
    replicate more entry window = .error e left := by
  obtain ⟨values, form, rest, hlen, hrest⟩ := (replicate_eq_error_iff he).mp h
  exact (replicate_eq_error_iff he).mpr ⟨values, form, rest, Nat.lt_of_lt_of_le hlen hle, hrest⟩

/-- A window without room for the entries fails every loop that is to read so many, and fails all of
them in one way. -/
theorem replicate_overcounted (he : entry.Reads layout) {size : Nat} (hpos : 0 < size)
    (hsize : ∀ a form, layout a form → size ≤ form.length) (window : Bytes) :
    ∃ e left, ∀ count, window.length / size < count →
      replicate count entry window = .error e left := by
  cases hread : replicate (window.length / size + 1) entry window with
  | ok values rest =>
    -- so many whole entries do not go into the window
    obtain ⟨form, ⟨hlen, hform⟩, rfl⟩ := (reads_replicate he _ _ _ _).mp hread
    have hroom := Layout.size_mul_length_le hsize hform
    have hfull := Nat.lt_mul_div_succ (form ++ rest).length hpos
    rw [hlen] at hroom
    rw [List.length_append] at hroom hfull
    omega
  | error e left => exact ⟨e, left, fun count hcount => replicate_error_of_le he hread hcount⟩

end

/-! ## Rounds -/

/-- How many rounds a loop makes on a window: it runs `entry` the given number of times, and stops
with the first failure. -/
def rounds (entry : Read α) : (count : Nat) → (window : Bytes) → Nat
  | 0, _ => 0
  | count + 1, window =>
    match entry window with
    | .ok _ rest => rounds entry count rest + 1
    | .error _ _ => 1

section

variable {entry : Read α} {layout : Layout α} {window rest : Bytes}

theorem rounds_of_ok {count : Nat} {a : α} (h : entry window = .ok a rest) :
    rounds entry (count + 1) window = rounds entry count rest + 1 := by
  rw [rounds, h]

theorem rounds_of_error {count : Nat} {e : WireError} (h : entry window = .error e rest) :
    rounds entry (count + 1) window = 1 := by
  rw [rounds, h]

/-- A loop comes to the same as one that is told to make as many rounds as it makes. -/
theorem repeatOnto_rounds (entry : Read α) (count : Nat) (read : List α) (window : Bytes) :
    repeatOnto entry (rounds entry count window) read window =
      repeatOnto entry count read window := by
  induction count generalizing read window with
  | zero => rfl
  | succ count ih =>
    cases hentry : entry window with
    | ok a rest => rw [rounds_of_ok hentry, repeatOnto_of_ok hentry, repeatOnto_of_ok hentry, ih]
    | error e rest =>
      rw [rounds_of_error hentry, repeatOnto_of_error hentry, repeatOnto_of_error hentry]

/-- All rounds of a loop but the last one succeed. -/
theorem repeatOnto_of_lt_rounds {count fewer : Nat} (read : List α)
    (h : fewer < rounds entry count window) :
    ∃ values rest, repeatOnto entry fewer read window = .ok values rest := by
  induction count generalizing fewer read window with
  | zero => exact absurd h (Nat.not_lt_zero _)
  | succ count ih =>
    cases fewer with
    | zero => exact ⟨read.reverse, window, rfl⟩
    | succ fewer =>
      cases hentry : entry window with
      | ok a rest =>
        rw [rounds_of_ok hentry] at h
        rw [repeatOnto_of_ok hentry]
        exact ih (a :: read) (Nat.lt_of_succ_lt_succ h)
      | error e rest =>
        rw [rounds_of_error hentry] at h
        exact absurd h (by omega)

/-- A loop makes at most one round more than the window has room for entries. -/
theorem rounds_le (he : entry.Reads layout) {size : Nat} (hpos : 0 < size)
    (hsize : ∀ a form, layout a form → size ≤ form.length) (count : Nat) (window : Bytes) :
    rounds entry count window ≤ window.length / size + 1 := by
  induction count generalizing window with
  | zero => exact Nat.zero_le _
  | succ count ih =>
    cases hentry : entry window with
    | ok a rest =>
      obtain ⟨form, hform, rfl⟩ := (he _ _ _).mp hentry
      have hfront := hsize a form hform
      have hroom : rest.length + size ≤ (form ++ rest).length := by
        rw [List.length_append]
        omega
      rw [rounds_of_ok hentry]
      calc rounds entry count rest + 1 ≤ rest.length / size + 1 + 1 := Nat.succ_le_succ (ih rest)
        _ = (rest.length + size) / size + 1 := by rw [Nat.add_div_right _ hpos]
        _ ≤ (form ++ rest).length / size + 1 := Nat.succ_le_succ (Nat.div_le_div_right hroom)
    | error e rest =>
      rw [rounds_of_error hentry]
      exact Nat.le_add_left _ _

end

end Read

end EdgeClient
