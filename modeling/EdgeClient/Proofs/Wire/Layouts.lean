import EdgeClient.Proofs.Wire.Fields
import Mathlib.Data.List.Forall2

/-!
# Layouts

A layout says which bytes are a form of a value. Where a read drops a part of what it reads, a value
has several forms. A read has a layout when it succeeds exactly on the windows that start with a
form, answers with the value of that form and leaves what follows it (`Read.Reads`). Such reads
compose as they stand after each other, which gives the layout of everything that is read by fields
and counted lists.
-/

namespace EdgeClient

/-- Which bytes are a form of a value. -/
abbrev Layout (α : Type) := α → Bytes → Prop

namespace Layout

variable {α β : Type}

/-- A byte string behind its length. -/
def bytes : Layout Bytes := fun bs form => bs.length < 2 ^ 32 ∧ form = bs.field

/-- A text as the byte string of its UTF-8 form. -/
def text : Layout String := fun s form => bytes (Bytes.ofString s) form

/-- A byte string under a number, as headers and attributes are. -/
def keyed : Layout (UInt16 × Bytes) := fun (key, value) form =>
  ∃ field, bytes value field ∧ form = BigEndian.encode 2 key.toNat ++ field

/-- Values that stand one after the other. -/
def sequence (entry : Layout α) : Layout (List α) := fun values form =>
  ∃ forms, List.Forall₂ entry values forms ∧ form = forms.flatten

/-- Values that stand one after the other, behind their number. -/
def counted (width : Nat) (entry : Layout α) : Layout (List α) := fun values form =>
  values.length < BigEndian.limit width ∧
    ∃ body, sequence entry values body ∧ form = BigEndian.encode width values.length ++ body

/-- The forms of any value, when the value is dropped. -/
def dropped (layout : Layout α) : Layout Unit := fun _ form => ∃ a, layout a form

theorem sequence_nil {entry : Layout α} {form : Bytes} : sequence entry [] form ↔ form = [] := by
  simp [sequence]

theorem sequence_cons {entry : Layout α} {a : α} {as : List α} {form : Bytes} :
    sequence entry (a :: as) form ↔
      ∃ front back, entry a front ∧ sequence entry as back ∧ form = front ++ back := by
  constructor
  · rintro ⟨forms, hforms, rfl⟩
    obtain ⟨front, tail, hfront, htail, rfl⟩ := List.forall₂_cons_left_iff.mp hforms
    exact ⟨front, tail.flatten, hfront, ⟨tail, htail, rfl⟩, rfl⟩
  · rintro ⟨front, _, hfront, ⟨tail, htail, rfl⟩, rfl⟩
    exact ⟨front :: tail, List.Forall₂.cons hfront htail, rfl⟩

theorem bytes_field {bs form : Bytes} (h : bytes bs form) : bytes bs bs.field := ⟨h.1, rfl⟩

theorem text_textField {s : String} {form : Bytes} (h : text s form) : text s (Bytes.textField s) :=
  ⟨h.1, rfl⟩

/-- What stands in a sequence has a form. -/
theorem exists_form_of_mem {entry : Layout α} {as : List α} {form : Bytes} {a : α}
    (h : sequence entry as form) (ha : a ∈ as) : ∃ front, entry a front := by
  induction as generalizing form with
  | nil => exact absurd ha (by simp)
  | cons b as ih =>
    obtain ⟨front, back, hfront, hback, -⟩ := sequence_cons.mp h
    rcases List.mem_cons.mp ha with rfl | ha
    · exact ⟨front, hfront⟩
    · exact ih hback ha

/-- One form of each value makes up a form of the list. -/
theorem counted_flatMap {width : Nat} {entry : Layout α} {as : List α} {g : α → Bytes}
    (hlen : as.length < BigEndian.limit width) (h : ∀ a ∈ as, entry a (g a)) :
    counted width entry as (BigEndian.encode width as.length ++ as.flatMap g) := by
  refine ⟨hlen, _, ?_, rfl⟩
  clear hlen
  induction as with
  | nil => exact sequence_nil.mpr rfl
  | cons a as ih =>
    exact sequence_cons.mpr ⟨g a, as.flatMap g, h a List.mem_cons_self,
      ih fun b hb => h b (List.mem_cons_of_mem _ hb), rfl⟩

end Layout

namespace Read

variable {α β : Type} {x : Read α} {f : α → Read β} {layout other : Layout α} {M : α → Layout β}

/-- Whether a read succeeds exactly on windows that start with a form of the value it answers with,
and leaves what follows the form. -/
def Reads (x : Read α) (layout : Layout α) : Prop :=
  ∀ window a rest, x window = .ok a rest ↔ ∃ form, layout a form ∧ window = form ++ rest

/-- Whether a read uses up exactly the windows that are forms of the value it answers with. Some
reads look at where the window ends, and then this is all that can be said. -/
def UsesUp (x : Read α) (layout : Layout α) : Prop :=
  ∀ window a, x window = .ok a [] ↔ layout a window

theorem Reads.of_form (hx : Reads x layout) {a : α} {form : Bytes} (h : layout a form)
    (rest : Bytes) : x (form ++ rest) = .ok a rest :=
  (hx _ _ _).mpr ⟨form, h, rfl⟩

theorem Reads.usesUp (hx : Reads x layout) : UsesUp x layout := by
  intro window a
  rw [hx]
  constructor
  · rintro ⟨form, hform, rfl⟩
    rwa [List.append_nil]
  · intro h
    exact ⟨window, h, (List.append_nil _).symm⟩

/-! ## Reads after each other -/

theorem reads_pure (a : α) : Reads (pure a) fun b form => b = a ∧ form = [] := by
  intro window b rest
  constructor
  · intro h
    obtain ⟨rfl, rfl⟩ := EStateM.Result.ok.inj h
    exact ⟨[], ⟨rfl, rfl⟩, rfl⟩
  · rintro ⟨_, ⟨rfl, rfl⟩, rfl⟩
    rfl

theorem Reads.bind (hx : Reads x layout) (hf : ∀ a, Reads (f a) (M a)) :
    Reads (x >>= f) fun b form =>
      ∃ a front back, layout a front ∧ M a b back ∧ form = front ++ back := by
  intro window b rest
  constructor
  · intro h
    obtain ⟨a, mid, ha, hb⟩ := bind_ok h
    obtain ⟨front, hfront, rfl⟩ := (hx _ _ _).mp ha
    obtain ⟨back, hback, rfl⟩ := (hf a _ _ _).mp hb
    exact ⟨front ++ back, ⟨a, front, back, hfront, hback, rfl⟩, (List.append_assoc _ _ _).symm⟩
  · rintro ⟨_, ⟨a, front, back, hfront, hback, rfl⟩, rfl⟩
    rw [List.append_assoc, bind_of_ok ((hx _ _ _).mpr ⟨front, hfront, rfl⟩)]
    exact (hf a _ _ _).mpr ⟨back, hback, rfl⟩

theorem Reads.bindUsesUp (hx : Reads x layout) (hf : ∀ a, UsesUp (f a) (M a)) :
    UsesUp (x >>= f) fun b form =>
      ∃ a front back, layout a front ∧ M a b back ∧ form = front ++ back := by
  intro window b
  constructor
  · intro h
    obtain ⟨a, mid, ha, hb⟩ := bind_ok h
    obtain ⟨front, hfront, rfl⟩ := (hx _ _ _).mp ha
    exact ⟨a, front, mid, hfront, (hf a _ _).mp hb, rfl⟩
  · rintro ⟨a, front, back, hfront, hback, rfl⟩
    rw [bind_of_ok ((hx _ _ _).mpr ⟨front, hfront, rfl⟩)]
    exact (hf a _ _).mpr hback

theorem UsesUp.congr (hx : UsesUp x layout) (h : ∀ a form, layout a form ↔ other a form) :
    UsesUp x other :=
  fun window a => (hx window a).trans (h a window)

theorem Reads.congr (hx : Reads x layout) (h : ∀ a form, layout a form ↔ other a form) :
    Reads x other := by
  intro window a rest
  rw [hx]
  exact exists_congr fun form => and_congr_left' (h a form)

/-- A value that is worked up after it was read has the forms of what was read. -/
theorem Reads.map (hx : Reads x layout) (g : α → β) :
    Reads (x >>= fun a => pure (g a)) fun b form => ∃ a, layout a form ∧ b = g a := by
  refine (hx.bind fun a => reads_pure (g a)).congr fun b form => ?_
  constructor
  · rintro ⟨a, front, _, hfront, ⟨rfl, rfl⟩, rfl⟩
    exact ⟨a, by rwa [List.append_nil], rfl⟩
  · rintro ⟨a, hform, rfl⟩
    exact ⟨a, form, [], hform, ⟨rfl, rfl⟩, (List.append_nil _).symm⟩

theorem UsesUp.ite {c : Prop} [Decidable c] {x y : Read α} (hx : c → UsesUp x layout)
    (hy : ¬ c → UsesUp y layout) : UsesUp (if c then x else y) layout := by
  by_cases h : c
  · rw [if_pos h]
    exact hx h
  · rw [if_neg h]
    exact hy h

theorem UsesUp.map (hx : UsesUp x layout) (g : α → β) :
    UsesUp (x >>= fun a => pure (g a)) fun b form => ∃ a, layout a form ∧ b = g a := by
  intro window b
  constructor
  · intro h
    obtain ⟨a, mid, ha, hb⟩ := bind_ok h
    obtain ⟨rfl, rfl⟩ := EStateM.Result.ok.inj hb
    exact ⟨a, (hx _ _).mp ha, rfl⟩
  · rintro ⟨a, hform, rfl⟩
    rw [bind_of_ok ((hx _ _).mpr hform)]
    rfl

/-! ## Fields -/

theorem reads_slice (n : Nat) : Reads (slice n) fun bs form => bs.length = n ∧ form = bs := by
  intro window bs rest
  constructor
  · intro h
    obtain ⟨hwindow, hlen⟩ := slice_ok h
    exact ⟨bs, ⟨hlen, rfl⟩, hwindow⟩
  · rintro ⟨_, ⟨rfl, rfl⟩, rfl⟩
    exact slice_append _ _

theorem reads_word (width : Nat) :
    Reads (word width) fun n form =>
      n < BigEndian.limit width ∧ form = BigEndian.encode width n := by
  refine ((reads_slice width).map BigEndian.decode).congr fun n form => ?_
  constructor
  · rintro ⟨bs, ⟨hlen, rfl⟩, rfl⟩
    exact ⟨hlen ▸ BigEndian.decode_lt form, (BigEndian.encode_decode hlen).symm⟩
  · rintro ⟨hn, rfl⟩
    exact ⟨_, ⟨BigEndian.length_encode _ _, rfl⟩, (BigEndian.decode_encode_of_lt hn).symm⟩

/-- A number is read from the bytes that it is written as, when the numbers of its type are those
that its bytes have room for. -/
theorem reads_number {ν : Type} {width : Nat} {toNat : ν → Nat} {ofNat : Nat → ν}
    (hlt : ∀ n, toNat n < BigEndian.limit width) (hof : ∀ n, ofNat (toNat n) = n)
    (hto : ∀ k, k < BigEndian.limit width → toNat (ofNat k) = k) :
    Reads (word width >>= fun k => pure (ofNat k)) fun n form =>
      form = BigEndian.encode width (toNat n) := by
  refine ((reads_word width).map ofNat).congr fun n form => ?_
  constructor
  · rintro ⟨k, ⟨hk, rfl⟩, rfl⟩
    rw [hto k hk]
  · rintro rfl
    exact ⟨toNat n, ⟨hlt n, rfl⟩, (hof n).symm⟩

theorem reads_uint8 : Reads uint8 fun n form => form = BigEndian.encode 1 n.toNat :=
  reads_number UInt8.toNat_lt (fun _ => UInt8.ofNat_toNat) fun _ => UInt8.toNat_ofNat_of_lt'

theorem reads_uint16 : Reads uint16 fun n form => form = BigEndian.encode 2 n.toNat :=
  reads_number UInt16.toNat_lt (fun _ => UInt16.ofNat_toNat) fun _ => UInt16.toNat_ofNat_of_lt'

theorem reads_uint32 : Reads uint32 fun n form => form = BigEndian.encode 4 n.toNat :=
  reads_number UInt32.toNat_lt (fun _ => UInt32.ofNat_toNat) fun _ => UInt32.toNat_ofNat_of_lt'

theorem reads_uint64 : Reads uint64 fun n form => form = BigEndian.encode 8 n.toNat :=
  reads_number UInt64.toNat_lt (fun _ => UInt64.ofNat_toNat) fun _ => UInt64.toNat_ofNat_of_lt'

theorem peekUInt32_iff {window mid : Bytes} {n : UInt32} :
    peekUInt32 window = .ok n mid ↔
      (∃ rest, window = BigEndian.encode 4 n.toNat ++ rest) ∧ mid = window := by
  have hread : (∃ rest, window = BigEndian.encode 4 n.toNat ++ rest) ↔
      ∃ rest, uint32 window = .ok n rest := by
    refine exists_congr fun rest => ?_
    rw [reads_uint32]
    simp
  rw [hread, peekUInt32]
  cases uint32 window with
  | ok n' rest => simp [eq_comm]
  | error e rest => simp

theorem reads_bytesField : Reads bytesField Layout.bytes := by
  intro window bs rest
  constructor
  · intro h
    obtain ⟨n, mid, hpeek, h⟩ := bind_ok h
    obtain ⟨field, mid', hslice, hdrop⟩ := bind_ok h
    obtain ⟨rfl, rfl⟩ := EStateM.Result.ok.inj hdrop
    obtain ⟨⟨after, rfl⟩, rfl⟩ := peekUInt32_iff.mp hpeek
    obtain ⟨hwindow, hlen⟩ := slice_ok hslice
    -- the length field makes up the first four bytes of the slice
    have hfront : field.take 4 = BigEndian.encode 4 n.toNat := by
      have := congrArg (List.take 4) hwindow
      rw [List.take_left' (BigEndian.length_encode _ _),
        List.take_append_of_le_length (by omega)] at this
      exact this.symm
    have hbs : (field.drop 4).length = n.toNat := by
      rw [List.length_drop, hlen]
      omega
    refine ⟨field, ⟨hbs ▸ n.toNat_lt, ?_⟩, hwindow⟩
    rw [Bytes.field, hbs, lengthFieldSize, ← hfront, List.take_append_drop]
  · rintro ⟨_, ⟨hlen, rfl⟩, rfl⟩
    have hn : (UInt32.ofNat bs.length).toNat = bs.length := UInt32.toNat_ofNat_of_lt' hlen
    have hpeek : peekUInt32 (bs.field ++ rest) =
        .ok (UInt32.ofNat bs.length) (bs.field ++ rest) := by
      refine peekUInt32_iff.mpr ⟨⟨bs ++ rest, ?_⟩, rfl⟩
      rw [hn, Bytes.field, lengthFieldSize, List.append_assoc]
    have hslice := slice_append bs.field rest
    rw [Bytes.length_field, lengthFieldSize] at hslice
    unfold bytesField
    rw [bind_of_ok hpeek, hn, bind_of_ok hslice]
    have hdrop : bs.field.drop 4 = bs := List.drop_left' (BigEndian.length_encode _ _)
    exact congrArg (EStateM.Result.ok · rest) hdrop

theorem reads_stringField : Reads stringField Layout.text := by
  intro window s rest
  constructor
  · intro h
    obtain ⟨bs, mid, hbs, h⟩ := bind_ok h
    cases ht : bs.toString? with
    | none =>
      rw [ht] at h
      exact nomatch h
    | some s' =>
      rw [ht] at h
      obtain ⟨rfl, rfl⟩ := EStateM.Result.ok.inj h
      obtain ⟨form, hform, hwindow⟩ := (reads_bytesField _ _ _).mp hbs
      refine ⟨form, ?_, hwindow⟩
      show Layout.bytes (Bytes.ofString s') form
      rw [Bytes.ofString_of_toString? ht]
      exact hform
  · rintro ⟨form, hform, rfl⟩
    unfold stringField
    rw [bind_of_ok ((reads_bytesField _ _ _).mpr ⟨form, hform, rfl⟩), Bytes.toString?_ofString]
    rfl

/-! ## Lists -/

theorem reads_repeatUnit {entry : Read Unit} {layout : Layout α}
    (he : Reads entry layout.dropped) (count : Nat) :
    Reads (repeatUnit entry count) fun _ form =>
      ∃ values, values.length = count ∧ layout.sequence values form := by
  induction count with
  | zero =>
    refine (reads_pure ()).congr fun _ form => ?_
    simp [Layout.sequence_nil]
  | succ count ih =>
    refine (he.bind fun _ => ih).congr fun _ form => ?_
    constructor
    · rintro ⟨_, front, back, ⟨a, hfront⟩, ⟨as, rfl, hback⟩, rfl⟩
      exact ⟨a :: as, rfl, Layout.sequence_cons.mpr ⟨front, back, hfront, hback, rfl⟩⟩
    · rintro ⟨values, hlen, hform⟩
      obtain ⟨a, as, rfl⟩ := List.exists_cons_of_length_eq_add_one hlen
      obtain ⟨front, back, hfront, hback, rfl⟩ := Layout.sequence_cons.mp hform
      exact ⟨(), front, back, ⟨a, hfront⟩, ⟨as, Nat.succ.inj hlen, hback⟩, rfl⟩

theorem reads_repeatOnto {entry : Read α} (he : Reads entry layout) (count : Nat)
    (read : List α) :
    Reads (repeatOnto entry count read) fun all form =>
      ∃ values, all = read.reverse ++ values ∧ values.length = count ∧
        layout.sequence values form := by
  induction count generalizing read with
  | zero =>
    refine (reads_pure read.reverse).congr fun all form => ?_
    simp [Layout.sequence_nil]
  | succ count ih =>
    refine (he.bind fun a => ih (a :: read)).congr fun all form => ?_
    constructor
    · rintro ⟨a, front, back, hfront, ⟨as, rfl, rfl, hback⟩, rfl⟩
      exact ⟨a :: as, by simp, rfl, Layout.sequence_cons.mpr ⟨front, back, hfront, hback, rfl⟩⟩
    · rintro ⟨values, rfl, hlen, hform⟩
      obtain ⟨a, as, rfl⟩ := List.exists_cons_of_length_eq_add_one hlen
      obtain ⟨front, back, hfront, hback, rfl⟩ := Layout.sequence_cons.mp hform
      exact ⟨a, front, back, hfront, ⟨as, by simp, Nat.succ.inj hlen, hback⟩, rfl⟩

theorem reads_replicate {entry : Read α} (he : Reads entry layout) (count : Nat) :
    Reads (replicate count entry) fun values form =>
      values.length = count ∧ layout.sequence values form := by
  refine (reads_repeatOnto he count []).congr fun values form => ?_
  simp

theorem reads_replicate_map {entry : Read α} (he : Reads entry layout) (g : List α → β)
    (count : Nat) :
    Reads (replicate count entry >>= fun values => pure (g values)) fun b form =>
      ∃ values, b = g values ∧ values.length = count ∧ layout.sequence values form := by
  refine ((reads_replicate he count).map g).congr fun b form => exists_congr fun values => ?_
  rw [and_comm]

/-- A number, and then a read of as many values, of which it keeps what `kept` says. -/
theorem Reads.counted {ν : Type} {size : Read ν} {toNat : ν → Nat} {width : Nat}
    {body : Nat → Read β} {kept : β → List α → Prop}
    (hsize : Reads size fun n form => form = BigEndian.encode width (toNat n))
    (hlt : ∀ n, toNat n < BigEndian.limit width)
    (hall : ∀ k, k < BigEndian.limit width → ∃ n, toNat n = k)
    (hbody : ∀ k, Reads (body k) fun b form =>
      ∃ values, kept b values ∧ values.length = k ∧ layout.sequence values form) :
    Reads (size >>= fun n => body (toNat n)) fun b form =>
      ∃ values, kept b values ∧ layout.counted width values form := by
  refine (hsize.bind fun n => hbody (toNat n)).congr fun b form => ?_
  constructor
  · rintro ⟨n, _, back, rfl, ⟨values, hkept, hlen, hback⟩, rfl⟩
    exact ⟨values, hkept, hlen ▸ hlt n, back, hback, by rw [hlen]⟩
  · rintro ⟨values, hkept, hcount, back, hback, rfl⟩
    obtain ⟨n, hn⟩ := hall values.length hcount
    exact ⟨n, _, back, rfl, ⟨values, hkept, hn.symm, hback⟩, by rw [hn]⟩

theorem exists_uint16 {count : Nat} (h : count < BigEndian.limit 2) :
    ∃ n : UInt16, n.toNat = count :=
  ⟨UInt16.ofNat count, UInt16.toNat_ofNat_of_lt' h⟩

theorem exists_uint32 {count : Nat} (h : count < BigEndian.limit 4) :
    ∃ n : UInt32, n.toNat = count :=
  ⟨UInt32.ofNat count, UInt32.toNat_ofNat_of_lt' h⟩

section

variable {body : Nat → Read β} {kept : β → List α → Prop}
  (hbody : ∀ k, Reads (body k) fun b form =>
    ∃ values, kept b values ∧ values.length = k ∧ layout.sequence values form)

include hbody

theorem reads_counted16 :
    Reads (do let count ← uint16; body count.toNat) fun b form =>
      ∃ values, kept b values ∧ layout.counted 2 values form :=
  reads_uint16.counted UInt16.toNat_lt (fun _ => exists_uint16) hbody

theorem reads_counted32 :
    Reads (do let count ← uint32; body count.toNat) fun b form =>
      ∃ values, kept b values ∧ layout.counted 4 values form :=
  reads_uint32.counted UInt32.toNat_lt (fun _ => exists_uint32) hbody

end

end Read

end EdgeClient
