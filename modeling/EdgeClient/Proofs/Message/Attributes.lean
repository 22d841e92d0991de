import EdgeClient.Message.ServerError
import Mathlib.Data.List.Induction
import Mathlib.Tactic.SplitIfs

/-!
# Attributes as a map

Attributes are kept as a list, but what they are is a map from keys to values. The list ascends by
key, so it is fixed by what stands under each key; and what stands under a key is the last value
that was set for it.
-/

namespace EdgeClient.Attributes

/-- Whether the keys ascend, so that none is there twice. -/
def IsAscending (attributes : Attributes) : Prop := attributes.Pairwise (·.1 < ·.1)

/-- The last value that a list of settings has for a key. -/
def lastSetting (settings : List (UInt16 × Bytes)) (key : UInt16) : Option Bytes :=
  settings.reverse.lookup key

/-! ## Looking up -/

theorem get?_cons (key k : UInt16) (value : Bytes) (rest : Attributes) :
    get? ((k, value) :: rest) key = if key = k then some value else get? rest key := by
  by_cases h : key = k
  · rw [if_pos h, get?, h, List.lookup_cons_self]
  · rw [if_neg h, get?, List.lookup_cons, beq_false_of_ne h]
    rfl

/-- A key that stands before all others is not among them. -/
theorem get?_of_forall_lt {key : UInt16} {rest : Attributes} (h : ∀ entry ∈ rest, key < entry.1) :
    rest.get? key = none := by
  induction rest with
  | nil => rfl
  | cons entry rest ih =>
    have hne : key ≠ entry.1 := UInt16.ne_of_lt (h entry List.mem_cons_self)
    rw [get?_cons, if_neg hne]
    exact ih fun e he => h e (List.mem_cons_of_mem _ he)

theorem get?_insert (key k : UInt16) (value : Bytes) (attributes : Attributes) :
    (attributes.insert k value).get? key = if key = k then some value else attributes.get? key := by
  induction attributes with
  | nil => exact get?_cons key k value []
  | cons entry rest ih =>
    obtain ⟨k', value'⟩ := entry
    rw [insert]
    by_cases hlt : k < k'
    · rw [if_pos hlt, get?_cons]
    · rw [if_neg hlt]
      by_cases heq : k = k'
      · subst heq
        rw [if_pos rfl, get?_cons, get?_cons]
        split_ifs <;> rfl
      · rw [if_neg heq, get?_cons, get?_cons, ih]
        by_cases hkey : key = k
        · rw [if_pos hkey, if_pos hkey, if_neg (hkey ▸ heq)]
        · rw [if_neg hkey, if_neg hkey]

theorem get?_first (entry : UInt16 × Bytes) (rest : Attributes) :
    get? (entry :: rest) entry.1 = some entry.2 := by
  rw [get?_cons, if_pos rfl]

/-- No key that is found is smaller than the first. -/
theorem IsAscending.first_le {entry : UInt16 × Bytes} {rest : Attributes}
    (h : IsAscending (entry :: rest)) {key : UInt16} {value : Bytes}
    (hkey : get? (entry :: rest) key = some value) : entry.1 ≤ key := by
  by_contra hle
  have hlt := UInt16.not_le.mp hle
  have hnone : get? (entry :: rest) key = none := get?_of_forall_lt fun e he => by
    rcases List.mem_cons.mp he with rfl | he
    · exact hlt
    · exact UInt16.lt_trans hlt ((List.pairwise_cons.mp h).1 e he)
  exact absurd (hnone.symm.trans hkey) (by simp)

/-- Ascending attributes are fixed by what stands under each key. -/
theorem eq_of_get?_eq {as bs : Attributes} (ha : as.IsAscending) (hb : bs.IsAscending)
    (h : ∀ key, as.get? key = bs.get? key) : as = bs := by
  induction as generalizing bs with
  | nil =>
    cases bs with
    | nil => rfl
    | cons b bs => exact absurd ((h b.1).trans (get?_first b bs)) (by simp [get?])
  | cons a as ih =>
    cases bs with
    | nil => exact absurd ((get?_first a as).symm.trans (h a.1)) (by simp [get?])
    | cons b bs =>
      -- each list finds the first key of the other, so neither first key is the smaller one
      have hab : get? (b :: bs) a.1 = some a.2 := (h a.1).symm.trans (get?_first a as)
      have hba : get? (a :: as) b.1 = some b.2 := (h b.1).trans (get?_first b bs)
      have hkeys : a.1 = b.1 := UInt16.le_antisymm (ha.first_le hba) (hb.first_le hab)
      have hvalues : a.2 = b.2 := by
        rw [get?_cons, if_pos hkeys] at hab
        exact (Option.some.inj hab).symm
      obtain rfl : a = b := Prod.ext hkeys hvalues
      obtain ⟨ha, has⟩ := List.pairwise_cons.mp ha
      obtain ⟨hb, hbs⟩ := List.pairwise_cons.mp hb
      refine congrArg (a :: ·) (ih has hbs fun key => ?_)
      by_cases hkey : key = a.1
      · rw [hkey, get?_of_forall_lt ha, get?_of_forall_lt hb]
      · have := h key
        rwa [get?_cons, get?_cons, if_neg hkey, if_neg hkey] at this

/-! ## Setting one after the other -/

theorem mem_of_mem_insert {k : UInt16} {value : Bytes} {attributes : Attributes}
    {entry : UInt16 × Bytes} (h : entry ∈ attributes.insert k value) :
    entry = (k, value) ∨ entry ∈ attributes := by
  induction attributes with
  | nil => exact Or.inl (List.mem_singleton.mp h)
  | cons first rest ih =>
    obtain ⟨k', value'⟩ := first
    rw [insert] at h
    split_ifs at h with hlt heq
    · exact List.mem_cons.mp h
    · rcases List.mem_cons.mp h with h | h
      · exact Or.inl h
      · exact Or.inr (List.mem_cons_of_mem _ h)
    · rcases List.mem_cons.mp h with h | h
      · exact Or.inr (h ▸ List.mem_cons_self)
      · exact (ih h).imp_right (List.mem_cons_of_mem _)

theorem IsAscending.insert {attributes : Attributes} (h : attributes.IsAscending) (k : UInt16)
    (value : Bytes) : (attributes.insert k value).IsAscending := by
  induction attributes with
  | nil => exact List.pairwise_singleton _ _
  | cons first rest ih =>
    obtain ⟨k', value'⟩ := first
    obtain ⟨hfirst, hrest⟩ := List.pairwise_cons.mp h
    rw [Attributes.insert]
    split_ifs with hlt heq
    · refine List.pairwise_cons.mpr ⟨fun e he => ?_, h⟩
      rcases List.mem_cons.mp he with rfl | he
      · exact hlt
      · exact UInt16.lt_trans hlt (hfirst e he)
    · subst heq
      exact List.pairwise_cons.mpr ⟨hfirst, hrest⟩
    · refine List.pairwise_cons.mpr ⟨fun e he => ?_, ih hrest⟩
      rcases mem_of_mem_insert he with rfl | he
      · exact UInt16.lt_of_le_of_ne (UInt16.not_lt.mp hlt) (Ne.symm heq)
      · exact hfirst e he

theorem length_insert_le (k : UInt16) (value : Bytes) (attributes : Attributes) :
    (attributes.insert k value).length ≤ attributes.length + 1 := by
  induction attributes with
  | nil => exact Nat.le_refl _
  | cons first rest ih =>
    rw [insert]
    split_ifs
    · exact Nat.le_refl _
    · exact Nat.le_succ _
    · exact Nat.succ_le_succ ih

section

variable (settings : List (UInt16 × Bytes))

theorem ofList_concat (setting : UInt16 × Bytes) :
    ofList (settings ++ [setting]) = (ofList settings).insert setting.1 setting.2 := by
  simp [ofList]

theorem isAscending_ofList : (ofList settings).IsAscending := by
  induction settings using List.reverseRecOn with
  | nil => exact List.Pairwise.nil
  | append_singleton settings setting ih =>
    rw [ofList_concat]
    exact ih.insert _ _

/-- What stands under a key is what was set for it last. -/
theorem get?_ofList (key : UInt16) : (ofList settings).get? key = lastSetting settings key := by
  induction settings using List.reverseRecOn with
  | nil => rfl
  | append_singleton settings setting ih =>
    have hlast : lastSetting (settings ++ [setting]) key =
        if key = setting.1 then some setting.2 else lastSetting settings key := by
      rw [lastSetting, List.reverse_append]
      exact get?_cons key setting.1 setting.2 settings.reverse
    rw [ofList_concat, get?_insert, ih, hlast]

theorem length_ofList_le : (ofList settings).length ≤ settings.length := by
  induction settings using List.reverseRecOn with
  | nil => exact Nat.le_refl _
  | append_singleton settings setting ih =>
    rw [ofList_concat, List.length_append, List.length_singleton]
    exact Nat.le_trans (length_insert_le _ _ _) (Nat.add_le_add_right ih 1)

theorem mem_of_mem_ofList {entry : UInt16 × Bytes} (h : entry ∈ ofList settings) :
    entry ∈ settings := by
  induction settings using List.reverseRecOn with
  | nil => exact h
  | append_singleton settings setting ih =>
    rw [ofList_concat] at h
    rcases mem_of_mem_insert h with rfl | h
    · exact List.mem_append_right _ (List.mem_singleton.mpr rfl)
    · exact List.mem_append_left _ (ih h)

/-- The attributes that a list of settings leaves are the ascending ones with the last value of
each key. -/
theorem eq_ofList_iff (attributes : Attributes) :
    attributes = ofList settings ↔
      attributes.IsAscending ∧ ∀ key, attributes.get? key = lastSetting settings key := by
  constructor
  · rintro rfl
    exact ⟨isAscending_ofList settings, get?_ofList settings⟩
  · rintro ⟨hascending, hlast⟩
    exact eq_of_get?_eq hascending (isAscending_ofList settings) fun key =>
      (hlast key).trans (get?_ofList settings key).symm

end

/-- A key behind all others is set at the end. -/
theorem insert_of_forall_lt {k : UInt16} {value : Bytes} {attributes : Attributes}
    (h : ∀ entry ∈ attributes, entry.1 < k) :
    attributes.insert k value = attributes ++ [(k, value)] := by
  induction attributes with
  | nil => rfl
  | cons first rest ih =>
    have hlt := h first List.mem_cons_self
    rw [insert, if_neg (UInt16.not_lt.mpr (UInt16.le_of_lt hlt)), if_neg (UInt16.ne_of_lt hlt).symm,
      ih fun e he => h e (List.mem_cons_of_mem _ he), List.cons_append]

/-- Attributes that ascend are left as they are when they are set one after the other. -/
theorem ofList_of_isAscending {attributes : Attributes} (h : attributes.IsAscending) :
    ofList attributes = attributes := by
  induction attributes using List.reverseRecOn with
  | nil => rfl
  | append_singleton front last ih =>
    obtain ⟨hfront, -, hlast⟩ := List.pairwise_append.mp h
    rw [ofList_concat, ih hfront,
      insert_of_forall_lt fun e he => hlast e he last (List.mem_singleton.mpr rfl)]

end EdgeClient.Attributes
