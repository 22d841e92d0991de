import EdgeClient.Proofs.Wire.Calls

/-!
# Whose a reserved field is

A writer holds the offsets of its reserved fields, but not for whom they were reserved: to end a
message it takes the only field there is, to end a block the innermost one. A `Ledger` keeps the
owners beside the writer, and `Ledger.Bracketed` is the discipline under which the writer takes the
right field: while a message is open, the outermost field is its own, and all others are blocks'.

Calls may break the discipline in two ways. A message may be begun while a block is open outside of
any message, and then the block has the outermost field. And a message may be too long for its
field, which is given up all the same while the message stays open. These are the only ways
(`bracketed_iff_orderly`).
-/

namespace EdgeClient.Writer

/-- For whom a field is reserved. -/
inductive Owner where
  | message
  | block
  deriving DecidableEq, Repr

/-- A writer together with what its calls were for. -/
structure Ledger where
  /-- The writer. -/
  writer : Writer := {}
  /-- For whom its fields are reserved, innermost first. -/
  owners : List Owner := []
  /-- The message that was begun last: its tag, and the offset of that tag. -/
  begun : Option (UInt8 × Nat) := none
  deriving DecidableEq, Repr

/-- For whom a call reserves a field, if it does. -/
def Call.owner : Call → Owner
  | .beginMessage _ => .message
  | _ => .block

/-- Whether a call keeps fields and owners together: no message is begun while a field is reserved,
and none is ended that is too long for its own. -/
def Call.IsOrderly (w : Writer) : Call → Prop
  | .beginMessage _ => w.openTag = none → w.reserved = []
  | .endMessage => ∀ tag offset, w.openTag = some tag → w.reserved = [offset] →
      w.bytes.size - offset < 2 ^ 32
  | _ => True

/-- Whether each of the calls is orderly at its time. -/
def Orderly (calls : List Call) : Prop :=
  ∀ before call, before ++ [call] <+: calls → call.IsOrderly (run before)

theorem orderly_nil : Orderly [] := by
  intro before call h
  exact absurd (List.prefix_nil.mp h) (by simp)

theorem Orderly.concat {calls : List Call} (h : Orderly calls) (call : Call)
    (hcall : call.IsOrderly (run calls)) : Orderly (calls ++ [call]) := by
  intro before last hprefix
  rcases List.prefix_concat_iff.mp hprefix with heq | hprefix
  · obtain ⟨rfl, hlast⟩ := List.append_inj' heq rfl
    obtain rfl : last = call := (List.cons.inj hlast).1
    exact hcall
  · exact h before last hprefix

namespace Ledger

/-- The ledger after a call. A field that is new belongs to whom the call reserves it for, and a
field that is gone takes its owner along. -/
def next (l : Ledger) (call : Call) : Ledger where
  writer := call.after l.writer
  owners :=
    if l.writer.reserved.length < (call.after l.writer).reserved.length then
      call.owner :: l.owners
    else
      l.owners.drop (l.writer.reserved.length - (call.after l.writer).reserved.length)
  begun :=
    match call, call.run l.writer with
    | .beginMessage tag, .ok _ _ => some (tag, l.writer.bytes.size)
    | _, _ => l.begun

/-- The ledger after calls on a new writer. -/
def after (calls : List Call) : Ledger :=
  calls.foldl next {}

/-- What a ledger says while a message is open, of which `blocks` are the fields of the blocks. -/
structure InMessage (l : Ledger) (tag : UInt8) (start : Nat) (blocks : List Nat) : Prop where
  /-- The message is the one that was begun last. -/
  begun : l.begun = some (tag, start)
  /-- Its tag still stands where it was written. -/
  tag : l.writer.contents[start]? = some tag
  /-- The outermost field is the one right behind the tag. -/
  reserved : l.writer.reserved = blocks ++ [start + 1]
  /-- It was reserved for the message, and all others for blocks. -/
  owners : l.owners = List.replicate blocks.length .block ++ [.message]

/-- Whether fields and owners are together. -/
structure Bracketed (l : Ledger) : Prop where
  /-- While a message is open, the outermost field is its own. -/
  inMessage : ∀ tag, l.writer.openTag = some tag → ∃ start blocks, l.InMessage tag start blocks
  /-- While no message is open, all fields are blocks'. -/
  outside : l.writer.openTag = none →
    l.owners = List.replicate l.writer.reserved.length .block

/-- Whether ending a message or a block fills in the field of that very message or block, and
changes nothing else. -/
structure EndsItsOwn (l : Ledger) : Prop where
  message : ∀ w, endMessage l.writer = .ok () w → ∃ tag front field body,
    l.begun = some (tag, front.length) ∧ field.length = lengthFieldSize ∧
    l.writer.contents = front ++ tag :: field ++ body ∧
    w.contents =
      front ++ tag :: BigEndian.encode lengthFieldSize (lengthFieldSize + body.length) ++ body
  block : ∀ w, endBlock l.writer = .ok () w → ∃ owners outer front field body,
    l.owners = .block :: owners ∧ l.writer.reserved = front.length :: outer ∧
    field.length = lengthFieldSize ∧
    l.writer.contents = front ++ field ++ body ∧
    w.contents = front ++ BigEndian.encode lengthFieldSize body.length ++ body

/-! ## Keeping the ledger -/

variable {l : Ledger} {call : Call}

theorem after_append_singleton (calls : List Call) (call : Call) :
    after (calls ++ [call]) = (after calls).next call := by
  simp [after]

theorem writer_after (calls : List Call) : (after calls).writer = run calls := by
  induction calls using List.reverseRecOn with
  | nil => rfl
  | append_singleton calls call ih =>
    rw [after_append_singleton, run_append_singleton, ← ih]
    rfl

theorem next_of_refused {e : WireError} (h : call.run l.writer = .error e l.writer) :
    l.next call = l := by
  have hwriter : call.after l.writer = l.writer := by
    unfold Call.after
    rw [h]
  have hbegun : (l.next call).begun = l.begun := by
    unfold next
    rw [h]
    cases call <;> rfl
  have howners : (l.next call).owners = l.owners := by
    unfold next
    rw [hwriter, if_neg (Nat.lt_irrefl _), Nat.sub_self, List.drop_zero]
  obtain ⟨writer, owners, begun⟩ := l
  exact congr (congr (congrArg Ledger.mk hwriter) howners) hbegun

theorem begun_next (h : ∀ tag, call ≠ .beginMessage tag) : (l.next call).begun = l.begun := by
  unfold next
  cases call with
  | beginMessage tag => exact absurd rfl (h tag)
  | _ => rfl

theorem owners_of_reserve (call : Call) (offset : Nat)
    (h : (call.after l.writer).reserved = offset :: l.writer.reserved) :
    (l.next call).owners = call.owner :: l.owners := by
  have hlt : l.writer.reserved.length < (call.after l.writer).reserved.length := by
    rw [h]
    exact Nat.lt_succ_self _
  exact if_pos hlt

theorem owners_of_drop (call : Call) (inner : List Nat)
    (h : l.writer.reserved = inner ++ (call.after l.writer).reserved) :
    (l.next call).owners = l.owners.drop inner.length := by
  have hlen : l.writer.reserved.length =
      inner.length + (call.after l.writer).reserved.length := by
    rw [← List.length_append, ← h]
  have hge : ¬ l.writer.reserved.length < (call.after l.writer).reserved.length := by omega
  have hdrop : l.writer.reserved.length - (call.after l.writer).reserved.length =
      inner.length := by omega
  unfold next
  rw [if_neg hge, hdrop]

/-! ## One call -/

theorem Bracketed.next_push (h : l.Bracketed) {bs : Bytes} (hcall : ∀ tag, call ≠ .beginMessage tag)
    (hafter : call.after l.writer = l.writer.append bs) : (l.next call).Bracketed := by
  have hwriter : (l.next call).writer = l.writer.append bs := hafter
  have howners : (l.next call).owners = l.owners :=
    owners_of_drop call [] (by rw [hafter]; rfl)
  refine ⟨?_, ?_⟩
  · intro tag ht
    rw [hwriter, append_openTag] at ht
    obtain ⟨start, blocks, hin⟩ := h.inMessage tag ht
    obtain ⟨hstart, -⟩ := List.getElem?_eq_some_iff.mp hin.tag
    refine ⟨start, blocks, (begun_next hcall).trans hin.begun, ?_, ?_, howners.trans hin.owners⟩
    · rw [hwriter, contents_append, List.getElem?_append_left hstart]
      exact hin.tag
    · rw [hwriter, append_reserved]
      exact hin.reserved
  · intro ht
    rw [hwriter, append_openTag] at ht
    rw [howners, hwriter, append_reserved]
    exact h.outside ht

theorem Bracketed.next_beginMessage (h : l.Bracketed) {tag : UInt8} (ht : l.writer.openTag = none)
    (hr : l.writer.reserved = [])
    (hrun : Call.run (.beginMessage tag) l.writer =
      .ok [] { (l.writer.append [tag]).reserve with openTag := some tag }) :
    (l.next (.beginMessage tag)).Bracketed := by
  have hwriter : (l.next (.beginMessage tag)).writer =
      { (l.writer.append [tag]).reserve with openTag := some tag } := Call.after_of_ok hrun
  have howners : (l.next (.beginMessage tag)).owners = [.message] := by
    have hnone : l.owners = [] := by rw [h.outside ht, hr]; rfl
    rw [owners_of_reserve _ (l.writer.append [tag]).bytes.size
      (by rw [Call.after_of_ok hrun]; rfl), hnone]
    rfl
  refine ⟨?_, ?_⟩
  · intro tag' ht'
    obtain rfl : tag = tag' := by
      rw [hwriter] at ht'
      exact Option.some.inj ht'
    refine ⟨l.writer.bytes.size, [], ?_, ?_, ?_, howners⟩
    · unfold next
      rw [hrun]
    · have hcontents : (l.next (.beginMessage tag)).writer.contents =
          l.writer.contents ++ [tag] ++ BigEndian.encode lengthFieldSize 0 := by
        rw [hwriter, ← contents_append]
        exact contents_append (l.writer.append [tag]) _
      rw [hcontents, ← length_contents]
      simp
    · rw [hwriter]
      show (l.writer.append [tag]).bytes.size :: l.writer.reserved = _
      rw [hr, size_bytes_append]
      rfl
  · intro hnone
    rw [hwriter] at hnone
    exact absurd hnone (by simp)

theorem Bracketed.next_endMessage (h : l.Bracketed) {tag : UInt8} {offset : Nat}
    (ht : l.writer.openTag = some tag) (hr : l.writer.reserved = [offset])
    (hafter : (Call.after .endMessage l.writer).reserved = [])
    (hclosed : (Call.after .endMessage l.writer).openTag = none) :
    (l.next .endMessage).Bracketed := by
  have howners : (l.next .endMessage).owners = [] := by
    obtain ⟨start, blocks, hin⟩ := h.inMessage tag ht
    have hblocks : blocks = [] := by
      have hlen := congrArg List.length (hin.reserved.symm.trans hr)
      simp only [List.length_append, List.length_singleton] at hlen
      exact List.length_eq_zero_iff.mp (by omega)
    rw [owners_of_drop _ [offset] (by rw [hafter, hr]; rfl), hin.owners, hblocks]
    rfl
  refine ⟨?_, ?_⟩
  · intro tag' ht'
    exact absurd (hclosed.symm.trans ht') (by simp)
  · intro _
    rw [howners]
    show [] = List.replicate (Call.after .endMessage l.writer).reserved.length Owner.block
    rw [hafter]
    rfl

theorem Bracketed.next_beginBlock (h : l.Bracketed) : (l.next .beginBlock).Bracketed := by
  have hwriter : (l.next .beginBlock).writer = l.writer.reserve := rfl
  have howners : (l.next .beginBlock).owners = .block :: l.owners :=
    owners_of_reserve .beginBlock _ rfl
  refine ⟨?_, ?_⟩
  · intro tag ht
    obtain ⟨start, blocks, hin⟩ := h.inMessage tag ht
    obtain ⟨hstart, -⟩ := List.getElem?_eq_some_iff.mp hin.tag
    refine ⟨start, l.writer.bytes.size :: blocks, hin.begun, ?_, ?_, ?_⟩
    · have hcontents : (l.next .beginBlock).writer.contents =
          l.writer.contents ++ BigEndian.encode lengthFieldSize 0 := contents_append l.writer _
      rw [hcontents, List.getElem?_append_left hstart]
      exact hin.tag
    · rw [hwriter]
      show l.writer.bytes.size :: l.writer.reserved = _
      rw [hin.reserved]
      rfl
    · rw [howners, hin.owners]
      rfl
  · intro ht
    rw [howners, h.outside ht, hwriter]
    rfl

/-- A block that ends takes its field along, also when it is too long to be written there. The bytes
in front of the field stay. -/
theorem Bracketed.next_endBlock (h : l.Bracketed) (hs : l.writer.IsSpaced) {offset : Nat}
    {outer : List Nat} (hr : l.writer.reserved = offset :: outer)
    (houter : l.writer.openTag.isSome = true → outer ≠ [])
    (hreserved : (Call.after .endBlock l.writer).reserved = outer)
    (hopen : (Call.after .endBlock l.writer).openTag = l.writer.openTag)
    (hfront : ∀ i, i < offset →
      (Call.after .endBlock l.writer).contents[i]? = l.writer.contents[i]?) :
    (l.next .endBlock).Bracketed := by
  have hwriter : (l.next .endBlock).writer = Call.after .endBlock l.writer := rfl
  have howners : (l.next .endBlock).owners = l.owners.drop 1 :=
    owners_of_drop _ [offset] (by rw [hreserved, hr]; rfl)
  refine ⟨?_, ?_⟩
  · intro tag ht
    rw [hwriter, hopen] at ht
    obtain ⟨start, blocks, hin⟩ := h.inMessage tag ht
    cases blocks with
    | nil =>
      have hnil : outer = [] := (List.cons.inj (hr.symm.trans hin.reserved)).2
      exact absurd hnil (houter (by rw [ht]; rfl))
    | cons inner blocks =>
      obtain ⟨rfl, hout⟩ := List.cons.inj (hr.symm.trans hin.reserved)
      have hlt : start < offset := by
        unfold IsSpaced at hs
        rw [hr] at hs
        have hmem : start + 1 ∈ outer := by rw [hout]; simp
        have := hs.2.of_mem hmem
        omega
      refine ⟨start, blocks, hin.begun, ?_, ?_, ?_⟩
      · rw [hwriter, hfront start hlt]
        exact hin.tag
      · rw [hwriter, hreserved]
        exact hout
      · rw [howners, hin.owners]
        rfl
  · intro ht
    rw [hwriter, hopen] at ht
    rw [howners, h.outside ht, hwriter, hreserved, hr, List.drop_replicate]
    rfl

theorem Bracketed.next_of_empty (hlen : l.owners.length = l.writer.reserved.length)
    (hafter : call.after l.writer = {}) : (l.next call).Bracketed := by
  have hwriter : (l.next call).writer = {} := hafter
  have howners : (l.next call).owners = [] := by
    rw [owners_of_drop _ l.writer.reserved (by rw [hafter]; simp), ← hlen,
      List.drop_length]
  refine ⟨?_, ?_⟩
  · intro tag ht
    rw [hwriter] at ht
    exact absurd ht (by simp)
  · intro _
    rw [howners, hwriter]
    rfl

theorem Bracketed.length_owners (h : l.Bracketed) :
    l.owners.length = l.writer.reserved.length := by
  cases ht : l.writer.openTag with
  | none => rw [h.outside ht, List.length_replicate]
  | some tag =>
    obtain ⟨start, blocks, hin⟩ := h.inMessage tag ht
    rw [hin.owners, hin.reserved]
    simp

/-- A call that is orderly keeps fields and owners together. -/
theorem Bracketed.next (h : l.Bracketed) (hs : l.writer.IsSpaced)
    (ho : call.IsOrderly l.writer) : (l.next call).Bracketed := by
  have heffect := call.effect l.writer
  generalize hrun : call.run l.writer = result at heffect
  cases heffect with
  | refused =>
    rw [next_of_refused hrun]
    exact h
  | push bs hpush =>
    refine h.next_push ?_ (Call.after_of_ok hrun)
    rintro tag rfl
    exact hpush
  | beginMessage ht => exact h.next_beginMessage ht (ho ht) hrun
  | @endMessage tag offset w ht hr hfill =>
    have hroom : offset + lengthFieldSize ≤ l.writer.bytes.size := hs.of_mem (by rw [hr]; simp)
    obtain ⟨-, -, -, -, -, -, -, hreserved, -⟩ :=
      fillLength_ok (w := { l.writer with reserved := [] }) hroom hfill
    refine h.next_endMessage ht hr ?_ ?_
    · rw [Call.after_of_ok hrun]
      exact hreserved
    · rw [Call.after_of_ok hrun]
  | messageTooLarge ht hr hlarge => exact absurd (ho _ _ ht hr) (Nat.not_lt_of_le hlarge)
  | beginBlock => exact h.next_beginBlock
  | @endBlock offset outer w hr houter hfill =>
    have hroom : offset + lengthFieldSize ≤ l.writer.bytes.size := hs.of_mem (by rw [hr]; simp)
    obtain ⟨front, field, body, hfront, -, hbefore, hfilled, hreserved, hopen⟩ :=
      fillLength_ok (w := { l.writer with reserved := outer }) hroom hfill
    have hbefore : l.writer.contents = front ++ field ++ body := hbefore
    have hafter : Call.after .endBlock l.writer = w := Call.after_of_ok hrun
    refine h.next_endBlock hs hr houter (by rw [hafter, hreserved]) (by rw [hafter, hopen]) ?_
    intro i hi
    rw [← hfront] at hi
    rw [hafter, hfilled, hbefore, List.append_assoc, List.append_assoc,
      List.getElem?_append_left hi, List.getElem?_append_left hi]
  | @blockTooLarge offset outer hr houter _ =>
    have hafter := Call.after_of_error hrun
    exact h.next_endBlock hs hr houter (by rw [hafter]) (by rw [hafter]) (fun i _ => by rw [hafter]; rfl)
  | take ht hr => exact .next_of_empty h.length_owners (Call.after_of_ok hrun)
  | reset => exact .next_of_empty h.length_owners (Call.after_of_ok hrun)

/-- A call after which fields and owners are together was orderly. -/
theorem isOrderly_of_next (hlen : l.owners.length = l.writer.reserved.length)
    (h : (l.next call).Bracketed) : call.IsOrderly l.writer := by
  have heffect := call.effect l.writer
  generalize hrun : call.run l.writer = result at heffect
  cases call with
  | beginMessage tag =>
    intro ht
    cases heffect with
    | push _ hpush => exact hpush.elim
    | refused hrefused =>
      cases hrefused with
      | alreadyOpen ht' => exact absurd (ht.symm.trans ht') (by simp)
      | tooLong hpush => exact hpush.elim
    | beginMessage =>
      have hafter := Call.after_of_ok hrun
      have howners : (l.next (.beginMessage tag)).owners = .message :: l.owners :=
        owners_of_reserve _ (l.writer.append [tag]).bytes.size (by rw [hafter]; rfl)
      obtain ⟨start, blocks, hin⟩ := h.inMessage tag (congrArg Writer.openTag hafter)
      have hboth := howners.symm.trans hin.owners
      cases blocks with
      | cons => exact absurd (List.cons.inj hboth).1 (by simp)
      | nil =>
        have hnil : l.owners = [] := (List.cons.inj hboth).2
        rw [hnil] at hlen
        exact List.length_eq_zero_iff.mp hlen.symm
  | endMessage =>
    intro tag offset ht hr
    cases heffect with
    | push _ hpush => exact hpush.elim
    | refused hrefused =>
      cases hrefused with
      | notOpen ht' => exact absurd (ht.symm.trans ht') (by simp)
      | blocksOpen _ hr' => exact absurd (congrArg List.length hr) hr'
      | tooLong hpush => exact hpush.elim
    | @endMessage _ offset' _ _ hr' hfill =>
      obtain rfl : offset = offset' := (List.cons.inj (hr.symm.trans hr')).1
      rcases fillLength_cases offset (l.writer.bytes.size - offset)
        { l.writer with reserved := [] } with ⟨hfit, -⟩ | ⟨-, herror⟩
      · exact hfit
      · exact absurd (herror.symm.trans hfill) (by simp)
    | messageTooLarge =>
      have hafter := Call.after_of_error hrun
      obtain ⟨start, blocks, hin⟩ :=
        h.inMessage tag ((congrArg Writer.openTag hafter).trans ht)
      have hnil := (congrArg Writer.reserved hafter).symm.trans hin.reserved
      exact absurd hnil (by simp)
  | _ => trivial

/-! ## Ending messages and blocks -/

theorem run_endMessage {w : Writer} (h : endMessage l.writer = .ok () w) :
    Call.run .endMessage l.writer = .ok [] w := by
  simp only [Call.run, silent, h]

theorem run_endBlock {w : Writer} (h : Writer.endBlock l.writer = .ok () w) :
    Call.run .endBlock l.writer = .ok [] w := by
  simp only [Call.run, silent, h]

theorem Bracketed.ends_message (h : l.Bracketed) (hs : l.writer.IsSpaced) {w : Writer}
    (hend : endMessage l.writer = .ok () w) :
    ∃ tag front field body, l.begun = some (tag, front.length) ∧ field.length = lengthFieldSize ∧
      l.writer.contents = front ++ tag :: field ++ body ∧
      w.contents =
        front ++ tag :: BigEndian.encode lengthFieldSize (lengthFieldSize + body.length) ++ body := by
  have heffect := Call.effect .endMessage l.writer
  rw [run_endMessage hend] at heffect
  cases heffect with
  | push _ hpush => exact hpush.elim
  | @endMessage tag offset w' ht hr hfill =>
    obtain ⟨start, blocks, hin⟩ := h.inMessage tag ht
    obtain rfl : offset = start + 1 := by
      have hlast := congrArg List.getLast? (hr.symm.trans hin.reserved)
      simpa using hlast
    have hroom : start + 1 + lengthFieldSize ≤ l.writer.bytes.size :=
      hs.of_mem (by rw [hr]; simp)
    obtain ⟨upToTag, field, body, hlen, hfield, hbefore, hfilled, -⟩ :=
      fillLength_ok (w := { l.writer with reserved := [] }) hroom hfill
    have hbefore : l.writer.contents = upToTag ++ field ++ body := hbefore
    -- the byte in front of the field is the tag
    obtain ⟨front, rfl⟩ : ∃ front, upToTag = front ++ [tag] := by
      have hne : upToTag ≠ [] := List.ne_nil_of_length_eq_add_one hlen
      obtain ⟨front, last, rfl⟩ : ∃ front last, upToTag = front ++ [last] :=
        ⟨_, _, (List.dropLast_concat_getLast hne).symm⟩
      have hstart : start = front.length := by simpa using hlen.symm
      have htag := hin.tag
      rw [hbefore, hstart, List.append_assoc, List.append_assoc,
        List.getElem?_append_right (Nat.le_refl _), Nat.sub_self] at htag
      obtain rfl : last = tag := Option.some.inj htag
      exact ⟨front, rfl⟩
    have hstart : front.length = start := by simpa using hlen
    have hbody : l.writer.bytes.size - (start + 1) = lengthFieldSize + body.length := by
      rw [← length_contents, hbefore]
      simp only [List.length_append, List.length_singleton]
      omega
    rw [hbody] at hfilled
    refine ⟨tag, front, field, body, ?_, hfield, ?_, ?_⟩
    · rw [hstart]
      exact hin.begun
    · rw [hbefore]
      simp
    · show w'.contents = _
      rw [hfilled]
      simp

theorem Bracketed.ends_block (h : l.Bracketed) (hs : l.writer.IsSpaced) {w : Writer}
    (hend : endBlock l.writer = .ok () w) :
    ∃ owners outer front field body, l.owners = .block :: owners ∧
      l.writer.reserved = front.length :: outer ∧ field.length = lengthFieldSize ∧
      l.writer.contents = front ++ field ++ body ∧
      w.contents = front ++ BigEndian.encode lengthFieldSize body.length ++ body := by
  have heffect := Call.effect .endBlock l.writer
  rw [run_endBlock hend] at heffect
  cases heffect with
  | push _ hpush => exact hpush.elim
  | @endBlock offset outer w hr houter hfill =>
    obtain ⟨owners, howners⟩ : ∃ owners, l.owners = .block :: owners := by
      cases ht : l.writer.openTag with
      | none =>
        rw [h.outside ht, hr]
        exact ⟨_, rfl⟩
      | some tag =>
        obtain ⟨start, blocks, hin⟩ := h.inMessage tag ht
        rw [hin.owners]
        cases blocks with
        | nil =>
          have hnil : outer = [] := (List.cons.inj (hr.symm.trans hin.reserved)).2
          exact absurd hnil (houter (by rw [ht]; rfl))
        | cons inner blocks => exact ⟨_, rfl⟩
    have hroom : offset + lengthFieldSize ≤ l.writer.bytes.size := hs.of_mem (by rw [hr]; simp)
    obtain ⟨front, field, body, rfl, hfield, hbefore, hfilled, -⟩ :=
      fillLength_ok (w := { l.writer with reserved := outer }) hroom hfill
    have hbefore : l.writer.contents = front ++ field ++ body := hbefore
    have hbody : l.writer.bytes.size - front.length - lengthFieldSize = body.length := by
      rw [← length_contents, hbefore]
      simp only [List.length_append]
      omega
    rw [hbody] at hfilled
    exact ⟨owners, outer, front, field, body, howners, hr, hfield, hbefore, hfilled⟩

theorem Bracketed.endsItsOwn (h : l.Bracketed) (hs : l.writer.IsSpaced) : l.EndsItsOwn :=
  ⟨fun _ hend => h.ends_message hs hend, fun _ hend => h.ends_block hs hend⟩

/-! ## Any number of calls -/

theorem bracketed_nil : (after []).Bracketed :=
  ⟨fun _ ht => absurd ht (by simp [after]), fun _ => rfl⟩

/-- Orderly calls keep fields and owners together all the way. -/
theorem bracketed_of_orderly {calls : List Call} (h : Orderly calls) {before : List Call}
    (hbefore : before <+: calls) : (after before).Bracketed := by
  induction before using List.reverseRecOn with
  | nil => exact bracketed_nil
  | append_singleton before call ih =>
    have hcall : call.IsOrderly (run before) := h before call hbefore
    have hrest := ih ((List.prefix_append before [call]).trans hbefore)
    have hspaced := isSpaced_run before
    rw [← writer_after] at hcall hspaced
    rw [after_append_singleton]
    exact hrest.next hspaced hcall

/-- Fields and owners stay together in every state that calls lead to exactly if each call is
orderly: no message is begun while a field is reserved, and none is ended that is too long. In all
these states the end of a message fills in the length of the message that was begun last, the end of
a block fills in the length of a block, and neither touches anything else. -/
theorem bracketed_iff_orderly (calls : List Call) :
    ((∀ before, before <+: calls → (after before).Bracketed) ↔ Orderly calls) ∧
    (Orderly calls → ∀ before, before <+: calls → (after before).EndsItsOwn) := by
  refine ⟨⟨?_, ?_⟩, ?_⟩
  · intro h before call hprefix
    have hlast := h (before ++ [call]) hprefix
    have hbefore := h before ((List.prefix_append before [call]).trans hprefix)
    rw [after_append_singleton] at hlast
    have horderly := isOrderly_of_next hbefore.length_owners hlast
    rw [writer_after] at horderly
    exact horderly
  · intro h before hprefix
    exact bracketed_of_orderly h hprefix
  · intro h before hprefix
    have hspaced := isSpaced_run before
    rw [← writer_after] at hspaced
    exact (bracketed_of_orderly h hprefix).endsItsOwn hspaced

/-- A message with a block, and an attempt to begin a second message within it. -/
def nestedCalls : List Call :=
  [.beginMessage 0x44, .beginBlock, .raw [7], .beginMessage 0x45, .endBlock, .endMessage]

theorem bracketed_iff_orderly_nested :
    Orderly nestedCalls ∧ (∀ before, before <+: nestedCalls → (after before).Bracketed) ∧
      (after (nestedCalls.take 5)).EndsItsOwn ∧
      (run nestedCalls).contents = [0x44, 0, 0, 0, 9, 0, 0, 0, 1, 7] := by
  have hfirst : Call.IsOrderly (run []) (.beginMessage 0x44) := fun _ => rfl
  have hfilled : Orderly [.beginMessage 0x44, .beginBlock, .raw [7]] :=
    ((orderly_nil.concat _ hfirst).concat .beginBlock trivial).concat (.raw [7]) trivial
  have hsecond : Call.IsOrderly (run [.beginMessage 0x44, .beginBlock, .raw [7]])
      (.beginMessage 0x45) := fun ht => absurd ht (by decide)
  have hbegun : Orderly [.beginMessage 0x44, .beginBlock, .raw [7], .beginMessage 0x45, .endBlock] :=
    (hfilled.concat _ hsecond).concat .endBlock trivial
  have horderly : Orderly nestedCalls := by
    refine hbegun.concat .endMessage ?_
    intro tag offset _ hr
    obtain rfl : 1 = offset := (List.cons.inj hr).1
    decide
  obtain ⟨hiff, hends⟩ := bracketed_iff_orderly nestedCalls
  exact ⟨horderly, hiff.mpr horderly, hends horderly _ (List.take_prefix _ _), by decide⟩

/-- A message that is begun within a block. -/
def wrappedCalls : List Call := [.beginBlock, .beginMessage 0x44]

/-- Such a message does not get the outermost field. The end of the block fills in the length of the
message, and the end of the message that of the block. -/
theorem not_bracketed_wrapped :
    (run wrappedCalls).openTag = some 0x44 ∧
      ¬ (after wrappedCalls).Bracketed ∧ ¬ (after wrappedCalls).EndsItsOwn ∧
      (run (wrappedCalls ++ [.raw [7], .endBlock, .endMessage])).contents =
        [0, 0, 0, 10, 0x44, 0, 0, 0, 1, 7] := by
  refine ⟨by decide, ?_, ?_, by decide⟩
  · intro h
    obtain ⟨start, blocks, hin⟩ := h.inMessage 0x44 (by decide)
    have howners : (after wrappedCalls).owners = [.message, .block] := by decide
    have hlast := congrArg List.getLast? (howners.symm.trans hin.owners)
    exact absurd hlast (by simp)
  · intro h
    obtain ⟨w, hend⟩ : ∃ w, endBlock (after wrappedCalls).writer = .ok () w := ⟨_, rfl⟩
    obtain ⟨owners, _, _, _, _, howners, -⟩ := h.block w hend
    exact absurd (List.cons.inj howners).1 (by decide)

end Ledger

end EdgeClient.Writer
