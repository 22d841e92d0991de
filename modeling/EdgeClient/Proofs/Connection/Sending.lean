import EdgeClient.Connection.Basic
import EdgeClient.Proofs.Connection.Outcomes
import EdgeClient.Proofs.Message.ClientFrames

/-!
# What sending does to a transport

A message is offered to the transport until all of its bytes have been accepted, perhaps in several
pieces. `Sent` says what the log of the transport looks like afterwards, whatever the pieces are:
`send_ok` has it for every send that succeeds, `send_sent` for every one, and `send_of_acceptsAll`
says that a send does succeed when the transport accepts everything and the message fits into a
frame. Behind the last one stands `writeAll_eq`: as long as a write accepts anything at all, the
bytes there is room for are written, and that they all are depends on nothing but the room.

Two connections over which transmitting comes to the same are also such that sending does
(`KeptByTransmit.send`).
-/

namespace EdgeClient

/-- Limits under which every write and every flush succeeds. -/
structure Limits.AcceptsAll (limits : Limits) : Prop where
  /-- There is no end to what is accepted. -/
  room : limits.room = none
  /-- Each write makes progress. -/
  perWrite : limits.perWrite ≠ some 0
  /-- Flushing does not fail. -/
  flushFailure : limits.flushFailure = none

/-- The events `after` are those `before`, followed by writes of `bs` in some number of pieces. -/
def Sent (bs : Bytes) (before after : List Event) : Prop :=
  ∃ pieces : List Bytes, after = before ++ pieces.map Event.wrote ∧ pieces.flatten = bs

namespace Sent

variable {bs cs : Bytes} {es es' es'' : List Event}

theorem nothing (es : List Event) : Sent [] es es := ⟨[], by simp, rfl⟩

theorem once (bs : Bytes) (es : List Event) : Sent bs es (es ++ [.wrote bs]) :=
  ⟨[bs], rfl, by simp⟩

theorem trans (h : Sent bs es es') (h' : Sent cs es' es'') : Sent (bs ++ cs) es es'' := by
  obtain ⟨ps, rfl, rfl⟩ := h
  obtain ⟨qs, rfl, rfl⟩ := h'
  exact ⟨ps ++ qs, by simp, by simp⟩

theorem isExtension (h : Sent bs es es') : es <+: es' := by
  obtain ⟨ps, rfl, -⟩ := h
  exact List.prefix_append es _

/-- What was sent is what the transport has accepted on top. -/
theorem bytes_eq (h : Sent bs es es') :
    es'.flatMap Event.bytes = es.flatMap Event.bytes ++ bs := by
  obtain ⟨ps, rfl, rfl⟩ := h
  rw [List.flatMap_append, List.flatMap_map, List.flatten_eq_flatMap]
  rfl

theorem count_shutdown (h : Sent bs es es') : es'.count .shutdown = es.count .shutdown := by
  obtain ⟨ps, rfl, rfl⟩ := h
  have hnone : (ps.map Event.wrote).count .shutdown = 0 := by
    refine List.count_eq_zero.mpr fun hmem => ?_
    obtain ⟨p, -, hp⟩ := List.mem_map.mp hmem
    exact Event.noConfusion hp
  rw [List.count_append, hnone, Nat.add_zero]

end Sent

theorem Limits.accepted_prefix (limits : Limits) (bs : Bytes) : limits.accepted bs <+: bs := by
  unfold Limits.accepted
  cases limits.room with
  | none =>
    cases limits.perWrite with
    | none => exact List.prefix_rfl
    | some most => exact List.take_prefix most bs
  | some free =>
    cases limits.perWrite with
    | none => exact List.take_prefix free bs
    | some most => exact (List.take_prefix most _).trans (List.take_prefix free bs)

/-- Some of what is offered is accepted as long as there is room for it. -/
theorem Limits.exists_accepted {limits : Limits} {bs : Bytes} (hp : limits.perWrite ≠ some 0)
    (hr : limits.room ≠ some 0) (hb : bs ≠ []) :
    ∃ n, limits.accepted bs = bs.take (n + 1) ∧ (limits.accepted bs).length = n + 1 ∧
      ∀ free, limits.room = some free → n + 1 ≤ free := by
  have htake := List.prefix_iff_eq_take.mp (limits.accepted_prefix bs)
  have hpos : 0 < bs.length := List.length_pos_iff.mpr hb
  have hlen : 0 < (limits.accepted bs).length ∧
      ∀ free, limits.room = some free → (limits.accepted bs).length ≤ free := by
    unfold Limits.accepted
    cases hroom : limits.room with
    | none =>
      cases hmost : limits.perWrite with
      | none => exact ⟨hpos, by simp⟩
      | some most =>
        have hne : most ≠ 0 := fun h => hp (by rw [hmost, h])
        refine ⟨?_, by simp⟩
        simp only [List.length_take]
        omega
    | some free =>
      have hne : free ≠ 0 := fun h => hr (by rw [hroom, h])
      cases hmost : limits.perWrite with
      | none =>
        simp only [List.length_take, Option.some.injEq, forall_eq']
        omega
      | some most =>
        have hne' : most ≠ 0 := fun h => hp (by rw [hmost, h])
        simp only [List.length_take, Option.some.injEq, forall_eq']
        omega
  obtain ⟨n, hn⟩ := Nat.exists_eq_succ_of_ne_zero (Nat.ne_of_gt hlen.1)
  refine ⟨n, ?_, hn, fun free hfree => ?_⟩
  · rw [← Nat.succ_eq_add_one, ← hn]
    exact htake
  · have := hlen.2 free hfree
    omega

/-- The part of `bs` that there is room for. -/
def Limits.fitting (limits : Limits) (bs : Bytes) : Bytes :=
  match limits.room with
  | some free => bs.take free
  | none => bs

/-- What is still accepted after `count` more bytes. -/
def Limits.less (limits : Limits) (count : Nat) : Limits :=
  { limits with room := limits.room.map (· - count) }

theorem Limits.less_of_room {limits : Limits} (h : limits.room = none) (count : Nat) :
    limits.less count = limits := by
  rw [less, h, Option.map_none, ← h]

theorem Limits.less_zero (limits : Limits) : limits.less 0 = limits := by
  obtain ⟨room, _, _, _, _⟩ := limits
  cases room <;> rfl

theorem Limits.less_less (limits : Limits) (n m : Nat) :
    (limits.less n).less m = limits.less (n + m) := by
  unfold less
  cases limits.room with
  | none => rfl
  | some free => simp only [Option.map_some, Nat.sub_sub]

theorem Limits.room_less {limits : Limits} {n len : Nat}
    (hn : ∀ free, limits.room = some free → n ≤ free) (hle : n ≤ len) :
    (limits.less n).room.all (len - n ≤ ·) = limits.room.all (len ≤ ·) := by
  unfold less
  cases hroom : limits.room with
  | none => rfl
  | some free =>
    have := hn free hroom
    simp only [Option.map_some, Option.all_some, decide_eq_decide]
    omega

theorem Limits.fitting_nil (limits : Limits) : limits.fitting [] = [] := by
  unfold fitting
  cases limits.room <;> simp

theorem Limits.fitting_less {limits : Limits} {n : Nat} (bs : Bytes)
    (hn : ∀ free, limits.room = some free → n ≤ free) :
    bs.take n ++ (limits.less n).fitting (bs.drop n) = limits.fitting bs := by
  unfold fitting less
  cases hroom : limits.room with
  | none => exact List.take_append_drop n bs
  | some free =>
    have hsum : n + (free - n) = free := by
      have := hn free hroom
      omega
    simp only [Option.map_some]
    rw [← List.take_add, hsum]

/-- An event, byte by byte: `none` is a closing. -/
def Event.trace : Event → List (Option UInt8)
  | .wrote bs => bs.map some
  | .shutdown => [none]

namespace Transport

theorem events_cons (t : Transport) (e : Event) :
    ({ t with log := e :: t.log } : Transport).events = t.events ++ [e] := by
  simp [events]

/-- What the client has done, byte by byte. How the bytes were cut into writes does not show. -/
def trace (t : Transport) : List (Option UInt8) := t.events.flatMap Event.trace

theorem trace_cons (t : Transport) (e : Event) :
    ({ t with log := e :: t.log } : Transport).trace = t.trace ++ e.trace := by
  rw [trace, events_cons, List.flatMap_append, List.flatMap_singleton]
  rfl

/-- Closing is logged, also when it fails. -/
theorem shutdown_cases (t : Transport) :
    shutdown t = .ok () { t with log := .shutdown :: t.log } ∨
      ∃ reason, shutdown t = .error reason { t with log := .shutdown :: t.log } := by
  unfold shutdown
  cases hs : t.limits.shutdownFailure with
  | none => exact Or.inl (by simp only [hs])
  | some reason => exact Or.inr ⟨reason, by simp only [hs]⟩

/-! ## Writing -/

theorem write_ok {bs : Bytes} {t t' : Transport} {n : Nat} (h : write bs t = .ok (n + 1) t') :
    t'.events = t.events ++ [.wrote (bs.take (n + 1))] := by
  unfold write at h
  split at h
  · exact absurd h (by simp)
  · dsimp only at h
    split at h
    · exact absurd h (by simp)
    · rename_i b rest hacc
      simp only [EStateM.Result.ok.injEq] at h
      obtain ⟨hlen, rfl⟩ := h
      have hpre := t.limits.accepted_prefix bs
      rw [hacc] at hpre
      have htake : b :: rest = bs.take (n + 1) := by
        rw [List.prefix_iff_eq_take.mp hpre, hlen]
      rw [← htake]
      exact t.events_cons _

/-- A write that fails, or accepts nothing, does nothing. -/
theorem write_stuck {bs : Bytes} {t t' : Transport}
    (h : (∃ e, write bs t = .error e t') ∨ write bs t = .ok 0 t') : t' = t := by
  unfold write at h
  split at h
  · rcases h with ⟨e, h⟩ | h
    · exact (EStateM.Result.error.inj h).2.symm
    · exact absurd h (by simp)
  · dsimp only at h
    split at h
    · rcases h with ⟨e, h⟩ | h
      · exact absurd h (by simp)
      · exact (EStateM.Result.ok.inj h).2.symm
    · rcases h with ⟨e, h⟩ | h <;> exact absurd h (by simp)

/-- However writing ends, the first of the bytes have been written and nothing else; all of them, if
it succeeds. -/
theorem writeAll_sent (bs : Bytes) (t : Transport) :
    ∃ done, done <+: bs ∧ Sent done t.events (leftBehind (writeAll bs t)).events ∧
      ∀ t', writeAll bs t = .ok () t' → done = bs := by
  fun_induction writeAll bs t with
  | case1 bs t he =>
    obtain rfl : bs = [] := List.isEmpty_iff.mp he
    exact ⟨[], List.nil_prefix, .nothing _, fun _ _ => rfl⟩
  | case2 bs t he e t₁ hw =>
    obtain rfl := write_stuck (Or.inl ⟨e, hw⟩)
    exact ⟨[], List.nil_prefix, .nothing _, fun _ h => absurd h (by simp)⟩
  | case3 bs t he t₁ hw =>
    obtain rfl := write_stuck (Or.inr hw)
    exact ⟨[], List.nil_prefix, .nothing _, fun _ h => absurd h (by simp)⟩
  | case4 bs t he n t₁ hw ih =>
    obtain ⟨done, ⟨rest, hrest⟩, hsent, hall⟩ := ih
    have hfirst : Sent (bs.take (n + 1)) t.events t₁.events := by
      rw [write_ok hw]
      exact .once _ _
    refine ⟨bs.take (n + 1) ++ done, ⟨rest, ?_⟩, hfirst.trans hsent, fun t' h => ?_⟩
    · rw [List.append_assoc, hrest, List.take_append_drop]
    · rw [hall t' h, List.take_append_drop]

theorem writeAll_ok {bs : Bytes} {t t' : Transport} (h : writeAll bs t = .ok () t') :
    Sent bs t.events t'.events := by
  obtain ⟨done, -, hsent, hall⟩ := writeAll_sent bs t
  rw [h] at hsent
  rwa [hall t' h] at hsent

/-- Writing uses up room and is logged; nothing else changes. -/
theorem leftBehind_write (bs : Bytes) (t : Transport) :
    ∃ limits log, leftBehind (write bs t) = { t with limits, log } := by
  unfold write
  split
  · exact ⟨_, _, rfl⟩
  · dsimp only
    split
    · exact ⟨_, _, rfl⟩
    · exact ⟨_, _, rfl⟩

theorem leftBehind_writeAll (bs : Bytes) (t : Transport) :
    ∃ limits log, leftBehind (writeAll bs t) = { t with limits, log } := by
  have hafter : ∀ {bs t r t₁}, write bs t = r → leftBehind r = t₁ →
      ∃ limits log, t₁ = { t with limits, log } := by
    rintro bs t r t₁ rfl rfl
    exact leftBehind_write bs t
  fun_induction writeAll bs t with
  | case1 bs t he => exact ⟨_, _, rfl⟩
  | case2 bs t he e t₁ hw | case3 bs t he t₁ hw => exact hafter hw rfl
  | case4 bs t he n t₁ hw ih =>
    obtain ⟨limits, log, rfl⟩ := hafter hw rfl
    exact ih

theorem leftBehind_flush (t : Transport) : leftBehind (flush t) = t := by
  unfold flush
  cases t.limits.flushFailure <;> rfl

theorem write_of_noRoom {bs : Bytes} {t : Transport} (hr : t.limits.room = some 0) :
    write bs t = match t.limits.writeFailure with
      | some reason => .error reason t
      | none => .ok 0 t := by
  have hnothing : t.limits.accepted bs = [] := by
    unfold Limits.accepted
    rw [hr]
    cases t.limits.perWrite <;> simp
  unfold write
  rw [hr, hnothing]
  cases t.limits.writeFailure <;> rfl

theorem write_of_room {bs : Bytes} {t : Transport} (hp : t.limits.perWrite ≠ some 0)
    (hr : t.limits.room ≠ some 0) (hb : bs ≠ []) :
    ∃ n, n + 1 ≤ bs.length ∧ (∀ free, t.limits.room = some free → n + 1 ≤ free) ∧
      write bs t = .ok (n + 1)
        { t with limits := t.limits.less (n + 1), log := .wrote (bs.take (n + 1)) :: t.log } := by
  obtain ⟨n, htake, hlen, hfree⟩ := Limits.exists_accepted hp hr hb
  refine ⟨n, ?_, hfree, ?_⟩
  · have hle := congrArg List.length htake
    rw [hlen, List.length_take] at hle
    omega
  · unfold write
    split
    · rename_i hroom _
      exact absurd hroom hr
    · dsimp only
      split
      · rename_i hnil
        rw [hnil] at hlen
        exact absurd hlen (by simp)
      · rename_i b rest hcons
        rw [← hcons, hlen, ← htake]
        rfl

theorem writeAll_of_noRoom {bs : Bytes} {t : Transport} (hr : t.limits.room = some 0)
    (hb : bs ≠ []) : writeAll bs t = .error (t.limits.writeFailure.getD .writeZero) t := by
  have he : bs.isEmpty = false := List.isEmpty_eq_false_iff.mpr hb
  rw [writeAll, he, write_of_noRoom hr]
  cases t.limits.writeFailure <;> rfl

theorem writeAll_of_write {bs : Bytes} {t t₁ : Transport} {n : Nat} (hb : bs ≠ [])
    (hw : write bs t = .ok (n + 1) t₁) : writeAll bs t = writeAll (bs.drop (n + 1)) t₁ := by
  have he : bs.isEmpty = false := List.isEmpty_eq_false_iff.mpr hb
  rw [writeAll, he, hw]
  rfl

/-- All bytes are written for which there is room, whatever number of them a write accepts. The
induction is on the bytes that are still to be written. -/
theorem writeAll_eq (bs : Bytes) {t : Transport} (hp : t.limits.perWrite ≠ some 0) :
    ∃ log, ({ t with log } : Transport).trace = t.trace ++ (t.limits.fitting bs).map some ∧
      writeAll bs t =
        if t.limits.room.all (bs.length ≤ ·) then
          .ok () { t with limits := t.limits.less bs.length, log }
        else
          .error (t.limits.writeFailure.getD .writeZero)
            { t with limits := t.limits.less bs.length, log } := by
  induction hlen : bs.length using Nat.strongRecOn generalizing bs t with
  | _ len ih =>
    subst hlen
    by_cases hb : bs = []
    · subst hb
      have hall : t.limits.room.all (([] : Bytes).length ≤ ·) = true := by
        cases t.limits.room <;> simp
      refine ⟨t.log, ?_, ?_⟩
      · rw [Limits.fitting_nil, List.map_nil, List.append_nil]
      · rw [if_pos hall, List.length_nil, Limits.less_zero, writeAll]
        rfl
    · by_cases hroom : t.limits.room = some 0
      · have hall : t.limits.room.all (bs.length ≤ ·) = false := by
          rw [hroom]
          simpa using hb
        have hless : t.limits.less bs.length = t.limits := by
          rw [Limits.less, hroom, Option.map_some, Nat.zero_sub, ← hroom]
        refine ⟨t.log, ?_, ?_⟩
        · simp [Limits.fitting, hroom]
        · rw [writeAll_of_noRoom hroom hb, hall, hless]
          rfl
      · obtain ⟨n, hn, hfree, hw⟩ := write_of_room hp hroom hb
        have hdrop : (bs.drop (n + 1)).length = bs.length - (n + 1) := List.length_drop
        obtain ⟨log, htrace, hall⟩ := ih _ (by omega) (bs.drop (n + 1))
          (t := { t with limits := t.limits.less (n + 1)
                         log := .wrote (bs.take (n + 1)) :: t.log }) hp rfl
        refine ⟨log, ?_, ?_⟩
        · have hfirst : ({ t with limits := t.limits.less (n + 1)
                                  log := .wrote (bs.take (n + 1)) :: t.log } : Transport).trace =
              t.trace ++ (bs.take (n + 1)).map some := t.trace_cons _
          rw [hfirst, List.append_assoc, ← List.map_append, Limits.fitting_less bs hfree] at htrace
          exact htrace
        · have hsum : n + 1 + (bs.length - (n + 1)) = bs.length := by omega
          rw [writeAll_of_write hb hw, hall, hdrop, Limits.less_less, hsum,
            Limits.room_less hfree hn]
          rfl

/-- A transport that accepts everything accepts all that it is offered, and stays as it is. -/
theorem writeAll_of_acceptsAll (bs : Bytes) {t : Transport} (ha : t.limits.AcceptsAll) :
    ∃ log, writeAll bs t = .ok () { t with log } := by
  obtain ⟨log, -, hw⟩ := writeAll_eq bs ha.perWrite
  rw [ha.room, Option.all_none, if_pos rfl, Limits.less_of_room ha.room] at hw
  exact ⟨log, hw⟩

end Transport

namespace Connection

/-! ## Sending a message -/

section

variable {m : ClientMessage} {c c' : Connection}

theorem transmit_ok {bs : Bytes} (h : transmit bs c = .ok () c') :
    Sent bs c.transport.events c'.transport.events ∧
      ∃ t, c' = { c with transport := t } := by
  unfold transmit at h
  split at h
  · exact absurd h (by simp)
  · rename_i t ht
    split at h
    · exact absurd h (by simp)
    · rename_i t' hflush
      obtain ⟨-, rfl⟩ := EStateM.Result.ok.inj h
      unfold Transport.flush at hflush
      split at hflush
      · exact absurd hflush (by simp)
      · obtain ⟨-, rfl⟩ := EStateM.Result.ok.inj hflush
        exact ⟨Transport.writeAll_ok ht, _, rfl⟩

/-- However transmitting ends, the first of the bytes have been written and nothing else. -/
theorem transmit_sent (bs : Bytes) (c : Connection) :
    ∃ done, done <+: bs ∧
      Sent done c.transport.events (leftBehind (transmit bs c)).transport.events := by
  obtain ⟨done, hdone, hsent, -⟩ := Transport.writeAll_sent bs c.transport
  refine ⟨done, hdone, ?_⟩
  unfold transmit
  generalize Transport.writeAll bs c.transport = r at *
  cases r with
  | error e t => exact hsent
  | ok _ t =>
    cases hflush : t.limits.flushFailure with
    | none | some reason =>
      simp only [Transport.flush, hflush]
      exact hsent

theorem leftBehind_transmit (bs : Bytes) (c : Connection) :
    ∃ limits log, leftBehind (transmit bs c) =
      { c with transport := { c.transport with limits, log } } := by
  obtain ⟨limits, log, hwrite⟩ := Transport.leftBehind_writeAll bs c.transport
  refine ⟨limits, log, ?_⟩
  unfold transmit
  generalize Transport.writeAll bs c.transport = r at *
  cases r with
  | error e t =>
    obtain rfl : t = _ := hwrite
    rfl
  | ok _ t =>
    obtain rfl : t = _ := hwrite
    have hflush := Transport.leftBehind_flush { c.transport with limits, log }
    dsimp only
    generalize Transport.flush { c.transport with limits, log } = r at *
    cases r with
    | ok _ t | error e t =>
      obtain rfl : t = _ := hflush
      rfl

/-- However a send ends, it has used up room, logged what was written and changed what is composed;
nothing else changes. -/
theorem leftBehind_send (m : ClientMessage) (c : Connection) :
    ∃ limits log outbox, leftBehind (send m c) =
      { c with transport := { c.transport with limits, log }, outbox } := by
  unfold send
  cases m.write c.outbox with
  | error e w => exact ⟨_, _, _, rfl⟩
  | ok _ w =>
    dsimp only
    unfold flush
    split
    · exact ⟨_, _, _, rfl⟩
    · cases Writer.take w with
      | error e w => exact ⟨_, _, _, rfl⟩
      | ok bs w' =>
        obtain ⟨limits, log, htransmit⟩ := leftBehind_transmit bs { c with outbox := w' }
        exact ⟨limits, log, w', htransmit⟩

theorem transmit_of_acceptsAll (bs : Bytes) (ha : c.transport.limits.AcceptsAll) :
    ∃ log, transmit bs c = .ok () { c with transport := { c.transport with log } } := by
  obtain ⟨log, hw⟩ := Transport.writeAll_of_acceptsAll bs ha
  refine ⟨log, ?_⟩
  unfold transmit
  rw [hw]
  simp only [Transport.flush, ha.flushFailure]

/-- A connection with nothing to send composes a message and transmits it, or refuses it. -/
theorem send_cases (hc : c.outbox.IsIdle) :
    (m.Encodable ∧ send m c = transmit m.frame.toBytes c) ∨
      (¬ m.Encodable ∧ ∃ size, send m c = .error (.failed (.wire (.tooLarge size))) c) := by
  obtain ⟨t, inbox, w, session⟩ := c
  obtain rfl : w = {} := hc
  unfold send
  rcases ClientMessage.write_cases (w := {}) rfl rfl m with ⟨he, hw⟩ | ⟨he, size, w', hw⟩
  · refine Or.inl ⟨he, ?_⟩
    have hne : (({} : Writer).append m.frame.toBytes).bytes.isEmpty = false := by
      simp [Writer.append, Frame.toBytes]
    have htake : Writer.take (({} : Writer).append m.frame.toBytes) =
        .ok m.frame.toBytes {} := by
      simp [Writer.take, Writer.append, Writer.contents]
    simp only [hw, flush, hne, Bool.false_eq_true, if_false, htake]
  · exact Or.inr ⟨he, size, by simp only [hw, Writer.reset]⟩

/-- A send that succeeds has written the frame of its message and nothing else. -/
theorem send_ok (hc : c.outbox.IsIdle) (h : send m c = .ok () c') :
    m.Encodable ∧ Sent m.frame.toBytes c.transport.events c'.transport.events ∧
      c'.outbox.IsIdle ∧ c'.session = c.session := by
  rcases send_cases (m := m) hc with ⟨he, hs⟩ | ⟨-, size, hs⟩
  · obtain ⟨hsent, t, rfl⟩ := transmit_ok (hs.symm.trans h)
    exact ⟨he, hsent, hc, rfl⟩
  · exact absurd (hs.symm.trans h) (by simp)

/-- However a send ends, the first bytes of the message's frame have been written and nothing
else. -/
theorem send_sent (hc : c.outbox.IsIdle) (m : ClientMessage) :
    ∃ done, done <+: m.frame.toBytes ∧
      Sent done c.transport.events (leftBehind (send m c)).transport.events := by
  rcases send_cases (m := m) hc with ⟨-, hs⟩ | ⟨-, size, hs⟩
  · rw [hs]
    exact transmit_sent m.frame.toBytes c
  · rw [hs]
    exact ⟨[], List.nil_prefix, .nothing _⟩

/-- A message that fits into a frame can be sent when the transport accepts everything. -/
theorem send_of_acceptsAll (hc : c.outbox.IsIdle) (ha : c.transport.limits.AcceptsAll)
    (he : m.Encodable) :
    ∃ log, send m c = .ok () { c with transport := { c.transport with log } } := by
  rcases send_cases (m := m) hc with ⟨-, hs⟩ | ⟨hn, -⟩
  · rw [hs]
    exact transmit_of_acceptsAll _ ha
  · exact absurd he hn

end

/-! ## Sending over two connections -/

/-- A relation between connections on which the same is composed, and which transmitting keeps. -/
structure KeptByTransmit (R : Connection → Connection → Prop) : Prop where
  outbox : ∀ {c d}, R c d → c.outbox = d.outbox
  withOutbox : ∀ {c d}, R c d → ∀ outbox, R { c with outbox } { d with outbox }
  transmit : ∀ {c d}, R c d → ∀ bs, SameOutcome R (transmit bs c) (transmit bs d)

namespace KeptByTransmit

variable {R : Connection → Connection → Prop} {c d : Connection}

theorem flush (hR : KeptByTransmit R) (h : R c d) : SameOutcome R (flush c) (flush d) := by
  unfold Connection.flush
  rw [hR.outbox h]
  split
  · exact .ok h
  · cases Writer.take d.outbox with
    | error e w => exact .error (hR.withOutbox h w)
    | ok bs w => exact hR.transmit (hR.withOutbox h w) bs

/-- Sending keeps what transmitting keeps. -/
theorem send (hR : KeptByTransmit R) (h : R c d) (message : ClientMessage) :
    SameOutcome R (send message c) (send message d) := by
  unfold Connection.send
  rw [hR.outbox h]
  cases message.write d.outbox with
  | error e w => exact .error (hR.withOutbox h w.reset)
  | ok _ w => exact hR.flush (hR.withOutbox h w)

end KeptByTransmit

end Connection

end EdgeClient
