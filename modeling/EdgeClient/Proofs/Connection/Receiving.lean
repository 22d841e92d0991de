import EdgeClient.Connection.Basic
import EdgeClient.Proofs.Connection.Outcomes
import EdgeClient.Proofs.Wire.Framing

/-!
# Which message is received

A receive reads from the transport only while the bytes at hand do not make up a frame, so how the
bytes were cut into deliveries does not show. Whatever the transport does, a message that is
received was decoded from the first frame of the unread bytes (`recv_ok`). `ServerMessage.next` says
from the unread bytes alone what comes of a receive, unless a read fails on the way, which takes
nothing off them (`recv_of_isUnprompted`). When no read fails this is all that can come of it
(`recv_of_isCalm`), and the first frame of the unread bytes is also received (`recv_of_frame`).
-/

namespace EdgeClient

/-- Whether a delivery happens whatever the client does, and does no harm. -/
def Delivery.IsCalm : Delivery → Prop
  | .bytes _ | .pause _ => True
  | .failure _ | .afterFrames _ => False

/-- Whether a delivery happens whatever the client does; it may be a failure. -/
def Delivery.IsUnprompted : Delivery → Prop
  | .bytes _ | .pause _ | .failure _ => True
  | .afterFrames _ => False

/-- The failure that a delivery is, if it is one. -/
def Delivery.failure? : Delivery → Option IoFailure
  | .failure reason => some reason
  | _ => none

theorem Delivery.isCalm_iff (d : Delivery) : d.IsCalm ↔ d.IsUnprompted ∧ d.failure? = none := by
  cases d <;> simp [IsCalm, IsUnprompted, failure?]

namespace Transport

/-- A transport that delivers without failing, to a client that waits as long as it takes. -/
structure IsCalm (t : Transport) : Prop where
  /-- No delivery is a failure or waits for the client. -/
  deliveries : ∀ d ∈ t.incoming, d.IsCalm
  /-- The client has no deadline. -/
  deadline : t.deadline = none
  /-- Nobody stops the client. -/
  stopAt : t.stopAt = none

/-- A transport that delivers or fails on its own, to a client that waits as long as it takes. -/
structure IsUnprompted (t : Transport) : Prop where
  /-- No delivery waits for the client. -/
  deliveries : ∀ d ∈ t.incoming, d.IsUnprompted
  /-- The client has no deadline. -/
  deadline : t.deadline = none
  /-- Nobody stops the client. -/
  stopAt : t.stopAt = none

/-- How the reads that are going to fail will fail, in order. -/
def failures (t : Transport) : List IoFailure := t.incoming.filterMap Delivery.failure?

theorem isCalm_iff {t : Transport} : t.IsCalm ↔ t.IsUnprompted ∧ t.failures = [] := by
  simp only [failures, List.filterMap_eq_nil_iff]
  constructor
  · intro h
    have hd : ∀ d ∈ t.incoming, d.IsUnprompted ∧ d.failure? = none :=
      fun d hmem => d.isCalm_iff.mp (h.deliveries d hmem)
    exact ⟨⟨fun d hmem => (hd d hmem).1, h.deadline, h.stopAt⟩, fun d hmem => (hd d hmem).2⟩
  · rintro ⟨h, hnone⟩
    exact ⟨fun d hd => d.isCalm_iff.mpr ⟨h.deliveries d hd, hnone d hd⟩, h.deadline, h.stopAt⟩

theorem IsCalm.isPatient {t : Transport} (h : t.IsCalm) : t.isPatient = true := by
  simp [Transport.isPatient, h.deadline, h.stopAt]

theorem IsUnprompted.actsAt {t : Transport} (h : t.IsUnprompted) (moment : Nat) :
    t.actsAt moment = true := by
  simp [Transport.actsAt, h.deadline, h.stopAt]

/-- Whether a transport is calm does not depend on what the client does to it. -/
theorem IsCalm.withLog {t : Transport} (h : t.IsCalm) (limits : Limits) (log : List Event) :
    IsCalm { t with limits, log } :=
  ⟨h.deliveries, h.deadline, h.stopAt⟩

/-- A read moves on in time and in what the peer does; nothing else changes. -/
theorem readFrom_ok {incoming : List Delivery} {t t' : Transport} {bs : Bytes}
    (h : readFrom incoming t = .ok bs t') :
    ∃ incoming' now', t' = { t with incoming := incoming', now := now' } := by
  fun_induction readFrom incoming t with
  | case1 => exact ⟨_, _, (EStateM.Result.ok.inj h).2.symm⟩
  | case2 | case6 | case7 | case9 => exact absurd h (by simp)
  | case3 rest t ih => exact ih h
  | case4 => exact ⟨_, _, (EStateM.Result.ok.inj h).2.symm⟩
  | case5 n rest t hn ih =>
    obtain ⟨incoming', now', rfl⟩ := ih h
    exact ⟨incoming', now', rfl⟩
  | case8 count rest t hn ih => exact ih h

theorem readFrom_error {incoming : List Delivery} {t t' : Transport} {e : Stop IoFailure}
    (h : readFrom incoming t = .error e t') :
    ∃ incoming' now', t' = { t with incoming := incoming', now := now' } := by
  fun_induction readFrom incoming t with
  | case1 | case4 => exact absurd h (by simp)
  | case2 | case6 | case7 | case9 => exact ⟨_, _, (EStateM.Result.error.inj h).2.symm⟩
  | case3 rest t ih | case8 count rest t hn ih => exact ih h
  | case5 n rest t hn ih =>
    obtain ⟨incoming', now', rfl⟩ := ih h
    exact ⟨incoming', now', rfl⟩

/-- What can come of a read with `incoming` still to come when the peer waits for nothing: the bytes
or the failure that come first, or, when there are none on their way, what the peer does at its
end. -/
inductive UnpromptedRead (incoming : List Delivery) (t : Transport) :
    EStateM.Result (Stop IoFailure) Transport Bytes → Prop where
  | bytes {b : UInt8} {bs : Bytes} {t' : Transport} : t'.IsUnprompted →
    incoming.filterMap Delivery.failure? = t'.failures → UnpromptedRead incoming t (.ok (b :: bs) t')
  | failed {reason : IoFailure} {t' : Transport} : t'.IsUnprompted →
    incoming.filterMap Delivery.failure? = reason :: t'.failures →
    incoming.flatMap Delivery.chunk = t'.undelivered →
      UnpromptedRead incoming t (.error (.failed reason) t')
  | closed {now : Nat} : incoming.filterMap Delivery.failure? = [] →
    incoming.flatMap Delivery.chunk = [] → t.ending = .closed →
      UnpromptedRead incoming t (.ok [] { t with incoming := [], now })
  | silent {now : Nat} : incoming.filterMap Delivery.failure? = [] →
    incoming.flatMap Delivery.chunk = [] → t.ending = .silent →
      UnpromptedRead incoming t (.error .gaveUp { t with incoming := [], now })

theorem UnpromptedRead.skip {incoming : List Delivery} {t : Transport} {d : Delivery} {moment : Nat}
    {r : EStateM.Result (Stop IoFailure) Transport Bytes} (hd : d.chunk = [])
    (hf : d.failure? = none) (hr : UnpromptedRead incoming { t with now := moment } r) :
    UnpromptedRead (d :: incoming) t r := by
  have hchunks : (d :: incoming).flatMap Delivery.chunk = incoming.flatMap Delivery.chunk := by
    rw [List.flatMap_cons, hd, List.nil_append]
  have hfailures : (d :: incoming).filterMap Delivery.failure? =
      incoming.filterMap Delivery.failure? := List.filterMap_cons_none hf
  cases hr with
  | bytes ht hs => exact .bytes ht (hfailures.trans hs)
  | failed ht hs hu => exact .failed ht (hfailures.trans hs) (hchunks.trans hu)
  | closed hs hnil hend => exact .closed (hfailures.trans hs) (hchunks.trans hnil) hend
  | silent hs hnil hend => exact .silent (hfailures.trans hs) (hchunks.trans hnil) hend

theorem readFrom_of_isUnprompted {incoming : List Delivery} {t : Transport} (ht : t.IsUnprompted)
    (hd : ∀ d ∈ incoming, d.IsUnprompted) : UnpromptedRead incoming t (readFrom incoming t) := by
  have htail : ∀ {d ds}, (∀ d' ∈ d :: ds, Delivery.IsUnprompted d') → ∀ d' ∈ ds, d'.IsUnprompted :=
    fun h d' hmem => h d' (List.mem_cons_of_mem _ hmem)
  fun_induction readFrom incoming t with
  | case1 t he => exact .closed rfl rfl he
  | case2 t he => exact .silent rfl rfl he
  | case3 rest t ih => exact .skip rfl rfl (ih ht (htail hd))
  | case4 b bs rest t => exact .bytes ⟨htail hd, ht.deadline, ht.stopAt⟩ rfl
  | case5 n rest t hn ih =>
    have ht' : ({ t with now := t.now + n } : Transport).IsUnprompted :=
      ⟨ht.deliveries, ht.deadline, ht.stopAt⟩
    exact .skip rfl rfl (ih ht' (htail hd))
  | case6 n rest t hn => exact absurd (ht.actsAt _) hn
  | case7 reason rest t => exact .failed ⟨htail hd, ht.deadline, ht.stopAt⟩ rfl rfl
  | case8 count rest t => exact (hd (.afterFrames count) List.mem_cons_self).elim
  | case9 count rest t => exact (hd (.afterFrames count) List.mem_cons_self).elim

theorem read_of_isUnprompted {t : Transport} (ht : t.IsUnprompted) :
    UnpromptedRead t.incoming t (read t) :=
  readFrom_of_isUnprompted ht ht.deliveries

end Transport

/-- The message that a client gets next, or why it gets none, when the given bytes are all that it
will ever receive; and the bytes that are left then. -/
def ServerMessage.next (ending : Ending) (bs : Bytes) :
    Except (Stop ConnectionError) ServerMessage × Bytes :=
  match Inbox.next? ⟨bs⟩ with
  | .error e => (.error (.failed (.wire e)), bs)
  | .ok none =>
    match ending with
    | .closed => (.error (.failed .closed), bs)
    | .silent => (.error .gaveUp, bs)
  | .ok (some (frame, rest)) =>
    match ServerMessage.decode frame with
    | .ok message => (.ok message, rest.pending)
    | .error e => (.error (.failed (.wire e)), rest.pending)

namespace Connection

variable {c c' : Connection}

/-- What a receive does, without the proof that it ends. -/
theorem recv_eq (c : Connection) :
    recv c = match c.inbox.next? with
      | .error e => .error (.failed (.wire e)) c
      | .ok (some (frame, inbox)) =>
        match ServerMessage.decode frame with
        | .ok message => .ok message { c with inbox }
        | .error e => .error (.failed (.wire e)) { c with inbox }
      | .ok none =>
        match Transport.read c.transport with
        | .error (.failed e) t => .error (.failed (.io e)) { c with transport := t }
        | .error .gaveUp t => .error .gaveUp { c with transport := t }
        | .ok [] t => .error (.failed .closed) { c with transport := t }
        | .ok (b :: bs) t => recv { c with transport := t, inbox := c.inbox.feed (b :: bs) } := by
  rw [recv]
  cases c.inbox.next? with
  | error e => rfl
  | ok taken =>
    cases taken with
    | some taken => rfl
    | none =>
      dsimp only
      split <;> simp only [*]

/-- A message that is received was decoded from the first frame of the unread bytes, which is taken
off them. -/
theorem recv_ok {m : ServerMessage} (h : recv c = .ok m c') :
    (∃ f : Frame, f.Fits ∧ ServerMessage.decode f = .ok m ∧ c.unread = f.toBytes ++ c'.unread) ∧
      ∃ inbox incoming now,
        c' = { c with transport := { c.transport with incoming, now }, inbox } := by
  fun_induction recv c with
  | case1 | case3 | case4 | case5 | case6 => exact absurd h (by simp)
  | case2 c f rest hn m' hd =>
    obtain ⟨rfl, rfl⟩ := EStateM.Result.ok.inj h
    obtain ⟨hp, hf⟩ := Inbox.of_next? hn
    exact ⟨⟨f, hf, hd, by rw [unread, hp, List.append_assoc]; rfl⟩, rest, _, _, rfl⟩
  | case7 c hn b bs t hr ih =>
    obtain ⟨⟨f, hf, hd, hu⟩, inbox, incoming, now, rfl⟩ := ih h
    obtain ⟨incoming', now', rfl⟩ := Transport.readFrom_ok hr
    refine ⟨⟨f, hf, hd, ?_⟩, inbox, incoming, now, rfl⟩
    rw [← hu, unread, unread, Transport.undelivered_of_read hr, Inbox.feed, List.append_assoc]

/-- A receive that fails moves on in the same way. -/
theorem recv_error {stop : Stop ConnectionError} (h : recv c = .error stop c') :
    ∃ inbox incoming now,
      c' = { c with transport := { c.transport with incoming, now }, inbox } := by
  fun_induction recv c with
  | case2 => exact absurd h (by simp)
  | case1 | case3 => exact ⟨_, _, _, (EStateM.Result.error.inj h).2.symm⟩
  | case4 c hn e t hr | case5 c hn t hr =>
    obtain ⟨-, rfl⟩ := EStateM.Result.error.inj h
    obtain ⟨incoming, now, rfl⟩ := Transport.readFrom_error hr
    exact ⟨c.inbox, incoming, now, rfl⟩
  | case6 c hn t hr =>
    obtain ⟨-, rfl⟩ := EStateM.Result.error.inj h
    obtain ⟨incoming, now, rfl⟩ := Transport.readFrom_ok hr
    exact ⟨c.inbox, incoming, now, rfl⟩
  | case7 c hn b bs t hr ih =>
    obtain ⟨inbox, incoming, now, rfl⟩ := ih h
    obtain ⟨incoming', now', rfl⟩ := Transport.readFrom_ok hr
    exact ⟨inbox, incoming, now, rfl⟩

theorem unread_of_exhausted (h : c.transport.undelivered = []) : c.unread = c.inbox.pending := by
  rw [unread, h, List.append_nil]

/-- However a receive ends, it has moved on in time, in what the peer does and in the received bytes;
nothing else changes. -/
theorem leftBehind_recv (c : Connection) :
    ∃ inbox incoming now, leftBehind (recv c) =
      { c with transport := { c.transport with incoming, now }, inbox } := by
  cases hr : recv c with
  | ok m c' => exact (recv_ok hr).2
  | error stop c' => exact recv_error hr

/-- A receive over a transport that waits for nothing. A read that fails keeps all bytes that have
been received and takes none off the unread ones; otherwise the unread bytes, and how they end, fix
the message and what is left. The induction is on the reads: what has been decided about the bytes at
hand is decided about all the unread bytes. -/
theorem recv_of_isUnprompted (hc : c.transport.IsUnprompted) :
    (leftBehind (recv c)).transport.IsUnprompted ∧
      ((∃ reason, answerOf (recv c) = .error (.failed (.io reason)) ∧
          (leftBehind (recv c)).unread = c.unread ∧
          c.inbox.pending <+: (leftBehind (recv c)).inbox.pending ∧
          c.transport.failures = reason :: (leftBehind (recv c)).transport.failures) ∨
        answerOf (recv c) = (ServerMessage.next c.transport.ending c.unread).1 ∧
          (leftBehind (recv c)).unread = (ServerMessage.next c.transport.ending c.unread).2 ∧
          (leftBehind (recv c)).transport.failures = c.transport.failures) := by
  fun_induction recv c with
  | case1 c e hn =>
    have hnext : Inbox.next? ⟨c.unread⟩ = .error e := Inbox.next?_feed_of_error hn _
    refine ⟨hc, Or.inr ?_⟩
    simp only [ServerMessage.next, hnext, answerOf, leftBehind, and_self]
  | case2 c f inbox hn m hd | case3 c f inbox hn e hd =>
    have hnext : Inbox.next? ⟨c.unread⟩ = .ok (some (f, inbox.feed c.transport.undelivered)) :=
      Inbox.next?_feed_of_frame hn _
    refine ⟨hc, Or.inr ?_⟩
    simp only [ServerMessage.next, hnext, hd, answerOf, leftBehind, true_and, and_true]
    rfl
  | case4 c hn e t hr =>
    have hread := Transport.read_of_isUnprompted hc
    rw [hr] at hread
    cases hread with
    | failed ht hs hu =>
      refine ⟨ht, Or.inl ⟨e, rfl, ?_, List.prefix_rfl, hs⟩⟩
      exact congrArg (c.inbox.pending ++ ·) hu.symm
  | case5 c hn t hr =>
    have hread := Transport.read_of_isUnprompted hc
    rw [hr] at hread
    cases hread with
    | silent hs hnil hend =>
      have hu := unread_of_exhausted hnil
      have hnext : ServerMessage.next c.transport.ending c.unread = (.error .gaveUp, c.unread) := by
        simp only [ServerMessage.next, hu, hn, hend]
      refine ⟨⟨by simp [leftBehind], hc.deadline, hc.stopAt⟩, Or.inr ?_⟩
      rw [hnext, hu]
      exact ⟨rfl, List.append_nil _, hs.symm⟩
  | case6 c hn t hr =>
    have hread := Transport.read_of_isUnprompted hc
    rw [hr] at hread
    cases hread with
    | closed hs hnil hend =>
      have hu := unread_of_exhausted hnil
      have hnext : ServerMessage.next c.transport.ending c.unread =
          (.error (.failed .closed), c.unread) := by
        simp only [ServerMessage.next, hu, hn, hend]
      refine ⟨⟨by simp [leftBehind], hc.deadline, hc.stopAt⟩, Or.inr ?_⟩
      rw [hnext, hu]
      exact ⟨rfl, List.append_nil _, hs.symm⟩
  | case7 c hn b bs t hr ih =>
    have hread := Transport.read_of_isUnprompted hc
    rw [hr] at hread
    cases hread with
    | bytes ht hs =>
      have hunread : c.unread = c.inbox.pending ++ (b :: bs) ++ t.undelivered := by
        rw [unread, Transport.undelivered_of_read hr, List.append_assoc]
      have hfailures : c.transport.failures = t.failures := hs
      obtain ⟨incoming, now, rfl⟩ := Transport.readFrom_ok hr
      rw [hunread, hfailures]
      obtain ⟨hunprompted, hcases⟩ := ih ht
      refine ⟨hunprompted, hcases.imp_left ?_⟩
      rintro ⟨reason, ha, hu, hpending, hrest⟩
      exact ⟨reason, ha, hu, (List.prefix_append _ _).trans hpending, hrest⟩

/-- Over a calm transport the next message depends on the unread bytes and on how they end, and so
does what is left of them. -/
theorem recv_of_isCalm (hc : c.transport.IsCalm) :
    ∃ c', c'.transport.IsCalm ∧
      c'.unread = (ServerMessage.next c.transport.ending c.unread).2 ∧
      (recv c = match (ServerMessage.next c.transport.ending c.unread).1 with
        | .ok m => .ok m c'
        | .error stop => .error stop c') ∧
      ∃ inbox incoming now,
        c' = { c with transport := { c.transport with incoming, now }, inbox } := by
  obtain ⟨hunprompted, hnone⟩ := Transport.isCalm_iff.mp hc
  obtain ⟨hafter, ⟨reason, -, -, -, hsome⟩ | ⟨hanswer, hunread, hfailures⟩⟩ :=
    recv_of_isUnprompted hunprompted
  · exact absurd (hnone.symm.trans hsome) (by simp)
  · have hcalm := Transport.isCalm_iff.mpr ⟨hafter, hfailures.trans hnone⟩
    refine ⟨leftBehind (recv c), hcalm, hunread, ?_, leftBehind_recv c⟩
    rw [← hanswer]
    cases recv c <;> rfl

/-- The first frame of the unread bytes is received when the transport is calm. -/
theorem recv_of_frame {f : Frame} {rest : Bytes} (hc : c.transport.IsCalm) (hf : f.Fits)
    (hu : c.unread = f.toBytes ++ rest) :
    ∃ c', c'.transport.IsCalm ∧ c'.unread = rest ∧
      recv c = match ServerMessage.decode f with
        | .ok m => .ok m c'
        | .error e => .error (.failed (.wire e)) c' := by
  obtain ⟨c', hcalm, hunread, hrecv, -⟩ := recv_of_isCalm hc
  refine ⟨c', hcalm, ?_⟩
  cases hd : ServerMessage.decode f with
  | ok m | error e =>
    simp only [hu, ServerMessage.next, Inbox.next?_toBytes hf, hd] at hunread hrecv
    exact ⟨hunread, hrecv⟩

end Connection

/-! ## Streams of messages -/

/-- The bytes are the frames of the given messages, with `rest` after them. -/
inductive Carries : Bytes → List ServerMessage → Bytes → Prop where
  | nil (bs : Bytes) : Carries bs [] bs
  | cons {f : Frame} {m : ServerMessage} {bs : Bytes} {ms : List ServerMessage} {rest : Bytes} :
    f.Fits → ServerMessage.decode f = .ok m → Carries bs ms rest →
      Carries (f.toBytes ++ bs) (m :: ms) rest

namespace Carries

variable {bs rest : Bytes} {ms ms' : List ServerMessage} {frames : List Frame}

theorem of_frames (hf : ∀ f ∈ frames, f.Fits)
    (hd : frames.map ServerMessage.decode = ms.map .ok) (rest : Bytes) :
    Carries (frames.flatMap Frame.toBytes ++ rest) ms rest := by
  induction frames generalizing ms with
  | nil =>
    obtain rfl : ms = [] := List.map_eq_nil_iff.mp hd.symm
    exact .nil _
  | cons f frames ih =>
    cases ms with
    | nil => exact absurd hd (by simp)
    | cons m ms =>
      rw [List.map_cons, List.map_cons, List.cons.injEq] at hd
      rw [List.flatMap_cons, List.append_assoc]
      exact .cons (hf f List.mem_cons_self) hd.1
        (ih (fun f' h => hf f' (List.mem_cons_of_mem _ h)) hd.2)

theorem exists_frames (h : Carries bs ms rest) :
    ∃ frames : List Frame, frames.map ServerMessage.decode = ms.map .ok ∧
      bs = frames.flatMap Frame.toBytes ++ rest := by
  induction h with
  | nil bs => exact ⟨[], rfl, rfl⟩
  | @cons f m _ _ _ hf hd _ ih =>
    obtain ⟨frames, hframes, rfl⟩ := ih
    refine ⟨f :: frames, ?_, ?_⟩
    · rw [List.map_cons, List.map_cons, hd, hframes]
    · rw [List.flatMap_cons, List.append_assoc]

/-- Bytes that carry messages and nothing else begin with whatever messages they carry. -/
theorem prefix_of_all (h : Carries bs ms rest) (hall : Carries bs ms' []) : ms <+: ms' := by
  induction h generalizing ms' with
  | nil => exact List.nil_prefix
  | @cons f m bs ms rest hf hd htail ih =>
    generalize hbs : f.toBytes ++ bs = all at hall
    cases hall with
    | nil => exact absurd hbs (by simp [Frame.toBytes])
    | @cons f' m' bs' ms' _ hf' hd' htail' =>
      have hnext := Inbox.next?_toBytes hf bs
      rw [hbs, Inbox.next?_toBytes hf' bs'] at hnext
      simp only [Except.ok.injEq, Option.some.injEq, Prod.mk.injEq, Inbox.mk.injEq] at hnext
      obtain ⟨rfl, rfl⟩ := hnext
      obtain rfl : m' = m := Except.ok.inj (hd'.symm.trans hd)
      exact List.cons_prefix_cons.mpr ⟨rfl, ih htail'⟩

end Carries

end EdgeClient
