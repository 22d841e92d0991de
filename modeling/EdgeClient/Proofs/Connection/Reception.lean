import EdgeClient.Proofs.Connection.Transfers
import EdgeClient.Proofs.Wire.Reassembly

/-!
# Received messages are neither lost nor repeated

A read may fail between any two bytes of a frame, and a frame may not decode; the user of the
connection goes on. A read that fails costs the receive that hit upon it and nothing else: the other
answers are what the frames of the server's bytes decode to, one after the other.

`ServerMessage.answer` is the sequence that the bytes fix. A receive takes its first answer off it
or reports a read that failed (`receipt`); the rest is induction on the transfers (`account`).
-/

namespace EdgeClient

/-! ## The answers that bytes give -/

/-- The `k`-th answer that bytes give which are all that is ever received: what their `k`-th frame
decodes to. After the last frame it is always the same: the next header is refused, or there are no
more messages. -/
def ServerMessage.answer (ending : Ending) (bs : Bytes) (k : Nat) :
    Except (Stop ConnectionError) ServerMessage :=
  match (Inbox.drain ⟨bs⟩).frames[k]? with
  | some f => (ServerMessage.decode f).mapError fun e => .failed (.wire e)
  | none =>
    match (Inbox.drain ⟨bs⟩).error with
    | some e => .error (.failed (.wire e))
    | none =>
      match ending with
      | .closed => .error (.failed .closed)
      | .silent => .error .gaveUp

/-- Whether an answer tells something about a frame. The others say that a read has failed, that the
server has closed its side, or that the client would wait for ever. -/
def isDecision : Except (Stop ConnectionError) ServerMessage → Bool
  | .error (.failed (.io _)) | .error (.failed .closed) | .error .gaveUp => false
  | _ => true

/-- How a read has failed, if this is what an answer says. -/
def readFailure? : Except (Stop ConnectionError) ServerMessage → Option IoFailure
  | .error (.failed (.io reason)) => some reason
  | _ => none

/-- The answers that do not report a read that failed. -/
def withoutReadFailures (rs : List (Except (Stop ConnectionError) ServerMessage)) :
    List (Except (Stop ConnectionError) ServerMessage) :=
  rs.filter fun r => (readFailure? r).isNone

theorem readFailure?_of_isDecision {r : Except (Stop ConnectionError) ServerMessage}
    (h : isDecision r = true) : readFailure? r = none := by
  unfold readFailure?
  split
  · exact absurd h (by simp [isDecision])
  · rfl

theorem withoutReadFailures_of_none {rs : List (Except (Stop ConnectionError) ServerMessage)}
    (h : rs.filterMap readFailure? = []) : withoutReadFailures rs = rs := by
  refine List.filter_eq_self.mpr fun r hr => ?_
  exact Option.isNone_iff_eq_none.mpr (List.filterMap_eq_nil_iff.mp h r hr)

namespace ServerMessage

variable {ending : Ending} {bs : Bytes}

/-- What comes of the next receive is the first answer, and the bytes that are left then give the
other answers. -/
theorem answer_next (ending : Ending) (bs : Bytes) :
    answer ending bs 0 = (next ending bs).1 ∧
      ∀ k, answer ending bs (k + 1) = answer ending (next ending bs).2 k := by
  unfold answer next
  cases hnext : Inbox.next? ⟨bs⟩ with
  | error e =>
    have hdrain := Inbox.drain_of_error hnext
    simp only [hdrain, List.getElem?_nil, true_and, implies_true]
  | ok taken =>
    cases taken with
    | none =>
      have hdrain := Inbox.drain_of_incomplete hnext
      cases ending <;> simp only [hdrain, List.getElem?_nil, true_and, implies_true]
    | some taken =>
      obtain ⟨f, rest⟩ := taken
      have hdrain := Inbox.drain_of_frame hnext
      cases hd : decode f with
      | ok m | error e =>
        simp only [hdrain, List.getElem?_cons_zero, List.getElem?_cons_succ, hd, Except.mapError,
          true_and, implies_true]

theorem readFailure?_answer (ending : Ending) (bs : Bytes) (k : Nat) :
    readFailure? (answer ending bs k) = none := by
  unfold answer
  split
  · cases decode _ <;> rfl
  · split
    · rfl
    · cases ending <;> rfl

/-- Once the bytes tell nothing more about frames they never do again. -/
theorem isDecision_answer_of_succ {k : Nat} (h : isDecision (answer ending bs (k + 1)) = true) :
    isDecision (answer ending bs k) = true := by
  unfold answer at h ⊢
  cases hk : (Inbox.drain ⟨bs⟩).frames[k]? with
  | some f =>
    dsimp only
    cases decode f <;> rfl
  | none =>
    have hlast : (Inbox.drain ⟨bs⟩).frames[k + 1]? = none := by
      rw [List.getElem?_eq_none_iff] at hk ⊢
      omega
    rw [hlast] at h
    exact h

end ServerMessage

/-- A list that consists of the first values of a sequence, of which no later one has a property
that an earlier one lacks, still does when only those with the property are left. -/
theorem getElem?_filter_of_firsts {α : Type} {p : α → Bool} {xs : List α} {f : Nat → α}
    (hp : ∀ k, p (f (k + 1)) = true → p (f k) = true) (hf : ∀ k x, xs[k]? = some x → f k = x)
    {k : Nat} {x : α} (h : (xs.filter p)[k]? = some x) : f k = x := by
  induction xs generalizing f k with
  | nil => exact absurd h (by simp)
  | cons x₀ xs ih =>
    have hfirst : f 0 = x₀ := hf 0 x₀ rfl
    have hrest : ∀ k x, xs[k]? = some x → f (k + 1) = x := fun k x h => hf (k + 1) x h
    by_cases hx : p x₀ = true
    · rw [List.filter_cons_of_pos hx] at h
      cases k with
      | zero => exact hfirst.trans (Option.some.inj h)
      | succ k => exact ih (fun k => hp (k + 1)) hrest h
    · -- nothing is left of the list, since what comes later lacks the property as well
      have hnone : ∀ k, p (f k) ≠ true := by
        intro k
        induction k with
        | zero => rwa [hfirst]
        | succ k ihk => exact fun hk => ihk (hp k hk)
      rw [List.filter_cons_of_neg hx] at h
      obtain ⟨hmem, hpx⟩ := List.mem_filter.mp (List.mem_of_getElem? h)
      obtain ⟨i, hi⟩ := List.mem_iff_getElem?.mp hmem
      rw [← hrest i x hi] at hpx
      exact absurd hpx (hnone _)

namespace Connection

variable {c : Connection}

/-! ## One receive -/

/-- What can come of a receive: it reports the first failure to come, or it takes an answer off the
sequence. -/
inductive Receipt (c : Connection) :
    Except (Stop ConnectionError) ServerMessage → Connection → Prop where
  | broken {reason : IoFailure} {c' : Connection} :
    c'.transport.ending = c.transport.ending → c'.unread = c.unread →
    c.transport.failures = reason :: c'.transport.failures →
      Receipt c (.error (.failed (.io reason))) c'
  | answered {c' : Connection} : c'.transport.ending = c.transport.ending →
    (∀ k, ServerMessage.answer c.transport.ending c.unread (k + 1) =
      ServerMessage.answer c.transport.ending c'.unread k) →
    c'.transport.failures = c.transport.failures →
      Receipt c (ServerMessage.answer c.transport.ending c.unread 0) c'

theorem receipt (hc : c.transport.IsUnprompted) :
    Receipt c (answerOf (recv c)) (Transfer.after .recv c) := by
  have hending : (leftBehind (recv c)).transport.ending = c.transport.ending := by
    obtain ⟨inbox, incoming, now, h⟩ := leftBehind_recv c
    rw [h]
  obtain ⟨-, ⟨reason, hanswer, hunread, -, hfailures⟩ | ⟨hanswer, hunread, hfailures⟩⟩ :=
    recv_of_isUnprompted hc
  · rw [hanswer]
    exact .broken hending hunread hfailures
  · obtain ⟨hfirst, hnext⟩ := ServerMessage.answer_next c.transport.ending c.unread
    rw [← hunread] at hnext
    rw [hanswer, ← hfirst]
    exact .answered hending hnext hfailures

/-! ## Receives one after the other -/

/-- What the answers of receives come to that lead from one connection to another. -/
structure Account (c : Connection) (rs : List (Except (Stop ConnectionError) ServerMessage))
    (c' : Connection) : Prop where
  /-- Those that report no failure are the first answers that the unread bytes give. -/
  answers : ∀ k r, (withoutReadFailures rs)[k]? = some r →
    ServerMessage.answer c.transport.ending c.unread k = r
  /-- The others report the first of the failures to come. -/
  failures : c.transport.failures = rs.filterMap readFailure? ++ c'.transport.failures

namespace Account

variable {c₁ c' : Connection} {rs : List (Except (Stop ConnectionError) ServerMessage)}
  {r : Except (Stop ConnectionError) ServerMessage}

theorem nil (c : Connection) : Account c [] c := ⟨by simp [withoutReadFailures], rfl⟩

theorem of_sameReception (h : Transfer.SameReception c c₁) (ha : Account c₁ rs c') :
    Account c rs c' := by
  obtain ⟨hanswers, hfailures⟩ := ha
  rw [h.unread, h.ending] at hanswers
  rw [h.failures] at hfailures
  exact ⟨hanswers, hfailures⟩

theorem cons (hr : Receipt c r c₁) (ha : Account c₁ rs c') : Account c (r :: rs) c' := by
  obtain ⟨hanswers, hfailures⟩ := ha
  cases hr with
  | @broken reason _ hending hunread hbroken =>
    rw [hending, hunread] at hanswers
    refine ⟨hanswers, ?_⟩
    rw [hbroken, hfailures]
    rfl
  | answered hending hnext hsame =>
    have hnone := ServerMessage.readFailure?_answer c.transport.ending c.unread 0
    rw [hending] at hanswers
    refine ⟨fun k r' hk => ?_, ?_⟩
    · rw [withoutReadFailures, List.filter_cons_of_pos (by rw [hnone]; rfl)] at hk
      cases k with
      | zero => exact Option.some.inj hk
      | succ k =>
        rw [hnext]
        exact hanswers k r' hk
    · rw [List.filterMap_cons_none hnone, ← hsame]
      exact hfailures

/-- Leaving out also the answers that there are no more messages changes nothing about the others,
since those come last. -/
theorem decisions (ha : Account c rs c') {k : Nat} (h : (rs.filter isDecision)[k]? = some r) :
    ServerMessage.answer c.transport.ending c.unread k = r := by
  have hfilter : rs.filter isDecision = (withoutReadFailures rs).filter isDecision := by
    rw [withoutReadFailures, List.filter_filter]
    refine List.filter_congr fun r _ => ?_
    cases hr : isDecision r with
    | true => rw [readFailure?_of_isDecision hr, Bool.true_and]; rfl
    | false => rfl
  rw [hfilter] at h
  exact getElem?_filter_of_firsts (fun k => ServerMessage.isDecision_answer_of_succ) ha.answers h

end Account

/-- Whatever transfers are made, their receives take the answers off the sequence in order, and the
peer still waits for nothing. -/
theorem account (hc : c.transport.IsUnprompted) (transfers : List Transfer) :
    (Transfer.afterAll transfers c).transport.IsUnprompted ∧
      Account c (Transfer.answers transfers c) (Transfer.afterAll transfers c) := by
  induction transfers generalizing c with
  | nil => exact ⟨hc, .nil c⟩
  | cons transfer transfers ih =>
    cases transfer with
    | send message =>
      have hsame := Transfer.sameReception_send message c
      obtain ⟨hafter, haccount⟩ := ih (hsame.unprompted hc)
      exact ⟨hafter, .of_sameReception hsame haccount⟩
    | recv =>
      obtain ⟨hafter, haccount⟩ := ih (recv_of_isUnprompted hc).1
      exact ⟨hafter, .cons (receipt hc) haccount⟩

/-- Over a calm connection the receives answer one after the other what the sequence says. -/
theorem answers_of_isCalm (hc : c.transport.IsCalm) (count : Nat) :
    Transfer.answers (List.replicate count .recv) c =
      (List.range count).map (ServerMessage.answer c.transport.ending c.unread) := by
  obtain ⟨hunprompted, hcalm⟩ := Transport.isCalm_iff.mp hc
  obtain ⟨-, hanswers, hfailures⟩ := account hunprompted (List.replicate count .recv)
  rw [hcalm, List.nil_eq, List.append_eq_nil_iff] at hfailures
  rw [withoutReadFailures_of_none hfailures.1] at hanswers
  have hlength : (Transfer.answers (List.replicate count .recv) c).length = count :=
    Transfer.length_answers_replicate count c
  refine List.ext_getElem (by simp [hlength]) fun k h h' => ?_
  rw [List.getElem_map, List.getElem_range]
  exact (hanswers k _ (List.getElem?_eq_getElem h)).symm

/-! ## What a receive that fails leaves behind -/

/-- A read that fails takes nothing off the bytes. -/
theorem recv_of_readFailure {reason : IoFailure} (hc : c.transport.IsUnprompted)
    (h : answerOf (recv c) = .error (.failed (.io reason))) :
    c.inbox.pending <+: (leftBehind (recv c)).inbox.pending ∧
      (leftBehind (recv c)).unread = c.unread := by
  obtain ⟨-, ⟨reason', -, hunread, hpending, -⟩ | ⟨hanswer, -⟩⟩ := recv_of_isUnprompted hc
  · exact ⟨hpending, hunread⟩
  · have hnone := ServerMessage.readFailure?_answer c.transport.ending c.unread 0
    rw [(ServerMessage.answer_next _ _).1, ← hanswer, h] at hnone
    exact absurd hnone (by simp [readFailure?])

theorem recv_of_refused {e : WireError} (h : c.inbox.next? = .error e) :
    recv c = .error (.failed (.wire e)) c := by
  rw [recv_eq, h]

theorem answers_of_refused {e : WireError} (h : c.inbox.next? = .error e)
    (transfers : List Transfer) :
    ∀ r ∈ Transfer.answers transfers c, r = .error (.failed (.wire e)) := by
  induction transfers generalizing c with
  | nil => simp [Transfer.answers]
  | cons transfer transfers ih =>
    cases transfer with
    | send message =>
      have hsame := Transfer.sameReception_send message c
      exact ih (by rw [hsame.inbox]; exact h)
    | recv =>
      have hr := recv_of_refused h
      rw [Transfer.answers, Transfer.after, hr]
      exact List.forall_mem_cons.mpr ⟨rfl, ih h⟩

end Connection

/-! ## A peer with reads that fail -/

/-- The peer that does the same without failing. -/
def Peer.withoutFailures (peer : Peer) : Peer :=
  { peer with deliveries := peer.deliveries.filter fun d => d.failure?.isNone }

theorem Peer.chunk_withoutFailures (peer : Peer) :
    peer.withoutFailures.deliveries.flatMap Delivery.chunk =
      peer.deliveries.flatMap Delivery.chunk := by
  show (peer.deliveries.filter fun d => d.failure?.isNone).flatMap Delivery.chunk = _
  induction peer.deliveries with
  | nil => rfl
  | cons d ds ih =>
    cases d with
    | failure reason => exact ih
    | bytes chunk | pause n | afterFrames count =>
      rw [List.filter_cons_of_pos rfl, List.flatMap_cons, List.flatMap_cons, ih]

theorem Peer.isCalm_withoutFailures {peer : Peer} (h : ∀ d ∈ peer.deliveries, d.IsUnprompted) :
    (Transport.toPeer peer.withoutFailures).IsCalm := by
  refine ⟨fun d hd => ?_, rfl, rfl⟩
  obtain ⟨hmem, hnone⟩ := List.mem_filter.mp hd
  exact d.isCalm_iff.mpr ⟨h d hmem, Option.isNone_iff_eq_none.mp hnone⟩

/-- What a peer sends is received in order: `rs` is what receives over a connection to it have
answered, and `c` is the connection after that. -/
structure Peer.IsHeardInOrder (peer : Peer)
    (rs : List (Except (Stop ConnectionError) ServerMessage)) (c : Connection) : Prop where
  /-- Leaving out those that hit upon a failing read, the `k`-th receive answers what the `k`-th
  frame of all the peer's bytes decodes to, and the same refusal or the end of the messages after
  the last one. -/
  answers : ∀ k r, (withoutReadFailures rs)[k]? = some r →
    ServerMessage.answer peer.ending (peer.deliveries.flatMap Delivery.chunk) k = r
  /-- So does the `k`-th one of those that answer something about a frame. -/
  decisions : ∀ k r, (rs.filter isDecision)[k]? = some r →
    ServerMessage.answer peer.ending (peer.deliveries.flatMap Delivery.chunk) k = r
  /-- As many receives from the peer that does not fail answer the same. -/
  sameAnswers : withoutReadFailures rs =
    Transfer.answers (List.replicate (withoutReadFailures rs).length .recv)
      { transport := .toPeer peer.withoutFailures }
  /-- Each failing read is reported at most once, and none is left out. -/
  failures : rs.filterMap readFailure? <+: peer.deliveries.filterMap Delivery.failure?
  /-- A failing read keeps the bytes that have been received, and takes none off the unread ones. -/
  keeps : ∀ reason, answerOf c.recv = .error (.failed (.io reason)) →
    c.inbox.pending <+: (leftBehind c.recv).inbox.pending ∧ (leftBehind c.recv).unread = c.unread
  /-- If a header is refused then for its length, and every later receive refuses it again. -/
  refuses : ∀ e, c.inbox.next? = .error e →
    (∃ tag length, length.toNat < lengthFieldSize ∧ e = .invalidLength tag length) ∧
      ∀ more, ∀ r ∈ Transfer.answers more c, r = .error (.failed (.wire e))

namespace Connection

/-- Over a connection to a peer that may fail at any read but waits for nothing, what it sends is
received in order, whatever is sent in between. -/
theorem isHeardInOrder {peer : Peer} (hpeer : ∀ d ∈ peer.deliveries, d.IsUnprompted)
    (transfers : List Transfer) :
    peer.IsHeardInOrder (Transfer.answers transfers { transport := .toPeer peer })
      (Transfer.afterAll transfers { transport := .toPeer peer }) := by
  have hc : (Transport.toPeer peer).IsUnprompted := ⟨hpeer, rfl, rfl⟩
  have hclean := Peer.isCalm_withoutFailures hpeer
  obtain ⟨hafter, ha⟩ := account (c := { transport := .toPeer peer }) hc transfers
  refine ⟨ha.answers, fun k r => ha.decisions, ?_, ⟨_, ha.failures.symm⟩,
    fun reason => recv_of_readFailure hafter,
    fun e h => ⟨Inbox.error_of_next? h, answers_of_refused h⟩⟩
  -- both lists have the same length, and either one consists of the first answers of the sequence
  rw [answers_of_isCalm (c := { transport := .toPeer peer.withoutFailures }) hclean]
  refine List.ext_getElem (by simp) fun k h _ => ?_
  rw [← ha.answers k _ (List.getElem?_eq_getElem h), List.getElem_map, List.getElem_range]
  exact congrArg (ServerMessage.answer peer.ending · k) peer.chunk_withoutFailures.symm

/-- A peer with a failure inside either of two frames, of which the second one does not decode, and
with a header behind them that is too short. -/
def falteringPeer : Peer where
  deliveries := [.bytes [0x5a, 0, 0], .failure .connectionReset, .bytes [0, 7, 0, 0, 0x49, 0x4b],
    .pause 5, .failure .timedOut, .bytes [0, 0, 0, 5, 0xff, 0x5a, 0, 0, 0, 3],
    .failure .connectionReset]

/-- Seven receives, with something sent after the first and the fourth. -/
def mixedTransfers : List Transfer :=
  [.recv, .send .terminate, .recv, .recv, .recv, .send .terminate, .recv, .recv, .recv]

theorem isHeardInOrder_falteringPeer :
    (∀ d ∈ falteringPeer.deliveries, d.IsUnprompted) ∧
      falteringPeer.IsHeardInOrder
        (Transfer.answers mixedTransfers { transport := .toPeer falteringPeer })
        (Transfer.afterAll mixedTransfers { transport := .toPeer falteringPeer }) ∧
      Transfer.answers mixedTransfers { transport := .toPeer falteringPeer } =
        [.error (.failed (.io .connectionReset)), .ok (.readyForCommand .notInTransaction),
          .error (.failed (.io .timedOut)), .error (.failed (.wire (.underrun 32 1))),
          .error (.failed (.wire (.invalidLength 0x5a 3))),
          .error (.failed (.wire (.invalidLength 0x5a 3))),
          .error (.failed (.wire (.invalidLength 0x5a 3)))] := by
  have hpeer : ∀ d ∈ falteringPeer.deliveries, d.IsUnprompted := by
    simp [falteringPeer, Delivery.IsUnprompted]
  exact ⟨hpeer, isHeardInOrder hpeer _, by decide +kernel⟩

end Connection

end EdgeClient
