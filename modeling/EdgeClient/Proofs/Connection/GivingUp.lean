import EdgeClient.Connection.Patience
import EdgeClient.Proofs.Connection.Startup

/-!
# Giving up only cuts a run short

Two clients may differ in nothing but how long they are willing to wait, over transports that do the
same. Then the one that gives up earlier does what the other one does until it gives up (`Hurries`):
reads wait for the same, writes do not look at the clock, and no answer depends on the time. So a
start with a deadline, or one that is cancelled, either ends as the plain one does or is cut short,
and what it has done by then are the first things that the plain one does.
-/

namespace EdgeClient

/-- One moment is no later than another; a moment that is not set never comes. -/
def NoLater (a b : Option Nat) : Prop :=
  ∀ moment, a.all (moment ≤ ·) = true → b.all (moment ≤ ·) = true

namespace NoLater

theorem never (a : Option Nat) : NoLater a none := fun _ _ => rfl

theorem of_le {n m : Nat} (h : n ≤ m) : NoLater (some n) (some m) := by
  intro moment hn
  simp only [Option.all_some, decide_eq_true_iff] at hn ⊢
  omega

end NoLater

namespace Transport

/-- Two transports that differ only in how long their clients are willing to wait, the first one no
longer than the second. -/
structure Hurries (t u : Transport) : Prop where
  same : u = { t with deadline := u.deadline, stopAt := u.stopAt }
  deadline : NoLater t.deadline u.deadline
  stopAt : NoLater t.stopAt u.stopAt

namespace Hurries

variable {t u : Transport}

theorem exists_eq (h : Hurries t u) : ∃ deadline stopAt, u = { t with deadline, stopAt } :=
  ⟨_, _, h.same⟩

theorem withLog (h : Hurries t u) (limits : Limits) (log : List Event) :
    Hurries { t with limits, log } { u with limits, log } := by
  obtain ⟨hsame, hdeadline, hstop⟩ := h
  refine ⟨?_, hdeadline, hstop⟩
  rw [hsame]

theorem actsAt (h : Hurries t u) {moment : Nat} (ha : t.actsAt moment = true) :
    u.actsAt moment = true := by
  rw [Transport.actsAt, Bool.and_eq_true] at ha ⊢
  exact ⟨h.deadline _ ha.1, h.stopAt (moment + 1) ha.2⟩

theorem isPatient (h : Hurries t u) (hp : t.isPatient = true) : u.isPatient = true := by
  rw [Transport.isPatient, Bool.and_eq_true] at hp ⊢
  rw [h.same]
  exact ⟨h.deadline (t.now + 1) hp.1, h.stopAt (t.now + 1) hp.2⟩

/-- Where the less patient client gets something, or fails, so does the other one. -/
theorem readFrom (h : Hurries t u) (incoming : List Delivery) :
    CutShort Hurries (fun _ _ => True) (readFrom incoming t) (readFrom incoming u) := by
  fun_induction Transport.readFrom incoming t generalizing u with
  | case1 t he =>
    obtain ⟨deadline, stopAt, rfl⟩ := h.exists_eq
    simp only [Transport.readFrom, he]
    exact .same (.ok ⟨rfl, h.deadline, h.stopAt⟩)
  -- the less patient client gives up, whatever the other one does
  | case2 | case6 | case9 => exact .cut trivial
  | case3 rest t ih => exact ih h
  | case4 b bs rest t =>
    obtain ⟨deadline, stopAt, rfl⟩ := h.exists_eq
    exact .same (.ok ⟨rfl, h.deadline, h.stopAt⟩)
  | case5 n rest t hn ih =>
    have hu := h.actsAt hn
    obtain ⟨deadline, stopAt, rfl⟩ := h.exists_eq
    rw [Transport.readFrom, if_pos hu]
    exact ih ⟨rfl, h.deadline, h.stopAt⟩
  | case7 reason rest t =>
    obtain ⟨deadline, stopAt, rfl⟩ := h.exists_eq
    exact .same (.error ⟨rfl, h.deadline, h.stopAt⟩)
  | case8 count rest t hn ih =>
    obtain ⟨deadline, stopAt, rfl⟩ := h.exists_eq
    have hu : count ≤ ({ t with deadline, stopAt } : Transport).framesWritten := hn
    rw [Transport.readFrom, if_pos hu]
    exact ih h

theorem read (h : Hurries t u) : CutShort Hurries (fun _ _ => True) (read t) (read u) := by
  have hincoming : u.incoming = t.incoming := by rw [h.same]
  rw [Transport.read, Transport.read, hincoming]
  exact h.readFrom t.incoming

theorem write (h : Hurries t u) (bs : Bytes) : SameOutcome Hurries (write bs t) (write bs u) := by
  obtain ⟨deadline, stopAt, rfl⟩ := h.exists_eq
  unfold Transport.write
  dsimp only
  split
  · exact .error h
  · split
    · exact .ok h
    · exact .ok (h.withLog _ _)

theorem writeAll (h : Hurries t u) (bs : Bytes) :
    SameOutcome Hurries (writeAll bs t) (writeAll bs u) := by
  fun_induction Transport.writeAll bs t generalizing u with
  | case1 bs t he =>
    rw [Transport.writeAll, if_pos he]
    exact .ok h
  | case2 bs t he e t₁ hw =>
    obtain ⟨u₁, hw', h₁⟩ := (h.write bs).of_error hw
    rw [Transport.writeAll, if_neg he, hw']
    exact .error h₁
  | case3 bs t he t₁ hw =>
    obtain ⟨u₁, hw', h₁⟩ := (h.write bs).of_ok hw
    rw [Transport.writeAll, if_neg he, hw']
    exact .error h₁
  | case4 bs t he n t₁ hw ih =>
    obtain ⟨u₁, hw', h₁⟩ := (h.write bs).of_ok hw
    rw [writeAll_of_write (fun hb => he (List.isEmpty_iff.mpr hb)) hw']
    exact ih h₁

theorem flush (h : Hurries t u) : SameOutcome Hurries (flush t) (flush u) := by
  obtain ⟨deadline, stopAt, rfl⟩ := h.exists_eq
  unfold Transport.flush
  dsimp only
  split
  · exact .error h
  · exact .ok h

theorem log_shutdown (h : Hurries t u) :
    Hurries { t with log := .shutdown :: t.log } { u with log := .shutdown :: u.log } := by
  obtain ⟨deadline, stopAt, rfl⟩ := h.exists_eq
  exact ⟨rfl, h.deadline, h.stopAt⟩

end Hurries

end Transport

namespace Connection

/-- What has been done over one connection is the beginning of what has been done over another. -/
def Begins (c d : Connection) : Prop := c.transport.events <+: d.transport.events

/-- Two connections that differ only in how long their clients are willing to wait, the first one no
longer than the second. -/
structure Hurries (c d : Connection) : Prop where
  same : d = { c with transport := d.transport }
  transport : c.transport.Hurries d.transport

namespace Hurries

variable {c d : Connection}

theorem withSession (h : Hurries c d) (session : Session) :
    Hurries { c with session } { d with session } := by
  refine ⟨?_, h.transport⟩
  rw [h.same]

theorem withInbox (h : Hurries c d) (inbox : Inbox) :
    Hurries { c with inbox } { d with inbox } := by
  refine ⟨?_, h.transport⟩
  rw [h.same]

theorem withOutbox (h : Hurries c d) (outbox : Writer) :
    Hurries { c with outbox } { d with outbox } := by
  refine ⟨?_, h.transport⟩
  rw [h.same]

theorem withTransport (h : Hurries c d) {t u : Transport} (ht : t.Hurries u) :
    Hurries { c with transport := t } { d with transport := u } := by
  refine ⟨?_, ht⟩
  rw [h.same]

theorem session (h : Hurries c d) : d.session = c.session := by rw [h.same]

theorem outbox (h : Hurries c d) : d.outbox = c.outbox := by rw [h.same]

theorem inbox (h : Hurries c d) : d.inbox = c.inbox := by rw [h.same]

theorem next? (h : Hurries c d) {taken : Except WireError (Option (Frame × Inbox))}
    (hn : c.inbox.next? = taken) : d.inbox.next? = taken := by
  rw [h.inbox]
  exact hn

theorem events (h : Hurries c d) : d.transport.events = c.transport.events := by
  rw [h.transport.same]
  rfl

/-! ### Receiving and sending -/

theorem recv (h : Hurries c d) :
    CutShort Hurries (fun _ _ => True) (recv c) (recv d) := by
  fun_induction Connection.recv c generalizing d with
  | case1 c e hn =>
    rw [recv_eq d, h.next? hn]
    exact .same (.error h)
  | case2 c f inbox hn m hd =>
    rw [recv_eq d, h.next? hn]
    simp only [hd]
    exact .same (.ok (h.withInbox inbox))
  | case3 c f inbox hn e hd =>
    rw [recv_eq d, h.next? hn]
    simp only [hd]
    exact .same (.error (h.withInbox inbox))
  | case4 c hn e t hr =>
    obtain ⟨u, hr', ht⟩ := h.transport.read.of_failed hr
    rw [recv_eq d, h.next? hn, hr']
    exact .same (.error (h.withTransport ht))
  | case5 => exact .cut trivial
  | case6 c hn t hr =>
    obtain ⟨u, hr', ht⟩ := h.transport.read.of_ok hr
    rw [recv_eq d, h.next? hn, hr']
    exact .same (.error (h.withTransport ht))
  | case7 c hn b bs t hr ih =>
    obtain ⟨u, hr', ht⟩ := h.transport.read.of_ok hr
    rw [recv_eq d, h.next? hn, hr', h.inbox]
    exact ih ((h.withTransport ht).withInbox _)

theorem transmit (h : Hurries c d) (bs : Bytes) :
    SameOutcome Hurries (transmit bs c) (transmit bs d) := by
  unfold Connection.transmit
  have hwrite := h.transport.writeAll bs
  generalize Transport.writeAll bs c.transport = r at *
  generalize Transport.writeAll bs d.transport = r' at *
  cases hwrite with
  | error ht => exact .error (h.withTransport ht)
  | @ok _ t u ht =>
    have hflush := ht.flush
    dsimp only
    generalize Transport.flush t = r at *
    generalize Transport.flush u = r' at *
    cases hflush with
    | error hu => exact .error (h.withTransport hu)
    | ok hu => exact .ok (h.withTransport hu)

theorem keptByTransmit : KeptByTransmit Hurries where
  outbox h := h.outbox.symm
  withOutbox h := h.withOutbox
  transmit h := h.transmit

theorem send (h : Hurries c d) (message : ClientMessage) :
    SameOutcome Hurries (send message c) (send message d) :=
  keptByTransmit.send h message

/-! ### The handshake -/

section

variable {config : Config} {nonces : NonceSource} {hs hs' : Handshake} {c' : Connection}
  {m : ServerMessage} {ms : List ServerMessage} {said : List ClientMessage}

theorem toleratesWork (h : Hurries c d) (ht : c.toleratesWork hs m = true) :
    d.toleratesWork hs m = true := by
  rw [Connection.toleratesWork, Bool.or_eq_true] at ht ⊢
  exact ht.imp_right h.transport.isPatient

theorem hears (h : Hurries c d) {c₁ : Connection} (hh : Hears hs c m c₁) :
    ∃ d₁, Hears hs d m d₁ ∧ Hurries c₁ d₁ := by
  obtain ⟨d₁, hd, h₁⟩ := (h.withSession hs.session).recv.of_ok hh.received
  exact ⟨d₁, ⟨hd, h₁.toleratesWork hh.awaited⟩, h₁⟩

theorem keepsUp : KeepsUp Hurries where
  hears h hh := h.hears hh
  sends h m := h.send m
  withSession h := h.withSession
  shutdown h := h.withTransport h.transport.log_shutdown

/-- A run that gives up where it is has done the beginning of what the other client does. -/
theorem begins_negotiate (h : Hurries c d) (hd : d.outbox.IsIdle) {c₁ : Connection}
    (he : c₁.transport.events = c.transport.events) :
    Begins c₁ (leftBehind (negotiate config hs d)) := by
  unfold Begins
  rw [he, ← h.events]
  exact negotiate_events config hs hd

/-- Where the less patient client ends in a round, the other one ends as well, unless the first one
gives up. -/
theorem ends {r : EStateM.Result (Stop ConnectionError) Connection Unit}
    (he : Ends config hs c r) (h : Hurries c d) (hd : d.outbox.IsIdle) :
    CutShort Hurries Begins r (negotiate config hs d) := by
  obtain ⟨stop, c₁, hr, rfl⟩ | ⟨m, c₁, hr, -, rfl⟩ | ⟨r', he', hsame⟩ := he.keepsUp keepsUp h
  · have hrecv := (h.withSession hs.session).recv
    rw [hr] at hrecv
    cases hrecv with
    | same hsame =>
      obtain ⟨d₁, hr', h₁⟩ := hsame.of_error rfl
      rw [negotiate_of_ends (.unheard hr')]
      exact .same (.error h₁)
    | cut =>
      -- receiving writes nothing, so what has been done is what both had done before the round
      obtain ⟨inbox, incoming, now, rfl⟩ := recv_error hr
      exact .cut (h.begins_negotiate hd rfl)
  · obtain ⟨-, inbox, incoming, now, rfl⟩ := recv_ok hr
    exact .cut (h.begins_negotiate hd rfl)
  · rw [negotiate_of_ends he']
    exact .same hsame

theorem negotiate (h : Hurries c d) (hd : d.outbox.IsIdle) (config : Config) (hs : Handshake) :
    CutShort Hurries Begins (negotiate config hs c) (negotiate config hs d) := by
  -- up to the last round of the less patient client both do the same
  obtain ⟨ms, said, hs', c', hl, he⟩ := exists_leads config hs c
  obtain ⟨d', hl', h'⟩ := hl.keepsUp keepsUp h
  obtain ⟨-, hidle⟩ := hl'.sent hd
  rw [hl'.negotiate_eq]
  exact h'.ends he hidle

theorem runHandshake (h : Hurries c d) (hd : d.outbox.IsIdle) (config : Config)
    (nonces : NonceSource) :
    CutShort Hurries Begins (runHandshake config nonces c) (runHandshake config nonces d) := by
  unfold Connection.runHandshake
  cases hsend : Connection.send (Handshake.proposal config) c with
  | error stop c₀ =>
    obtain ⟨d₀, hsend', h₀⟩ := (h.send _).of_error hsend
    rw [hsend']
    exact .same (.error h₀)
  | ok _ c₀ =>
    obtain ⟨d₀, hsend', h₀⟩ := (h.send _).of_ok hsend
    obtain ⟨-, -, hidle, -⟩ := send_ok hd hsend'
    rw [hsend']
    dsimp only
    rw [h₀.session]
    exact h₀.negotiate hidle config _

theorem conclude {r r' : EStateM.Result (Stop ConnectionError) Connection Unit}
    (h : CutShort Hurries Begins r r') : CutShort Hurries Begins (conclude r) (conclude r') := by
  cases h with
  | same h =>
    exact .same (conclude_sameOutcome (fun hcd => hcd.session.symm) (fun hcd => hcd.withSession) h)
  | cut hbegins =>
    refine .cut ?_
    unfold Begins at *
    rw [leftBehind_conclude]
    exact hbegins

/-- A start by the less patient client is the beginning of a start by the other one. -/
theorem startup (h : Hurries c d) (hc : c.session = {}) (hd : d.outbox.IsIdle) (config : Config)
    (nonces : NonceSource) :
    CutShort Hurries Begins (startup config nonces c) (startup config nonces d) := by
  have hsession : d.session = {} := h.session.trans hc
  rw [startup_eq hc, startup_eq hsession]
  exact conclude (h.runHandshake hd config nonces)

end

end Hurries

/-! ## Ending early -/

/-- The connection with a client that is willing to wait as long as this. -/
def withPatience (c : Connection) (deadline stopAt : Option Nat) : Connection :=
  { c with transport := { c.transport with deadline, stopAt } }

theorem hurries_withPatience (c : Connection) {deadline deadline' stopAt stopAt' : Option Nat}
    (hd : NoLater deadline deadline') (hs : NoLater stopAt stopAt') :
    Hurries (c.withPatience deadline stopAt) (c.withPatience deadline' stopAt') :=
  ⟨rfl, rfl, hd, hs⟩

/-- Two runs give the same answer, and the same connection but for what their clients were willing
to wait. -/
def SameResult (r r' : EStateM.Result (Stop ConnectionError) Connection Unit) : Prop :=
  SameOutcome (fun c d => c.withPatience none none = d.withPatience none none) r r'

/-- Runs that may end early are the whole run or its beginning; `late n` is what the run with the
`n`-th limit answers when it ends early. -/
structure OnlyCuts (late : Nat → ConnectionError)
    (runs : Nat → EStateM.Result (Stop ConnectionError) Connection Unit)
    (whole : EStateM.Result (Stop ConnectionError) Connection Unit) : Prop where
  /-- None of them waits for ever. -/
  returns : ∀ n, answerOf (runs n) ≠ .error .gaveUp
  /-- What a run has done are the first things that the whole run does. -/
  begins : ∀ n, Begins (leftBehind (runs n)) (leftBehind whole)
  /-- A run ends early, or as the whole run does. -/
  answers : ∀ n, answerOf (runs n) = .error (.failed (late n)) ∨ SameResult (runs n) whole
  /-- One that does not end early ends as all those with later limits do. -/
  later : ∀ n m, n ≤ m → answerOf (runs n) ≠ .error (.failed (late n)) →
    SameResult (runs n) (runs m)

section

variable {c d : Connection} {act : Action Unit} {late : ConnectionError}

theorem Hurries.sameResult {r r' : EStateM.Result (Stop ConnectionError) Connection Unit}
    (h : SameOutcome Hurries r r') : SameResult r r' := by
  refine h.mono fun c d hcd => ?_
  rw [withPatience, withPatience, hcd.same, hcd.transport.same]

theorem Hurries.begins_of_cutShort {r r' : EStateM.Result (Stop ConnectionError) Connection Unit}
    (h : CutShort Hurries Begins r r') : Begins (leftBehind r) (leftBehind r') := by
  cases h with
  | same h =>
    have hevents := h.leftBehind.events
    exact ⟨[], (List.append_nil _).trans hevents.symm⟩
  | cut hbegins => exact hbegins

theorem orElseLate_of_gaveUp (h : answerOf (act c) = .error .gaveUp) (late : ConnectionError) :
    orElseLate late act c = .error (.failed late) (leftBehind (act c)) := by
  have hact := eq_error_of_answerOf h
  generalize leftBehind (act c) = c' at *
  rw [orElseLate, hact]

theorem orElseLate_of_returns (h : answerOf (act c) ≠ .error .gaveUp) (late : ConnectionError) :
    orElseLate late act c = act c := by
  unfold orElseLate
  split
  · rename_i c' hgave
    rw [hgave] at h
    exact absurd rfl h
  · rfl

/-- If less patience cuts an action short, then ending it when the client gives up only cuts it. -/
theorem onlyCuts_orElseLate {late : Nat → ConnectionError} {d : Nat → Connection}
    (hwhole : ∀ n, CutShort Hurries Begins (act (d n)) (act c))
    (hlater : ∀ n m, n ≤ m → CutShort Hurries Begins (act (d n)) (act (d m))) :
    OnlyCuts late (fun n => orElseLate (late n) act (d n)) (act c) := by
  -- a run gives up and is ended, or it returns and is left as it is
  have hcases : ∀ n, answerOf (act (d n)) = .error .gaveUp ∧
      orElseLate (late n) act (d n) = .error (.failed (late n)) (leftBehind (act (d n))) ∨
        answerOf (act (d n)) ≠ .error .gaveUp ∧ orElseLate (late n) act (d n) = act (d n) := by
    intro n
    by_cases h : answerOf (act (d n)) = .error .gaveUp
    · exact Or.inl ⟨h, orElseLate_of_gaveUp h _⟩
    · exact Or.inr ⟨h, orElseLate_of_returns h _⟩
  refine ⟨fun n => ?_, fun n => ?_, fun n => ?_, fun n m hnm hn => ?_⟩
  · rcases hcases n with ⟨-, hlate⟩ | ⟨hreturns, hact⟩
    · simp [hlate, answerOf]
    · rw [hact]
      exact hreturns
  · have hbegins := Hurries.begins_of_cutShort (hwhole n)
    rcases hcases n with ⟨-, hlate⟩ | ⟨-, hact⟩
    · rw [hlate]
      exact hbegins
    · rw [hact]
      exact hbegins
  · rcases hcases n with ⟨-, hlate⟩ | ⟨hreturns, hact⟩
    · exact Or.inl (by rw [hlate]; rfl)
    · rw [hact]
      exact Or.inr (Hurries.sameResult ((hwhole n).of_returns hreturns))
  · rcases hcases n with ⟨-, hlate⟩ | ⟨hreturns, hact⟩
    · rw [hlate] at hn
      exact absurd rfl hn
    · have hsame := (hlater n m hnm).of_returns hreturns
      have hreturns' : answerOf (act (d m)) ≠ .error .gaveUp := by
        rw [← hsame.answerOf_eq]
        exact hreturns
      rw [hact, orElseLate_of_returns hreturns']
      exact Hurries.sameResult hsame

/-- Another limit, which ends the run before it has done anything, may come first. -/
theorem OnlyCuts.of_succ {late : Nat → ConnectionError}
    {runs : Nat → EStateM.Result (Stop ConnectionError) Connection Unit}
    {whole : EStateM.Result (Stop ConnectionError) Connection Unit} {c₀ : Connection}
    (h : OnlyCuts (fun n => late (n + 1)) (fun n => runs (n + 1)) whole)
    (hfirst : runs 0 = .error (.failed (late 0)) c₀) (hbegins : Begins c₀ (leftBehind whole)) :
    OnlyCuts late runs whole := by
  obtain ⟨hreturns, hbegins', hanswers, hlater⟩ := h
  refine ⟨fun n => ?_, fun n => ?_, fun n => ?_, fun n m hnm hn => ?_⟩
  · cases n with
    | zero => simp [hfirst, answerOf]
    | succ n => exact hreturns n
  · cases n with
    | zero =>
      rw [hfirst]
      exact hbegins
    | succ n => exact hbegins' n
  · cases n with
    | zero => exact Or.inl (by rw [hfirst]; rfl)
    | succ n => exact hanswers n
  · cases n with
    | zero =>
      rw [hfirst] at hn
      exact absurd rfl hn
    | succ n =>
      cases m with
      | zero => exact absurd hnm (by simp)
      | succ m => exact hlater n m (Nat.le_of_succ_le_succ hnm) hn

end

/-- Giving up only cuts a start short, whatever the peer does: with a deadline after any number of
nanoseconds, and with a caller who loses interest after any number of milliseconds. A caller who has
none from the beginning gets nothing done, and one who never loses it a plain start. -/
theorem startup_onlyCuts (config : Config) (nonces : NonceSource) (peer : Peer) :
    OnlyCuts (fun n => .timeout ⟨n⟩)
        (fun n => within ⟨n⟩ (startup config nonces) { transport := .toPeer peer })
        (startup config nonces { transport := .toPeer peer }) ∧
      OnlyCuts (fun _ => .cancelled)
        (fun n => unlessCancelled (some n) (startup config nonces) { transport := .toPeer peer })
        (startup config nonces { transport := .toPeer peer }) ∧
      unlessCancelled (some 0) (startup config nonces) { transport := .toPeer peer } =
        .error (.failed .cancelled) { transport := .toPeer peer } ∧
      unlessCancelled none (startup config nonces) { transport := .toPeer peer } =
        startup config nonces { transport := .toPeer peer } := by
  let c : Connection := { transport := .toPeer peer }
  have hcut : ∀ {deadline deadline' stopAt stopAt'}, NoLater deadline deadline' →
      NoLater stopAt stopAt' → CutShort Hurries Begins
        (startup config nonces (c.withPatience deadline stopAt))
        (startup config nonces (c.withPatience deadline' stopAt')) :=
    fun hd hs => (c.hurries_withPatience hd hs).startup rfl rfl config nonces
  have hticks : ∀ {n m : Nat}, n ≤ m → Duration.ticks ⟨n⟩ ≤ Duration.ticks ⟨m⟩ :=
    fun h => Nat.div_le_div_right (Nat.add_le_add_right h _)
  refine ⟨?_, ?_, rfl, rfl⟩
  · exact onlyCuts_orElseLate (d := fun n => c.withPatience (some (0 + Duration.ticks ⟨n⟩)) none)
      (fun n => hcut (.never _) (.never _))
      (fun n m h => hcut (.of_le (Nat.add_le_add_left (hticks h) 0)) (.never _))
  · refine OnlyCuts.of_succ (onlyCuts_orElseLate
      (d := fun n => c.withPatience none (some (0 + (n + 1)))) (fun n => hcut (.never _) (.never _))
      (fun n m h => hcut (.never _) (.of_le ?_))) rfl List.nil_prefix
    omega

/-- A peer that says after 40 milliseconds that it is ready. -/
def sleepyPeer : Peer where
  deliveries := [.pause 40, .bytes [0x5a, 0, 0, 0, 7, 0, 0, 0x49]]

example : answerOf (within ⟨39000000⟩ (startup (.forUser "edgedb") ⟨fun _ => 0, 0⟩)
      { transport := .toPeer sleepyPeer }) = .error (.failed (.timeout ⟨39000000⟩)) ∧
    answerOf (within ⟨40000000⟩ (startup (.forUser "edgedb") ⟨fun _ => 0, 0⟩)
      { transport := .toPeer sleepyPeer }) = .ok () := by
  decide +kernel

end Connection

end EdgeClient
