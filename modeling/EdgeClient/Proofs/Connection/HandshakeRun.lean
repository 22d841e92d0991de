import EdgeClient.Proofs.Connection.Receiving
import EdgeClient.Proofs.Connection.Sending

/-!
# Handshakes over a connection

`Handshake.Run` is a handshake without its bytes: the messages it takes in, the messages it answers
with, and where it stands afterwards. `Leads` is the same with the connection that the bytes come
and go by, and `Ends` is the last round of the loop. Whatever the peer does, `negotiate` gets
somewhere and ends there (`exists_leads`), which makes up a run whose messages were the first of the
unread bytes and whose answers were written. Over a connection without trouble every message is heard
(`hears_of_steady`) and every run takes place (`leads_of_run`).
-/

namespace EdgeClient

/-- From one handshake to another, by taking in messages and saying others. -/
inductive Handshake.Run (config : Config) :
    Handshake → List ServerMessage → List ClientMessage → Handshake → Prop where
  | nil (h : Handshake) : Run config h [] [] h
  | wait {h h₁ h₂ : Handshake} {m : ServerMessage} {ms : List ServerMessage}
      {said : List ClientMessage} :
    h.react config m = .wait h₁ → Run config h₁ ms said h₂ → Run config h (m :: ms) said h₂
  | say {h h₁ h₂ : Handshake} {m : ServerMessage} {ms : List ServerMessage}
      {reply : ClientMessage} {said : List ClientMessage} :
    h.react config m = .say reply h₁ → Run config h₁ ms said h₂ →
      Run config h (m :: ms) (reply :: said) h₂

namespace Handshake.Run

variable {config : Config} {h h₁ h₂ : Handshake} {ms ms' : List ServerMessage}
  {said said' : List ClientMessage}

theorem append (hr : Run config h ms said h₁) (hr' : Run config h₁ ms' said' h₂) :
    Run config h (ms ++ ms') (said ++ said') h₂ := by
  induction hr with
  | nil => exact hr'
  | wait hm _ ih => exact .wait hm (ih hr')
  | say hm _ ih => exact .say hm (ih hr')

end Handshake.Run

/-- The frames of messages, one after the other. -/
def ClientMessage.stream (said : List ClientMessage) : Bytes := said.flatMap fun m => m.frame.toBytes

namespace Connection

/-- A connection over which messages go both ways without trouble. -/
structure IsSteady (c : Connection) : Prop where
  /-- The peer delivers, and the client waits for it. -/
  calm : c.transport.IsCalm
  /-- The peer accepts everything. -/
  accepts : c.transport.limits.AcceptsAll
  /-- Nothing is left over from earlier messages. -/
  idle : c.outbox.IsIdle

theorem IsSteady.withLog {c : Connection} (hc : c.IsSteady) (log : List Event)
    (session : Session) :
    IsSteady { c with transport := { c.transport with log }, session } :=
  ⟨hc.calm.withLog _ log, hc.accepts, hc.idle⟩

variable {config : Config} {h h' : Handshake} {c c' : Connection} {m : ServerMessage}
  {ms : List ServerMessage} {said : List ClientMessage} {rest : Bytes}

/-- What the client does after it has received a message. -/
theorem negotiate_of_recv {c₁ : Connection}
    (hr : recv { c with session := h.session } = .ok m c₁) :
    negotiate config h c =
      if !c₁.toleratesWork h m then .error .gaveUp c₁ else
      match h.react config m with
      | .wait next => negotiate config next c₁
      | .say reply next =>
        match send reply { c₁ with session := next.session } with
        | .error e c => .error e c
        | .ok _ c => negotiate config next c
      | .finish session => .ok () { c₁ with session }
      | .fail e session => .error (.failed e) { c₁ with session }
      | .hangUp e session =>
        match Transport.shutdown c₁.transport with
        | .ok _ t | .error _ t => .error (.failed e) { c₁ with transport := t, session } := by
  rw [negotiate]
  split
  · rename_i hr'
    exact absurd (hr.symm.trans hr') (by simp)
  · rename_i m' c' hr'
    obtain ⟨rfl, rfl⟩ := EStateM.Result.ok.inj (hr.symm.trans hr')
    cases h.react config m with
    | say reply next =>
      dsimp only
      split
      · rfl
      · cases send reply { c₁ with session := next.session } <;> rfl
    | _ => rfl

/-! ## The loop, round by round -/

/-- The client hears a message: it receives it and waits for the work that it means. -/
structure Hears (h : Handshake) (c : Connection) (m : ServerMessage) (c₁ : Connection) : Prop where
  received : recv { c with session := h.session } = .ok m c₁
  /-- The client is patient enough for it. -/
  awaited : c₁.toleratesWork h m = true

/-- The loop gets from one handshake and connection to others: the client goes along with the
messages that it hears, and sends its answers. -/
inductive Leads (config : Config) : Handshake → Connection → List ServerMessage →
    List ClientMessage → Handshake → Connection → Prop where
  | nil (h : Handshake) (c : Connection) : Leads config h c [] [] h c
  | wait {h h₁ h' : Handshake} {c c₁ c' : Connection} {m : ServerMessage}
      {ms : List ServerMessage} {said : List ClientMessage} :
    Hears h c m c₁ → h.react config m = .wait h₁ → Leads config h₁ c₁ ms said h' c' →
      Leads config h c (m :: ms) said h' c'
  | say {h h₁ h' : Handshake} {c c₁ c₂ c' : Connection} {m : ServerMessage}
      {ms : List ServerMessage} {reply : ClientMessage} {said : List ClientMessage} :
    Hears h c m c₁ → h.react config m = .say reply h₁ →
    send reply { c₁ with session := h₁.session } = .ok () c₂ → Leads config h₁ c₂ ms said h' c' →
      Leads config h c (m :: ms) (reply :: said) h' c'

/-- The last round of the loop, with its result. -/
inductive Ends (config : Config) (h : Handshake) (c : Connection) :
    EStateM.Result (Stop ConnectionError) Connection Unit → Prop where
  | unheard {stop : Stop ConnectionError} {c₁ : Connection} :
    recv { c with session := h.session } = .error stop c₁ → Ends config h c (.error stop c₁)
  | late {m : ServerMessage} {c₁ : Connection} :
    recv { c with session := h.session } = .ok m c₁ → c₁.toleratesWork h m = false →
      Ends config h c (.error .gaveUp c₁)
  | unsaid {m : ServerMessage} {reply : ClientMessage} {next : Handshake}
      {stop : Stop ConnectionError} {c₁ c₂ : Connection} :
    Hears h c m c₁ → h.react config m = .say reply next →
    send reply { c₁ with session := next.session } = .error stop c₂ →
      Ends config h c (.error stop c₂)
  | finish {m : ServerMessage} {c₁ : Connection} {session : Session} :
    Hears h c m c₁ → h.react config m = .finish session →
      Ends config h c (.ok () { c₁ with session })
  | fail {m : ServerMessage} {c₁ : Connection} {e : ConnectionError} {session : Session} :
    Hears h c m c₁ → h.react config m = .fail e session →
      Ends config h c (.error (.failed e) { c₁ with session })
  | hangUp {m : ServerMessage} {c₁ : Connection} {e : ConnectionError} {session : Session} :
    Hears h c m c₁ → h.react config m = .hangUp e session →
      Ends config h c (.error (.failed e) { c₁ with
        transport := { c₁.transport with log := .shutdown :: c₁.transport.log }
        session })

namespace Hears

variable {c₁ : Connection}

/-- What the client does about a message that it hears. -/
theorem negotiate_eq (config : Config) (hh : Hears h c m c₁) :
    negotiate config h c = match h.react config m with
      | .wait next => negotiate config next c₁
      | .say reply next =>
        match send reply { c₁ with session := next.session } with
        | .error e c => .error e c
        | .ok _ c => negotiate config next c
      | .finish session => .ok () { c₁ with session }
      | .fail e session => .error (.failed e) { c₁ with session }
      | .hangUp e session =>
        match Transport.shutdown c₁.transport with
        | .ok _ t | .error _ t => .error (.failed e) { c₁ with transport := t, session } := by
  rw [negotiate_of_recv hh.received, hh.awaited]
  rfl

theorem length_lt (hh : Hears h c m c₁) : c₁.unread.length < c.unread.length :=
  length_of_recv (c := { c with session := h.session }) hh.received

/-- Hearing a message takes it off the unread bytes and leaves all else but the clock alone. -/
theorem eq_with (hh : Hears h c m c₁) :
    ∃ inbox incoming now, c₁ =
      { c with
        transport := { c.transport with incoming, now }
        inbox
        session := h.session } :=
  (recv_ok hh.received).2

theorem events_eq (hh : Hears h c m c₁) : c₁.transport.events = c.transport.events := by
  obtain ⟨inbox, incoming, now, rfl⟩ := hh.eq_with
  rfl

theorem isIdle (hh : Hears h c m c₁) (hc : c.outbox.IsIdle) : c₁.outbox.IsIdle := by
  obtain ⟨inbox, incoming, now, rfl⟩ := hh.eq_with
  exact hc

theorem carries (hh : Hears h c m c₁) (hu : Carries c₁.unread ms rest) :
    Carries c.unread (m :: ms) rest := by
  obtain ⟨⟨f, hf, hd, hbytes⟩, -⟩ := recv_ok hh.received
  have hbytes : c.unread = f.toBytes ++ c₁.unread := hbytes
  rw [hbytes]
  exact .cons hf hd hu

end Hears

namespace Leads

theorem negotiate_eq (hl : Leads config h c ms said h' c') :
    negotiate config h c = negotiate config h' c' := by
  induction hl with
  | nil => rfl
  | wait hh hm _ ih => rw [hh.negotiate_eq config, hm, ← ih]
  | say hh hm hs _ ih =>
    rw [hh.negotiate_eq config, hm]
    dsimp only
    rw [hs]
    exact ih

theorem run (hl : Leads config h c ms said h' c') : Handshake.Run config h ms said h' := by
  induction hl with
  | nil => exact .nil _
  | wait _ hm _ ih => exact .wait hm ih
  | say _ hm _ _ ih => exact .say hm ih

/-- The messages on the way are the first of the unread bytes. -/
theorem carries (hl : Leads config h c ms said h' c') {ms' : List ServerMessage}
    (hu : Carries c'.unread ms' rest) : Carries c.unread (ms ++ ms') rest := by
  induction hl with
  | nil => exact hu
  | wait hh _ _ ih => exact hh.carries (ih hu)
  | say hh _ hs _ ih =>
    have hu₁ := ih hu
    rw [unread_of_send hs] at hu₁
    exact hh.carries hu₁

/-- The answers on the way are what is written. -/
theorem sent (hl : Leads config h c ms said h' c') (hc : c.outbox.IsIdle) :
    Sent (ClientMessage.stream said) c.transport.events c'.transport.events ∧
      c'.outbox.IsIdle := by
  induction hl with
  | nil => exact ⟨.nothing _, hc⟩
  | wait hh _ _ ih =>
    rw [← hh.events_eq]
    exact ih (hh.isIdle hc)
  | @say _ h₁ _ _ c₁ _ _ _ _ _ _ hh _ hs _ ih =>
    obtain ⟨-, hsent, hidle, -⟩ :=
      send_ok (c := { c₁ with session := h₁.session }) (hh.isIdle hc) hs
    obtain ⟨hsent', hidle'⟩ := ih hidle
    rw [← hh.events_eq]
    exact ⟨hsent.trans hsent', hidle'⟩

theorem encodable (hl : Leads config h c ms said h' c') (hc : c.outbox.IsIdle) :
    ∀ m ∈ said, m.Encodable := by
  induction hl with
  | nil => simp
  | wait hh _ _ ih => exact ih (hh.isIdle hc)
  | @say _ h₁ _ _ c₁ _ _ _ _ _ _ hh _ hs _ ih =>
    obtain ⟨hfits, -, hidle, -⟩ :=
      send_ok (c := { c₁ with session := h₁.session }) (hh.isIdle hc) hs
    exact List.forall_mem_cons.mpr ⟨hfits, ih hidle⟩

end Leads

/-- A relation between connections such that whatever the client hears and does over the first one it
also hears and does over the second. -/
structure KeepsUp (R : Connection → Connection → Prop) : Prop where
  hears : ∀ {h c d m c₁}, R c d → Hears h c m c₁ → ∃ d₁, Hears h d m d₁ ∧ R c₁ d₁
  sends : ∀ {c d}, R c d → ∀ m, SameOutcome R (send m c) (send m d)
  withSession : ∀ {c d}, R c d → ∀ session, R { c with session } { d with session }
  shutdown : ∀ {c d}, R c d →
    R { c with transport := { c.transport with log := .shutdown :: c.transport.log } }
      { d with transport := { d.transport with log := .shutdown :: d.transport.log } }

section

variable {R : Connection → Connection → Prop} {d : Connection}

/-- Then the loop gets equally far over both. -/
theorem Leads.keepsUp (hR : KeepsUp R) (hl : Leads config h c ms said h' c') (hcd : R c d) :
    ∃ d', Leads config h d ms said h' d' ∧ R c' d' := by
  induction hl generalizing d with
  | nil h c => exact ⟨d, .nil h d, hcd⟩
  | wait hh hm _ ih =>
    obtain ⟨d₁, hh', h₁⟩ := hR.hears hcd hh
    obtain ⟨d', hl, h'⟩ := ih h₁
    exact ⟨d', .wait hh' hm hl, h'⟩
  | say hh hm hs _ ih =>
    obtain ⟨d₁, hh', h₁⟩ := hR.hears hcd hh
    obtain ⟨d₂, hs', h₂⟩ := (hR.sends (hR.withSession h₁ _) _).of_ok hs
    obtain ⟨d', hl, h'⟩ := ih h₂
    exact ⟨d', .say hh' hm hs' hl, h'⟩

/-- And what ends the loop over the first one ends it over the second, unless it is that the client
hears nothing. -/
theorem Ends.keepsUp {r : EStateM.Result (Stop ConnectionError) Connection Unit} (hR : KeepsUp R)
    (he : Ends config h c r) (hcd : R c d) :
    (∃ stop c₁, recv { c with session := h.session } = .error stop c₁ ∧ r = .error stop c₁) ∨
      (∃ m c₁, recv { c with session := h.session } = .ok m c₁ ∧ c₁.toleratesWork h m = false ∧
        r = .error .gaveUp c₁) ∨
      ∃ r', Ends config h d r' ∧ SameOutcome R r r' := by
  cases he with
  | unheard hr => exact Or.inl ⟨_, _, hr, rfl⟩
  | late hr hlate => exact Or.inr (Or.inl ⟨_, _, hr, hlate, rfl⟩)
  | unsaid hh hm hs =>
    obtain ⟨d₁, hh', h₁⟩ := hR.hears hcd hh
    obtain ⟨d₂, hs', h₂⟩ := (hR.sends (hR.withSession h₁ _) _).of_error hs
    exact Or.inr (Or.inr ⟨_, .unsaid hh' hm hs', .error h₂⟩)
  | finish hh hm =>
    obtain ⟨d₁, hh', h₁⟩ := hR.hears hcd hh
    exact Or.inr (Or.inr ⟨_, .finish hh' hm, .ok (hR.withSession h₁ _)⟩)
  | fail hh hm =>
    obtain ⟨d₁, hh', h₁⟩ := hR.hears hcd hh
    exact Or.inr (Or.inr ⟨_, .fail hh' hm, .error (hR.withSession h₁ _)⟩)
  | hangUp hh hm =>
    obtain ⟨d₁, hh', h₁⟩ := hR.hears hcd hh
    exact Or.inr (Or.inr ⟨_, .hangUp hh' hm, .error (hR.withSession (hR.shutdown h₁) _)⟩)

end

theorem negotiate_of_ends {r : EStateM.Result (Stop ConnectionError) Connection Unit}
    (he : Ends config h c r) : negotiate config h c = r := by
  cases he with
  | unheard hr =>
    rw [negotiate]
    split
    · rename_i hr'
      obtain ⟨rfl, rfl⟩ := EStateM.Result.error.inj (hr'.symm.trans hr)
      rfl
    · rename_i hr'
      exact absurd (hr'.symm.trans hr) (by simp)
  | late hr hlate =>
    rw [negotiate_of_recv hr, hlate]
    rfl
  | unsaid hh hm hs =>
    rw [hh.negotiate_eq config, hm]
    dsimp only
    rw [hs]
  | finish hh hm | fail hh hm => rw [hh.negotiate_eq config, hm]
  | @hangUp _ c₁ _ _ hh hm =>
    rw [hh.negotiate_eq config, hm]
    rcases c₁.transport.shutdown_cases with hs | ⟨reason, hs⟩ <;> simp only [hs]

/-- Whatever the peer does, the loop gets somewhere and ends there. The induction is on the unread
bytes. -/
theorem exists_leads (config : Config) (h : Handshake) (c : Connection) :
    ∃ ms said h' c', Leads config h c ms said h' c' ∧
      Ends config h' c' (negotiate config h c) := by
  induction hlen : c.unread.length using Nat.strongRecOn generalizing c h with
  | _ len ih =>
    subst hlen
    -- In a last round it remains to compute the result.
    have hlast : ∀ {r}, Ends config h c r →
        ∃ ms said h' c', Leads config h c ms said h' c' ∧
          Ends config h' c' (negotiate config h c) := by
      intro r he
      rw [negotiate_of_ends he]
      exact ⟨[], [], h, c, .nil h c, he⟩
    cases hr : recv { c with session := h.session } with
    | error stop c₁ => exact hlast (.unheard hr)
    | ok m c₁ =>
      cases hwork : c₁.toleratesWork h m with
      | false => exact hlast (.late hr hwork)
      | true =>
        have hh : Hears h c m c₁ := ⟨hr, hwork⟩
        cases hm : h.react config m with
        | wait next =>
          obtain ⟨ms, said, h', c', hl, he⟩ := ih _ hh.length_lt next c₁ rfl
          have hl : Leads config h c (m :: ms) said h' c' := .wait hh hm hl
          rw [← Leads.negotiate_eq (.wait hh hm (.nil next c₁))] at he
          exact ⟨_, _, _, _, hl, he⟩
        | say reply next =>
          cases hs : send reply { c₁ with session := next.session } with
          | error stop c₂ => exact hlast (.unsaid hh hm hs)
          | ok _ c₂ =>
            have hu : c₂.unread = c₁.unread :=
              unread_of_send (c := { c₁ with session := next.session }) hs
            obtain ⟨ms, said, h', c', hl, he⟩ :=
              ih _ (by rw [hu]; exact hh.length_lt) next c₂ rfl
            rw [← Leads.negotiate_eq (.say hh hm hs (.nil next c₂))] at he
            exact ⟨_, _, _, _, .say hh hm hs hl, he⟩
        | finish session => exact hlast (.finish hh hm)
        | fail e session => exact hlast (.fail hh hm)
        | hangUp e session => exact hlast (.hangUp hh hm)

/-! ## What the loop does to the transport -/

theorem Ends.events {r : EStateM.Result (Stop ConnectionError) Connection Unit}
    (he : Ends config h c r) (hc : c.outbox.IsIdle) :
    c.transport.events <+: (leftBehind r).transport.events := by
  cases he with
  | unheard hr =>
    obtain ⟨inbox, incoming, now, rfl⟩ := recv_error hr
    exact List.prefix_rfl
  | late hr =>
    obtain ⟨-, inbox, incoming, now, rfl⟩ := recv_ok hr
    exact List.prefix_rfl
  | @unsaid _ reply next _ c₁ _ hh _ hs =>
    obtain ⟨done, -, hsent⟩ :=
      send_sent (c := { c₁ with session := next.session }) (hh.isIdle hc) reply
    rw [hs] at hsent
    rw [← hh.events_eq]
    exact hsent.isExtension
  | finish hh | fail hh =>
    rw [← hh.events_eq]
    exact List.prefix_rfl
  | @hangUp _ c₁ _ _ hh =>
    rw [← hh.events_eq]
    exact ⟨[.shutdown], (c₁.transport.events_cons .shutdown).symm⟩

/-- The loop adds to what has been done, however it ends. -/
theorem negotiate_events (config : Config) (h : Handshake) (hc : c.outbox.IsIdle) :
    c.transport.events <+: (leftBehind (negotiate config h c)).transport.events := by
  obtain ⟨ms, said, h', c', hl, he⟩ := exists_leads config h c
  obtain ⟨hsent, hidle⟩ := hl.sent hc
  exact hsent.isExtension.trans (he.events hidle)

/-! ## Over a connection without trouble -/

/-- The next message is heard, and nothing else happens to the connection. -/
theorem hears_of_steady (h : Handshake) (hc : c.IsSteady) (hu : Carries c.unread (m :: ms) rest) :
    ∃ c₁ : Connection, Hears h c m c₁ ∧ c₁.IsSteady ∧ Carries c₁.unread ms rest := by
  generalize hbs : c.unread = bs at hu
  cases hu with
  | @cons f _ bs _ _ hf hd htail =>
    obtain ⟨c₁, hcalm, hu₁, hr⟩ := recv_of_frame (c := { c with session := h.session })
      hc.calm hf hbs
    rw [hd] at hr
    have hwork : c₁.toleratesWork h m = true := by
      rw [toleratesWork, hcalm.isPatient, Bool.or_true]
    obtain ⟨-, inbox, incoming, now, rfl⟩ := recv_ok hr
    refine ⟨_, ⟨hr, hwork⟩, ⟨hcalm, hc.accepts, hc.idle⟩, ?_⟩
    rw [hu₁]
    exact htail

/-- Every run takes place: the loop gets to where the run ends. -/
theorem leads_of_run (hr : Handshake.Run config h ms said h') {ms' : List ServerMessage}
    (hc : c.IsSteady) (hu : Carries c.unread (ms ++ ms') rest) (he : ∀ s ∈ said, s.Encodable) :
    ∃ c', Leads config h c ms said h' c' ∧ c'.IsSteady ∧ Carries c'.unread ms' rest := by
  induction hr generalizing c with
  | nil h => exact ⟨c, .nil h c, hc, hu⟩
  | @wait h _ _ _ _ _ hm _ ih =>
    obtain ⟨c₁, hh, hc₁, hu₁⟩ := hears_of_steady h hc hu
    obtain ⟨c', hl, hc', hu'⟩ := ih hc₁ hu₁ he
    exact ⟨c', .wait hh hm hl, hc', hu'⟩
  | @say h h₁ _ _ _ reply _ hm _ ih =>
    obtain ⟨c₁, hh, hc₁, hu₁⟩ := hears_of_steady h hc hu
    obtain ⟨log, hs⟩ := send_of_acceptsAll (c := { c₁ with session := h₁.session }) hc₁.idle
      hc₁.accepts (he reply List.mem_cons_self)
    obtain ⟨c', hl, hc', hu'⟩ := ih (hc₁.withLog log h₁.session) hu₁
      (fun s hs => he s (List.mem_cons_of_mem _ hs))
    exact ⟨c', .say hh hm hs hl, hc', hu'⟩

end Connection

end EdgeClient
