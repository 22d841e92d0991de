import EdgeClient.Proofs.Connection.Progress
import EdgeClient.Proofs.Connection.Replies

/-!
# Starting up a connection

`startup` sends the proposal and then runs the handshake. `Reaches` says how far it has come. Seen
from the outside, a start that succeeds has gone along with a server to its last word
(`startup_ok`), and over a connection without trouble the client comes to wherever a server has led
it (`reaches_of_accepted`).
-/

namespace EdgeClient

/-- A peer that sends the given frames, cut up and delayed as it likes, and accepts all that is sent
to it. -/
structure Peer.Speaks (peer : Peer) (frames : List Frame) : Prop where
  /-- Nothing fails on the way, and nothing waits for the client. -/
  calm : ∀ d ∈ peer.deliveries, d.IsCalm
  /-- The frames are all that is delivered. -/
  sends : peer.deliveries.flatMap Delivery.chunk = frames.flatMap Frame.toBytes
  /-- Every write and every flush succeeds. -/
  accepts : peer.limits.AcceptsAll

/-- Frames may be delivered all at once. -/
theorem Peer.speaks_at_once (frames : List Frame) :
    Peer.Speaks { deliveries := [.bytes (frames.flatMap Frame.toBytes)] } frames :=
  ⟨by simp [Delivery.IsCalm], by simp [Delivery.chunk], ⟨rfl, by simp, rfl⟩⟩

namespace Connection

variable {config : Config} {nonces : NonceSource} {c c' : Connection} {p : Progress}
  {said : List ClientMessage} {h : Handshake}

/-- How a start ends once its handshake has ended. -/
def conclude : EStateM.Result (Stop ConnectionError) Connection Unit →
    EStateM.Result (Stop ConnectionError) Connection Unit
  | .ok _ c => .ok () c
  | .error (.failed e) c =>
    .error (.failed e) { c with session := { c.session with state := .failed } }
  | .error .gaveUp c => .error .gaveUp c

theorem startup_eq (hs : c.session = {}) :
    startup config nonces c = conclude (runHandshake config nonces c) := by
  unfold startup
  rw [hs, if_pos rfl]
  cases runHandshake config nonces c with
  | ok => rfl
  | error stop => cases stop <;> rfl

theorem conclude_ok {r : EStateM.Result (Stop ConnectionError) Connection Unit}
    (hr : conclude r = .ok () c') : r = .ok () c' := by
  cases r with
  | ok => exact hr
  | error stop => cases stop <;> exact absurd hr (by simp [conclude])

/-- Runs that come to the same are concluded alike. -/
theorem conclude_sameOutcome {R : Connection → Connection → Prop}
    {r r' : EStateM.Result (Stop ConnectionError) Connection Unit}
    (hsession : ∀ {c d}, R c d → c.session = d.session)
    (hwith : ∀ {c d}, R c d → ∀ session, R { c with session } { d with session })
    (h : SameOutcome R r r') : SameOutcome R (conclude r) (conclude r') := by
  cases h with
  | ok hcd => exact .ok hcd
  | @error stop c d hcd =>
    cases stop with
    | failed e =>
      unfold conclude
      dsimp only
      rw [hsession hcd]
      exact .error (hwith hcd _)
    | gaveUp => exact .error hcd

theorem answerOf_conclude (r : EStateM.Result (Stop ConnectionError) Connection Unit) :
    answerOf (conclude r) = answerOf r := by
  cases r with
  | ok => rfl
  | error stop => cases stop <;> rfl

theorem leftBehind_conclude (r : EStateM.Result (Stop ConnectionError) Connection Unit) :
    (leftBehind (conclude r)).transport = (leftBehind r).transport := by
  cases r with
  | ok => rfl
  | error stop => cases stop <;> rfl

/-! ## How far a start gets -/

/-- A start gets to a handshake and a connection: it sends the proposal, and then the loop leads
there. -/
def Reaches (config : Config) (nonces : NonceSource) (c : Connection) (ms : List ServerMessage)
    (said : List ClientMessage) (h : Handshake) (c' : Connection) : Prop :=
  ∃ c₀, send (Handshake.proposal config) c = .ok () c₀ ∧
    Leads config (Handshake.afterProposal c₀.session nonces) c₀ ms said h c'

namespace Reaches

variable {ms : List ServerMessage}

theorem sent (hr : Reaches config nonces c ms said h c') (hc : c.outbox.IsIdle) :
    Sent (ClientMessage.stream (Handshake.proposal config :: said)) c.transport.events
      c'.transport.events ∧ c'.outbox.IsIdle := by
  obtain ⟨c₀, hsend, hl⟩ := hr
  obtain ⟨-, hsent, hidle, -⟩ := send_ok hc hsend
  obtain ⟨hsent', hidle'⟩ := hl.sent hidle
  exact ⟨hsent.trans hsent', hidle'⟩

theorem encodable (hr : Reaches config nonces c ms said h c') (hc : c.outbox.IsIdle) :
    ∀ m ∈ Handshake.proposal config :: said, m.Encodable := by
  obtain ⟨c₀, hsend, hl⟩ := hr
  obtain ⟨hfits, -, hidle, -⟩ := send_ok hc hsend
  exact List.forall_mem_cons.mpr ⟨hfits, hl.encodable hidle⟩

theorem carries (hr : Reaches config nonces c ms said h c') {ms' : List ServerMessage}
    {rest : Bytes} (hu : Carries c'.unread ms' rest) : Carries c.unread (ms ++ ms') rest := by
  obtain ⟨c₀, hsend, hl⟩ := hr
  rw [← unread_of_send hsend]
  exact hl.carries hu

/-- On the way a new client goes along with the server. -/
theorem exists_progress (hr : Reaches config nonces c ms said h c') (hc : c.outbox.IsIdle)
    (hs : c.session = {}) : ∃ p : Progress, p.messages = ms ∧ p.Accepted config nonces said h := by
  obtain ⟨c₀, hsend, hl⟩ := hr
  obtain ⟨-, -, -, hsession⟩ := send_ok hc hsend
  have hrun := hl.run
  rw [hsession, hs] at hrun
  exact Progress.exists_of_run hrun (.start config nonces)

/-- A start gets equally far over two connections between which a relation keeps up. -/
theorem keepsUp {R : Connection → Connection → Prop} {d : Connection} (hR : KeepsUp R)
    (hsession : ∀ {c d}, R c d → c.session = d.session)
    (hr : Reaches config nonces c ms said h c') (hcd : R c d) :
    ∃ d', Reaches config nonces d ms said h d' ∧ R c' d' := by
  obtain ⟨c₀, hsend, hl⟩ := hr
  obtain ⟨d₀, hsend', h₀⟩ := (hR.sends hcd _).of_ok hsend
  rw [hsession h₀] at hl
  obtain ⟨d', hl', h'⟩ := hl.keepsUp hR h₀
  exact ⟨d', ⟨d₀, hsend', hl'⟩, h'⟩

theorem startup_eq (hr : Reaches config nonces c ms said h c') (hs : c.session = {}) :
    startup config nonces c = conclude (negotiate config h c') := by
  obtain ⟨c₀, hsend, hl⟩ := hr
  rw [Connection.startup_eq hs, runHandshake, hsend]
  dsimp only
  rw [hl.negotiate_eq]

/-- A start ends as the loop ends where it has got to. -/
theorem startup_of_ends (hr : Reaches config nonces c ms said h c') (hs : c.session = {})
    {r : EStateM.Result (Stop ConnectionError) Connection Unit} (he : Ends config h c' r) :
    startup config nonces c = conclude r := by
  rw [hr.startup_eq hs, negotiate_of_ends he]

end Reaches

/-- A start either does not get as far as its handshake, or gets somewhere in it and ends there. -/
theorem exists_reaches (config : Config) (nonces : NonceSource) (hs : c.session = {}) :
    (∃ stop c₀, send (Handshake.proposal config) c = .error stop c₀ ∧
      startup config nonces c = conclude (.error stop c₀)) ∨
    ∃ ms said h c' r, Reaches config nonces c ms said h c' ∧ Ends config h c' r ∧
      startup config nonces c = conclude r := by
  cases hsend : send (Handshake.proposal config) c with
  | error stop c₀ =>
    refine Or.inl ⟨stop, c₀, rfl, ?_⟩
    rw [startup_eq hs, runHandshake, hsend]
  | ok _ c₀ =>
    obtain ⟨ms, said, h, c', hl, he⟩ :=
      exists_leads config (Handshake.afterProposal c₀.session nonces) c₀
    rw [hl.negotiate_eq] at he
    have hr : Reaches config nonces c ms said h c' := ⟨c₀, hsend, hl⟩
    exact Or.inr ⟨ms, said, h, c', _, hr, he, hr.startup_eq hs⟩

/-- A start that succeeds has gone along with the server until it was ready. -/
theorem startup_ok (hc : c.outbox.IsIdle) (hs : c.session = {})
    (hok : startup config nonces c = .ok () c') :
    ∃ (p : Progress) (said : List ClientMessage) (h : Handshake) (transaction : TransactionState),
      p.Accepted config nonces said h ∧ p.point = .outside ∧
      Carries c.unread (p.messages ++ [.readyForCommand transaction]) c'.unread ∧
      Sent (ClientMessage.stream (Handshake.proposal config :: said)) c.transport.events
        c'.transport.events ∧
      c'.session = p.ready transaction := by
  rcases exists_reaches config nonces hs with
    ⟨stop, c₀, -, hstart⟩ | ⟨ms, said, h, c₁, r, hr, he, hstart⟩
  · exact absurd (conclude_ok (hstart.symm.trans hok)) (by simp)
  · obtain rfl := conclude_ok (hstart.symm.trans hok)
    obtain ⟨p, rfl, hp⟩ := hr.exists_progress hc hs
    cases he with
    | @finish m c₂ session hh hm =>
      have hfollows := hp.follows m
      rw [hm] at hfollows
      obtain ⟨hsent, -⟩ := hr.sent hc
      rw [← hh.events_eq] at hsent
      cases hfollows with
      | @finish transaction hready hpoint =>
        obtain rfl := hready
        exact ⟨p, said, h, transaction, hp, hpoint, hr.carries (hh.carries (.nil _)), hsent, rfl⟩

/-- Over a connection without trouble a start gets to wherever a server has led it. -/
theorem reaches_of_accepted {ms : List ServerMessage} {rest : Bytes} (hc : c.IsSteady)
    (hs : c.session = {}) (hp : p.Accepted config nonces said h)
    (hu : Carries c.unread (p.messages ++ ms) rest)
    (he : ∀ m ∈ Handshake.proposal config :: said, m.Encodable) :
    ∃ c', Reaches config nonces c p.messages said h c' ∧ c'.IsSteady ∧
      Carries c'.unread ms rest := by
  obtain ⟨log, hsend⟩ := send_of_acceptsAll hc.idle hc.accepts (he _ List.mem_cons_self)
  have hrun := hp.run
  rw [← hs] at hrun
  obtain ⟨c', hl, hc', hu'⟩ := leads_of_run hrun (hc.withLog log c.session) hu
    (fun m hm => he m (List.mem_cons_of_mem _ hm))
  exact ⟨c', ⟨_, hsend, hl⟩, hc', hu'⟩

/-! ## A new connection to a peer that speaks -/

section

variable {peer : Peer} {frames : List Frame} {messages : List ServerMessage}

theorem isSteady_of_speaks (hpeer : peer.Speaks frames) :
    IsSteady { transport := .toPeer peer } :=
  ⟨⟨hpeer.calm, rfl, rfl⟩, hpeer.accepts, rfl⟩

theorem carries_of_speaks (hpeer : peer.Speaks frames)
    (hdecode : frames.map ServerMessage.decode = messages.map .ok)
    (hlen : ∀ f ∈ frames, f.toBytes.length < sizeBound) :
    Carries ({ transport := .toPeer peer } : Connection).unread messages [] := by
  have hunread : ({ transport := .toPeer peer } : Connection).unread =
      frames.flatMap Frame.toBytes ++ [] := by
    rw [List.append_nil]
    exact hpeer.sends
  rw [hunread]
  refine .of_frames (fun f hf => ?_) hdecode []
  have hshort := hlen f hf
  simp only [Frame.length_toBytes, Frame.Fits, headerSize, sizeBound] at *
  omega

end

end Connection

end EdgeClient
