import EdgeClient.Proofs.Connection.Refusal

/-!
# Nothing about the password leaves too early

Two runs of the client whose settings differ only in the password are compared over the same
transport. Until a server has sent a challenge that the client answers, the password is kept in the
conversation of an exchange and used for nothing: whether a first server string is a challenge is
decided by the string and the client's nonce alone. So the two runs stay in lockstep, with the very
same connection (`exists_lockstep`). They part, if at all, when a challenge is answered, and the
first thing that is written then is the answer.
-/

namespace EdgeClient

/-! ## Bytes before the first frame of a kind -/

/-- The bytes before the first frame with a tag. A frame has begun when its tag is there. -/
def Bytes.beforeTag (tag : UInt8) (bs : Bytes) : Bytes :=
  match bs with
  | [] => []
  | b :: rest =>
    if b = tag then
      []
    else
      match _h : Inbox.next? ⟨b :: rest⟩ with
      | .ok (some (frame, inbox)) => frame.toBytes ++ Bytes.beforeTag tag inbox.pending
      | _ => b :: rest
termination_by bs.length
decreasing_by exact Inbox.length_of_next? _h

/-- A frame of another kind is not cut short. -/
theorem Bytes.beforeTag_frame {tag : UInt8} {f : Frame} (hf : f.Fits) (ht : f.tag ≠ tag)
    (rest : Bytes) :
    Bytes.beforeTag tag (f.toBytes ++ rest) = f.toBytes ++ Bytes.beforeTag tag rest := by
  have hnext := Inbox.next?_toBytes hf rest
  obtain ⟨body, hbody⟩ : ∃ body, f.toBytes ++ rest = f.tag :: body := ⟨_, rfl⟩
  rw [hbody] at hnext
  rw [hbody, Bytes.beforeTag, if_neg ht]
  split
  · rename_i frame inbox hnext'
    have heq := hnext'.symm.trans hnext
    simp only [Except.ok.injEq, Option.some.injEq, Prod.mk.injEq] at heq
    obtain ⟨rfl, rfl⟩ := heq
    rfl
  · rename_i hother
    exact absurd hnext (hother f ⟨rest⟩)

theorem Bytes.beforeTag_frames {tag : UInt8} {frames : List Frame} {tail : Bytes}
    (hframes : ∀ f ∈ frames, f.Fits ∧ f.tag ≠ tag)
    (htail : tail = [] ∨ ∃ more, tail = tag :: more) :
    Bytes.beforeTag tag (frames.flatMap Frame.toBytes ++ tail) = frames.flatMap Frame.toBytes := by
  induction frames with
  | nil => rcases htail with rfl | ⟨more, rfl⟩ <;> simp [Bytes.beforeTag]
  | cons f frames ih =>
    obtain ⟨hfits, htag⟩ := hframes f List.mem_cons_self
    rw [List.flatMap_cons, List.append_assoc, Bytes.beforeTag_frame hfits htag,
      ih fun f' hf' => hframes f' (List.mem_cons_of_mem _ hf')]

/-! ## Runs with two passwords -/

/-- The tag of the messages that answer a challenge. -/
def ClientMessage.saslResponseTag : UInt8 := tag (.saslResponse "")

/-- The settings with a password. -/
def Config.withPassword (config : Config) (password : String) : Config :=
  { config with password := some password }

/-- The conversation of the same user with another password. -/
def Scram.Conversation.withPassword (conversation : Scram.Conversation) (password : String) :
    Scram.Conversation :=
  { conversation with password }

/-- The phase that a client with another password would be in. -/
def Phase.withPassword (password : String) : Phase → Phase
  | .negotiating => .negotiating
  | .serverFirst conversation => .serverFirst (conversation.withPassword password)
  | .serverFinal conversation => .serverFinal (conversation.withPassword password)

namespace Handshake

/-- The handshake that a client with another password would be in. -/
def withPassword (h : Handshake) (password : String) : Handshake :=
  { h with phase := h.phase.withPassword password }

/-- The client has answered no challenge yet in the exchange that is going on. -/
def Unanswered (h : Handshake) : Prop :=
  h.phase = .negotiating ∨
    ∃ conversation, h.phase = .serverFirst conversation ∧ conversation.stage = .awaitingServerFirst

/-- A message is a challenge that the client answers. -/
def Accepts (h : Handshake) (m : ServerMessage) : Prop :=
  ∃ conversation text reply next, h.phase = .serverFirst conversation ∧
    m = .authentication (.saslContinue text) ∧ conversation.step text = .ok reply next

end Handshake

/-- The same move of a client with another password. -/
def Move.withPassword (password : String) : Move → Move
  | .wait next => .wait (next.withPassword password)
  | .say message next => .say message (next.withPassword password)
  | .finish session => .finish session
  | .fail e session => .fail e session
  | .hangUp e session => .hangUp e session

/-- A move after which no challenge has been answered. -/
def Move.KeepsUnanswered : Move → Prop
  | .wait next => next.Unanswered
  | .say message next =>
    next.Unanswered ∧ ∃ data, message = .saslInitial Scram.mechanism data
  | .finish _ | .fail .. | .hangUp .. => True

namespace Handshake

variable {h : Handshake} {m : ServerMessage}

theorem accepts_withPassword (hu : h.Unanswered) (ha : h.Accepts m) (q : String) :
    (h.withPassword q).Accepts m := by
  obtain ⟨conversation, text, reply, next, hphase, rfl, hs⟩ := ha
  rcases hu with hu | ⟨conversation', hphase', hstage⟩
  · exact absurd (hphase.symm.trans hu) (by simp)
  · obtain rfl := Phase.serverFirst.inj (hphase.symm.trans hphase')
    obtain ⟨secrets, hanswer, -⟩ := Scram.Conversation.step_awaitingServerFirst hstage hs
    obtain ⟨challenge, hread, -⟩ := Scram.Conversation.answer_ok hanswer
    obtain ⟨reply', next', hs'⟩ := Scram.Conversation.step_of_readServerFirst
      (c := conversation.withPassword q) hstage hread
    exact ⟨_, text, reply', next', by rw [withPassword, hphase]; rfl, rfl, hs'⟩

/-- Before a challenge is answered, both clients make the same move. -/
theorem react_withPassword (config : Config) (p q : String) (hu : h.Unanswered)
    (ha : ¬ h.Accepts m) :
    (h.withPassword q).react (config.withPassword q) m =
      (h.react (config.withPassword p) m).withPassword q := by
  obtain ⟨session, phase, nonces⟩ := h
  rcases hu with hu | ⟨conversation, hu, hstage⟩
  · obtain rfl : phase = .negotiating := hu
    cases m with
    | handshake version extensions =>
      rw [react_handshake, withPassword, Phase.withPassword, react_handshake]
      split
      · split <;> rfl
      · rfl
    | authentication request => cases request <;> rfl
    | keyData | readyForCommand | error | unknown => rfl
  · obtain rfl : phase = .serverFirst conversation := hu
    cases m with
    | authentication request =>
      cases request with
      | saslContinue text =>
        cases hread : Scram.readServerFirst conversation.clientNonce text.toList with
        | ok challenge =>
          obtain ⟨reply, next, hs⟩ := Scram.Conversation.step_of_readServerFirst hstage hread
          exact absurd ⟨conversation, text, reply, next, rfl, rfl, hs⟩ ha
        | error e =>
          have hs := Scram.Conversation.step_of_readServerFirst_error hstage hread
          have hs' := Scram.Conversation.step_of_readServerFirst_error
            (c := conversation.withPassword q) hstage hread
          simp only [react, withPassword, Phase.withPassword, reactServerFirst, hs, hs',
            Move.withPassword]
      | ok | sasl | saslFinal | other => rfl
    | handshake | keyData | readyForCommand | error | unknown => rfl

/-- Unless the message is a challenge that is answered, no challenge has been answered after it, and
what is said about it only begins an exchange. -/
theorem keepsUnanswered (config : Config) (hu : h.Unanswered) (ha : ¬ h.Accepts m) :
    (h.react config m).KeepsUnanswered := by
  obtain ⟨session, phase, nonces⟩ := h
  rcases hu with hu | ⟨conversation, hu, hstage⟩
  · obtain rfl : phase = .negotiating := hu
    cases m with
    | handshake version extensions =>
      rw [react_handshake]
      split
      · split
        · exact Or.inl rfl
        · trivial
      · trivial
    | keyData key => exact Or.inl rfl
    | authentication request =>
      cases request with
      | ok => exact Or.inl rfl
      | sasl methods =>
        show (beginExchange config _).KeepsUnanswered
        unfold beginExchange
        cases config.password with
        | none => trivial
        | some password => exact ⟨Or.inr ⟨_, rfl, rfl⟩, _, rfl⟩
      | saslContinue | saslFinal | other => trivial
    | readyForCommand | error | unknown => trivial
  · obtain rfl : phase = .serverFirst conversation := hu
    cases m with
    | authentication request =>
      cases request with
      | saslContinue text =>
        cases hs : conversation.step text with
        | ok answer next => exact absurd ⟨conversation, text, answer, next, rfl, rfl, hs⟩ ha
        | error e next =>
          simp only [react, reactServerFirst, hs]
          trivial
      | ok | sasl | saslFinal | other => trivial
    | handshake | keyData | readyForCommand | error | unknown => trivial

theorem say_of_accepts (config : Config) (ha : h.Accepts m) :
    ∃ data next, h.react config m = .say (.saslResponse data) next := by
  obtain ⟨session, phase, nonces⟩ := h
  obtain ⟨conversation, text, reply, next, hphase, rfl, hs⟩ := ha
  obtain rfl : phase = .serverFirst conversation := hphase
  exact ⟨reply, _, react_saslContinue config hs⟩

theorem meansWork_withPassword (h : Handshake) (m : ServerMessage) (password : String) :
    (h.withPassword password).meansWork m = h.meansWork m := by
  obtain ⟨session, phase, nonces⟩ := h
  cases phase with
  | negotiating | serverFinal => rfl
  | serverFirst conversation =>
    cases m with
    | authentication request => cases request <;> rfl
    | handshake | keyData | readyForCommand | error | unknown => rfl

end Handshake

namespace Connection

variable {config : Config} {p q : String} {nonces : NonceSource} {h h' : Handshake}
  {c c' c₁ c₂ : Connection} {m : ServerMessage} {ms : List ServerMessage}
  {said : List ClientMessage} {r : EStateM.Result (Stop ConnectionError) Connection Unit}

theorem toleratesWork_withPassword (c : Connection) (h : Handshake) (m : ServerMessage)
    (password : String) : c.toleratesWork (h.withPassword password) m = c.toleratesWork h m := by
  rw [toleratesWork, toleratesWork, Handshake.meansWork_withPassword]

theorem Hears.withPassword (hh : Hears h c m c₁) (password : String) :
    Hears (h.withPassword password) c m c₁ :=
  ⟨hh.received, (c₁.toleratesWork_withPassword h m password).trans hh.awaited⟩

section

variable (config p q)

/-- Two clients with different passwords get to the same connection without having answered a
challenge. -/
structure Lockstep (h : Handshake) (c : Connection) (ms : List ServerMessage)
    (said : List ClientMessage) (h' : Handshake) (c' : Connection) : Prop where
  left : Leads (config.withPassword p) h c ms said h' c'
  right : Leads (config.withPassword q) (h.withPassword q) c ms said (h'.withPassword q) c'
  /-- The exchange that is going on, if any, has only begun. -/
  unanswered : h'.Unanswered
  /-- What they have said only begins exchanges. -/
  said : ∀ s ∈ said, ∃ data, s = .saslInitial Scram.mechanism data

end

/-- If no challenge is answered in a last round, it is one with any other password too. -/
theorem Ends.withPassword (he : Ends (config.withPassword p) h c r) (q : String)
    (hu : h.Unanswered) (hno : ∀ m c₁, Hears h c m c₁ → ¬ h.Accepts m) :
    Ends (config.withPassword q) (h.withPassword q) c r := by
  have hreact : ∀ {m c₁ move}, Hears h c m c₁ → h.react (config.withPassword p) m = move →
      (h.withPassword q).react (config.withPassword q) m = move.withPassword q := by
    intro m c₁ move hh hm
    rw [Handshake.react_withPassword config p q hu (hno m c₁ hh), hm]
  cases he with
  | unheard hr => exact .unheard hr
  | late hr hlate => exact .late hr ((toleratesWork_withPassword _ _ _ q).trans hlate)
  | unsaid hh hm hs => exact .unsaid (hh.withPassword q) (hreact hh hm) hs
  | finish hh hm => exact .finish (hh.withPassword q) (hreact hh hm)
  | fail hh hm => exact .fail (hh.withPassword q) (hreact hh hm)
  | hangUp hh hm => exact .hangUp (hh.withPassword q) (hreact hh hm)

/-- Two clients with different passwords stay in lockstep until a challenge comes that they answer,
or else until the end, which is then the same. The induction is on the rounds of one of them. -/
theorem exists_lockstep (hl : Leads (config.withPassword p) h c ms said h' c')
    (he : Ends (config.withPassword p) h' c' r) (hu : h.Unanswered) :
    ∃ ms said h' c', Lockstep config p q h c ms said h' c' ∧
      ((∃ m c₁, Hears h' c' m c₁ ∧ h'.Accepts m) ∨
        Ends (config.withPassword p) h' c' r ∧
          Ends (config.withPassword q) (h'.withPassword q) c' r) := by
  induction hl with
  | nil h c =>
    refine ⟨[], [], h, c, ⟨.nil h c, .nil _ c, hu, by simp⟩, ?_⟩
    by_cases hno : ∃ m c₁, Hears h c m c₁ ∧ h.Accepts m
    · exact Or.inl hno
    · refine Or.inr ⟨he, he.withPassword q hu fun m c₁ hh ha => hno ⟨m, c₁, hh, ha⟩⟩
  | @wait h h₁ _ c c₁ _ m _ _ hh hm _ ih =>
    by_cases ha : h.Accepts m
    · exact ⟨[], [], h, c, ⟨.nil h c, .nil _ c, hu, by simp⟩, Or.inl ⟨m, c₁, hh, ha⟩⟩
    · have hkeeps := Handshake.keepsUnanswered (config.withPassword p) hu ha
      rw [hm] at hkeeps
      have hm' := Handshake.react_withPassword config p q hu ha
      rw [hm] at hm'
      obtain ⟨ms, said, h', c', hlock, hend⟩ := ih he hkeeps
      exact ⟨m :: ms, said, h', c', ⟨.wait hh hm hlock.left,
        .wait (hh.withPassword q) hm' hlock.right, hlock.unanswered, hlock.said⟩, hend⟩
  | @say h h₁ _ c c₁ c₂ _ m _ reply _ hh hm hs _ ih =>
    by_cases ha : h.Accepts m
    · exact ⟨[], [], h, c, ⟨.nil h c, .nil _ c, hu, by simp⟩, Or.inl ⟨m, c₁, hh, ha⟩⟩
    · have hkeeps := Handshake.keepsUnanswered (config.withPassword p) hu ha
      rw [hm] at hkeeps
      have hm' := Handshake.react_withPassword config p q hu ha
      rw [hm] at hm'
      obtain ⟨ms, said, h', c', hlock, hend⟩ := ih he hkeeps.1
      exact ⟨m :: ms, reply :: said, h', c', ⟨.say hh hm hs hlock.left,
        .say (hh.withPassword q) hm' hs hlock.right, hlock.unanswered,
        List.forall_mem_cons.mpr ⟨hkeeps.2, hlock.said⟩⟩, hend⟩

/-- Two starts with different passwords are the same, or both get to where they answer a challenge
with nothing but beginnings of exchanges said before. -/
theorem startup_lockstep (config : Config) (p q : String) (nonces : NonceSource)
    (hs : c.session = {}) :
    startup (config.withPassword p) nonces c = startup (config.withPassword q) nonces c ∨
    ∃ ms said h c' m c₁, Reaches (config.withPassword p) nonces c ms said h c' ∧
      Reaches (config.withPassword q) nonces c ms said (h.withPassword q) c' ∧
      (∀ s ∈ said, ∃ data, s = .saslInitial Scram.mechanism data) ∧
      Hears h c' m c₁ ∧ h.Unanswered ∧ h.Accepts m := by
  rcases exists_reaches (config.withPassword p) nonces hs with
    ⟨stop, c₀, hsend, hstart⟩ | ⟨ms, said, h, c', r, ⟨c₀, hsend, hl⟩, he, hstart⟩
  · left
    have hsend' : send (Handshake.proposal (config.withPassword q)) c = .error stop c₀ := hsend
    rw [hstart, startup_eq hs, runHandshake, hsend']
  · obtain ⟨ms, said, h, c', hlock, hend⟩ := exists_lockstep (q := q) hl he (Or.inl rfl)
    have hleft : Reaches (config.withPassword p) nonces c ms said h c' := ⟨c₀, hsend, hlock.left⟩
    have hright : Reaches (config.withPassword q) nonces c ms said (h.withPassword q) c' :=
      ⟨c₀, hsend, hlock.right⟩
    rcases hend with ⟨m, c₁, hh, ha⟩ | ⟨he, he'⟩
    · exact Or.inr ⟨ms, said, h, c', m, c₁, hleft, hright, hlock.said, hh, hlock.unanswered, ha⟩
    · left
      rw [hleft.startup_of_ends hs he, hright.startup_of_ends hs he']

/-! ## What has been written then -/

theorem exists_written_of_prefix {t u : Transport} (h : t.events <+: u.events) :
    ∃ more, u.written = t.written ++ more := by
  obtain ⟨es, hes⟩ := h
  exact ⟨es.flatMap Event.bytes, by rw [Transport.written, ← hes, List.flatMap_append]; rfl⟩

/-- What comes after a challenge that is answered begins with the answer, if anything is written at
all. -/
theorem negotiate_written_of_accepts (config : Config) (hc : c.outbox.IsIdle) (hh : Hears h c m c₁)
    (ha : h.Accepts m) :
    ∃ tail, (leftBehind (negotiate config h c)).transport.written = c.transport.written ++ tail ∧
      (tail = [] ∨ ∃ more, tail = ClientMessage.saslResponseTag :: more) := by
  obtain ⟨data, next, hm⟩ := Handshake.say_of_accepts config ha
  have hbytes : (ClientMessage.saslResponse data).frame.toBytes =
      ClientMessage.saslResponseTag ::
        (BigEndian.encode lengthFieldSize (lengthFieldSize + (Bytes.textField data).length) ++
          Bytes.textField data) := rfl
  have hwritten : c₁.transport.written = c.transport.written := by
    rw [Transport.written, Transport.written, hh.events_eq]
  obtain ⟨done, hdone, hsent⟩ :=
    send_sent (c := { c₁ with session := next.session }) (hh.isIdle hc) (.saslResponse data)
  have hsent := hsent.bytes_eq
  rw [hh.negotiate_eq config, hm, ← hwritten]
  dsimp only
  cases hs : send (.saslResponse data) { c₁ with session := next.session } with
  | error stop c₂ =>
    rw [hs] at hsent
    refine ⟨done, hsent, ?_⟩
    rw [hbytes] at hdone
    cases done with
    | nil => exact Or.inl rfl
    | cons b rest =>
      obtain ⟨rfl, -⟩ := List.cons_prefix_cons.mp hdone
      exact Or.inr ⟨rest, rfl⟩
  | ok _ c₂ =>
    obtain ⟨-, hsent₂, hidle, -⟩ :=
      send_ok (c := { c₁ with session := next.session }) (hh.isIdle hc) hs
    obtain ⟨more, hmore⟩ := exists_written_of_prefix (negotiate_events config next hidle)
    refine ⟨(ClientMessage.saslResponse data).frame.toBytes ++ more, ?_, Or.inr ⟨_, rfl⟩⟩
    rw [← List.append_assoc]
    have hfirst : c₂.transport.written = c₁.transport.written ++ _ := hsent₂.bytes_eq
    rw [← hfirst]
    exact hmore

/-- What a start that answers a challenge has written before its first answer. -/
theorem Reaches.beforeTag_of_accepts (hr : Reaches config nonces c ms said h c')
    (hc : c.outbox.IsIdle) (hs : c.session = {}) (hnew : c.transport.events = [])
    (hsaid : ∀ s ∈ said, ∃ data, s = .saslInitial Scram.mechanism data) (hh : Hears h c' m c₁)
    (ha : h.Accepts m) :
    Bytes.beforeTag ClientMessage.saslResponseTag
        (leftBehind (startup config nonces c)).transport.written =
      ClientMessage.stream (Handshake.proposal config :: said) := by
  obtain ⟨hsent, hidle⟩ := hr.sent hc
  have hencodable := hr.encodable hc
  obtain ⟨tail, hwritten, htail⟩ := negotiate_written_of_accepts config hidle hh ha
  have hbefore : c'.transport.written =
      ClientMessage.stream (Handshake.proposal config :: said) := by
    have := hsent.bytes_eq
    rwa [hnew, List.flatMap_nil, List.nil_append] at this
  rw [hr.startup_eq hs, leftBehind_conclude, hwritten, hbefore, ClientMessage.stream,
    ← List.flatMap_map ClientMessage.frame]
  refine Bytes.beforeTag_frames (fun f hf => ?_) htail
  obtain ⟨s, hmem, rfl⟩ := List.mem_map.mp hf
  refine ⟨(hencodable s hmem).2, ?_⟩
  rcases List.mem_cons.mp hmem with rfl | hmem
  · show (0x56 : UInt8) ≠ 0x72
    decide
  · obtain ⟨data, rfl⟩ := hsaid s hmem
    show (0x70 : UInt8) ≠ 0x72
    decide

/-! ## Secrecy -/

/-- A client that has begun an exchange and waits for the first server string hears one. -/
def IsChallenged (config : Config) (nonces : NonceSource) (c : Connection)
    (conversation : Scram.Conversation) (text : String) : Prop :=
  ∃ ms said h c₁ c₂, Reaches config nonces c ms said h c₁ ∧ h.phase = .serverFirst conversation ∧
    Hears h c₁ (.authentication (.saslContinue text)) c₂

theorem IsChallenged.stage {conversation : Scram.Conversation} {text : String}
    (hi : IsChallenged config nonces c conversation text) (hc : c.outbox.IsIdle)
    (hs : c.session = {}) : conversation.stage = .awaitingServerFirst := by
  obtain ⟨ms, said, h, c₁, c₂, hr, hphase, -⟩ := hi
  obtain ⟨⟨proposal, turns, point⟩, -, hp⟩ := hr.exists_progress hc hs
  obtain ⟨-, hpoint⟩ := hp
  cases point with
  | outside =>
    cases hpoint
    exact absurd hphase (by simp)
  | challenged methods =>
    obtain ⟨_, -, -, rfl⟩ := hpoint.of_challenged
    rw [← Phase.serverFirst.inj hphase]
    rfl
  | answered methods first =>
    obtain ⟨_, _, _, -, -, -, rfl⟩ := hpoint.of_answered
    exact absurd hphase (by simp)
  | verified methods first final =>
    obtain ⟨_, _, _, -, -, -, -, rfl⟩ := hpoint.of_verified
    exact absurd hphase (by simp)

/-- Nothing about the password leaves before a challenge that the client answers. Over the same
transport two starts that differ only in the password write the same bytes before the first answer
to a challenge. If no challenge is answered in one of them, they are altogether the same: in the
result, in what the client knows, and in all that is done to the transport. So it is when every
first server string that comes is flawed, or none comes. -/
theorem startup_secrecy (config : Config) (p q : String) (nonces : NonceSource) {t : Transport}
    (ht : t.log = []) :
    Bytes.beforeTag ClientMessage.saslResponseTag
        (leftBehind (startup (config.withPassword p) nonces { transport := t })).transport.written =
      Bytes.beforeTag ClientMessage.saslResponseTag
        (leftBehind (startup (config.withPassword q) nonces { transport := t })).transport.written ∧
    ((∀ conversation text,
        IsChallenged (config.withPassword p) nonces { transport := t } conversation text →
        ∀ reply next, conversation.step text ≠ .ok reply next) →
      startup (config.withPassword p) nonces { transport := t } =
        startup (config.withPassword q) nonces { transport := t }) ∧
    ((∀ conversation text,
        IsChallenged (config.withPassword p) nonces { transport := t } conversation text →
        Scram.Flawed conversation.clientNonce text.toList) →
      startup (config.withPassword p) nonces { transport := t } =
        startup (config.withPassword q) nonces { transport := t }) := by
  have hidle : Writer.IsIdle {} := rfl
  have hunanswered : (∀ conversation text,
        IsChallenged (config.withPassword p) nonces { transport := t } conversation text →
        ∀ reply next, conversation.step text ≠ .ok reply next) →
      startup (config.withPassword p) nonces { transport := t } =
        startup (config.withPassword q) nonces { transport := t } := by
    intro hno
    rcases startup_lockstep config p q nonces (c := { transport := t }) rfl with
      hsame | ⟨ms, said, h, c', m, c₁, hleft, -, -, hh, -, ha⟩
    · exact hsame
    · obtain ⟨conversation, text, reply, next, hphase, rfl, hstep⟩ := ha
      exact absurd hstep (hno conversation text ⟨ms, said, h, c', c₁, hleft, hphase, hh⟩ reply next)
  refine ⟨?_, hunanswered, fun hflawed => hunanswered fun conversation text hi reply next => ?_⟩
  · rcases startup_lockstep config p q nonces (c := { transport := t }) rfl with
      hsame | ⟨ms, said, h, c', m, c₁, hleft, hright, hsaid, hh, hu, ha⟩
    · rw [hsame]
    · have hnew : t.events = [] := by rw [Transport.events, ht, List.reverse_nil]
      rw [hleft.beforeTag_of_accepts hidle rfl hnew hsaid hh ha,
        hright.beforeTag_of_accepts hidle rfl hnew hsaid (hh.withPassword q)
          (Handshake.accepts_withPassword hu ha q)]
      rfl
  · exact Scram.Conversation.step_ne_ok_of_flawed (hi.stage hidle rfl) (hflawed _ _ hi)

/-- The frames of a server that demands a proof with a key derivation of no rounds. -/
def noRoundsFrames : List Frame :=
  [⟨ServerMessage.authenticationTag, [0, 0, 0, 0xa, 0, 0, 0, 0]⟩,
    ⟨ServerMessage.authenticationTag, [0, 0, 0, 0xb] ++ Bytes.textField "i=0"⟩]

/-- A peer that sends these frames. -/
def noRoundsPeer : Peer where
  deliveries := [.bytes (noRoundsFrames.flatMap Frame.toBytes)]

/-- Such a server learns nothing about the password. -/
theorem startup_secrecy_noRounds :
    startup ((Config.forUser "edgedb").withPassword "pencil") ⟨fun _ => 0, 0⟩
        { transport := .toPeer noRoundsPeer } =
      startup ((Config.forUser "edgedb").withPassword "sesame") ⟨fun _ => 0, 0⟩
        { transport := .toPeer noRoundsPeer } := by
  have hpeer : noRoundsPeer.Speaks noRoundsFrames := Peer.speaks_at_once _
  have hdecode : noRoundsFrames.map ServerMessage.decode =
      [.authentication (.sasl []), .authentication (.saslContinue "i=0")].map .ok := by
    decide
  have hcarries := carries_of_speaks hpeer hdecode (by decide)
  refine (startup_secrecy (.forUser "edgedb") "pencil" "sesame" ⟨fun _ => 0, 0⟩ rfl).2.2 ?_
  intro conversation text hi
  obtain ⟨ms, said, h, c₁, c₂, hr, -, hh⟩ := hi
  -- What is heard is among the messages that the peer sends.
  have hbegin := (hr.carries (hh.carries (.nil _))).prefix_of_all hcarries
  have hmem := hbegin.subset (List.mem_append_right ms List.mem_cons_self)
  simp only [List.mem_cons, ServerMessage.authentication.injEq, Authentication.saslContinue.injEq,
    reduceCtorEq, List.not_mem_nil, or_false, false_or] at hmem
  subst hmem
  have hrounds : (Scram.lastValue 'i' "i=0".toList).bind Scram.number? = some 0 := by decide
  exact .rounds hrounds (Or.inl rfl)

end Connection

end EdgeClient
