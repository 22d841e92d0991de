import EdgeClient.Proofs.Connection.HandshakeRun
import EdgeClient.Proofs.Scram.Steps

/-!
# What a server may say while a connection is set up

The messages of a handshake that goes well are a version, perhaps, and then turns: key data, a
confirmation, or a whole authentication exchange of four messages. `Progress` is how far a server
has come with that, perhaps in the middle of an exchange, and `Progress.Accepted` says that the
client has gone along: it has a password for every exchange, and the conversation of the exchange,
which is a new one each time, has accepted the server's strings.

Neither definition mentions how the client reacts. That it goes along with exactly these messages
is `Progress.Accepted.run` in one direction and `Progress.exists_of_run` in the other; the latter
rests on `Progress.Accepted.follows`, which says what becomes of any message at any point.
-/

namespace EdgeClient

/-- What a server does in a handshake, one after the other. -/
inductive Turn where
  /-- It hands out key data. -/
  | keyData (key : Bytes)
  /-- It says that no proof is needed. -/
  | authOk
  /-- It demands a proof, gives its own one, and confirms. -/
  | exchange (methods : List Bytes) (serverFirst serverFinal : String)
  deriving DecidableEq, Repr

/-- Where a server stands: between two turns, or within an exchange. -/
inductive Point where
  /-- No exchange is going on. -/
  | outside
  /-- It has demanded a proof. -/
  | challenged (methods : List Bytes)
  /-- It has sent its first string. -/
  | answered (methods : List Bytes) (serverFirst : String)
  /-- It has sent both of its strings. -/
  | verified (methods : List Bytes) (serverFirst serverFinal : String)
  deriving DecidableEq, Repr

/-- What a server has said in a handshake so far. -/
structure Progress where
  /-- The extensions that came with its version, if it has named one. -/
  proposal : Option (List String) := none
  /-- The turns that are over. -/
  turns : List Turn := []
  /-- Where it stands now. -/
  point : Point := .outside
  deriving DecidableEq, Repr

/-- The messages of a turn. -/
def Turn.messages : Turn → List ServerMessage
  | .keyData key => [.keyData key]
  | .authOk => [.authentication .ok]
  | .exchange methods serverFirst serverFinal =>
    [.authentication (.sasl methods), .authentication (.saslContinue serverFirst),
      .authentication (.saslFinal serverFinal), .authentication .ok]

/-- The messages of the exchange that is going on. -/
def Point.messages : Point → List ServerMessage
  | .outside => []
  | .challenged methods => [.authentication (.sasl methods)]
  | .answered methods serverFirst =>
    [.authentication (.sasl methods), .authentication (.saslContinue serverFirst)]
  | .verified methods serverFirst serverFinal =>
    [.authentication (.sasl methods), .authentication (.saslContinue serverFirst),
      .authentication (.saslFinal serverFinal)]

/-- The key that a turn brings. -/
def Turn.key? : Turn → Option Bytes
  | .keyData key => some key
  | _ => none

namespace Progress

/-- All messages so far. -/
def messages (p : Progress) : List ServerMessage :=
  (p.proposal.map (.handshake .current)).toList ++ p.turns.flatMap Turn.messages ++ p.point.messages

/-- The state of a client that has gone along. -/
def state (p : Progress) : HandshakeState :=
  match p.point with
  | .outside =>
    if p.proposal.isNone ∧ p.turns = [] then .awaitingServerHandshake else .awaitingAuthOrReady
  | _ => .authenticating

/-- What a client that has gone along knows: the version that was settled, if the server named it,
and the key that was handed out last. -/
def session (p : Progress) : Session where
  state := p.state
  version := p.proposal.map fun _ => .current
  keyData := (p.turns.filterMap Turn.key?).getLast?

end Progress

/-! ## Going along -/

section

open Scram (Conversation mechanism)

variable (config : Config)

/-- The client has gone along with an exchange up to a point: what it has said, and what it waits
for. The conversation is a new one, with the nonce that `nonces` gives next. -/
inductive Point.Accepted (nonces : NonceSource) : Point → List ClientMessage → Phase → Prop where
  | outside : Accepted nonces .outside [] .negotiating
  | challenged {methods : List Bytes} {password clientFirst : String} {conversation : Conversation} :
    config.password = some password →
    (Conversation.start config.user password nonces).step "" = .ok clientFirst conversation →
      Accepted nonces (.challenged methods) [.saslInitial mechanism clientFirst]
        (.serverFirst conversation)
  | answered {methods : List Bytes} {said : List ClientMessage} {serverFirst clientFinal : String}
    {conversation next : Conversation} :
    Accepted nonces (.challenged methods) said (.serverFirst conversation) →
    conversation.step serverFirst = .ok clientFinal next →
      Accepted nonces (.answered methods serverFirst) (said ++ [.saslResponse clientFinal])
        (.serverFinal next)
  | verified {methods : List Bytes} {said : List ClientMessage}
    {serverFirst serverFinal reply : String} {conversation next : Conversation} :
    Accepted nonces (.answered methods serverFirst) said (.serverFinal conversation) →
    conversation.step serverFinal = .ok reply next →
      Accepted nonces (.verified methods serverFirst serverFinal) said (.serverFinal next)

/-- The client has gone along with turns: what it has said, and where further nonces come from.
Each exchange uses up one nonce. -/
inductive Turns : NonceSource → List Turn → List ClientMessage → NonceSource → Prop where
  | nil (nonces : NonceSource) : Turns nonces [] [] nonces
  | keyData {nonces nonces' : NonceSource} {turns : List Turn} {said : List ClientMessage}
    (key : Bytes) :
    Turns nonces turns said nonces' → Turns nonces (.keyData key :: turns) said nonces'
  | authOk {nonces nonces' : NonceSource} {turns : List Turn} {said : List ClientMessage} :
    Turns nonces turns said nonces' → Turns nonces (.authOk :: turns) said nonces'
  | exchange {nonces nonces' : NonceSource} {turns : List Turn} {first said : List ClientMessage}
    {methods : List Bytes} {serverFirst serverFinal : String} {phase : Phase} :
    Point.Accepted config nonces (.verified methods serverFirst serverFinal) first phase →
    Turns nonces.next turns said nonces' →
      Turns nonces (.exchange methods serverFirst serverFinal :: turns) (first ++ said) nonces'

/-- The nonces that are left at a point. -/
def Point.remaining (nonces : NonceSource) : Point → NonceSource
  | .outside => nonces
  | _ => nonces.next

/-- The client has gone along with a server so far: what it has said in answer, and its handshake. -/
inductive Progress.Accepted (nonces : NonceSource) :
    Progress → List ClientMessage → Handshake → Prop where
  | mk {p : Progress} {said said' : List ClientMessage} {nonces' : NonceSource} {phase : Phase} :
    Turns config nonces p.turns said nonces' → p.point.Accepted config nonces' said' phase →
      Accepted nonces p (said ++ said') ⟨p.session, phase, p.point.remaining nonces'⟩

end

namespace Turns

variable {config : Config} {nonces nonces' nonces'' : NonceSource} {turns turns' : List Turn}
  {said said' : List ClientMessage}

theorem append (h : Turns config nonces turns said nonces')
    (h' : Turns config nonces' turns' said' nonces'') :
    Turns config nonces (turns ++ turns') (said ++ said') nonces'' := by
  induction h with
  | nil => exact h'
  | keyData key _ ih => exact .keyData key (ih h')
  | authOk _ ih => exact .authOk (ih h')
  | exchange hp _ ih =>
    rw [List.append_assoc]
    exact .exchange hp (ih h')

end Turns

/-! ## Where a conversation stands -/

namespace Point.Accepted

open Scram

variable {config : Config} {nonces : NonceSource} {methods : List Bytes}
  {serverFirst serverFinal : String} {said : List ClientMessage} {phase : Phase}

/-- The conversation of an exchange at a stage. -/
def conversation (config : Config) (nonces : NonceSource) (password : String) (stage : Stage) :
    Conversation :=
  { Conversation.start config.user password nonces with stage }

theorem of_challenged (h : Accepted config nonces (.challenged methods) said phase) :
    ∃ password, config.password = some password ∧
      said = [.saslInitial mechanism (String.ofList (clientFirst config.user nonces.nonce))] ∧
      phase = .serverFirst (conversation config nonces password .awaitingServerFirst) := by
  cases h with
  | @challenged _ password clientFirst conversation hp hs =>
    rw [Conversation.step_initial rfl] at hs
    obtain ⟨rfl, rfl⟩ := EStateM.Result.ok.inj hs
    exact ⟨password, hp, rfl, rfl⟩

theorem of_answered (h : Accepted config nonces (.answered methods serverFirst) said phase) :
    ∃ password secrets clientFinal, config.password = some password ∧
      (conversation config nonces password .awaitingServerFirst).answer serverFirst.toList =
        .ok (secrets, clientFinal.toList) ∧
      said = [.saslInitial mechanism (String.ofList (clientFirst config.user nonces.nonce)),
        .saslResponse clientFinal] ∧
      phase = .serverFinal (conversation config nonces password (.awaitingServerFinal secrets)) := by
  cases h with
  | @answered _ said _ clientFinal conversation next hc hs =>
    obtain ⟨password, hp, rfl, hphase⟩ := of_challenged hc
    obtain rfl := Phase.serverFirst.inj hphase
    obtain ⟨secrets, ha, rfl⟩ := Conversation.step_awaitingServerFirst rfl hs
    exact ⟨password, secrets, clientFinal, hp, ha, rfl, rfl⟩

theorem of_verified
    (h : Accepted config nonces (.verified methods serverFirst serverFinal) said phase) :
    ∃ password secrets clientFinal, config.password = some password ∧
      (conversation config nonces password .awaitingServerFirst).answer serverFirst.toList =
        .ok (secrets, clientFinal.toList) ∧
      Conversation.verify secrets serverFinal.toList = .ok () ∧
      said = [.saslInitial mechanism (String.ofList (clientFirst config.user nonces.nonce)),
        .saslResponse clientFinal] ∧
      phase = .serverFinal (conversation config nonces password (.done secrets)) := by
  cases h with
  | @verified _ said _ _ reply conv next hc hs =>
    obtain ⟨password, secrets, clientFinal, hp, ha, rfl, hphase⟩ := of_answered hc
    obtain rfl := Phase.serverFinal.inj hphase
    obtain ⟨hv, -, rfl⟩ := Conversation.step_awaitingServerFinal rfl hs
    exact ⟨password, secrets, clientFinal, hp, ha, hv, rfl, rfl⟩

end Point.Accepted

/-! ## The next message -/

theorem Handshake.react_handshake (config : Config) (session : Session) (nonces : NonceSource)
    (version : ProtocolVersion) (extensions : List String) :
    react config ⟨session, .negotiating, nonces⟩ (.handshake version extensions) =
      if session.state = .awaitingServerHandshake then
        if version = .current then
          .wait ⟨settled { session with version := some version }, .negotiating, nonces⟩
        else .hangUp (.unsupportedVersion version) session
      else .fail (.unexpectedMessage ServerMessage.handshakeTag session.state) session := rfl

section

variable {session : Session} {nonces : NonceSource} {conversation next : Scram.Conversation}
  {text reply : String}

theorem Handshake.react_saslContinue (config : Config) (hs : conversation.step text = .ok reply next) :
    react config ⟨session, .serverFirst conversation, nonces⟩ (.authentication (.saslContinue text)) =
      .say (.saslResponse reply) ⟨session, .serverFinal next, nonces⟩ := by
  simp [react, reactServerFirst, hs]

theorem Handshake.react_saslFinal (config : Config) (hs : conversation.step text = .ok reply next) :
    react config ⟨session, .serverFinal conversation, nonces⟩ (.authentication (.saslFinal text)) =
      .wait ⟨session, .serverFinal next, nonces⟩ := by
  simp [react, reactServerFinal, hs]

theorem Handshake.react_ok (config : Config) (hd : conversation.isDone = true) :
    react config ⟨session, .serverFinal conversation, nonces⟩ (.authentication .ok) =
      .wait ⟨settled session, .negotiating, nonces⟩ := by
  simp [react, reactServerFinal, hd]

end

namespace Progress

/-- What a client knows when it is told after `p` that the server is ready. -/
def ready (p : Progress) (transaction : TransactionState) : Session :=
  { p.session with state := .ready, version := some .current, transaction }

variable {config : Config} {nonces : NonceSource} {p : Progress} {said : List ClientMessage}
  {h : Handshake}

section

variable (config nonces p said)

/-- What the client may do about a message after `p`: it goes along, with or without an answer, it
is done, or it gives up. Giving up it forgets nothing of what it has learned so far. -/
inductive Follows (m : ServerMessage) : Move → Prop where
  | wait {q : Progress} {h' : Handshake} :
    q.messages = p.messages ++ [m] → q.Accepted config nonces said h' → Follows m (.wait h')
  | say {q : Progress} {h' : Handshake} {reply : ClientMessage} :
    q.messages = p.messages ++ [m] → q.Accepted config nonces (said ++ [reply]) h' →
      Follows m (.say reply h')
  | finish {transaction : TransactionState} :
    m = .readyForCommand transaction → p.point = .outside →
      Follows m (.finish (p.ready transaction))
  | fail {e : ConnectionError} {session : Session} :
    { session with state := .failed } = { p.session with state := HandshakeState.failed } →
      (∀ version, e ≠ .unsupportedVersion version) → Follows m (.fail e session)
  | hangUp {version : ProtocolVersion} :
    Follows m (.hangUp (.unsupportedVersion version) p.session)

end

theorem state_eq_awaitingServerHandshake :
    p.state = .awaitingServerHandshake ↔ p = {} := by
  obtain ⟨proposal, turns, point⟩ := p
  cases point with
  | outside => cases proposal <;> simp [state]
  | challenged | answered | verified => simp [state]

theorem session_state (p : Progress) : p.session.state = p.state := rfl

/-- Another turn brings the client into the state between two turns. -/
theorem session_turn (proposal : Option (List String)) (turns : List Turn) (t : Turn) :
    session ⟨proposal, turns ++ [t], .outside⟩ =
      { state := .awaitingAuthOrReady
        version := proposal.map fun _ => .current
        keyData := t.key?.or (turns.filterMap Turn.key?).getLast? } := by
  have hkey : ((turns ++ [t]).filterMap Turn.key?).getLast? =
      t.key?.or (turns.filterMap Turn.key?).getLast? := by
    rw [List.filterMap_append]
    cases t <;> simp [Turn.key?]
  simp only [session, hkey]
  simp [state]

theorem messages_turn (proposal : Option (List String)) (turns : List Turn) (t : Turn) :
    messages ⟨proposal, turns ++ [t], .outside⟩ =
      messages ⟨proposal, turns, .outside⟩ ++ t.messages := by
  simp [messages, Point.messages]

theorem react_ready (config : Config) (proposal : Option (List String)) (turns : List Turn)
    (nonces : NonceSource) (transaction : TransactionState) :
    Handshake.react config ⟨session ⟨proposal, turns, .outside⟩, .negotiating, nonces⟩
      (.readyForCommand transaction) = .finish (ready ⟨proposal, turns, .outside⟩ transaction) := by
  have hversion : some ((session ⟨proposal, turns, .outside⟩).version.getD .current) =
      some ProtocolVersion.current := by
    cases proposal <;> rfl
  show Move.finish _ = _
  rw [hversion]
  rfl

theorem follows_outside {proposal : Option (List String)} {turns : List Turn}
    {nonces' : NonceSource} (ht : Turns config nonces turns said nonces') (m : ServerMessage) :
    Follows config nonces ⟨proposal, turns, .outside⟩ said m
      (Handshake.react config ⟨session ⟨proposal, turns, .outside⟩, .negotiating, nonces'⟩ m) := by
  have hsaid : said ++ [] = said := List.append_nil said
  have hturn : ∀ {t : Turn}, Turns config nonces' [t] [] nonces' →
      Accepted config nonces ⟨proposal, turns ++ [t], .outside⟩ said
        ⟨session ⟨proposal, turns ++ [t], .outside⟩, .negotiating, nonces'⟩ := by
    intro t h
    have := Accepted.mk (p := ⟨proposal, turns ++ [t], .outside⟩) (ht.append h) .outside
    rwa [hsaid, hsaid] at this
  cases m with
  | handshake version extensions =>
    rw [Handshake.react_handshake, session_state]
    by_cases hstate : state ⟨proposal, turns, .outside⟩ = .awaitingServerHandshake
    · have hp := state_eq_awaitingServerHandshake.mp hstate
      simp only [Progress.mk.injEq] at hp
      obtain ⟨rfl, rfl, -⟩ := hp
      by_cases hv : version = .current
      · subst hv
        have := Accepted.mk (p := ⟨some extensions, [], .outside⟩) ht .outside
        rw [hsaid] at this
        exact .wait (q := ⟨some extensions, [], .outside⟩) rfl this
      · rw [if_pos hstate, if_neg hv]
        exact .hangUp
    · rw [if_neg hstate]
      exact .fail rfl (by simp)
  | keyData key =>
    have hacc := hturn (.keyData key (.nil _))
    rw [session_turn] at hacc
    exact .wait (messages_turn _ _ _) hacc
  | readyForCommand transaction =>
    rw [react_ready]
    exact .finish rfl rfl
  | authentication request =>
    cases request with
    | ok =>
      have hacc := hturn (.authOk (.nil _))
      rw [session_turn] at hacc
      exact .wait (messages_turn _ _ _) hacc
    | sasl methods =>
      show Follows config nonces _ said _ (Handshake.beginExchange config _)
      unfold Handshake.beginExchange
      cases hp : config.password with
      | none => exact .fail rfl (by simp)
      | some password =>
        dsimp only
        have hs := Scram.Conversation.step_initial
          (c := .start config.user password nonces') rfl ""
        rw [hs]
        have := Accepted.mk (p := ⟨proposal, turns, .challenged methods⟩) ht (.challenged hp hs)
        refine .say (q := ⟨proposal, turns, .challenged methods⟩) ?_ this
        simp [messages, Point.messages]
    | saslContinue | saslFinal | other => exact .fail rfl (by simp)
  | error | unknown => exact .fail rfl (by simp)

section

variable {proposal : Option (List String)} {turns : List Turn} {nonces' : NonceSource}
  {methods : List Bytes} {said' : List ClientMessage} {conversation : Scram.Conversation}

theorem follows_challenged (ht : Turns config nonces turns said nonces')
    (hp : Point.Accepted config nonces' (.challenged methods) said' (.serverFirst conversation))
    (m : ServerMessage) :
    Follows config nonces ⟨proposal, turns, .challenged methods⟩ (said ++ said') m
      (Handshake.react config ⟨session ⟨proposal, turns, .challenged methods⟩,
        .serverFirst conversation, nonces'.next⟩ m) := by
  cases m with
  | authentication request =>
    cases request with
    | saslContinue serverFirst =>
      cases hs : conversation.step serverFirst with
      | error e next =>
        simp only [Handshake.react, Handshake.reactServerFirst, hs]
        exact .fail rfl (by simp)
      | ok clientFinal next =>
        rw [Handshake.react_saslContinue config hs]
        have := Accepted.mk (p := ⟨proposal, turns, .answered methods serverFirst⟩) ht
          (.answered hp hs)
        rw [← List.append_assoc] at this
        refine .say (q := ⟨proposal, turns, .answered methods serverFirst⟩) ?_ this
        simp [messages, Point.messages]
    | ok | sasl | saslFinal | other => exact .fail rfl (by simp)
  | handshake | keyData | readyForCommand | error | unknown => exact .fail rfl (by simp)

theorem follows_answered {serverFirst : String} (ht : Turns config nonces turns said nonces')
    (hp : Point.Accepted config nonces' (.answered methods serverFirst) said'
      (.serverFinal conversation)) (m : ServerMessage) :
    Follows config nonces ⟨proposal, turns, .answered methods serverFirst⟩ (said ++ said') m
      (Handshake.react config ⟨session ⟨proposal, turns, .answered methods serverFirst⟩,
        .serverFinal conversation, nonces'.next⟩ m) := by
  cases m with
  | authentication request =>
    cases request with
    | saslFinal serverFinal =>
      cases hs : conversation.step serverFinal with
      | error e next =>
        simp only [Handshake.react, Handshake.reactServerFinal, hs]
        exact .fail rfl (by simp)
      | ok reply next =>
        rw [Handshake.react_saslFinal config hs]
        have := Accepted.mk (p := ⟨proposal, turns, .verified methods serverFirst serverFinal⟩) ht
          (.verified hp hs)
        refine .wait (q := ⟨proposal, turns, .verified methods serverFirst serverFinal⟩) ?_ this
        simp [messages, Point.messages]
    | ok =>
      -- The conversation still waits for the server's signature.
      obtain ⟨_, secrets, _, -, -, -, hphase⟩ := hp.of_answered
      obtain rfl := Phase.serverFinal.inj hphase
      exact .fail rfl (by simp)
    | sasl | saslContinue | other => exact .fail rfl (by simp)
  | handshake | keyData | readyForCommand | error | unknown => exact .fail rfl (by simp)

theorem follows_verified {serverFirst serverFinal : String}
    (ht : Turns config nonces turns said nonces')
    (hp : Point.Accepted config nonces' (.verified methods serverFirst serverFinal) said'
      (.serverFinal conversation)) (m : ServerMessage) :
    Follows config nonces ⟨proposal, turns, .verified methods serverFirst serverFinal⟩
      (said ++ said') m
      (Handshake.react config ⟨session ⟨proposal, turns, .verified methods serverFirst serverFinal⟩,
        .serverFinal conversation, nonces'.next⟩ m) := by
  obtain ⟨_, secrets, _, -, -, -, -, hphase⟩ := hp.of_verified
  obtain hconv := Phase.serverFinal.inj hphase
  cases m with
  | authentication request =>
    cases request with
    | saslFinal again =>
      have hmove : Handshake.react config
          ⟨session ⟨proposal, turns, .verified methods serverFirst serverFinal⟩,
            .serverFinal conversation, nonces'.next⟩ (.authentication (.saslFinal again)) =
          .fail (.auth .finished)
            (session ⟨proposal, turns, .verified methods serverFirst serverFinal⟩) := by
        rw [hconv]
        rfl
      rw [hmove]
      exact .fail rfl (by simp)
    | ok =>
      have hexchange := Turns.exchange hp (.nil nonces'.next)
      rw [List.append_nil] at hexchange
      have := Accepted.mk (p := ⟨proposal, turns ++ [.exchange methods serverFirst serverFinal],
        .outside⟩) (ht.append hexchange) .outside
      rw [session_turn, List.append_nil] at this
      rw [hconv]
      refine .wait ?_ this
      simp [messages, Point.messages, Turn.messages]
    | sasl | saslContinue | other => exact .fail rfl (by simp)
  | handshake | keyData | readyForCommand | error | unknown => exact .fail rfl (by simp)

end

/-- What becomes of any message at any point. -/
theorem Accepted.follows (hp : p.Accepted config nonces said h) (m : ServerMessage) :
    Follows config nonces p said m (h.react config m) := by
  obtain ⟨proposal, turns, point⟩ := p
  obtain ⟨ht, hpoint⟩ := hp
  cases point with
  | outside =>
    cases hpoint
    rw [List.append_nil]
    exact follows_outside ht m
  | challenged methods =>
    obtain ⟨_, -, -, rfl⟩ := hpoint.of_challenged
    exact follows_challenged ht hpoint m
  | answered methods serverFirst =>
    obtain ⟨_, secrets, _, -, -, -, rfl⟩ := hpoint.of_answered
    exact follows_answered ht hpoint m
  | verified methods serverFirst serverFinal =>
    obtain ⟨_, secrets, _, -, -, -, -, rfl⟩ := hpoint.of_verified
    exact follows_verified ht hpoint m

/-! ## Progress and runs -/

/-- Before the first message. -/
theorem Accepted.start (config : Config) (nonces : NonceSource) :
    Accepted config nonces {} [] (Handshake.afterProposal {} nonces) :=
  .mk (p := {}) (.nil nonces) .outside

/-- A run takes a client that has gone along with a server to where it still does. -/
theorem exists_of_run {h' : Handshake} {ms : List ServerMessage} {said' : List ClientMessage}
    (hr : Handshake.Run config h ms said' h') (hp : p.Accepted config nonces said h) :
    ∃ p' : Progress, p'.messages = p.messages ++ ms ∧
      p'.Accepted config nonces (said ++ said') h' := by
  induction hr generalizing p said with
  | nil => exact ⟨p, by simp, by simpa using hp⟩
  | @wait h h₁ h₂ m ms said' hm _ ih =>
    have hfollows := hp.follows m
    rw [hm] at hfollows
    cases hfollows with
    | @wait p₁ _ hms hp₁ =>
      obtain ⟨p', hms', hp'⟩ := ih hp₁
      exact ⟨p', by rw [hms', hms, List.append_assoc]; rfl, hp'⟩
  | @say h h₁ h₂ m ms reply said' hm _ ih =>
    have hfollows := hp.follows m
    rw [hm] at hfollows
    cases hfollows with
    | @say p₁ _ _ hms hp₁ =>
      obtain ⟨p', hms', hp'⟩ := ih hp₁
      rw [List.append_assoc] at hp'
      exact ⟨p', by rw [hms', hms, List.append_assoc]; rfl, hp'⟩

theorem run_point {point : Point} {phase : Phase} (proposal : Option (List String))
    (turns : List Turn) (hp : point.Accepted config nonces said phase) :
    Handshake.Run config ⟨session ⟨proposal, turns, .outside⟩, .negotiating, nonces⟩ point.messages
      said ⟨session ⟨proposal, turns, point⟩, phase, point.remaining nonces⟩ := by
  induction hp with
  | outside => exact .nil _
  | @challenged methods password clientFirst conversation hpassword hs =>
    refine .say ?_ (.nil _)
    show Handshake.beginExchange config _ = _
    unfold Handshake.beginExchange
    rw [hpassword]
    dsimp only
    rw [hs]
    rfl
  | answered _ hs ih =>
    exact ih.append (.say (Handshake.react_saslContinue config hs) (.nil _))
  | @verified methods said serverFirst _ _ _ _ _ hs ih =>
    have := ih.append (.wait (Handshake.react_saslFinal config hs) (.nil _))
    rwa [List.append_nil] at this

theorem run_turns {nonces' : NonceSource} {turns : List Turn} (proposal : Option (List String))
    (past : List Turn) (ht : Turns config nonces turns said nonces') :
    Handshake.Run config ⟨session ⟨proposal, past, .outside⟩, .negotiating, nonces⟩
      (turns.flatMap Turn.messages) said
      ⟨session ⟨proposal, past ++ turns, .outside⟩, .negotiating, nonces'⟩ := by
  induction ht generalizing past with
  | nil =>
    rw [List.append_nil]
    exact .nil _
  | keyData key _ ih =>
    rw [List.append_cons]
    refine .wait ?_ (ih (past ++ [.keyData key]))
    rw [session_turn]
    rfl
  | authOk _ ih =>
    rw [List.append_cons]
    refine .wait ?_ (ih (past ++ [.authOk]))
    rw [session_turn]
    rfl
  | @exchange _ _ turns first said methods serverFirst serverFinal phase hp _ ih =>
    obtain ⟨password, secrets, _, -, -, -, -, rfl⟩ := hp.of_verified
    rw [List.append_cons]
    have htail := ih (past ++ [.exchange methods serverFirst serverFinal])
    rw [session_turn] at htail
    exact (run_point proposal past hp).append (.wait (Handshake.react_ok config rfl) htail)

/-- A client that has gone along with a server has taken in its messages. -/
theorem Accepted.run (hp : p.Accepted config nonces said h) :
    Handshake.Run config (Handshake.afterProposal {} nonces) p.messages said h := by
  obtain ⟨proposal, turns, point⟩ := p
  obtain ⟨ht, hpoint⟩ := hp
  have htail := (run_turns proposal [] ht).append (run_point proposal turns hpoint)
  cases proposal with
  | none => exact htail
  | some extensions => exact .wait rfl htail

end Progress

end EdgeClient
