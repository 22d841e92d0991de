import EdgeClient.Proofs.Requests
import EdgeClient.Proofs.Scram.Challenges
import Mathlib.Data.List.Induction

/-!
# Trying again

A conversation takes whatever strings come, and one that it refuses does not cost it anything: it
waits for a better one as if nothing had been said. So of all that is said to a conversation only
the strings that it took count. There are three of them at most, and `Transcript` says which ones
and what has been answered to each.
-/

namespace EdgeClient.Scram.Conversation

open Requests

variable {c d : Conversation} {text reply : String} {taken : List (String × String)}

/-- What the client keeps after answering a challenge. -/
def secretsFor (c : Conversation) (serverFirst : String) (challenge : Challenge) : Secrets where
  saltedPassword := pbkdf2 (Bytes.ofString c.password) challenge.salt challenge.iterations
  authMessage := authMessage c.firstBare serverFirst.toList ("c=biws,r=".toList ++ challenge.nonce)

/-- The last client string for a challenge. -/
def finalFor (c : Conversation) (serverFirst : String) (challenge : Challenge) : String :=
  let secrets := c.secretsFor serverFirst challenge
  String.ofList ("c=biws,r=".toList ++ challenge.nonce ++ ",p=".toList ++
    Base64.encode (clientProof secrets.saltedPassword secrets.authMessage))

/-- Whether a last server string proves that the server knows the password. -/
def Proves (secrets : Secrets) (serverFinal : String) : Prop :=
  valueOf 'e' serverFinal.toList = none ∧
    (parts serverFinal.toList).findSome? (valueOf 'v') =
      some (Base64.encode (serverSignature secrets.saltedPassword secrets.authMessage))

/-- The strings that the new conversation `c` has taken, each with its answer, and the stage that
they have brought it to. -/
inductive Transcript (c : Conversation) : List (String × String) → Stage → Prop where
  | unopened : Transcript c [] .initial
  | opened (anything : String) :
    Transcript c [(anything, String.ofList (clientFirst c.user c.clientNonce))]
      .awaitingServerFirst
  | answered (anything first : String) {challenge : Challenge} :
    Answerable c.clientNonce first.toList challenge →
      Transcript c
        [(anything, String.ofList (clientFirst c.user c.clientNonce)),
          (first, c.finalFor first challenge)]
        (.awaitingServerFinal (c.secretsFor first challenge))
  | verified (anything first last : String) {challenge : Challenge} :
    Answerable c.clientNonce first.toList challenge →
    Proves (c.secretsFor first challenge) last →
      Transcript c
        [(anything, String.ofList (clientFirst c.user c.clientNonce)),
          (first, c.finalFor first challenge), (last, "")]
        (.done (c.secretsFor first challenge))

/-- A string that is taken continues the transcript, and changes nothing but the stage. -/
theorem Transcript.step {stage : Stage} (h : Transcript c taken stage)
    (hstep : step text { c with stage } = .ok reply d) :
    Transcript c (taken ++ [(text, reply)]) d.stage ∧ d = { c with stage := d.stage } := by
  cases h with
  | unopened =>
    have htaken := (step_initial (c := { c with stage := .initial }) rfl text).symm.trans hstep
    obtain ⟨rfl, rfl⟩ := EStateM.Result.ok.inj htaken
    exact ⟨.opened text, rfl⟩
  | opened anything =>
    obtain ⟨secrets, hanswer, -⟩ := step_awaitingServerFirst rfl hstep
    obtain ⟨challenge, hread, -⟩ := answer_ok hanswer
    have hanswerable := readServerFirst_eq_ok_iff.mp hread
    have htaken := (step_of_answerable rfl hanswerable).symm.trans hstep
    obtain ⟨rfl, rfl⟩ := EStateM.Result.ok.inj htaken
    exact ⟨.answered anything text hanswerable, rfl⟩
  | @answered anything first challenge hanswerable =>
    obtain ⟨hverify, rfl, rfl⟩ := step_awaitingServerFinal rfl hstep
    exact ⟨.verified anything first text hanswerable (verify_ok_iff.mp hverify), rfl⟩
  | verified =>
    have hrefused := (step_done (c := { c with stage := .done _ }) rfl text).symm.trans hstep
    exact absurd hrefused (by simp)

/-- The stage that a run has come to is the one that its transcript leads to. -/
theorem transcript_after (hnew : c.stage = .initial) (texts : List String) :
    Transcript c (granted step c texts) (after step c texts).stage ∧
      after step c texts = { c with stage := (after step c texts).stage } := by
  induction texts using List.reverseRecOn with
  | nil =>
    have hstage : (after step c []).stage = .initial := hnew
    rw [hstage]
    exact ⟨.unopened, by rw [← hnew]; rfl⟩
  | append_singleton texts text ih =>
    obtain ⟨htranscript, hafter⟩ := ih
    rw [granted_append, after_append]
    cases hstep : step text (after step c texts) with
    | ok reply d =>
      rw [granted_of_ok hstep, after_of_ok hstep]
      rw [hafter] at hstep
      exact htranscript.step hstep
    | error e d =>
      rw [granted_of_error hstep, after_of_error hstep, step_error hstep, granted_nil,
        List.append_nil, after_nil]
      exact ⟨htranscript, hafter⟩

/-- A conversation that is over refuses whatever comes. -/
theorem replies_of_isDone (h : d.isDone = true) (texts : List String) :
    replies step d texts = texts.map (fun text => (text, .error .finished)) ∧
      after step d texts = d := by
  obtain ⟨secrets, hdone⟩ : ∃ secrets, d.stage = .done secrets := by
    unfold isDone at h
    split at h
    · exact ⟨_, ‹_›⟩
    · exact absurd h (by simp)
  induction texts with
  | nil => exact ⟨rfl, rfl⟩
  | cons text rest ih =>
    have hstep := step_done hdone text
    rw [replies_of_error hstep, after_of_error hstep, ih.1, ih.2]
    exact ⟨rfl, rfl⟩

theorem secrets?_eq_some_iff {secrets : Secrets} :
    d.secrets? = some secrets ↔
      d.stage = .awaitingServerFinal secrets ∨ d.stage = .done secrets := by
  unfold secrets?
  cases d.stage <;> simp

/-- What holds of a conversation that was new as `c`, and to which some strings have been said. -/
structure Forgives (c : Conversation) (texts : List String) : Prop where
  /-- The next string that is refused leaves the conversation as it is. -/
  refusal : ∀ text e d, step text (after step c texts) = .error e d → d = after step c texts
  /-- The strings that were taken would have led to the same conversation by themselves. -/
  same_conversation :
    after step c ((granted step c texts).map Prod.fst) = after step c texts
  /-- They would all have been taken, with the same answers. -/
  same_answers :
    replies step c ((granted step c texts).map Prod.fst) =
      (granted step c texts).map fun (text, reply) => (text, .ok reply)
  /-- They open the exchange, answer the challenge and verify the signature, in this order. -/
  transcript : Transcript c (granted step c texts) (after step c texts).stage
  /-- Nothing but the stage ever changes. -/
  only_stage : after step c texts = { c with stage := (after step c texts).stage }
  /-- Secrets are kept from the answer to the challenge on. -/
  secrets : ∀ secrets, (after step c texts).secrets? = some secrets ↔
    (after step c texts).stage = .awaitingServerFinal secrets ∨
      (after step c texts).stage = .done secrets
  /-- Once the signature has been verified, everything is refused. -/
  finished : (after step c texts).isDone = true → ∀ more,
    replies step (after step c texts) more = more.map (fun text => (text, .error .finished)) ∧
      after step (after step c texts) more = after step c texts

/-- Strings that a conversation refuses leave no trace in it, whatever they are. -/
theorem start_forgives (user password : String) (source : NonceSource) (texts : List String) :
    Forgives (start user password source) texts := by
  have hnew : (start user password source).stage = .initial := rfl
  have hquiet : RefusesQuietly step (start user password source) texts := by
    intro before _ text e d hstep
    exact step_error hstep
  obtain ⟨hafter, hreplies⟩ := granted_suffice hquiet
  obtain ⟨htranscript, honly⟩ := transcript_after hnew texts
  exact {
    refusal := fun _ _ _ hstep => step_error hstep
    same_conversation := hafter
    same_answers := hreplies
    transcript := htranscript
    only_stage := honly
    secrets := fun _ => secrets?_eq_some_iff
    finished := fun hdone more => replies_of_isDone hdone more }

end EdgeClient.Scram.Conversation
