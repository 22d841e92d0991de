import EdgeClient.Connection.Transport

/-!
# What comes of a run

A run ends with an answer or a reason why there is none, and leaves a state behind either way. Two
runs are compared by what they answer and by a relation between the states: `SameOutcome` for runs
that come to the same, `CutShort` for a run that may in addition give up before the other is done.
-/

namespace EdgeClient

/-- What a run leaves behind, however it ends. -/
def leftBehind {ε σ α : Type} : EStateM.Result ε σ α → σ
  | .ok _ s | .error _ s => s

/-- What a run answers, or why it does not. -/
def answerOf {ε σ α : Type} : EStateM.Result ε σ α → Except ε α
  | .ok a _ => .ok a
  | .error e _ => .error e

theorem eq_error_of_answerOf {ε σ α : Type} {r : EStateM.Result ε σ α} {e : ε}
    (h : answerOf r = .error e) : r = .error e (leftBehind r) := by
  cases r with
  | ok a s => exact absurd h (by simp [answerOf])
  | error e' s =>
    obtain rfl : e' = e := Except.error.inj h
    rfl

/-- Two runs come to the same: they give the same answer or stop for the same reason, and what they
leave behind is related. -/
inductive SameOutcome {ε σ α : Type} (R : σ → σ → Prop) :
    EStateM.Result ε σ α → EStateM.Result ε σ α → Prop where
  | ok {a : α} {c d : σ} : R c d → SameOutcome R (.ok a c) (.ok a d)
  | error {e : ε} {c d : σ} : R c d → SameOutcome R (.error e c) (.error e d)

namespace SameOutcome

variable {ε σ α : Type} {R S : σ → σ → Prop} {r r' : EStateM.Result ε σ α} {a : α} {e : ε} {c : σ}

theorem mono (h : SameOutcome R r r') (hRS : ∀ c d, R c d → S c d) : SameOutcome S r r' := by
  cases h with
  | ok hr => exact .ok (hRS _ _ hr)
  | error hr => exact .error (hRS _ _ hr)

theorem of_ok (h : SameOutcome R r r') (hr : r = .ok a c) : ∃ d, r' = .ok a d ∧ R c d := by
  subst hr
  cases h with
  | ok h => exact ⟨_, rfl, h⟩

theorem of_error (h : SameOutcome R r r') (hr : r = .error e c) :
    ∃ d, r' = .error e d ∧ R c d := by
  subst hr
  cases h with
  | error h => exact ⟨_, rfl, h⟩

theorem answerOf_eq (h : SameOutcome R r r') : answerOf r = answerOf r' := by
  cases h <;> rfl

theorem leftBehind (h : SameOutcome R r r') : R (leftBehind r) (leftBehind r') := by
  cases h with
  | ok hr | error hr => exact hr

end SameOutcome

/-- A run that is the beginning of another: it comes to the same, or it gives up, and then what it
has done by then is a part of what the other does in all. -/
inductive CutShort {ε σ α : Type} (R Part : σ → σ → Prop) :
    EStateM.Result (Stop ε) σ α → EStateM.Result (Stop ε) σ α → Prop where
  | same {r r' : EStateM.Result (Stop ε) σ α} : SameOutcome R r r' → CutShort R Part r r'
  | cut {c : σ} {r' : EStateM.Result (Stop ε) σ α} :
    Part c (leftBehind r') → CutShort R Part (.error .gaveUp c) r'

namespace CutShort

variable {ε σ α : Type} {R Part : σ → σ → Prop} {r r' : EStateM.Result (Stop ε) σ α} {a : α}
  {c : σ}

/-- A run that does not give up comes to the same. -/
theorem of_returns (h : CutShort R Part r r') (hr : answerOf r ≠ .error .gaveUp) :
    SameOutcome R r r' := by
  cases h with
  | same h => exact h
  | cut => exact absurd rfl hr

theorem of_ok (h : CutShort R Part r r') (hr : r = .ok a c) : ∃ d, r' = .ok a d ∧ R c d := by
  cases h with
  | same h => exact h.of_ok hr
  | cut h => exact absurd hr (by simp)

theorem of_failed {e : ε} (h : CutShort R Part r r') (hr : r = .error (.failed e) c) :
    ∃ d, r' = .error (.failed e) d ∧ R c d := by
  cases h with
  | same h => exact h.of_error hr
  | cut h => exact absurd hr (by simp)

end CutShort

end EdgeClient
