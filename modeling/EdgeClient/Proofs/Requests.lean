import EdgeClient.Proofs.Connection.Outcomes

/-!
# Requests that may be refused

A system takes requests one after the other, and whoever makes them goes on after a refusal.
`after` is the state that they lead to, `replies` is what comes of each, and `granted` are those
that were not refused. If a refusal leaves the state as it was, a request that is refused might as
well not have been made: the granted requests alone lead to the same state and get the same answers.
-/

namespace EdgeClient.Requests

variable {ι ε σ α : Type} (serve : ι → EStateM ε σ α)

/-- The state after some requests, whatever comes of each. -/
def after (s : σ) (requests : List ι) : σ :=
  requests.foldl (fun s request => leftBehind (serve request s)) s

/-- Requests with what comes of each. -/
def replies (s : σ) : List ι → List (ι × Except ε α)
  | [] => []
  | request :: rest =>
    (request, answerOf (serve request s)) :: replies (leftBehind (serve request s)) rest

/-- The requests that are granted, each with its answer. -/
def granted (s : σ) : List ι → List (ι × α)
  | [] => []
  | request :: rest =>
    match serve request s with
    | .ok a s => (request, a) :: granted s rest
    | .error _ s => granted s rest

variable {serve} {s s' : σ} {request : ι} {requests : List ι} {a : α} {e : ε}

@[simp] theorem after_nil (s : σ) : after serve s [] = s := rfl

theorem after_cons (s : σ) (request : ι) (rest : List ι) :
    after serve s (request :: rest) = after serve (leftBehind (serve request s)) rest := rfl

theorem replies_cons (s : σ) (request : ι) (rest : List ι) :
    replies serve s (request :: rest) =
      (request, answerOf (serve request s)) :: replies serve (leftBehind (serve request s)) rest :=
  rfl

@[simp] theorem granted_nil (s : σ) : granted serve s [] = [] := rfl

theorem after_append (s : σ) (xs ys : List ι) :
    after serve s (xs ++ ys) = after serve (after serve s xs) ys :=
  List.foldl_append

theorem granted_of_ok (h : serve request s = .ok a s') (requests : List ι) :
    granted serve s (request :: requests) = (request, a) :: granted serve s' requests := by
  rw [granted, h]

theorem granted_of_error (h : serve request s = .error e s') (requests : List ι) :
    granted serve s (request :: requests) = granted serve s' requests := by
  rw [granted, h]

theorem after_of_ok (h : serve request s = .ok a s') (requests : List ι) :
    after serve s (request :: requests) = after serve s' requests := by
  rw [after_cons, h]
  rfl

theorem after_of_error (h : serve request s = .error e s') (requests : List ι) :
    after serve s (request :: requests) = after serve s' requests := by
  rw [after_cons, h]
  rfl

theorem replies_of_error (h : serve request s = .error e s') (requests : List ι) :
    replies serve s (request :: requests) = (request, .error e) :: replies serve s' requests := by
  rw [replies_cons, h]
  rfl

theorem replies_of_ok (h : serve request s = .ok a s') (requests : List ι) :
    replies serve s (request :: requests) = (request, .ok a) :: replies serve s' requests := by
  rw [replies_cons, h]
  rfl

theorem granted_append (s : σ) (xs ys : List ι) :
    granted serve s (xs ++ ys) = granted serve s xs ++ granted serve (after serve s xs) ys := by
  induction xs generalizing s with
  | nil => rfl
  | cons request rest ih =>
    rw [List.cons_append]
    cases hserve : serve request s with
    | ok a s' =>
      rw [granted_of_ok hserve, granted_of_ok hserve, after_of_ok hserve, ih, List.cons_append]
    | error e s' =>
      rw [granted_of_error hserve, granted_of_error hserve, after_of_error hserve, ih]

/-- Whether no refusal of these requests has changed anything. -/
def RefusesQuietly (serve : ι → EStateM ε σ α) (s : σ) (requests : List ι) : Prop :=
  ∀ before, before <+: requests → ∀ request e s',
    serve request (after serve s before) = .error e s' → s' = after serve s before

theorem RefusesQuietly.tail (h : RefusesQuietly serve s (request :: requests)) :
    RefusesQuietly serve (leftBehind (serve request s)) requests := by
  intro before hbefore
  exact h (request :: before) (List.cons_prefix_cons.mpr ⟨rfl, hbefore⟩)

/-- Without the requests that were refused everything is as it is with them. -/
theorem granted_suffice (h : RefusesQuietly serve s requests) :
    after serve s ((granted serve s requests).map Prod.fst) = after serve s requests ∧
      replies serve s ((granted serve s requests).map Prod.fst) =
        (granted serve s requests).map fun (request, a) => (request, .ok a) := by
  induction requests generalizing s with
  | nil => exact ⟨rfl, rfl⟩
  | cons request rest ih =>
    have hrest := ih h.tail
    cases hserve : serve request s with
    | ok a s' =>
      have hleft : leftBehind (serve request s) = s' := by rw [hserve]; rfl
      rw [hleft] at hrest
      rw [granted_of_ok hserve, List.map_cons, List.map_cons, after_of_ok hserve,
        after_of_ok hserve, replies_of_ok hserve, hrest.1, hrest.2]
      exact ⟨rfl, rfl⟩
    | error e s' =>
      have hleft : leftBehind (serve request s) = s' := by rw [hserve]; rfl
      have hquiet : s' = s := h [] List.nil_prefix request e s' hserve
      rw [hleft] at hrest
      rw [granted_of_error hserve, after_of_error hserve]
      rw [hquiet] at hrest ⊢
      exact hrest

end EdgeClient.Requests
