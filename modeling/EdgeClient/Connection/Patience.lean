import EdgeClient.Connection.Basic

/-!
# Giving up

A client may set itself a deadline, or be told by somebody else to stop. Both are moments on the
clock of the transport, and both only cut short what the client would have done anyway. At a
deadline the client still acts, since what has arrived by then is in time, but it waits for nothing
more. Told to stop at a moment it no longer acts at that moment; told to stop from the beginning it
does nothing at all.
-/

namespace EdgeClient.Connection

/-- Runs an action; `late` is what is said when the client gives up waiting. -/
def orElseLate {α : Type} (late : ConnectionError) (act : Action α) : Action α := fun c =>
  match act c with
  | .error .gaveUp c => .error (.failed late) c
  | result => result

/-- Runs an action within a time limit. -/
def within {α : Type} (budget : Duration) (act : Action α) : Action α := fun c =>
  let deadline := c.transport.now + budget.ticks
  orElseLate (.timeout budget) act { c with transport := { c.transport with deadline } }

/-- Runs an action until it is told to stop after some milliseconds, if ever. -/
def unlessCancelled {α : Type} (after : Option Nat) (act : Action α) : Action α := fun c =>
  match after with
  | none => act c
  | some 0 => .error (.failed .cancelled) c
  | some milliseconds =>
    let stopAt := c.transport.now + milliseconds
    orElseLate .cancelled act { c with transport := { c.transport with stopAt } }

/-- Waits for a connection to be made to a peer that answers. It takes no time on the clock, but a
client at its deadline does not wait for it. -/
def settle : Action Unit := fun c =>
  if c.transport.isPatient then .ok () c else .error .gaveUp c

end EdgeClient.Connection
