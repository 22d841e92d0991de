import EdgeClient.IoFailure
import EdgeClient.Wire.Frame

/-!
# Transports

A transport carries bytes both ways between the client and its peer. Here it is a value: what the
peer is going to do is known in advance as a list of deliveries, what the transport accepts is
limited, and all that the client does to it is logged. Time passes only while the client waits for
the peer. A client that is not willing to wait for ever has a deadline, at which it still acts but
waits no longer, or is stopped at a moment, at which it does nothing any more.

Reading is a function of the transport alone, so a run of the client is one too. Two laws tie the
reads to the bytes on their way: `undelivered` says which ones those are, and a read takes them off
its front.
-/

namespace EdgeClient

/-- Why an operation that may have to wait did not come to its end. -/
inductive Stop (ε : Type) where
  /-- It failed. -/
  | failed (e : ε)
  /-- It had to wait longer than the client was willing to. -/
  | gaveUp
  deriving DecidableEq, Repr

/-- One thing that a peer does. -/
inductive Delivery where
  /-- It sends bytes that arrive together. -/
  | bytes (chunk : Bytes)
  /-- It does nothing for some milliseconds. -/
  | pause (milliseconds : Nat)
  /-- Its next delivery is replaced by a failure. -/
  | failure (reason : IoFailure)
  /-- It does nothing until it has received this many frames in all. -/
  | afterFrames (count : Nat)
  deriving DecidableEq, Repr

/-- What a peer does after its last delivery. -/
inductive Ending where
  /-- It closes its side. -/
  | closed
  /-- It stays silent. -/
  | silent
  deriving DecidableEq, Repr

/-- What a transport accepts, and how its other operations end. -/
structure Limits where
  /-- How many more bytes are accepted; without end if not set. -/
  room : Option Nat := none
  /-- How many bytes are accepted at a time; any number if not set. -/
  perWrite : Option Nat := none
  /-- How a write fails when there is no more room; if not set it accepts nothing instead. -/
  writeFailure : Option IoFailure := none
  /-- How flushing fails, if it does. -/
  flushFailure : Option IoFailure := none
  /-- How closing fails, if it does. -/
  shutdownFailure : Option IoFailure := none
  deriving DecidableEq, Repr

/-- What a client does to a transport. -/
inductive Event where
  /-- Bytes were accepted. -/
  | wrote (bs : Bytes)
  /-- The transport was told to close. -/
  | shutdown
  deriving DecidableEq, Repr

/-- A peer, as far as a client can tell: what it sends and what it accepts. -/
structure Peer where
  /-- What it does, in order. -/
  deliveries : List Delivery := []
  /-- What it does after that. -/
  ending : Ending := .closed
  /-- What it accepts. -/
  limits : Limits := {}
  deriving DecidableEq, Repr

/-- An open transport. -/
structure Transport where
  /-- What the peer is still going to do. -/
  incoming : List Delivery := []
  /-- What the peer does after that. -/
  ending : Ending := .closed
  /-- What is still accepted. -/
  limits : Limits := {}
  /-- What the client has done, latest first. -/
  log : List Event := []
  /-- The current time, in milliseconds. -/
  now : Nat := 0
  /-- The last moment at which the client acts, and the first at which it waits for nothing. -/
  deadline : Option Nat := none
  /-- The first moment at which the client does nothing any more. -/
  stopAt : Option Nat := none
  deriving DecidableEq, Repr

/-- The bytes of an event. -/
def Event.bytes : Event → Bytes
  | .wrote bs => bs
  | .shutdown => []

/-- The bytes of a delivery. -/
def Delivery.chunk : Delivery → Bytes
  | .bytes chunk => chunk
  | _ => []

/-- The front part of `bs` that is accepted in one write. -/
def Limits.accepted (limits : Limits) (bs : Bytes) : Bytes :=
  let fitting := match limits.room with
    | some n => bs.take n
    | none => bs
  match limits.perWrite with
  | some n => fitting.take n
  | none => fitting

namespace Transport

/-- A transport to the given peer. -/
def toPeer (peer : Peer) : Transport :=
  { incoming := peer.deliveries, ending := peer.ending, limits := peer.limits }

/-- The transport when it turns out that the peer will do more. -/
def expect (t : Transport) (more : List Delivery) : Transport :=
  { t with incoming := t.incoming ++ more }

/-- What the client has done, oldest first. -/
def events (t : Transport) : List Event := t.log.reverse

/-- All bytes that were accepted. -/
def written (t : Transport) : Bytes := t.events.flatMap Event.bytes

/-- All bytes that the peer is still going to send. -/
def undelivered (t : Transport) : Bytes := t.incoming.flatMap Delivery.chunk

/-- How many complete frames the peer has received. -/
def framesWritten (t : Transport) : Nat := (Inbox.drain ⟨t.written⟩).frames.length

/-- Whether the client still acts at a moment. -/
def actsAt (t : Transport) (moment : Nat) : Bool :=
  t.deadline.all (moment ≤ ·) && t.stopAt.all (moment < ·)

/-- Whether the client now still waits for something that takes no time. -/
def isPatient (t : Transport) : Bool :=
  t.deadline.all (t.now < ·) && t.stopAt.all (t.now < ·)

/-! ## Reading -/

/-- Waits for the next delivery of bytes or for a failure, with `incoming` still to come. -/
def readFrom : (incoming : List Delivery) → EStateM (Stop IoFailure) Transport Bytes
  | [], t =>
    match t.ending with
    | .closed => .ok [] { t with incoming := [] }
    | .silent => .error .gaveUp { t with incoming := [] }
  | .bytes [] :: rest, t => readFrom rest t
  | .bytes (b :: bs) :: rest, t => .ok (b :: bs) { t with incoming := rest }
  | .pause n :: rest, t =>
    if t.actsAt (t.now + n) then
      readFrom rest { t with now := t.now + n }
    else
      .error .gaveUp { t with incoming := .pause n :: rest }
  | .failure reason :: rest, t => .error (.failed reason) { t with incoming := rest }
  | .afterFrames count :: rest, t =>
    if count ≤ t.framesWritten then
      readFrom rest t
    else
      .error .gaveUp { t with incoming := .afterFrames count :: rest }

/-- Waits for bytes. No bytes at all mean that the peer has closed its side. -/
def read : EStateM (Stop IoFailure) Transport Bytes := fun t =>
  readFrom t.incoming t

/-- A read that gives bytes uses up a delivery. -/
theorem length_of_readFrom {incoming : List Delivery} {t t' : Transport} {b : UInt8} {bs : Bytes}
    (h : readFrom incoming t = .ok (b :: bs) t') : t'.incoming.length < incoming.length := by
  fun_induction readFrom incoming t with
  | case1 | case2 | case6 | case7 | case9 => simp_all
  | case3 rest t ih => exact Nat.lt_succ_of_lt (ih h)
  | case4 c cs rest t =>
    simp only [EStateM.Result.ok.injEq] at h
    obtain ⟨-, rfl⟩ := h
    simp
  | case5 n rest t hn ih => exact Nat.lt_succ_of_lt (ih h)
  | case8 count rest t hn ih => exact Nat.lt_succ_of_lt (ih h)

/-- A read that gives bytes uses up a delivery. -/
theorem length_of_read {t t' : Transport} {b : UInt8} {bs : Bytes}
    (h : read t = .ok (b :: bs) t') : t'.incoming.length < t.incoming.length :=
  length_of_readFrom h

/-- A successful read takes its bytes off the front of those on their way. -/
theorem undelivered_of_readFrom {incoming : List Delivery} {t t' : Transport} {bs : Bytes}
    (h : readFrom incoming t = .ok bs t') :
    incoming.flatMap Delivery.chunk = bs ++ t'.undelivered := by
  fun_induction readFrom incoming t <;> simp_all [Delivery.chunk, undelivered]
  all_goals
    obtain ⟨rfl, rfl⟩ := h
    simp

/-- A successful read takes its bytes off the front of those on their way. -/
theorem undelivered_of_read {t t' : Transport} {bs : Bytes} (h : read t = .ok bs t') :
    t.undelivered = bs ++ t'.undelivered :=
  undelivered_of_readFrom h

/-! ## Writing and closing -/

/-- Offers bytes once; answers how many were accepted. -/
def write (bs : Bytes) : EStateM IoFailure Transport Nat := fun t =>
  match t.limits.room, t.limits.writeFailure with
  | some 0, some reason => .error reason t
  | room, _ =>
    match t.limits.accepted bs with
    | [] => .ok 0 t
    | accepted@(_ :: _) =>
      .ok accepted.length { t with
        limits := { t.limits with room := room.map (· - accepted.length) }
        log := .wrote accepted :: t.log }

/-- Offers bytes until all of them have been accepted. -/
def writeAll (bs : Bytes) : EStateM IoFailure Transport Unit := fun t =>
  if bs.isEmpty then
    .ok () t
  else
    match write bs t with
    | .error e t => .error e t
    | .ok 0 t => .error .writeZero t
    | .ok (count + 1) t => writeAll (bs.drop (count + 1)) t
termination_by bs.length
decreasing_by
  cases bs with
  | nil => contradiction
  | cons b bs =>
    rw [List.drop_succ_cons, List.length_drop, List.length_cons]
    exact Nat.lt_succ_of_le (Nat.sub_le _ _)

/-- Passes on all that has been accepted. -/
def flush : EStateM IoFailure Transport Unit := fun t =>
  match t.limits.flushFailure with
  | some reason => .error reason t
  | none => .ok () t

/-- Closes the client's side. -/
def shutdown : EStateM IoFailure Transport Unit := fun t =>
  let t := { t with log := .shutdown :: t.log }
  match t.limits.shutdownFailure with
  | some reason => .error reason t
  | none => .ok () t

/-- Writing leaves what the peer is going to do alone. -/
theorem incoming_of_write {bs : Bytes} {t t' : Transport} {n : Nat} (h : write bs t = .ok n t') :
    t'.incoming = t.incoming := by
  unfold write at h
  split at h
  · simp at h
  · dsimp only at h
    split at h <;> simp only [EStateM.Result.ok.injEq] at h <;> obtain ⟨-, rfl⟩ := h <;> rfl

/-- Writing leaves what the peer is going to do alone. -/
theorem incoming_of_writeAll {bs : Bytes} {t t' : Transport} (h : writeAll bs t = .ok () t') :
    t'.incoming = t.incoming := by
  fun_induction writeAll bs t <;> simp_all
  rename_i hw ih
  exact incoming_of_write hw

end Transport

end EdgeClient
