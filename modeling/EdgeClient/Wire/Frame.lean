import EdgeClient.Wire.Reader
import EdgeClient.Wire.Writer

/-!
# Frames

The byte stream in either direction is a sequence of frames: a tag byte, a length field that counts
itself but not the tag, and a payload. `Frame.toBytes` writes that layout down. An `Inbox` holds
the received bytes that no frame has been cut from yet and hands out frames as they get complete.
-/

namespace EdgeClient

/-- A message type and the unread part of its payload. -/
structure Frame where
  /-- The type of the message. -/
  tag : UInt8
  /-- The bytes of the payload that have not been read. -/
  payload : Bytes
  deriving DecidableEq, Repr

namespace Frame

/-- The frame as it stands in the stream. -/
def toBytes (f : Frame) : Bytes :=
  f.tag :: BigEndian.encode lengthFieldSize (lengthFieldSize + f.payload.length) ++ f.payload

/-- Checks that the payload has been read to its end. -/
def finish (f : Frame) : Except WireError Unit :=
  match f.payload with
  | [] => .ok ()
  | _ :: _ => .error (.unreadData f.tag f.payload.length)

/-- Runs a read on the payload. -/
def read {α : Type} (f : Frame) (r : Read α) : Except WireError α × Frame :=
  match r f.payload with
  | .ok value rest => (.ok value, { f with payload := rest })
  | .error e rest => (.error e, { f with payload := rest })

end Frame

/-- Received bytes that have not been handed out as frames. -/
structure Inbox where
  /-- The bytes, oldest first. -/
  pending : Bytes := []
  deriving DecidableEq, Repr

namespace Inbox

/-- Adds received bytes. -/
def feed (inbox : Inbox) (bs : Bytes) : Inbox :=
  ⟨inbox.pending ++ bs⟩

/-- The next complete frame and what is left after it; nothing while the frame is incomplete. A
header that declares an impossible length is an error, and stays one. -/
def next? (inbox : Inbox) : Except WireError (Option (Frame × Inbox)) :=
  match inbox.pending with
  | tag :: a :: b :: c :: d :: rest =>
    let length := BigEndian.decode [a, b, c, d]
    if length < lengthFieldSize then
      .error (.invalidLength tag (UInt32.ofNat length))
    else
      let body := length - lengthFieldSize
      if Bytes.covers body rest then
        .ok (some (⟨tag, rest.take body⟩, ⟨rest.drop body⟩))
      else
        .ok none
  | _ => .ok none

/-- A frame that is handed out leaves fewer bytes behind. -/
theorem length_of_next? {inbox rest : Inbox} {f : Frame}
    (h : inbox.next? = .ok (some (f, rest))) : rest.pending.length < inbox.pending.length := by
  unfold next? at h
  split at h
  · dsimp only at h
    split at h
    · simp at h
    · split at h
      · simp only [Except.ok.injEq, Option.some.injEq, Prod.mk.injEq] at h
        obtain ⟨-, rfl⟩ := h
        simp_all
        omega
      · simp at h
  · simp at h

/-- What comes of taking frames until there is none: the frames, and the inbox with the error that
stopped it, if one did. -/
structure Drained where
  /-- The frames, oldest first. -/
  frames : List Frame
  /-- What is left. -/
  inbox : Inbox
  /-- Why no further frame can be had, unless the next one is merely incomplete. -/
  error : Option WireError

/-- Takes frames until the next one is incomplete or invalid. -/
def drain (inbox : Inbox) : Drained :=
  match _h : inbox.next? with
  | .error e => ⟨[], inbox, some e⟩
  | .ok none => ⟨[], inbox, none⟩
  | .ok (some (f, rest)) =>
    let drained := rest.drain
    { drained with frames := f :: drained.frames }
termination_by inbox.pending.length
decreasing_by exact length_of_next? (by assumption)

end Inbox

end EdgeClient
