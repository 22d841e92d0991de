import EdgeClient.Proofs.Wire.Framing

/-!
# Bytes that come in pieces

A transport delivers the byte stream in pieces that know nothing of frames: a cut may fall inside a
tag, a length field or a payload, and one piece may complete several frames. What is handed out and
what stays behind depend on the bytes alone, not on the cuts.

The reason is that whatever `Inbox.next?` has decided stands when bytes come in behind it, so taking
frames early changes nothing: draining an inbox, feeding it and draining it again is the same as
feeding it first (`drain_feed`).
-/

namespace EdgeClient.Inbox

/-- Feeds the pieces one after the other and takes frames after each of them until there is none:
the frames, oldest first, and the inbox that is left. -/
def drainPieces (inbox : Inbox) : List Bytes → List Frame × Inbox
  | [] => ([], inbox)
  | piece :: pieces =>
    let drained := (inbox.feed piece).drain
    let (frames, final) := drained.inbox.drainPieces pieces
    (drained.frames ++ frames, final)

/-- Whether no frame can be handed out: the next one is incomplete or invalid. -/
def IsSettled (inbox : Inbox) : Prop := ∀ f rest, inbox.next? ≠ .ok (some (f, rest))

/-- Whether the next header declares an impossible length, and this is all that comes of the inbox
from now on: bytes that come in are kept, no frame is handed out, and the refusal stays. -/
structure IsStuck (inbox : Inbox) (tag : UInt8) (length : UInt32) : Prop where
  /-- The length does not even cover its own field. -/
  short : length.toNat < lengthFieldSize
  /-- The next frame is refused. -/
  refused : inbox.next? = .error (.invalidLength tag length)
  /-- It is refused whatever comes in. -/
  forGood : ∀ more, inbox.drainPieces more = ([], inbox.feed more.flatten) ∧
    (inbox.feed more.flatten).next? = .error (.invalidLength tag length)

theorem feed_feed (inbox : Inbox) (bs cs : Bytes) :
    (inbox.feed bs).feed cs = inbox.feed (bs ++ cs) := by
  simp [feed]

theorem feed_nil (inbox : Inbox) : inbox.feed [] = inbox := by
  simp [feed]

theorem isSettled_empty : IsSettled {} := fun _ _ h => nomatch h

theorem isSettled_of_error {inbox : Inbox} {e : WireError} (h : inbox.next? = .error e) :
    inbox.IsSettled :=
  fun f rest hf => absurd (h.symm.trans hf) (by simp)

/-- The only error that cutting frames off can end in. -/
theorem error_of_next? {inbox : Inbox} {e : WireError} (h : inbox.next? = .error e) :
    ∃ tag length, length.toNat < lengthFieldSize ∧ e = .invalidLength tag length := by
  obtain ⟨pending⟩ := inbox
  rcases header_cases pending with ⟨tag, a, b, c, d, body, rfl⟩ | ⟨-, hnone⟩
  · rw [next?_header] at h
    split at h
    · rename_i hmin
      refine ⟨tag, _, ?_, (Except.error.inj h).symm⟩
      rw [UInt32.toNat_ofNat', Nat.mod_eq_of_lt (by simp only [lengthFieldSize] at hmin; omega)]
      exact hmin
    · split at h
      · exact absurd h (by simp)
      · exact absurd h (by simp)
  · exact absurd (hnone.symm.trans h) (by simp)

/-! ## Taking frames until there is none -/

theorem drain_of_frame {inbox rest : Inbox} {f : Frame} (h : inbox.next? = .ok (some (f, rest))) :
    inbox.drain = { rest.drain with frames := f :: rest.drain.frames } := by
  rw [drain.eq_def]
  split
  · rename_i hn
    exact absurd (hn.symm.trans h) (by simp)
  · rename_i hn
    exact absurd (hn.symm.trans h) (by simp)
  · rename_i f' rest' hn
    obtain ⟨rfl, rfl⟩ : f' = f ∧ rest' = rest := by simpa using hn.symm.trans h
    rfl

theorem drain_of_error {inbox : Inbox} {e : WireError} (h : inbox.next? = .error e) :
    inbox.drain = ⟨[], inbox, some e⟩ := by
  rw [drain.eq_def]
  split
  · rename_i e' hn
    obtain rfl : e' = e := Except.error.inj (hn.symm.trans h)
    rfl
  · rename_i hn
    exact absurd (hn.symm.trans h) (by simp)
  · rename_i hn
    exact absurd (hn.symm.trans h) (by simp)

theorem drain_of_incomplete {inbox : Inbox} (h : inbox.next? = .ok none) :
    inbox.drain = ⟨[], inbox, none⟩ := by
  rw [drain.eq_def]
  split
  · rename_i hn
    exact absurd (hn.symm.trans h) (by simp)
  · rfl
  · rename_i hn
    exact absurd (hn.symm.trans h) (by simp)

theorem drain_of_isSettled {inbox : Inbox} (h : inbox.IsSettled) :
    inbox.drain.frames = [] ∧ inbox.drain.inbox = inbox := by
  rw [drain.eq_def]
  split
  · exact ⟨rfl, rfl⟩
  · exact ⟨rfl, rfl⟩
  · rename_i f rest hn
    exact absurd hn (h f rest)

/-- After the frames have been taken there is no further one. -/
theorem isSettled_drain (inbox : Inbox) : inbox.drain.inbox.IsSettled := by
  fun_induction drain inbox with
  | case1 inbox e h | case2 inbox h =>
    intro f rest hf
    exact absurd (h.symm.trans hf) (by simp)
  | case3 inbox f rest h drained ih => exact ih

/-- The bytes are the frames that are taken and those that are left. -/
theorem pending_eq_drain (inbox : Inbox) :
    inbox.pending = inbox.drain.frames.flatMap Frame.toBytes ++ inbox.drain.inbox.pending ∧
      ∀ f ∈ inbox.drain.frames, f.Fits := by
  fun_induction drain inbox with
  | case1 | case2 => exact ⟨rfl, by simp⟩
  | case3 inbox f rest h drained ih =>
    obtain ⟨hpending, hfits⟩ := of_next? h
    refine ⟨?_, ?_⟩
    · rw [hpending, ih.1, List.flatMap_cons, List.append_assoc]
    · intro f' hf
      rcases List.mem_cons.mp hf with rfl | hf
      · exact hfits
      · exact ih.2 f' hf

/-- Frames that are taken before more bytes come in are the ones that would be taken first
afterwards. -/
theorem drain_feed (inbox : Inbox) (bs : Bytes) :
    (inbox.feed bs).drain.frames =
        inbox.drain.frames ++ (inbox.drain.inbox.feed bs).drain.frames ∧
      (inbox.feed bs).drain.inbox = (inbox.drain.inbox.feed bs).drain.inbox := by
  fun_induction drain inbox with
  | case1 | case2 => exact ⟨rfl, rfl⟩
  | case3 inbox f rest h drained ih =>
    rw [drain_of_frame (next?_feed_of_frame h bs)]
    exact ⟨congrArg (f :: ·) ih.1, ih.2⟩

/-! ## Pieces -/

/-- Frames taken piece by piece are the frames of the joined bytes. -/
theorem drainPieces_eq {inbox : Inbox} (h : inbox.IsSettled) (pieces : List Bytes) :
    inbox.drainPieces pieces =
      ((inbox.feed pieces.flatten).drain.frames, (inbox.feed pieces.flatten).drain.inbox) := by
  induction pieces generalizing inbox with
  | nil =>
    obtain ⟨hframes, hinbox⟩ := drain_of_isSettled h
    rw [List.flatten_nil, feed_nil, hframes, hinbox, drainPieces]
  | cons piece pieces ih =>
    -- what is left of the first piece is settled again, which is all that the other pieces need
    obtain ⟨hframes, hinbox⟩ := drain_feed (inbox.feed piece) pieces.flatten
    rw [List.flatten_cons, ← feed_feed, hframes, hinbox, drainPieces, ih (isSettled_drain _)]

/-- Frames that were written one after the other are handed out as they were, and nothing else is,
however their bytes are cut. -/
theorem drainPieces_toBytes {frames : List Frame} (h : ∀ f ∈ frames, f.Fits) {pieces : List Bytes}
    (hp : pieces.flatten = frames.flatMap Frame.toBytes) :
    drainPieces {} pieces = (frames, {}) := by
  have hdrain : (drain ⟨frames.flatMap Frame.toBytes⟩).frames = frames ∧
      (drain ⟨frames.flatMap Frame.toBytes⟩).inbox = {} := by
    clear hp
    induction frames with
    | nil => exact drain_of_isSettled isSettled_empty
    | cons f frames ih =>
      obtain ⟨hframes, hinbox⟩ := ih fun f' hf => h f' (List.mem_cons_of_mem _ hf)
      rw [List.flatMap_cons, drain_of_frame (next?_toBytes (h f List.mem_cons_self) _)]
      exact ⟨congrArg (f :: ·) hframes, hinbox⟩
  have hfed : feed {} pieces.flatten = ⟨frames.flatMap Frame.toBytes⟩ := by
    rw [hp]
    rfl
  rw [drainPieces_eq isSettled_empty, hfed, hdrain.1, hdrain.2]

/-- An error is about an impossible length, and no further bytes do away with it. -/
theorem isStuck_of_next? {inbox : Inbox} {e : WireError} (h : inbox.next? = .error e) :
    ∃ tag length, inbox.IsStuck tag length := by
  obtain ⟨tag, length, hlength, rfl⟩ := error_of_next? h
  refine ⟨tag, length, hlength, h, fun more => ?_⟩
  have hfed := next?_feed_of_error h more.flatten
  obtain ⟨hframes, hinbox⟩ := drain_of_isSettled (isSettled_of_error hfed)
  refine ⟨?_, hfed⟩
  rw [drainPieces_eq (isSettled_of_error h), hframes, hinbox]

/-- Two ways of cutting a byte string into pieces give the same frames and leave the same bytes.
The frames are the ones that stand at the front of the string. In either case the next frame is
incomplete, or in either case it is refused for good and for the same reason. -/
theorem drainPieces_eq_of_flatten_eq {pieces pieces' : List Bytes}
    (h : pieces.flatten = pieces'.flatten) :
    ∃ frames inbox,
      drainPieces {} pieces = (frames, inbox) ∧ drainPieces {} pieces' = (frames, inbox) ∧
      pieces.flatten = frames.flatMap Frame.toBytes ++ inbox.pending ∧ (∀ f ∈ frames, f.Fits) ∧
      (inbox.next? = .ok none ∨ ∃ tag length, inbox.IsStuck tag length) := by
  have hfeed : ∀ bs, feed {} bs = ⟨bs⟩ := fun bs => by simp [feed]
  obtain ⟨hbytes, hfits⟩ := pending_eq_drain ⟨pieces.flatten⟩
  refine ⟨(drain ⟨pieces.flatten⟩).frames, (drain ⟨pieces.flatten⟩).inbox, ?_, ?_, hbytes,
    hfits, ?_⟩
  · rw [drainPieces_eq isSettled_empty, hfeed]
  · rw [drainPieces_eq isSettled_empty, hfeed, ← h]
  · have hsettled := isSettled_drain ⟨pieces.flatten⟩
    cases hnext : (drain ⟨pieces.flatten⟩).inbox.next? with
    | ok decided =>
      cases decided with
      | none => exact Or.inl rfl
      | some taken => exact absurd hnext (hsettled taken.1 taken.2)
    | error e => exact Or.inr (isStuck_of_next? hnext)

/-- A frame and a header that is too short, cut in every field and in one piece. -/
theorem drainPieces_eq_of_flatten_eq_shortHeader :
    [[0x5a, 0, 0], [], [0, 7, 0], [0, 0x49, 0x4b], [0, 0, 0, 3]].flatten =
        ([[0x5a, 0, 0, 0, 7, 0, 0, 0x49, 0x4b, 0, 0, 0, 3]] : List Bytes).flatten ∧
      ∃ inbox,
        drainPieces {} [[0x5a, 0, 0], [], [0, 7, 0], [0, 0x49, 0x4b], [0, 0, 0, 3]] =
          ([⟨0x5a, [0, 0, 0x49]⟩], inbox) ∧
        drainPieces {} [[0x5a, 0, 0, 0, 7, 0, 0, 0x49, 0x4b, 0, 0, 0, 3]] =
          ([⟨0x5a, [0, 0, 0x49]⟩], inbox) ∧
        inbox.IsStuck 0x4b 3 := by
  have hcut : [[0x5a, 0, 0], [], [0, 7, 0], [0, 0x49, 0x4b], [0, 0, 0, 3]].flatten =
      ([[0x5a, 0, 0, 0, 7, 0, 0, 0x49, 0x4b, 0, 0, 0, 3]] : List Bytes).flatten := rfl
  have hrun : drainPieces {} [[0x5a, 0, 0], [], [0, 7, 0], [0, 0x49, 0x4b], [0, 0, 0, 3]] =
      ([⟨0x5a, [0, 0, 0x49]⟩], ⟨[0x4b, 0, 0, 0, 3]⟩) := by decide +kernel
  obtain ⟨frames, inbox, hpieces, hwhole, -, -, hnext⟩ := drainPieces_eq_of_flatten_eq hcut
  obtain ⟨rfl, rfl⟩ := Prod.mk.inj (hrun.symm.trans hpieces)
  refine ⟨hcut, _, hrun, hwhole, ?_⟩
  rcases hnext with hnone | ⟨tag, length, hstuck⟩
  · exact absurd hnone (by decide)
  · obtain ⟨rfl, rfl⟩ : (0x4b : UInt8) = tag ∧ (3 : UInt32) = length :=
      WireError.invalidLength.inj (Except.error.inj hstuck.refused)
    exact hstuck

end EdgeClient.Inbox
