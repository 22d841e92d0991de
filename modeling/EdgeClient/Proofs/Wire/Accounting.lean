import EdgeClient.Proofs.Wire.Framing

/-!
# Frame accounting

Whoever uses an inbox feeds it bytes and asks it for frames, in any order. No byte gets lost and none
is handed out twice: what came in is the frames that went out, followed by what is pending
(`History.Balanced`). What a request comes to is fixed by the pending bytes, over all lengths that a
header can declare (`Inbox.Decides`): a complete frame goes out, a length that does not cover its own
field is refused, and in every other case the inbox waits for more. Only the first of these takes
bytes away.
-/

namespace EdgeClient

namespace Inbox

/-- Hands out the next frame, if it is complete. -/
def handOut : EStateM WireError Inbox (Option Frame) := fun inbox =>
  match inbox.next? with
  | .ok (some (f, rest)) => .ok (some f) rest
  | .ok none => .ok none inbox
  | .error e => .error e inbox

/-- One use of an inbox. -/
inductive Use where
  | feed (bs : Bytes)
  | handOut
  deriving DecidableEq, Repr

/-- What has gone into an inbox and out of it, and the inbox itself. -/
structure History where
  /-- All bytes that came in, oldest first. -/
  fed : Bytes := []
  /-- All frames that were handed out, oldest first. -/
  handed : List Frame := []
  /-- The inbox now. -/
  inbox : Inbox := {}
  deriving DecidableEq, Repr

/-- What a use does, whether it is refused or not. -/
def Use.record : Use → History → History
  | .feed bs, h => { h with fed := h.fed ++ bs, inbox := h.inbox.feed bs }
  | .handOut, h =>
    match Inbox.handOut h.inbox with
    | .ok (some f) inbox => { h with handed := h.handed ++ [f], inbox }
    | .ok none inbox | .error _ inbox => { h with inbox }

/-- Uses a new inbox, again and again. -/
def use (uses : List Use) : History :=
  uses.foldl (fun h u => u.record h) {}

/-! ## Headers -/

/-- Whether bytes begin with a header: a tag, and the length that it declares. The bytes behind it
are `body`. -/
def Declares (bs : Bytes) (tag : UInt8) (length : UInt32) (body : Bytes) : Prop :=
  bs = tag :: BigEndian.encode lengthFieldSize length.toNat ++ body

theorem Declares.headerSize_le {bs body : Bytes} {tag : UInt8} {length : UInt32}
    (h : Declares bs tag length body) : headerSize ≤ bs.length := by
  rw [h]
  simp only [List.cons_append, List.length_cons, List.length_append, BigEndian.length_encode,
    headerSize]
  omega

/-- A header decides, together with how many bytes stand behind it. -/
theorem Declares.next?_eq {bs body : Bytes} {tag : UInt8} {length : UInt32}
    (h : Declares bs tag length body) :
    next? ⟨bs⟩ =
      if length.toNat < lengthFieldSize then
        .error (.invalidLength tag length)
      else if length.toNat ≤ lengthFieldSize + body.length then
        .ok (some (⟨tag, body.take (length.toNat - lengthFieldSize)⟩,
          ⟨body.drop (length.toNat - lengthFieldSize)⟩))
      else .ok none := by
  have hlen := BigEndian.length_encode lengthFieldSize length.toNat
  have hdec : BigEndian.decode (BigEndian.encode lengthFieldSize length.toNat) = length.toNat :=
    BigEndian.decode_encode_of_lt (by rw [BigEndian.limit_lengthFieldSize]; exact length.toNat_lt)
  unfold Declares at h
  generalize BigEndian.encode lengthFieldSize length.toNat = field at *
  obtain ⟨a, b, c, d, rfl⟩ : ∃ a b c d, field = [a, b, c, d] := by
    match field, hlen with
    | [a, b, c, d], _ => exact ⟨a, b, c, d, rfl⟩
  have hbody : length.toNat - lengthFieldSize ≤ body.length ↔
      length.toNat ≤ lengthFieldSize + body.length := by omega
  rw [h]
  simp only [List.cons_append, List.nil_append, next?_header, hdec, UInt32.ofNat_toNat, hbody]

/-- Bytes begin with a header, or they are too few for one and nothing is decided. -/
theorem declares_or_short (bs : Bytes) :
    (∃ tag length body, Declares bs tag length body) ∨
      bs.length < headerSize ∧ next? ⟨bs⟩ = .ok none := by
  rcases header_cases bs with ⟨tag, a, b, c, d, body, rfl⟩ | hshort
  · refine Or.inl ⟨tag, UInt32.ofNat (BigEndian.decode [a, b, c, d]), body, ?_⟩
    have hlt := BigEndian.decode_lt [a, b, c, d]
    have hfield : BigEndian.encode lengthFieldSize (BigEndian.decode [a, b, c, d]) = [a, b, c, d] :=
      BigEndian.encode_decode rfl
    rw [Declares, UInt32.toNat_ofNat_of_lt' hlt, hfield]
    rfl
  · exact Or.inr hshort

/-- A frame stands at the front exactly when there is a header that declares its length, and behind
that its payload. -/
theorem declares_frame {bs rest : Bytes} {f : Frame} :
    (∃ length : UInt32, length.toNat = lengthFieldSize + f.payload.length ∧
      Declares bs f.tag length (f.payload ++ rest)) ↔ f.Fits ∧ bs = f.toBytes ++ rest := by
  constructor
  · rintro ⟨length, hlength, hbs⟩
    have hlt := length.toNat_lt
    refine ⟨by unfold Frame.Fits; omega, ?_⟩
    rw [hbs, hlength, Frame.toBytes]
    simp
  · rintro ⟨hfits, rfl⟩
    have hlength : (UInt32.ofNat (lengthFieldSize + f.payload.length)).toNat =
        lengthFieldSize + f.payload.length := UInt32.toNat_ofNat_of_lt' hfits
    refine ⟨_, hlength, ?_⟩
    rw [Declares, hlength, Frame.toBytes]
    simp

/-! ## What a request comes to -/

/-- What the request for a frame comes to, by the pending bytes alone. -/
structure Decides (inbox : Inbox) : Prop where
  /-- There is a header as soon as there are enough bytes for one. -/
  header : (∃ tag length body, Declares inbox.pending tag length body) ↔
    headerSize ≤ inbox.pending.length
  /-- A frame goes out exactly when the bytes start with it. It is taken away, and nothing else. -/
  hands : ∀ f rest, handOut inbox = .ok (some f) rest ↔
    ∃ length : UInt32, length.toNat = lengthFieldSize + f.payload.length ∧
      Declares inbox.pending f.tag length (f.payload ++ rest.pending)
  /-- A request is refused exactly when there is a header that declares too short a length. -/
  refuses : ∀ e rest, handOut inbox = .error e rest ↔ rest = inbox ∧
    ∃ tag length body, Declares inbox.pending tag length body ∧
      length.toNat < lengthFieldSize ∧ e = .invalidLength tag length
  /-- Nothing goes out exactly when there is no header yet, or more is declared than is there. -/
  waits : ∀ rest, handOut inbox = .ok none rest ↔ rest = inbox ∧
    ∀ tag length body, Declares inbox.pending tag length body →
      lengthFieldSize + body.length < length.toNat

theorem handOut_of_frame {inbox rest : Inbox} {f : Frame} :
    handOut inbox = .ok (some f) rest ↔ inbox.next? = .ok (some (f, rest)) := by
  unfold handOut
  cases inbox.next? with
  | error e => simp
  | ok taken => cases taken <;> simp [Prod.ext_iff]

theorem handOut_of_error {inbox rest : Inbox} {e : WireError} :
    handOut inbox = .error e rest ↔ rest = inbox ∧ inbox.next? = .error e := by
  unfold handOut
  cases inbox.next? with
  | error e' => simp [and_comm, eq_comm]
  | ok taken => cases taken <;> simp

theorem handOut_of_none {inbox rest : Inbox} :
    handOut inbox = .ok none rest ↔ rest = inbox ∧ inbox.next? = .ok none := by
  unfold handOut
  cases inbox.next? with
  | error e => simp
  | ok taken => cases taken <;> simp [eq_comm]

theorem decides (inbox : Inbox) : inbox.Decides := by
  refine ⟨⟨?_, fun h => ?_⟩, fun f rest => ?_, fun e rest => ?_, fun rest => ?_⟩
  · rintro ⟨tag, length, body, hd⟩
    exact hd.headerSize_le
  · rcases declares_or_short inbox.pending with hd | ⟨hshort, -⟩
    · exact hd
    · omega
  · rw [handOut_of_frame, declares_frame]
    constructor
    · intro h
      obtain ⟨hpending, hfits⟩ := of_next? h
      exact ⟨hfits, hpending⟩
    · rintro ⟨hfits, hpending⟩
      obtain ⟨pending⟩ := inbox
      obtain rfl : pending = f.toBytes ++ rest.pending := hpending
      exact next?_toBytes hfits rest.pending
  · rw [handOut_of_error]
    refine and_congr_right fun _ => ⟨fun h => ?_, ?_⟩
    · rcases declares_or_short inbox.pending with ⟨tag, length, body, hd⟩ | ⟨-, hnone⟩
      · have hnext := hd.next?_eq.symm.trans h
        split_ifs at hnext with hshort
        · exact ⟨tag, length, body, hd, hshort, (Except.error.inj hnext).symm⟩
      · exact absurd (hnone.symm.trans h) (by simp)
    · rintro ⟨tag, length, body, hd, hshort, rfl⟩
      have hnext := hd.next?_eq
      rw [if_pos hshort] at hnext
      exact hnext
  · rw [handOut_of_none]
    refine and_congr_right fun _ => ⟨fun h tag length body hd => ?_, fun h => ?_⟩
    · by_contra hle
      have hnext := hd.next?_eq.symm.trans h
      rw [if_pos (Nat.le_of_not_lt hle)] at hnext
      split_ifs at hnext with hshort
      exact absurd hnext (by simp)
    · rcases declares_or_short inbox.pending with ⟨tag, length, body, hd⟩ | ⟨-, hnone⟩
      · have hlong := h tag length body hd
        have hnext := hd.next?_eq
        rw [if_neg (by omega), if_neg (by omega)] at hnext
        exact hnext
      · exact hnone

/-! ## What went in and out -/

/-- No byte is lost and none handed out twice. -/
structure History.Balanced (h : History) : Prop where
  /-- What came in is the frames that went out, and what is pending. -/
  bytes : h.fed = h.handed.flatMap Frame.toBytes ++ h.inbox.pending
  /-- The length of each of these frames fits into its field. -/
  fits : ∀ f ∈ h.handed, f.Fits

theorem History.Balanced.record {h : History} (hb : h.Balanced) (u : Use) :
    (u.record h).Balanced := by
  cases u with
  | feed bs =>
    refine ⟨?_, hb.fits⟩
    show h.fed ++ bs = h.handed.flatMap Frame.toBytes ++ (h.inbox.pending ++ bs)
    rw [hb.bytes, List.append_assoc]
  | handOut =>
    have hdecides := decides h.inbox
    cases hout : Inbox.handOut h.inbox with
    | error e rest =>
      have hrecord : Use.handOut.record h = { h with inbox := rest } := by
        simp only [Use.record, hout]
      obtain ⟨rfl, -⟩ := (hdecides.refuses e rest).mp hout
      rw [hrecord]
      exact ⟨hb.bytes, hb.fits⟩
    | ok taken rest =>
      cases taken with
      | none =>
        have hrecord : Use.handOut.record h = { h with inbox := rest } := by
          simp only [Use.record, hout]
        obtain ⟨rfl, -⟩ := (hdecides.waits rest).mp hout
        rw [hrecord]
        exact ⟨hb.bytes, hb.fits⟩
      | some f =>
        have hrecord : Use.handOut.record h =
            { h with handed := h.handed ++ [f], inbox := rest } := by
          simp only [Use.record, hout]
        obtain ⟨hfits, hpending⟩ := declares_frame.mp ((hdecides.hands f rest).mp hout)
        rw [hrecord]
        refine ⟨?_, ?_⟩
        · show h.fed = (h.handed ++ [f]).flatMap Frame.toBytes ++ rest.pending
          rw [hb.bytes, hpending, List.flatMap_append, List.flatMap_singleton, List.append_assoc]
        · intro f' hf'
          rcases List.mem_append.mp hf' with hold | hnew
          · exact hb.fits f' hold
          · rw [List.mem_singleton.mp hnew]
            exact hfits

theorem balanced_foldl {h : History} (hb : h.Balanced) (uses : List Use) :
    (uses.foldl (fun h u => u.record h) h).Balanced := by
  induction uses generalizing h with
  | nil => exact hb
  | cons u uses ih => exact ih (hb.record u)

/-- However an inbox has been used, the bytes that came in are the frames that went out, in order,
followed by the pending ones; and these decide what the next request comes to. -/
theorem balanced_use (uses : List Use) :
    (use uses).Balanced ∧ (use uses).inbox.Decides :=
  ⟨balanced_foldl ⟨rfl, by simp⟩ uses, decides _⟩

end Inbox

end EdgeClient
