import EdgeClient.Proofs.BigEndian
import EdgeClient.Wire.Frame

/-!
# Cutting frames off a byte stream

The first frame of a stream is fixed by the bytes that make it up: `Inbox.next?` hands out exactly
the frame that was written, whatever follows, and what it has decided does not change when more
bytes come in. Only an incomplete frame waits for them.
-/

namespace EdgeClient

theorem BigEndian.limit_lengthFieldSize : limit lengthFieldSize = 2 ^ 32 := by decide

/-- Whether the length of a frame fits into its length field. -/
def Frame.Fits (f : Frame) : Prop := lengthFieldSize + f.payload.length < 2 ^ 32

instance : DecidablePred Frame.Fits := fun f =>
  inferInstanceAs (Decidable (lengthFieldSize + f.payload.length < 2 ^ 32))

theorem Frame.length_toBytes (f : Frame) : f.toBytes.length = headerSize + f.payload.length := by
  simp [toBytes, headerSize]
  omega

namespace Inbox

theorem next?_header (tag a b c d : UInt8) (rest : Bytes) :
    next? ⟨tag :: a :: b :: c :: d :: rest⟩ =
      if BigEndian.decode [a, b, c, d] < lengthFieldSize then
        .error (.invalidLength tag (UInt32.ofNat (BigEndian.decode [a, b, c, d])))
      else if BigEndian.decode [a, b, c, d] - lengthFieldSize ≤ rest.length then
        .ok (some (⟨tag, rest.take (BigEndian.decode [a, b, c, d] - lengthFieldSize)⟩,
          ⟨rest.drop (BigEndian.decode [a, b, c, d] - lengthFieldSize)⟩))
      else .ok none := by
  unfold next?
  simp only [Bytes.covers_iff]

/-- Bytes that make up a header, or else too few to decide anything. -/
theorem header_cases (bs : Bytes) :
    (∃ tag a b c d rest, bs = tag :: a :: b :: c :: d :: rest) ∨
      bs.length < headerSize ∧ next? ⟨bs⟩ = .ok none := by
  match bs with
  | [] | [_] | [_, _] | [_, _, _] | [_, _, _, _] => exact Or.inr ⟨by simp [headerSize, lengthFieldSize], rfl⟩
  | tag :: a :: b :: c :: d :: rest => exact Or.inl ⟨tag, a, b, c, d, rest, rfl⟩

/-- A written frame is handed out as it is, whatever follows it. -/
theorem next?_toBytes {f : Frame} (hf : f.Fits) (rest : Bytes) :
    next? ⟨f.toBytes ++ rest⟩ = .ok (some (f, ⟨rest⟩)) := by
  have hlen := BigEndian.length_encode lengthFieldSize (lengthFieldSize + f.payload.length)
  have hdec : BigEndian.decode (BigEndian.encode lengthFieldSize
      (lengthFieldSize + f.payload.length)) = lengthFieldSize + f.payload.length :=
    BigEndian.decode_encode_of_lt (by rw [BigEndian.limit_lengthFieldSize]; exact hf)
  unfold Frame.toBytes
  generalize BigEndian.encode lengthFieldSize (lengthFieldSize + f.payload.length) = field at *
  obtain ⟨a, b, c, d, rfl⟩ : ∃ a b c d, field = [a, b, c, d] := by
    match field, hlen with
    | [a, b, c, d], _ => exact ⟨a, b, c, d, rfl⟩
  have hbody : lengthFieldSize + f.payload.length - lengthFieldSize = f.payload.length := by omega
  have hmin : ¬ lengthFieldSize + f.payload.length < lengthFieldSize := by omega
  simp only [List.cons_append, List.nil_append, next?_header, hdec, hbody, if_neg hmin]
  simp

/-- A frame that is handed out stands at the front of the bytes. -/
theorem of_next? {inbox rest : Inbox} {f : Frame} (h : inbox.next? = .ok (some (f, rest))) :
    inbox.pending = f.toBytes ++ rest.pending ∧ f.Fits := by
  obtain ⟨bs⟩ := inbox
  rcases header_cases bs with ⟨tag, a, b, c, d, body, rfl⟩ | ⟨-, hnone⟩
  · rw [next?_header] at h
    split at h
    · exact absurd h (by simp)
    · split at h
      · rename_i hmin hle
        simp only [Except.ok.injEq, Option.some.injEq, Prod.mk.injEq] at h
        obtain ⟨rfl, rfl⟩ := h
        have hlt := BigEndian.decode_lt [a, b, c, d]
        have hlim : BigEndian.limit [a, b, c, d].length = 2 ^ 32 := rfl
        have htake : (body.take (BigEndian.decode [a, b, c, d] - lengthFieldSize)).length =
            BigEndian.decode [a, b, c, d] - lengthFieldSize := by
          rw [List.length_take]
          omega
        have hsum : lengthFieldSize + (BigEndian.decode [a, b, c, d] - lengthFieldSize) =
            BigEndian.decode [a, b, c, d] := by omega
        refine ⟨?_, ?_⟩
        · have hfield : BigEndian.encode lengthFieldSize (BigEndian.decode [a, b, c, d]) =
              [a, b, c, d] := BigEndian.encode_decode rfl
          simp [Frame.toBytes, htake, hsum, hfield]
        · unfold Frame.Fits
          rw [htake, hsum]
          omega
      · exact absurd h (by simp)
  · exact absurd (hnone.symm.trans h) (by simp)

/-- A frame that is complete stays the next one when bytes come in behind it. -/
theorem next?_feed_of_frame {inbox rest : Inbox} {f : Frame}
    (h : inbox.next? = .ok (some (f, rest))) (bs : Bytes) :
    (inbox.feed bs).next? = .ok (some (f, rest.feed bs)) := by
  obtain ⟨hp, hf⟩ := of_next? h
  have hfeed : inbox.feed bs = ⟨f.toBytes ++ (rest.feed bs).pending⟩ := by
    rw [feed, feed, hp, List.append_assoc]
  rw [hfeed, next?_toBytes hf]

/-- A header that is invalid stays so when bytes come in behind it. -/
theorem next?_feed_of_error {inbox : Inbox} {e : WireError} (h : inbox.next? = .error e)
    (bs : Bytes) : (inbox.feed bs).next? = .error e := by
  obtain ⟨pending⟩ := inbox
  rcases header_cases pending with ⟨tag, a, b, c, d, body, rfl⟩ | ⟨-, hnone⟩
  · rw [next?_header] at h
    split at h
    · rename_i hmin
      simp only [feed, List.cons_append, next?_header, if_pos hmin]
      exact h
    · split at h
      · exact absurd h (by simp)
      · exact absurd h (by simp)
  · exact absurd (hnone.symm.trans h) (by simp)

end Inbox

end EdgeClient
