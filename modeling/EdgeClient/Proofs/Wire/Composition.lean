import EdgeClient.Proofs.Scalar.Form

/-!
# Composing messages

A message is composed of values and blocks, and blocks again of values and blocks, to any depth.
`Item.toBytes` and `Draft.frame` say what bytes this comes to, from the inside outwards: a length is
that of bytes that are known. The writer goes the other way, from front to back with lengths that it
fills in afterwards at the offsets it kept. Both come to the same (`take_of_drafts`).
-/

namespace EdgeClient

/-- What the body of a message is composed of. -/
inductive Item where
  /-- An unsigned number of one byte. -/
  | uint8 (n : UInt8)
  /-- An unsigned number of two bytes. -/
  | uint16 (n : UInt16)
  /-- An unsigned number of four bytes. -/
  | uint32 (n : UInt32)
  /-- An unsigned number of eight bytes. -/
  | uint64 (n : UInt64)
  /-- A signed number, a floating-point value, a truth value, an identifier, a text or a byte
  string. -/
  | scalar (value : Scalar)
  /-- A block, which holds further items. -/
  | block (items : List Item)

namespace Item

mutual

/-- The bytes of an item. -/
def toBytes : Item → Bytes
  | .uint8 n => BigEndian.encode 1 n.toNat
  | .uint16 n => BigEndian.encode 2 n.toNat
  | .uint32 n => BigEndian.encode 4 n.toNat
  | .uint64 n => BigEndian.encode 8 n.toNat
  | .scalar value => value.toBytes
  | .block items => BigEndian.encode 4 (toBytesAll items).length ++ toBytesAll items

/-- The bytes of items that stand one after the other. -/
def toBytesAll : List Item → Bytes
  | [] => []
  | item :: items => item.toBytes ++ toBytesAll items

end

mutual

/-- Writes an item; a block is begun, filled and ended. -/
def write : Item → Write Unit
  | .uint8 n => Writer.word 1 n.toNat
  | .uint16 n => Writer.word 2 n.toNat
  | .uint32 n => Writer.word 4 n.toNat
  | .uint64 n => Writer.word 8 n.toNat
  | .scalar value => value.write
  | .block items => do
    Writer.beginBlock
    writeAll items
    Writer.endBlock

/-- Writes items one after the other. -/
def writeAll : List Item → Write Unit
  | [] => return ()
  | item :: items => do
    item.write
    writeAll items

end

mutual

/-- Writing an item adds its bytes. -/
theorem adds_write : ∀ item : Item, item.toBytes.length < 2 ^ 32 →
    Writer.Adds item.write item.toBytes
  | .uint8 _, _ | .uint16 _, _ | .uint32 _, _ | .uint64 _, _ =>
    (Writer.writes_word _ _).adds trivial
  | .scalar _, h => Scalar.adds_write h
  | .block items, h => by
    have hinner : (toBytesAll items).length < 2 ^ 32 := by
      rw [toBytes, List.length_append, BigEndian.length_encode] at h
      omega
    rw [write, toBytes]
    exact (adds_writeAll items hinner).block hinner

/-- Writing items adds their bytes. -/
theorem adds_writeAll : ∀ items : List Item, (toBytesAll items).length < 2 ^ 32 →
    Writer.Adds (writeAll items) (toBytesAll items)
  | [], _ => Writer.writes_nothing.adds trivial
  | item :: items, h => by
    rw [toBytesAll, List.length_append] at h
    rw [writeAll, toBytesAll]
    exact (adds_write item (by omega)).andThen (adds_writeAll items (by omega))

end

end Item

/-- A message that is to be written. -/
structure Draft where
  /-- The type of the message. -/
  tag : UInt8
  /-- What its body is composed of. -/
  items : List Item

namespace Draft

/-- The frame that a draft comes to. -/
def frame (draft : Draft) : Frame := ⟨draft.tag, Item.toBytesAll draft.items⟩

/-- Writes a message: it is begun, filled and ended. -/
def write (draft : Draft) : Write Unit := do
  Writer.beginMessage draft.tag
  Item.writeAll draft.items
  Writer.endMessage

/-- Writing a message with nothing open adds its frame. -/
theorem write_of_fits {draft : Draft} (h : draft.frame.Fits) {w : Writer} (ht : w.openTag = none)
    (hr : w.reserved = []) : draft.write w = .ok () (w.append draft.frame.toBytes) := by
  have hbody : (Item.toBytesAll draft.items).length < 2 ^ 32 := by
    have : lengthFieldSize + (Item.toBytesAll draft.items).length < 2 ^ 32 := h
    omega
  exact (Item.adds_writeAll draft.items hbody).message ht hr h

end Draft

namespace Writer

/-- Messages that are written on a fresh writer are all accepted when their frames fit. Draining the
writer hands out the frames, one after the other, and leaves nothing: no bytes, no reserved field
and no open message. -/
theorem take_of_drafts {drafts : List Draft} (h : ∀ draft ∈ drafts, draft.frame.Fits) :
    ∃ w, drafts.forM Draft.write {} = .ok () w ∧
      take w = .ok
        (drafts.flatMap fun draft =>
          draft.tag :: BigEndian.encode 4 (4 + (Item.toBytesAll draft.items).length) ++
            Item.toBytesAll draft.items)
        { bytes := #[], reserved := [], openTag := none } := by
  have hwrite := forM_of_adds (w := {})
    (fun draft hdraft _ => Draft.write_of_fits (h draft hdraft)) rfl rfl
  exact ⟨_, hwrite, take_append _⟩

/-- Two messages, one with a block in a block and a number behind it, and one with nothing. -/
def nestedDrafts : List Draft :=
  [⟨0x44, [.block [.scalar (.str "é"), .block [.uint16 7], .block []], .scalar (.int32 (-1))]⟩,
    ⟨0x58, []⟩]

theorem take_of_drafts_nested :
    (∀ draft ∈ nestedDrafts, draft.frame.Fits) ∧
      ∃ w, nestedDrafts.forM Draft.write {} = .ok () w ∧
        take w = .ok
          [0x44, 0, 0, 0, 28,
            0, 0, 0, 16, 0, 0, 0, 2, 0xc3, 0xa9, 0, 0, 0, 2, 0, 7, 0, 0, 0, 0,
            0xff, 0xff, 0xff, 0xff,
            0x58, 0, 0, 0, 4]
          {} := by
  have hfits : ∀ draft ∈ nestedDrafts, draft.frame.Fits := by
    unfold Frame.Fits
    decide +kernel
  obtain ⟨w, hwrite, htake⟩ := take_of_drafts hfits
  exact ⟨hfits, w, hwrite, htake⟩

end Writer

end EdgeClient
