import EdgeClient.Proofs.Wire.Composition
import EdgeClient.Proofs.Wire.Reassembly

/-!
# Rows of scalar values

A row is a message whose body is made of scalar values, with nothing between them. Whoever knows the
types of the row reads the values back from its frame, and needs the whole frame for it. This holds
for rows that went over a connection one after the other, in whatever pieces their bytes came in
(`rows_survive`).
-/

namespace EdgeClient

/-- A message of scalar values. -/
structure Row where
  /-- The type of the message. -/
  tag : UInt8
  /-- The values, first one first. -/
  values : List Scalar
  deriving DecidableEq

namespace Row

/-- The types of the values. -/
def types (row : Row) : List ScalarType := row.values.map Scalar.type

/-- The row as a message that is to be written. -/
def draft (row : Row) : Draft := ⟨row.tag, row.values.map Item.scalar⟩

/-- Writes a row as one message, each value as a value of its own type. -/
def encode (row : Row) : EStateM ScalarError Writer Unit := do
  EStateM.adaptExcept .wire (Writer.beginMessage row.tag)
  row.values.forM fun value => value.type.encode value
  EStateM.adaptExcept .wire Writer.endMessage

/-- Reads values of the given types from a frame, which has to end behind them. -/
def decode (types : List ScalarType) (f : Frame) : Except WireError (List Scalar) :=
  match f.read (types.mapM ScalarType.decode) with
  | (.ok values, rest) => do
    rest.finish
    return values
  | (.error e, _) => .error e

/-! ## Writing -/

theorem adaptExcept_bind (x y : Write Unit) :
    EStateM.adaptExcept ScalarError.wire (do x; y) =
      (do EStateM.adaptExcept ScalarError.wire x; EStateM.adaptExcept ScalarError.wire y) := by
  funext w
  show EStateM.adaptExcept _ (EStateM.bind x fun _ => y) w =
    EStateM.bind (EStateM.adaptExcept _ x) (fun _ => EStateM.adaptExcept _ y) w
  simp only [EStateM.adaptExcept, EStateM.bind]
  cases x w <;> rfl

theorem encode_all (values : List Scalar) :
    (values.forM fun value => value.type.encode value) =
      EStateM.adaptExcept ScalarError.wire (Item.writeAll (values.map Item.scalar)) := by
  induction values with
  | nil => rfl
  | cons value values ih =>
    have hfirst := ScalarType.encode_type value
    calc (value :: values).forM (fun value => value.type.encode value)
        = (do value.type.encode value; values.forM fun value => value.type.encode value) := rfl
      _ = (do
            EStateM.adaptExcept ScalarError.wire value.write
            EStateM.adaptExcept ScalarError.wire (Item.writeAll (values.map Item.scalar))) := by
          rw [hfirst, ih]
      _ = _ := (adaptExcept_bind _ _).symm

/-- Writing a row is writing its draft: no value is refused for its type. -/
theorem encode_eq (row : Row) :
    row.encode = EStateM.adaptExcept ScalarError.wire row.draft.write := by
  rw [encode, encode_all, draft, Draft.write, adaptExcept_bind, adaptExcept_bind]

theorem encode_of_fits {row : Row} (h : row.draft.frame.Fits) {w : Writer}
    (ht : w.openTag = none) (hr : w.reserved = []) :
    row.encode w = .ok () (w.append row.draft.frame.toBytes) := by
  rw [encode_eq, EStateM.adaptExcept, Draft.write_of_fits h ht hr]

/-! ## Reading -/

theorem toBytesAll_scalars (values : List Scalar) :
    Item.toBytesAll (values.map Item.scalar) = values.flatMap Scalar.toBytes := by
  induction values with
  | nil => rfl
  | cons value values ih =>
    rw [List.map_cons, Item.toBytesAll, ih, List.flatMap_cons, Item.toBytes]

theorem read_values {values : List Scalar} (h : (values.flatMap Scalar.toBytes).length < 2 ^ 32)
    (rest : Bytes) :
    (values.map Scalar.type).mapM ScalarType.decode (values.flatMap Scalar.toBytes ++ rest) =
      .ok values rest := by
  induction values with
  | nil => rfl
  | cons value values ih =>
    rw [List.flatMap_cons, List.length_append] at h
    rw [List.map_cons, List.mapM_cons, List.flatMap_cons, List.append_assoc,
      Read.bind_of_ok (ScalarType.decode_toBytes (by omega) _), Read.bind_of_ok (ih (by omega))]
    rfl

theorem decode_frame {row : Row} (h : row.draft.frame.Fits) :
    decode row.types row.draft.frame = .ok row.values := by
  have hbody : (row.values.flatMap Scalar.toBytes).length < 2 ^ 32 := by
    have : lengthFieldSize + (Item.toBytesAll (row.values.map Item.scalar)).length < 2 ^ 32 := h
    rw [toBytesAll_scalars] at this
    omega
  have hread := read_values hbody []
  rw [List.append_nil] at hread
  have hframe : row.draft.frame.payload = row.values.flatMap Scalar.toBytes :=
    toBytesAll_scalars row.values
  rw [decode, Frame.read, hframe, types, hread]
  rfl

end Row

/-- Rows that are written on a fresh writer are all accepted when their frames fit. Their bytes, cut
into any pieces, give one frame for each row and leave nothing over, and each frame holds exactly
the values of its row. -/
theorem rows_survive {rows : List Row} (h : ∀ row ∈ rows, row.draft.frame.Fits) :
    ∃ w bytes, rows.forM Row.encode {} = .ok () w ∧ Writer.take w = .ok bytes {} ∧
      ∀ pieces : List Bytes, pieces.flatten = bytes →
        ∃ frames, Inbox.drainPieces {} pieces = (frames, {}) ∧
          List.Forall₂ (fun f row => f.tag = row.tag ∧ Row.decode row.types f = .ok row.values)
            frames rows := by
  have hwrite := Writer.forM_of_adds (w := {})
    (fun row hrow _ => Row.encode_of_fits (h row hrow)) rfl rfl
  refine ⟨_, _, hwrite, Writer.take_append _, fun pieces hp => ?_⟩
  have hframes : ∀ f ∈ rows.map fun row => row.draft.frame, f.Fits := by
    simpa using h
  refine ⟨rows.map fun row => row.draft.frame,
    Inbox.drainPieces_toBytes hframes (by rw [hp, List.flatMap_map]), ?_⟩
  rw [List.forall₂_map_left_iff]
  exact List.forall₂_same.mpr fun row hrow => ⟨rfl, Row.decode_frame (h row hrow)⟩

/-- A row with a bit pattern that is not a number, and an empty row. -/
def notANumberRows : List Row :=
  [⟨0x44, [.float64 ⟨0x7ff8000000000001⟩, .str "é", .bool true, .bytes [], .int16 (-2)]⟩,
    ⟨0x44, []⟩]

theorem rows_survive_notANumber :
    (∀ row ∈ notANumberRows, row.draft.frame.Fits) ∧
      ∃ w bytes, notANumberRows.forM Row.encode {} = .ok () w ∧ Writer.take w = .ok bytes {} ∧
        ∃ frames, Inbox.drainPieces {} [bytes.take 7, [], bytes.drop 7] = (frames, {}) ∧
          List.Forall₂ (fun f row => f.tag = row.tag ∧ Row.decode row.types f = .ok row.values)
            frames notANumberRows := by
  have hfits : ∀ row ∈ notANumberRows, row.draft.frame.Fits := by
    unfold Frame.Fits
    decide +kernel
  obtain ⟨w, bytes, hwrite, htake, hread⟩ := rows_survive hfits
  exact ⟨hfits, w, bytes, hwrite, htake, hread _ (by simp)⟩

end EdgeClient
