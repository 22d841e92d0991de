import EdgeClient.Proofs.Wire.Adding
import EdgeClient.Proofs.Wire.Layouts
import EdgeClient.Scalar

/-!
# The binary form of scalar values

`Scalar.toBytes` writes the form of a value down without a writer. Writing a value adds exactly this
form, and reading it as a value of its type gives the value back, whatever follows. Only truth has
other forms that are read.
-/

namespace EdgeClient

namespace Scalar

/-- The bytes that a value is written as: numbers in two's complement and bit patterns as they are,
most significant byte first, texts and byte strings behind their length. -/
def toBytes : Scalar → Bytes
  | .uuid id => id.toBytes
  | .str text => Bytes.textField text
  | .bytes content => content.field
  | .int16 n => BigEndian.encode 2 n.toUInt16.toNat
  | .int32 n => BigEndian.encode 4 n.toUInt32.toNat
  | .int64 n => BigEndian.encode 8 n.toUInt64.toNat
  | .float32 x => BigEndian.encode 4 x.bits.toNat
  | .float64 x => BigEndian.encode 8 x.bits.toNat
  | .bool b => BigEndian.encode 1 b.toNat

/-- The bytes that are read as a value. -/
def form : Layout Scalar
  | .str text => Layout.text text
  | .bytes content => Layout.bytes content
  | .bool b => fun bs => ∃ byte : UInt8, bs = [byte] ∧ b = (byte != 0)
  | value => fun bs => bs = value.toBytes

/-- Whether the length of a text or a byte string has room in its field. -/
def Fits : Scalar → Prop
  | .str text => (Bytes.ofString text).length < 2 ^ 32
  | .bytes content => content.length < 2 ^ 32
  | _ => True

theorem fits_of_length_toBytes {value : Scalar} (h : value.toBytes.length < 2 ^ 32) :
    value.Fits := by
  cases value with
  | str text =>
    rw [toBytes, Bytes.length_textField] at h
    show (Bytes.ofString text).length < 2 ^ 32
    omega
  | bytes content =>
    rw [toBytes, Bytes.length_field] at h
    show content.length < 2 ^ 32
    omega
  | _ => exact trivial

/-- A value is read from what it is written as, unless it is too long to have been written. -/
theorem form_toBytes {value : Scalar} (h : value.toBytes.length < 2 ^ 32) :
    value.form value.toBytes := by
  have hfits := fits_of_length_toBytes h
  cases value with
  | str text => exact ⟨hfits, rfl⟩
  | bytes content => exact ⟨hfits, rfl⟩
  | bool b => exact ⟨b.toUInt8, by cases b <;> decide, by cases b <;> decide⟩
  | _ => exact rfl

/-- Writing a value adds its bytes, whatever the writer holds, and is refused only for a length. -/
theorem writes_write (value : Scalar) : Writer.Writes value.write value.toBytes value.Fits := by
  cases value with
  | uuid id => exact fun _ => Or.inl ⟨trivial, rfl⟩
  | str text => exact Writer.writes_stringField text
  | bytes content => exact Writer.writes_bytesField content
  | _ => exact Writer.writes_word _ _

theorem adds_write {value : Scalar} (h : value.toBytes.length < 2 ^ 32) :
    Writer.Adds value.write value.toBytes :=
  (writes_write value).adds (fits_of_length_toBytes h)

end Scalar

namespace Read

theorem reads_uuid : Reads uuid fun id bs => bs = id.toBytes := by
  refine ((reads_slice Uuid.size).map Uuid.ofBytes).congr fun id bs => ?_
  constructor
  · rintro ⟨_, ⟨hlen, rfl⟩, rfl⟩
    have hlt : BigEndian.decode bs < 2 ^ 128 := by
      have := BigEndian.decode_lt bs
      rwa [hlen] at this
    rw [Uuid.toBytes, Uuid.ofBytes, BitVec.toNat_ofNat, Nat.mod_eq_of_lt hlt,
      BigEndian.encode_decode hlen]
  · intro h
    have hlen : bs.length = Uuid.size := by rw [h, Uuid.toBytes, BigEndian.length_encode]
    have hdec : BigEndian.decode bs = id.bits.toNat := by
      rw [h]
      exact BigEndian.decode_encode_of_lt id.bits.isLt
    refine ⟨bs, ⟨hlen, rfl⟩, ?_⟩
    rw [Uuid.ofBytes, hdec, BitVec.ofNat_toNat, BitVec.setWidth_eq]

theorem reads_bool : Reads bool fun b bs => ∃ byte : UInt8, bs = [byte] ∧ b = (byte != 0) := by
  refine ((reads_word 1).map (· != 0)).congr fun b bs => ?_
  have hzero : ∀ byte : UInt8, (byte.toNat != 0) = (byte != 0) := fun byte => by
    rw [Bool.eq_iff_iff]
    simp [← UInt8.toNat_inj]
  constructor
  · rintro ⟨n, ⟨hn, rfl⟩, rfl⟩
    have hbyte : (UInt8.ofNat n).toNat = n := UInt8.toNat_ofNat_of_lt' hn
    refine ⟨UInt8.ofNat n, rfl, ?_⟩
    rw [← hzero, hbyte]
  · rintro ⟨byte, rfl, rfl⟩
    exact ⟨byte.toNat, ⟨byte.toNat_lt, (BigEndian.encode_byte byte).symm⟩, (hzero byte).symm⟩

end Read

namespace ScalarType

/-- A read of what the values of a type are made of is a read of these values. -/
theorem reads_map {α : Type} {x : Read α} {layout : Layout α} (hx : x.Reads layout)
    {t : ScalarType} {make : α → Scalar} (hform : ∀ a bs, layout a bs ↔ (make a).form bs)
    (htype : ∀ value : Scalar, value.type = t ↔ ∃ a, value = make a) :
    Read.Reads (do return make (← x)) fun value bs => value.type = t ∧ value.form bs := by
  refine (hx.map make).congr fun value bs => ?_
  constructor
  · rintro ⟨a, ha, rfl⟩
    exact ⟨(htype _).mpr ⟨a, rfl⟩, (hform a bs).mp ha⟩
  · rintro ⟨ht, hbs⟩
    obtain ⟨a, rfl⟩ := (htype value).mp ht
    exact ⟨a, (hform a bs).mpr hbs, rfl⟩

/-- Reading a value of a type succeeds exactly on the forms of the values of that type. -/
theorem reads_decode (t : ScalarType) :
    t.decode.Reads fun value bs => value.type = t ∧ value.form bs := by
  cases t with
  | uuid =>
    exact reads_map Read.reads_uuid (fun _ _ => Iff.rfl) fun v => by cases v <;> simp [Scalar.type]
  | str =>
    exact reads_map Read.reads_stringField (fun _ _ => Iff.rfl)
      fun v => by cases v <;> simp [Scalar.type]
  | bytes =>
    exact reads_map Read.reads_bytesField (fun _ _ => Iff.rfl)
      fun v => by cases v <;> simp [Scalar.type]
  | bool =>
    exact reads_map Read.reads_bool (fun _ _ => Iff.rfl) fun v => by cases v <;> simp [Scalar.type]
  | int16 =>
    refine reads_map Read.reads_uint16 (fun n bs => by simp [Scalar.form, Scalar.toBytes])
      fun v => ?_
    cases v with
    | int16 n => exact ⟨fun _ => ⟨n.toUInt16, by simp⟩, fun _ => rfl⟩
    | _ => simp [Scalar.type]
  | int32 =>
    refine reads_map Read.reads_uint32 (fun n bs => by simp [Scalar.form, Scalar.toBytes])
      fun v => ?_
    cases v with
    | int32 n => exact ⟨fun _ => ⟨n.toUInt32, by simp⟩, fun _ => rfl⟩
    | _ => simp [Scalar.type]
  | int64 =>
    refine reads_map Read.reads_uint64 (fun n bs => by simp [Scalar.form, Scalar.toBytes])
      fun v => ?_
    cases v with
    | int64 n => exact ⟨fun _ => ⟨n.toUInt64, by simp⟩, fun _ => rfl⟩
    | _ => simp [Scalar.type]
  | float32 =>
    refine reads_map Read.reads_uint32 (fun _ _ => Iff.rfl) fun v => ?_
    cases v with
    | float32 x => exact ⟨fun _ => ⟨x.bits, rfl⟩, fun _ => rfl⟩
    | _ => simp [Scalar.type]
  | float64 =>
    refine reads_map Read.reads_uint64 (fun _ _ => Iff.rfl) fun v => ?_
    cases v with
    | float64 x => exact ⟨fun _ => ⟨x.bits, rfl⟩, fun _ => rfl⟩
    | _ => simp [Scalar.type]

/-- A value is read back from its bytes, and what follows them is left. -/
theorem decode_toBytes {value : Scalar} (h : value.toBytes.length < 2 ^ 32) (rest : Bytes) :
    value.type.decode (value.toBytes ++ rest) = .ok value rest :=
  (reads_decode value.type _ _ _).mpr ⟨value.toBytes, ⟨rfl, Scalar.form_toBytes h⟩, rfl⟩

/-- A value is never refused as a value of its own type. -/
theorem encode_type (value : Scalar) :
    value.type.encode value = EStateM.adaptExcept ScalarError.wire value.write := by
  funext w
  rw [encode, if_pos rfl, EStateM.adaptExcept]
  cases value.write w <;> rfl

end ScalarType

end EdgeClient
