import EdgeClient.Message.Server
import EdgeClient.Proofs.Message.Attributes
import EdgeClient.Proofs.Wire.Layouts

/-!
# The layouts of server messages

`ServerMessage.HasLayout` writes down, kind by kind, which payloads stand for a message. Decoding
accepts exactly these: nothing is skipped that the layout does not name, and nothing is left over
where the payload has to be used up.

Some of a payload is dropped: headers, the names of unknown states, what follows an error report. So
several payloads can stand for one message. `ServerMessage.payload` is the one without anything to
drop, and every message that can be decoded at all is decoded from it.
-/

namespace EdgeClient

/-- The name of an extension and its headers, which are dropped. -/
def Layout.extension : Layout String := fun name form =>
  ∃ front headers back, text name front ∧ counted 2 keyed headers back ∧ form = front ++ back

/-- Whether a byte stands for a transaction state: it is the byte of that state, or of no state, and
then it stands for there being no transaction. -/
def TransactionState.StandsFor (byte : UInt8) (state : TransactionState) : Prop :=
  byte = state.toByte ∨ state = .notInTransaction ∧ ∀ s : TransactionState, byte ≠ s.toByte

/-- Whether a request counts as another one only if its status is that of no other kind. -/
def Authentication.IsProper : Authentication → Prop
  | .other status => status ≠ 0 ∧ status ≠ 0xa ∧ status ≠ 0xb ∧ status ≠ 0xc
  | _ => True

namespace ServerMessage

/-- The tags of the messages that a connection is set up with. -/
def knownTags : List UInt8 :=
  [handshakeTag, keyDataTag, readyForCommandTag, authenticationTag, errorTag]

/-- Which payloads stand for a message. -/
inductive HasLayout : ServerMessage → Bytes → Prop where
  /-- A version, and nothing behind it. -/
  | version (major minor : UInt16) :
      HasLayout (.handshake ⟨major, minor⟩ [])
        (BigEndian.encode 2 major.toNat ++ BigEndian.encode 2 minor.toNat)
  /-- A version and the extensions. -/
  | extensions (major minor : UInt16) {names : List String} {form : Bytes}
      (h : Layout.counted 2 Layout.extension names form) :
      HasLayout (.handshake ⟨major, minor⟩ names)
        (BigEndian.encode 2 major.toNat ++ BigEndian.encode 2 minor.toNat ++ form)
  /-- The key and nothing else. -/
  | keyData {key : Bytes} (h : key.length = 32) : HasLayout (.keyData key) key
  /-- Headers, which are dropped, and a byte. -/
  | readyForCommand {headers : List (UInt16 × Bytes)} {form : Bytes} {byte : UInt8}
      {state : TransactionState} (h : Layout.counted 2 Layout.keyed headers form)
      (hs : TransactionState.StandsFor byte state) :
      HasLayout (.readyForCommand state) (form ++ [byte])
  /-- The status 0. -/
  | ok : HasLayout (.authentication .ok) (BigEndian.encode 4 0)
  /-- The status 0xa and the mechanisms. -/
  | sasl {methods : List Bytes} {form : Bytes} (h : Layout.counted 4 Layout.bytes methods form) :
      HasLayout (.authentication (.sasl methods)) (BigEndian.encode 4 0xa ++ form)
  /-- The status 0xb and a text. -/
  | saslContinue {data : String} {form : Bytes} (h : Layout.text data form) :
      HasLayout (.authentication (.saslContinue data)) (BigEndian.encode 4 0xb ++ form)
  /-- The status 0xc and a text. -/
  | saslFinal {data : String} {form : Bytes} (h : Layout.text data form) :
      HasLayout (.authentication (.saslFinal data)) (BigEndian.encode 4 0xc ++ form)
  /-- A status with no meaning, and anything behind it. -/
  | otherStatus {status : UInt32} (h : (Authentication.other status).IsProper) (dropped : Bytes) :
      HasLayout (.authentication (.other status)) (BigEndian.encode 4 status.toNat ++ dropped)
  /-- A severity, a code, a text and settings, of which the last one of each key counts, and
  anything behind them. -/
  | error (severity : UInt8) (code : UInt32) {text : String} {attributes : Attributes}
      {settings : List (UInt16 × Bytes)} {front back : Bytes} (ht : Layout.text text front)
      (hs : Layout.counted 2 Layout.keyed settings back) (ha : attributes.IsAscending)
      (hl : ∀ key, attributes.get? key = Attributes.lastSetting settings key) (dropped : Bytes) :
      HasLayout (.error ⟨Severity.ofByte severity, code, text, attributes⟩)
        (severity :: BigEndian.encode 4 code.toNat ++ front ++ back ++ dropped)
  /-- Anything under a tag that has no meaning. -/
  | unknown {tag : UInt8} (h : tag ∉ knownTags) (dropped : Bytes) :
      HasLayout (.unknown tag) dropped

/-! ## Headers and extensions -/

theorem reads_skipHeader : Read.Reads skipHeader Layout.keyed.dropped := by
  refine (Read.reads_uint16.bind fun _ => Read.reads_bytesField.map fun _ => ()).congr
    fun _ form => ?_
  constructor
  · rintro ⟨key, _, field, rfl, ⟨value, hfield, -⟩, rfl⟩
    exact ⟨(key, value), field, hfield, rfl⟩
  · rintro ⟨⟨key, value⟩, field, hfield, rfl⟩
    exact ⟨key, _, field, rfl, ⟨value, hfield, rfl⟩, rfl⟩

theorem reads_skipHeaders : Read.Reads skipHeaders (Layout.counted 2 Layout.keyed).dropped := by
  have hbody : ∀ count, Read.Reads (Read.repeatUnit skipHeader count) fun _ form =>
      ∃ headers, True ∧ headers.length = count ∧ Layout.keyed.sequence headers form := by
    intro count
    refine (Read.reads_repeatUnit reads_skipHeader count).congr fun _ form => ?_
    simp only [true_and]
  refine (Read.reads_counted16 hbody).congr fun _ form => ?_
  simp only [true_and, Layout.dropped]

theorem reads_readExtension : Read.Reads readExtension Layout.extension := by
  refine (Read.reads_stringField.bind fun name => reads_skipHeaders.map fun _ => name).congr
    fun name form => ?_
  constructor
  · rintro ⟨name, front, back, hfront, ⟨_, ⟨headers, hback⟩, rfl⟩, rfl⟩
    exact ⟨front, headers, back, hfront, hback, rfl⟩
  · rintro ⟨front, headers, back, hfront, hback, rfl⟩
    exact ⟨name, front, back, hfront, ⟨(), ⟨headers, hback⟩, rfl⟩, rfl⟩

/-- The list of extensions may be missing only where the payload ends. -/
theorem usesUp_readExtensions : Read.UsesUp readExtensions fun names form =>
    names = [] ∧ form = [] ∨ Layout.counted 2 Layout.extension names form := by
  have hbody : ∀ count, Read.Reads (Read.replicate count readExtension) fun names form =>
      ∃ values, names = values ∧ values.length = count ∧
        Layout.extension.sequence values form := by
    intro count
    refine (Read.reads_replicate reads_readExtension count).congr fun names form => ?_
    simp only [exists_eq_left']
  have hcounted := (Read.reads_counted16 hbody).usesUp
  intro window names
  unfold readExtensions
  cases window with
  | nil =>
    -- a list, even an empty one, has a count
    have hne : ¬ Layout.counted 2 Layout.extension names [] := by
      rintro ⟨-, body, -, hform⟩
      have := congrArg List.length hform
      rw [List.length_append, BigEndian.length_encode] at this
      exact absurd this (by simp only [List.length_nil]; omega)
    simp [hne, eq_comm]
  | cons b window =>
    simp [hcounted (b :: window) names]

/-! ## Payloads -/

theorem usesUp_readHandshake : Read.UsesUp readHandshake fun m form =>
    ∃ major minor names tail, m = .handshake ⟨major, minor⟩ names ∧
      (names = [] ∧ tail = [] ∨ Layout.counted 2 Layout.extension names tail) ∧
      form = BigEndian.encode 2 major.toNat ++ BigEndian.encode 2 minor.toNat ++ tail := by
  refine (Read.reads_uint16.bindUsesUp fun major => Read.reads_uint16.bindUsesUp fun minor =>
    usesUp_readExtensions.map (handshake ⟨major, minor⟩)).congr fun m form => ?_
  constructor
  · rintro ⟨major, _, _, rfl, ⟨minor, _, tail, rfl, ⟨names, hnames, rfl⟩, rfl⟩, rfl⟩
    exact ⟨major, minor, names, tail, rfl, hnames, (List.append_assoc _ _ _).symm⟩
  · rintro ⟨major, minor, names, tail, rfl, hnames, rfl⟩
    exact ⟨major, _, _, rfl, ⟨minor, _, tail, rfl, ⟨names, hnames, rfl⟩, rfl⟩,
      List.append_assoc _ _ _⟩

theorem usesUp_readKeyData : Read.UsesUp readKeyData fun m form =>
    m = .keyData form ∧ form.length = keyDataSize := by
  refine ((Read.reads_slice keyDataSize).map ServerMessage.keyData).usesUp.congr fun m form => ?_
  constructor
  · rintro ⟨key, ⟨hlen, rfl⟩, rfl⟩
    exact ⟨rfl, hlen⟩
  · rintro ⟨rfl, hlen⟩
    exact ⟨form, ⟨hlen, rfl⟩, rfl⟩

end ServerMessage

theorem TransactionState.standsFor_iff {byte : UInt8} {state : TransactionState} :
    StandsFor byte state ↔ state = (ofByte? byte).getD .initial := by
  have hstates : ∀ p : TransactionState → Prop,
      (∀ s, p s) ↔ p .notInTransaction ∧ p .inTransaction ∧ p .inFailedTransaction :=
    fun p => ⟨fun h => ⟨h _, h _, h _⟩, fun ⟨hi, ht, he⟩ s => by cases s <;> assumption⟩
  unfold StandsFor ofByte?
  rw [hstates]
  split_ifs with hi ht he
  · subst hi
    cases state <;> decide
  · subst ht
    cases state <;> decide
  · subst he
    cases state <;> decide
  · cases state <;> simp [toByte, initial, hi, ht, he]

namespace ServerMessage

theorem usesUp_readReadyForCommand : Read.UsesUp readReadyForCommand fun m form =>
    ∃ headers front byte state, m = .readyForCommand state ∧
      Layout.counted 2 Layout.keyed headers front ∧ TransactionState.StandsFor byte state ∧
      form = front ++ [byte] := by
  refine (reads_skipHeaders.bind fun _ => Read.reads_uint8.map fun byte =>
    readyForCommand ((TransactionState.ofByte? byte).getD .initial)).usesUp.congr
    fun m form => ?_
  constructor
  · rintro ⟨_, front, _, ⟨headers, hfront⟩, ⟨byte, rfl, rfl⟩, rfl⟩
    exact ⟨headers, front, byte, _, rfl, hfront, TransactionState.standsFor_iff.mpr rfl,
      congrArg (front ++ ·) (BigEndian.encode_byte byte)⟩
  · rintro ⟨headers, front, byte, state, rfl, hfront, hstate, rfl⟩
    exact ⟨(), front, _, ⟨headers, hfront⟩,
      ⟨byte, rfl, congrArg _ (TransactionState.standsFor_iff.mp hstate)⟩,
      congrArg (front ++ ·) (BigEndian.encode_byte byte).symm⟩

/-- What stands behind a status, and the message that is read from it. -/
def StatusLayout (status : UInt32) : Layout ServerMessage := fun m form =>
  (status = 0 ∧ m = .authentication .ok ∧ form = []) ∨
  (status = 0xa ∧ ∃ methods, m = .authentication (.sasl methods) ∧
    Layout.counted 4 Layout.bytes methods form) ∨
  (status = 0xb ∧ ∃ data, m = .authentication (.saslContinue data) ∧ Layout.text data form) ∨
  (status = 0xc ∧ ∃ data, m = .authentication (.saslFinal data) ∧ Layout.text data form) ∨
  ((Authentication.other status).IsProper ∧ m = .authentication (.other status))

theorem usesUp_dropAll_map {α : Type} (a : α) :
    Read.UsesUp (dropAll >>= fun _ => pure a) fun b _ => b = a := by
  intro window b
  constructor
  · intro h
    exact (EStateM.Result.ok.inj h).1.symm
  · rintro rfl
    rfl

theorem usesUp_readAuthentication : Read.UsesUp readAuthentication fun m form =>
    ∃ status tail, StatusLayout status m tail ∧ form = BigEndian.encode 4 status.toNat ++ tail := by
  have hmethods := (Read.reads_counted32 (Read.reads_replicate_map Read.reads_bytesField
    fun methods => authentication (.sasl methods))).usesUp
  have hcontinue := (Read.reads_stringField.map fun data =>
    authentication (.saslContinue data)).usesUp
  have hfinal := (Read.reads_stringField.map fun data => authentication (.saslFinal data)).usesUp
  -- one goal for each status with a meaning, one for all others, and the shape of the layout
  refine (Read.reads_uint32.bindUsesUp (M := StatusLayout) fun status =>
    .ite (fun h => ?_) fun h0 => .ite (fun h => ?_) fun ha => .ite (fun h => ?_) fun hb =>
      .ite (fun h => ?_) fun hc => ?_).congr fun m form => ?_
  · refine (Read.reads_pure _).usesUp.congr fun m form => ?_
    simp [StatusLayout, Authentication.IsProper, h]
  · refine hmethods.congr fun m form => ?_
    simp [StatusLayout, Authentication.IsProper, h]
  · refine hcontinue.congr fun m form => ?_
    simp [StatusLayout, Authentication.IsProper, h, and_comm]
  · refine hfinal.congr fun m form => ?_
    simp [StatusLayout, Authentication.IsProper, h, and_comm]
  · refine (usesUp_dropAll_map _).congr fun m form => ?_
    simp [StatusLayout, Authentication.IsProper, h0, ha, hb, hc]
  · constructor
    · rintro ⟨status, _, tail, rfl, htail, rfl⟩
      exact ⟨status, tail, htail, rfl⟩
    · rintro ⟨status, tail, htail, rfl⟩
      exact ⟨status, _, tail, rfl, htail, rfl⟩

end ServerMessage

/-! ## Error reports -/

theorem ServerError.reads_readAttribute : Read.Reads readAttribute Layout.keyed := by
  refine (Read.reads_uint16.bind fun key => Read.reads_bytesField.map (Prod.mk key)).congr
    fun entry form => ?_
  constructor
  · rintro ⟨key, _, field, rfl, ⟨value, hfield, rfl⟩, rfl⟩
    exact ⟨field, hfield, rfl⟩
  · rintro ⟨field, hfield, rfl⟩
    exact ⟨entry.1, _, field, rfl, ⟨entry.2, hfield, rfl⟩, rfl⟩

theorem ServerError.reads_read : Read.Reads ServerError.read fun e form =>
    ∃ severity code text settings front back,
      e = ⟨Severity.ofByte severity, code, text, Attributes.ofList settings⟩ ∧
      Layout.text text front ∧ Layout.counted 2 Layout.keyed settings back ∧
      form = severity :: BigEndian.encode 4 code.toNat ++ front ++ back := by
  refine (Read.reads_uint8.bind fun severity => Read.reads_uint32.bind fun code =>
    Read.reads_stringField.bind fun text => Read.reads_counted16 fun count =>
      Read.reads_replicate_map reads_readAttribute (fun settings =>
        ServerError.mk (Severity.ofByte severity) code text (Attributes.ofList settings))
          count).congr fun e form => ?_
  constructor
  · rintro ⟨severity, _, _, rfl, ⟨code, _, _, rfl, ⟨text, front, back, hfront,
      ⟨settings, rfl, hback⟩, rfl⟩, rfl⟩, rfl⟩
    exact ⟨severity, code, text, settings, front, back, rfl, hfront, hback,
      by simp [BigEndian.encode_byte]⟩
  · rintro ⟨severity, code, text, settings, front, back, rfl, hfront, hback, rfl⟩
    exact ⟨severity, _, _, rfl, ⟨code, _, _, rfl, ⟨text, front, back, hfront,
      ⟨settings, rfl, hback⟩, rfl⟩, rfl⟩, by simp [BigEndian.encode_byte]⟩

namespace ServerMessage

/-! ## Whole messages -/

/-- A payload of a known type is decoded when the read for that type uses it up. -/
theorem decode_iff_of_usesUp {tag : UInt8} {payload : Bytes} {r : Read ServerMessage}
    {layout : Layout ServerMessage} (ht : exactPayload? tag = some r) (hr : r.UsesUp layout)
    {m : ServerMessage} : decode ⟨tag, payload⟩ = .ok m ↔ layout m payload := by
  rw [← hr]
  unfold decode Frame.read
  rw [ht]
  cases hread : r payload with
  | error e rest => simp [hread]
  | ok m' rest =>
    cases rest with
    | nil => simp [hread, Frame.finish, bind, Except.bind, pure, Except.pure]
    | cons b rest => simp [hread, Frame.finish, bind, Except.bind]

/-- An error report does not have to use up its payload. -/
theorem decode_errorTag (payload : Bytes) : decode ⟨errorTag, payload⟩ =
    ((Frame.mk errorTag payload).read ServerError.read).1.map .error := rfl

theorem decode_error_iff {payload : Bytes} {m : ServerMessage} :
    decode ⟨errorTag, payload⟩ = .ok m ↔
      ∃ e rest, ServerError.read payload = .ok e rest ∧ m = .error e := by
  rw [decode_errorTag, Frame.read]
  cases hread : ServerError.read payload with
  | error e rest => simp [Except.map]
  | ok e rest => simp [Except.map, eq_comm]

theorem decode_unknown {tag : UInt8} (h : tag ∉ knownTags) (payload : Bytes) :
    decode ⟨tag, payload⟩ = .ok (.unknown tag) := by
  simp only [knownTags, List.mem_cons, List.not_mem_nil, or_false, not_or] at h
  obtain ⟨hv, hk, hz, hr, he⟩ := h
  simp [decode, exactPayload?, hv, hk, hz, hr, he]

theorem hasLayout_of_decode {f : Frame} {m : ServerMessage} (h : decode f = .ok m) :
    m.tag = f.tag ∧ HasLayout m f.payload := by
  obtain ⟨tag, payload⟩ := f
  by_cases htag : tag ∈ knownTags
  · simp only [knownTags, List.mem_cons, List.not_mem_nil, or_false] at htag
    rcases htag with rfl | rfl | rfl | rfl | rfl
    · obtain ⟨major, minor, names, tail, rfl, ⟨rfl, rfl⟩ | hnames, rfl⟩ :=
        (decode_iff_of_usesUp rfl usesUp_readHandshake).mp h
      · rw [List.append_nil]
        exact ⟨rfl, .version major minor⟩
      · exact ⟨rfl, .extensions major minor hnames⟩
    · obtain ⟨rfl, hlen⟩ := (decode_iff_of_usesUp rfl usesUp_readKeyData).mp h
      exact ⟨rfl, .keyData hlen⟩
    · obtain ⟨headers, front, byte, state, rfl, hfront, hstate, rfl⟩ :=
        (decode_iff_of_usesUp rfl usesUp_readReadyForCommand).mp h
      exact ⟨rfl, .readyForCommand hfront hstate⟩
    · obtain ⟨status, tail, hstatus, rfl⟩ :=
        (decode_iff_of_usesUp rfl usesUp_readAuthentication).mp h
      rcases hstatus with ⟨rfl, rfl, rfl⟩ | ⟨rfl, methods, rfl, htail⟩ | ⟨rfl, data, rfl, htail⟩ |
        ⟨rfl, data, rfl, htail⟩ | ⟨hproper, rfl⟩
      · exact ⟨rfl, .ok⟩
      · exact ⟨rfl, .sasl htail⟩
      · exact ⟨rfl, .saslContinue htail⟩
      · exact ⟨rfl, .saslFinal htail⟩
      · exact ⟨rfl, .otherStatus hproper tail⟩
    · obtain ⟨e, rest, hread, rfl⟩ := decode_error_iff.mp h
      obtain ⟨_, ⟨severity, code, text, settings, front, back, rfl, hfront, hback, rfl⟩, rfl⟩ :=
        (ServerError.reads_read _ _ _).mp hread
      obtain ⟨hascending, hlast⟩ := (Attributes.eq_ofList_iff settings _).mp rfl
      exact ⟨rfl, .error severity code hfront hback hascending hlast rest⟩
  · obtain rfl := Except.ok.inj ((decode_unknown htag payload).symm.trans h)
    exact ⟨rfl, .unknown htag payload⟩

theorem decode_of_hasLayout {m : ServerMessage} {payload : Bytes} (h : HasLayout m payload) :
    decode ⟨m.tag, payload⟩ = .ok m := by
  cases h with
  | version major minor =>
    exact (decode_iff_of_usesUp rfl usesUp_readHandshake).mpr
      ⟨major, minor, [], [], rfl, Or.inl ⟨rfl, rfl⟩, (List.append_nil _).symm⟩
  | extensions major minor hnames =>
    exact (decode_iff_of_usesUp rfl usesUp_readHandshake).mpr
      ⟨major, minor, _, _, rfl, Or.inr hnames, rfl⟩
  | keyData hlen => exact (decode_iff_of_usesUp rfl usesUp_readKeyData).mpr ⟨rfl, hlen⟩
  | readyForCommand hheaders hstate =>
    exact (decode_iff_of_usesUp rfl usesUp_readReadyForCommand).mpr
      ⟨_, _, _, _, rfl, hheaders, hstate, rfl⟩
  | ok =>
    exact (decode_iff_of_usesUp rfl usesUp_readAuthentication).mpr
      ⟨0, [], Or.inl ⟨rfl, rfl, rfl⟩, rfl⟩
  | sasl hmethods =>
    exact (decode_iff_of_usesUp rfl usesUp_readAuthentication).mpr
      ⟨0xa, _, Or.inr (Or.inl ⟨rfl, _, rfl, hmethods⟩), rfl⟩
  | saslContinue hdata =>
    exact (decode_iff_of_usesUp rfl usesUp_readAuthentication).mpr
      ⟨0xb, _, Or.inr (Or.inr (Or.inl ⟨rfl, _, rfl, hdata⟩)), rfl⟩
  | saslFinal hdata =>
    exact (decode_iff_of_usesUp rfl usesUp_readAuthentication).mpr
      ⟨0xc, _, Or.inr (Or.inr (Or.inr (Or.inl ⟨rfl, _, rfl, hdata⟩))), rfl⟩
  | otherStatus hproper dropped =>
    exact (decode_iff_of_usesUp rfl usesUp_readAuthentication).mpr
      ⟨_, dropped, Or.inr (Or.inr (Or.inr (Or.inr ⟨hproper, rfl⟩))), rfl⟩
  | error severity code htext hsettings hascending hlast dropped =>
    obtain rfl := (Attributes.eq_ofList_iff _ _).mpr ⟨hascending, hlast⟩
    exact decode_error_iff.mpr ⟨_, dropped, (ServerError.reads_read _ _ _).mpr
      ⟨_, ⟨severity, code, _, _, _, _, rfl, htext, hsettings, rfl⟩, rfl⟩, rfl⟩
  | unknown htag dropped => exact decode_unknown htag payload

end ServerMessage

/-! ## The payload with nothing to drop -/

/-- The code of a severity. -/
def Severity.toByte : Severity → UInt8
  | .error => 120
  | .fatal => 200
  | .panic => 255
  | .other code => code

theorem Severity.toByte_ofByte (code : UInt8) : (ofByte code).toByte = code := by
  unfold ofByte
  split_ifs with herror hfatal hpanic
  · exact herror.symm
  · exact hfatal.symm
  · exact hpanic.symm
  · rfl

/-- The payload of a request. -/
def Authentication.payload : Authentication → Bytes
  | .ok => BigEndian.encode 4 0
  | .sasl methods =>
    BigEndian.encode 4 0xa ++ (BigEndian.encode 4 methods.length ++ methods.flatMap Bytes.field)
  | .saslContinue data => BigEndian.encode 4 0xb ++ Bytes.textField data
  | .saslFinal data => BigEndian.encode 4 0xc ++ Bytes.textField data
  | .other status => BigEndian.encode 4 status.toNat

namespace ServerMessage

/-- The payload of a message without headers and without anything behind it. -/
def payload : ServerMessage → Bytes
  | .handshake version names =>
    BigEndian.encode 2 version.major.toNat ++ BigEndian.encode 2 version.minor.toNat ++
      (BigEndian.encode 2 names.length ++
        names.flatMap fun name => Bytes.textField name ++ BigEndian.encode 2 0)
  | .keyData key => key
  | .readyForCommand state => BigEndian.encode 2 0 ++ [state.toByte]
  | .authentication request => request.payload
  | .error e =>
    e.severity.toByte :: BigEndian.encode 4 e.code.toNat ++ Bytes.textField e.text ++
      (BigEndian.encode 2 e.attributes.length ++
        e.attributes.flatMap fun (key, value) => BigEndian.encode 2 key.toNat ++ value.field)
  | .unknown _ => []

theorem counted_noHeaders : Layout.counted 2 Layout.keyed [] (BigEndian.encode 2 0) :=
  ⟨by decide, [], Layout.sequence_nil.mpr rfl, (List.append_nil _).symm⟩

/-- What has a layout at all also has the one with nothing to drop. -/
theorem HasLayout.payload {m : ServerMessage} {payload : Bytes} (h : HasLayout m payload) :
    HasLayout m m.payload := by
  cases h with
  | version major minor =>
    exact .extensions major minor ⟨by decide, [], Layout.sequence_nil.mpr rfl, rfl⟩
  | extensions major minor hnames =>
    obtain ⟨hcount, body, hbody, -⟩ := hnames
    refine .extensions major minor (Layout.counted_flatMap hcount fun name hn => ?_)
    obtain ⟨_, front, headers, back, hname, -, -⟩ := Layout.exists_form_of_mem hbody hn
    exact ⟨_, [], _, Layout.text_textField hname, counted_noHeaders, rfl⟩
  | keyData hlen => exact .keyData hlen
  | readyForCommand _ _ => exact .readyForCommand counted_noHeaders (Or.inl rfl)
  | ok => exact .ok
  | sasl hmethods =>
    obtain ⟨hcount, body, hbody, -⟩ := hmethods
    refine .sasl (Layout.counted_flatMap hcount fun bs hb => ?_)
    obtain ⟨_, hform⟩ := Layout.exists_form_of_mem hbody hb
    exact Layout.bytes_field hform
  | saslContinue hdata => exact .saslContinue (Layout.text_textField hdata)
  | saslFinal hdata => exact .saslFinal (Layout.text_textField hdata)
  | otherStatus hproper dropped =>
    have := HasLayout.otherStatus hproper []
    rwa [List.append_nil] at this
  | @error severity code text attributes settings _ _ htext hsettings hascending hlast dropped =>
    obtain ⟨hcount, body, hbody, -⟩ := hsettings
    have hattributes := (Attributes.eq_ofList_iff settings attributes).mpr ⟨hascending, hlast⟩
    have hshort : attributes.length < BigEndian.limit 2 := by
      have := Attributes.length_ofList_le settings
      rw [← hattributes] at this
      omega
    have hcounted : Layout.counted 2 Layout.keyed attributes
        (BigEndian.encode 2 attributes.length ++
          attributes.flatMap fun (key, value) => BigEndian.encode 2 key.toNat ++ value.field) := by
      refine Layout.counted_flatMap hshort fun entry he => ?_
      obtain ⟨_, field, hfield, -⟩ := Layout.exists_form_of_mem hbody
        (Attributes.mem_of_mem_ofList settings (hattributes ▸ he))
      exact ⟨_, Layout.bytes_field hfield, rfl⟩
    have hagain := (Attributes.eq_ofList_iff attributes attributes).mp
      (Attributes.ofList_of_isAscending hascending).symm
    have := HasLayout.error severity code (Layout.text_textField htext) hcounted hagain.1 hagain.2
      []
    rw [List.append_nil] at this
    rw [ServerMessage.payload, Severity.toByte_ofByte]
    exact this
  | unknown htag dropped => exact .unknown htag []

/-- A frame is decoded to a message exactly if it has the tag of the message and its payload has the
layout of the message. What can be decoded at all is decoded from the payload that has nothing to
drop. -/
theorem decode_eq_ok_iff_hasLayout (f : Frame) (m : ServerMessage) :
    (decode f = .ok m ↔ m.tag = f.tag ∧ HasLayout m f.payload) ∧
      (decode f = .ok m → decode ⟨m.tag, m.payload⟩ = .ok m) := by
  refine ⟨⟨hasLayout_of_decode, ?_⟩, fun h => ?_⟩
  · rintro ⟨htag, h⟩
    have := decode_of_hasLayout h
    rwa [htag] at this
  · exact decode_of_hasLayout (hasLayout_of_decode h).2.payload

/-- An error report that sets one key twice and has a byte behind it. -/
def repeatedKey : Frame :=
  ⟨errorTag, [120, 0, 0, 0, 5, 0, 0, 0, 2, 0x6e, 0x6f, 0, 3, 0, 2, 0, 0, 0, 1, 7, 0, 1, 0, 0, 0, 0,
    0, 2, 0, 0, 0, 1, 9, 0xff]⟩

theorem decode_eq_ok_iff_hasLayout_repeatedKey :
    let m : ServerMessage := .error ⟨.error, 5, "no", [(1, []), (2, [9])]⟩
    decode repeatedKey = .ok m ∧ HasLayout m repeatedKey.payload ∧
      decode ⟨m.tag, m.payload⟩ = .ok m := by
  have h : decode repeatedKey = .ok (.error ⟨.error, 5, "no", [(1, []), (2, [9])]⟩) := by
    decide +kernel
  obtain ⟨hlayout, hagain⟩ := decode_eq_ok_iff_hasLayout repeatedKey
    (.error ⟨.error, 5, "no", [(1, []), (2, [9])]⟩)
  exact ⟨h, (hlayout.mp h).2, hagain h⟩

end ServerMessage

end EdgeClient
