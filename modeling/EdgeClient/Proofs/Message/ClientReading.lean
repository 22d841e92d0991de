import EdgeClient.Proofs.Message.ClientFrames
import EdgeClient.Proofs.Wire.Layouts
import EdgeClient.Proofs.Wire.Reassembly

/-!
# Reading client messages

A server tells the messages of a client apart by their tags and reads each payload field by field.
It gets every message back as it was written, and needs the whole payload for it, so the stream of
a client can be read in one way only (`messages_survive`).
-/

namespace EdgeClient

/-! ## Fields -/

theorem Read.uint16_encode (n : UInt16) (rest : Bytes) :
    Read.uint16 (BigEndian.encode 2 n.toNat ++ rest) = .ok n rest :=
  (Read.reads_uint16 _ _ _).mpr ⟨_, rfl, rfl⟩

theorem Read.stringField_textField {s : String} (h : (Bytes.textField s).length < 2 ^ 32)
    (rest : Bytes) : Read.stringField (Bytes.textField s ++ rest) = .ok s rest := by
  have hlen : (Bytes.ofString s).length < 2 ^ 32 := by
    rw [Bytes.length_textField] at h
    omega
  exact (Read.reads_stringField _ _ _).mpr ⟨_, ⟨hlen, rfl⟩, rfl⟩

namespace ClientMessage

/-! ## Reading -/

/-- Reads a connection parameter: its name and its value. -/
def readParam : Read (String × String) := do
  let name ← Read.stringField
  let value ← Read.stringField
  return (name, value)

/-- Reads the payload of a message with the given tag; nothing if the tag is not one of a client, or
if extensions are announced. -/
def readBody (tag : UInt8) : Read (Option ClientMessage) :=
  if tag = 0x56 then do
    let major ← Read.uint16
    let minor ← Read.uint16
    let count ← Read.uint16
    let params ← Read.replicate count.toNat readParam
    let extensions ← Read.uint16
    return if extensions = 0 then some (.handshake ⟨major, minor⟩ params) else none
  else if tag = 0x70 then do
    let mechanism ← Read.stringField
    let data ← Read.stringField
    return some (.saslInitial mechanism data)
  else if tag = 0x72 then do
    let data ← Read.stringField
    return some (.saslResponse data)
  else if tag = 0x58 then
    return some .terminate
  else
    return none

/-- The message in a frame, which has to end behind it. -/
def ofFrame? (f : Frame) : Except WireError (Option ClientMessage) :=
  match f.read (readBody f.tag) with
  | (.ok message, rest) => do
    rest.finish
    return message
  | (.error e, _) => .error e

/-! ## One message -/

/-- The forms of a connection parameter. -/
def paramLayout : Layout (String × String) := fun (name, value) form =>
  ∃ front back, Layout.text name front ∧ Layout.text value back ∧ form = front ++ back

theorem reads_readParam : Read.Reads readParam paramLayout := by
  refine (Read.reads_stringField.bind fun name => Read.reads_stringField.map (Prod.mk name)).congr ?_
  rintro ⟨name, value⟩ form
  constructor
  · rintro ⟨name', front, back, hfront, ⟨value', hback, heq⟩, rfl⟩
    obtain ⟨rfl, rfl⟩ := Prod.mk.inj heq
    exact ⟨front, back, hfront, hback, rfl⟩
  · rintro ⟨front, back, hfront, hback, rfl⟩
    exact ⟨name, front, back, hfront, ⟨value, hback, rfl⟩, rfl⟩

theorem sequence_paramsBody {params : List (String × String)}
    (h : (paramsBody params).length < 2 ^ 32) :
    paramLayout.sequence params (paramsBody params) := by
  induction params with
  | nil => exact Layout.sequence_nil.mpr rfl
  | cons param params ih =>
    obtain ⟨name, value⟩ := param
    have hbody : paramsBody ((name, value) :: params) =
        (Bytes.textField name ++ Bytes.textField value) ++ paramsBody params := rfl
    rw [hbody, List.length_append, List.length_append, Bytes.length_textField,
      Bytes.length_textField] at h
    rw [hbody]
    refine Layout.sequence_cons.mpr ⟨_, _, ⟨_, _, ⟨?_, rfl⟩, ⟨?_, rfl⟩, rfl⟩, ih ?_, rfl⟩
    · omega
    · omega
    · omega

/-- The payload of a message is read to its end, and gives the message. -/
theorem readBody_body {message : ClientMessage} (h : message.Encodable) :
    readBody message.tag message.body = .ok (some message) [] := by
  obtain ⟨hcount, hfits⟩ := h
  have hlen : message.body.length < 2 ^ 32 := by
    have : lengthFieldSize + message.body.length < 2 ^ 32 := hfits
    omega
  clear hfits
  cases message with
  | handshake version params =>
    obtain ⟨major, minor⟩ := version
    have hcount : params.length < 2 ^ 16 := hcount
    have hsize : (UInt16.ofNat params.length).toNat = params.length :=
      UInt16.toNat_ofNat_of_lt' hcount
    have hbody : body (.handshake ⟨major, minor⟩ params) =
        BigEndian.encode 2 major.toNat ++ (BigEndian.encode 2 minor.toNat ++
          (BigEndian.encode 2 (UInt16.ofNat params.length).toNat ++
            (paramsBody params ++ (BigEndian.encode 2 (0 : UInt16).toNat ++ [])))) := by
      rw [hsize]
      simp [body]
    have hparams : Read.replicate (UInt16.ofNat params.length).toNat readParam
        (paramsBody params ++ (BigEndian.encode 2 (0 : UInt16).toNat ++ [])) =
          .ok params (BigEndian.encode 2 (0 : UInt16).toNat ++ []) := by
      refine (Read.reads_replicate reads_readParam _ _ _ _).mpr ⟨_, ⟨hsize.symm, ?_⟩, rfl⟩
      refine sequence_paramsBody ?_
      simp only [body, List.length_append] at hlen
      omega
    have htag : readBody (tag (.handshake ⟨major, minor⟩ params)) = do
        let major ← Read.uint16
        let minor ← Read.uint16
        let count ← Read.uint16
        let params ← Read.replicate count.toNat readParam
        let extensions ← Read.uint16
        return if extensions = 0 then some (.handshake ⟨major, minor⟩ params) else none := rfl
    rw [htag, hbody, Read.bind_of_ok (Read.uint16_encode major _),
      Read.bind_of_ok (Read.uint16_encode minor _),
      Read.bind_of_ok (Read.uint16_encode (UInt16.ofNat params.length) _), Read.bind_of_ok hparams,
      Read.bind_of_ok (Read.uint16_encode 0 _)]
    rfl
  | saslInitial mechanism data =>
    have hbody : body (.saslInitial mechanism data) =
        Bytes.textField mechanism ++ (Bytes.textField data ++ []) := by
      simp [body]
    have htag : readBody (tag (.saslInitial mechanism data)) = do
        let mechanism ← Read.stringField
        let data ← Read.stringField
        return some (.saslInitial mechanism data) := rfl
    simp only [body, List.length_append] at hlen
    rw [htag, hbody, Read.bind_of_ok (Read.stringField_textField (by omega) _),
      Read.bind_of_ok (Read.stringField_textField (by omega) _)]
    rfl
  | saslResponse data =>
    have hbody : body (.saslResponse data) = Bytes.textField data ++ [] := by
      simp [body]
    have htag : readBody (tag (.saslResponse data)) = do
        let data ← Read.stringField
        return some (.saslResponse data) := rfl
    rw [htag, hbody, Read.bind_of_ok (Read.stringField_textField hlen _)]
    rfl
  | terminate => rfl

/-- A message is read back from its frame. -/
theorem ofFrame?_frame {message : ClientMessage} (h : message.Encodable) :
    ofFrame? message.frame = .ok (some message) := by
  have hread : message.frame.read (readBody message.frame.tag) =
      (.ok (some message), { message.frame with payload := [] }) := by
    have hbody : readBody message.frame.tag message.frame.payload = .ok (some message) [] :=
      readBody_body h
    rw [Frame.read, hbody]
  rw [ofFrame?, hread]
  rfl

/-- Parameters that cannot be counted are refused, whatever is written on. -/
theorem write_of_not_countable (version : ProtocolVersion) {params : List (String × String)}
    (h : 65535 < params.length) (w : Writer) :
    ∃ e w', write (.handshake version params) w = .error e w' ∧
      (w.openTag = none → e = .tooLarge params.length) := by
  cases ht : w.openTag with
  | some tag =>
    have hbegin : Writer.beginMessage 0x56 w = .error .messageAlreadyOpen w := by
      unfold Writer.beginMessage
      rw [ht]
    exact ⟨_, _, Writer.bind_of_error hbegin, by simp⟩
  | none =>
    have hbegin : ∃ begun, Writer.beginMessage 0x56 w = .ok () begun := by
      unfold Writer.beginMessage
      rw [ht]
      exact ⟨_, rfl⟩
    obtain ⟨begun, hbegin⟩ := hbegin
    have hlimit : ¬ params.length < BigEndian.limit 2 := by
      have : BigEndian.limit 2 = 65536 := by decide
      omega
    have hbody : writeBody (.handshake version params) begun = .error (.tooLarge params.length)
        ((begun.append (BigEndian.encode 2 version.major.toNat)).append
          (BigEndian.encode 2 version.minor.toNat)) := by
      have hsteps : writeBody (.handshake version params) = (do
          Writer.word 2 version.major.toNat
          Writer.word 2 version.minor.toNat
          if params.length < BigEndian.limit 2 then
            Writer.word 2 params.length
            writeParams params
            Writer.word 2 0
          else
            throw (.tooLarge params.length)) := rfl
      rw [hsteps, if_neg hlimit]
      rfl
    exact ⟨_, _, (Writer.bind_of_ok hbegin).trans (Writer.bind_of_error hbody), fun _ => rfl⟩

/-! ## Streams of messages -/

/-- Whether the messages, written one after the other on a new writer, are drained as these bytes. -/
def AreWrittenAs (messages : List ClientMessage) (bytes : Bytes) : Prop :=
  ∃ w, messages.forM write {} = .ok () w ∧ Writer.take w = .ok bytes {}

theorem areWrittenAs_stream {messages : List ClientMessage} (h : ∀ m ∈ messages, m.Encodable) :
    AreWrittenAs messages (messages.flatMap fun m => m.frame.toBytes) := by
  refine ⟨_, Writer.forM_of_adds (fun m hm w ht hr => ?_) rfl rfl, Writer.take_append _⟩
  rcases write_cases ht hr m with ⟨-, hw⟩ | ⟨hn, -⟩
  · exact hw
  · exact absurd (h m hm) hn

/-- Messages that were written were all encodable. -/
theorem encodable_of_forM {messages : List ClientMessage} {w w' : Writer} (ht : w.openTag = none)
    (hr : w.reserved = []) (h : messages.forM write w = .ok () w') :
    ∀ m ∈ messages, m.Encodable := by
  induction messages generalizing w with
  | nil => simp
  | cons m messages ih =>
    rcases write_cases ht hr m with ⟨hm, hw⟩ | ⟨-, size, w₁, hw⟩
    · have hrest := (Writer.bind_of_ok hw).symm.trans h
      exact List.forall_mem_cons.mpr ⟨hm, ih (w := w.append m.frame.toBytes) ht hr hrest⟩
    · exact absurd ((Writer.bind_of_error hw).symm.trans h) (by simp)

theorem AreWrittenAs.eq_stream {messages : List ClientMessage} {bytes : Bytes}
    (h : AreWrittenAs messages bytes) :
    (∀ m ∈ messages, m.Encodable) ∧ bytes = messages.flatMap fun m => m.frame.toBytes := by
  obtain ⟨w, hwrite, htake⟩ := h
  have hencodable := encodable_of_forM rfl rfl hwrite
  obtain ⟨w', hwrite', htake'⟩ := areWrittenAs_stream hencodable
  obtain ⟨-, rfl⟩ := EStateM.Result.ok.inj (hwrite'.symm.trans hwrite)
  exact ⟨hencodable, (EStateM.Result.ok.inj (htake.symm.trans htake')).1⟩

/-- Whatever pieces their bytes come in, written messages are handed out one frame each, and each
frame gives its message. -/
theorem AreWrittenAs.read {messages : List ClientMessage} {bytes : Bytes}
    (h : AreWrittenAs messages bytes) {pieces : List Bytes} (hp : pieces.flatten = bytes) :
    Inbox.drainPieces {} pieces = (messages.map frame, {}) ∧
      (messages.map frame).mapM ofFrame? = .ok (messages.map some) := by
  obtain ⟨hencodable, rfl⟩ := h.eq_stream
  refine ⟨Inbox.drainPieces_toBytes ?_ (by rw [hp, List.flatMap_map]), ?_⟩
  · simpa using fun m hm => (hencodable m hm).2
  · clear hp h
    induction messages with
    | nil => rfl
    | cons m messages ih =>
      obtain ⟨hm, hmessages⟩ := List.forall_mem_cons.mp hencodable
      rw [List.map_cons, List.mapM_cons, ofFrame?_frame hm, ih hmessages]
      rfl

/-- Messages that fit into frames and whose parameters can be counted are all accepted on a new
writer, and read back from its bytes, cut into any pieces, with nothing left over. Two lists of
messages are never written as the same bytes. More parameters than can be counted are always
refused. -/
theorem messages_survive :
    (∀ messages : List ClientMessage, (∀ m ∈ messages, m.Encodable) →
      ∃ bytes, AreWrittenAs messages bytes ∧ ∀ pieces : List Bytes, pieces.flatten = bytes →
        ∃ frames, Inbox.drainPieces {} pieces = (frames, {}) ∧
          frames.mapM ofFrame? = .ok (messages.map some)) ∧
    (∀ messages messages' bytes, AreWrittenAs messages bytes → AreWrittenAs messages' bytes →
      messages = messages') ∧
    ∀ version (params : List (String × String)) w, 65535 < params.length →
      ∃ e w', write (.handshake version params) w = .error e w' ∧
        (w.openTag = none → e = .tooLarge params.length) := by
  refine ⟨fun messages h => ?_, fun messages messages' bytes h h' => ?_, fun version params w h => ?_⟩
  · have hwritten := areWrittenAs_stream h
    exact ⟨_, hwritten, fun pieces hp => ⟨_, hwritten.read hp⟩⟩
  · -- both are what is read back from the bytes in one piece
    have hpieces : [bytes].flatten = bytes := List.flatten_singleton
    obtain ⟨hframes, hread⟩ := h.read hpieces
    obtain ⟨hframes', hread'⟩ := h'.read hpieces
    obtain ⟨hsame, -⟩ := Prod.mk.inj (hframes.symm.trans hframes')
    rw [hsame, hread'] at hread
    exact (List.map_injective_iff.mpr (fun _ _ h => Option.some.inj h) (Except.ok.inj hread)).symm
  · exact write_of_not_countable version h w

/-- A client that opens a connection, logs in and leaves. -/
def briefVisit : List ClientMessage :=
  [.handshake ⟨2, 0⟩ [("user", "edgedb"), ("database", "é")], .saslInitial "SCRAM-SHA-256" "n,,",
    .saslResponse "", .terminate]

theorem messages_survive_briefVisit :
    (∀ m ∈ briefVisit, m.Encodable) ∧
      (∃ bytes, AreWrittenAs briefVisit bytes ∧
        ∃ frames, Inbox.drainPieces {} [bytes.take 7, [], bytes.drop 7] = (frames, {}) ∧
          frames.mapM ofFrame? = .ok (briefVisit.map some)) ∧
      (∃ bytes, AreWrittenAs [.saslInitial "ab" "c"] bytes ∧
        ¬ AreWrittenAs [.saslInitial "a" "bc"] bytes) ∧
      ∃ e w', write (.handshake ⟨2, 0⟩ (List.replicate 65536 ("", ""))) {} = .error e w' ∧
        e = .tooLarge 65536 := by
  obtain ⟨hsurvive, hinjective, hrefused⟩ := messages_survive
  have hencodable : ∀ m ∈ briefVisit, m.Encodable := by decide +kernel
  have hshort : ∀ m ∈ [saslInitial "ab" "c"], m.Encodable := by decide +kernel
  have hlength : (List.replicate 65536 ("", "")).length = 65536 := List.length_replicate
  obtain ⟨bytes, hwritten, hread⟩ := hsurvive briefVisit hencodable
  obtain ⟨short, hshort, -⟩ := hsurvive [.saslInitial "ab" "c"] hshort
  obtain ⟨e, w', hwrite, he⟩ := hrefused ⟨2, 0⟩ (List.replicate 65536 ("", "")) {}
    (by rw [hlength]; decide)
  refine ⟨hencodable, ⟨bytes, hwritten, hread _ (by simp)⟩, ⟨short, hshort, fun h => ?_⟩,
    e, w', hwrite, ?_⟩
  · exact absurd (hinjective _ _ _ hshort h) (by decide)
  · rw [he rfl, hlength]

end ClientMessage

end EdgeClient
