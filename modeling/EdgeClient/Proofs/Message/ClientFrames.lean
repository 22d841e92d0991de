import EdgeClient.Message.Client
import EdgeClient.Proofs.Wire.Adding

/-!
# The frames of client messages

A client message is one frame, and `ClientMessage.body` is the layout of its payload, written down
without the writer. Writing a message onto a writer with nothing open adds exactly that frame, as
long as everything fits into its length field; otherwise it is refused as too large.

Everything that makes up a body is a step that adds fixed bytes or is refused (`Writer.Writes`).
-/

namespace EdgeClient

namespace ClientMessage

/-- The names and values of connection parameters, one after the other. -/
def paramsBody (params : List (String × String)) : Bytes :=
  params.flatMap fun (name, value) => Bytes.textField name ++ Bytes.textField value

/-- The payload of a message. -/
def body : ClientMessage → Bytes
  | .handshake version params =>
    BigEndian.encode 2 version.major.toNat ++ BigEndian.encode 2 version.minor.toNat ++
      BigEndian.encode 2 params.length ++ paramsBody params ++ BigEndian.encode 2 0
  | .saslInitial mechanism data => Bytes.textField mechanism ++ Bytes.textField data
  | .saslResponse data => Bytes.textField data
  | .terminate => []

/-- A message as a frame. -/
def frame (message : ClientMessage) : Frame := ⟨message.tag, message.body⟩

/-- Whether the parameters of a message can be counted in their field. -/
def Countable : ClientMessage → Prop
  | .handshake _ params => params.length < 2 ^ 16
  | _ => True

/-! ## Bodies -/

theorem writes_writeParams (params : List (String × String)) :
    ∃ possible, Writer.Writes (writeParams params) (paramsBody params) possible ∧
      ((paramsBody params).length < 2 ^ 32 → possible) := by
  induction params with
  | nil => exact ⟨True, Writer.writes_nothing, fun _ => trivial⟩
  | cons param rest ih =>
    obtain ⟨name, value⟩ := param
    obtain ⟨possible, hrest, hp⟩ := ih
    have hbody : paramsBody ((name, value) :: rest) =
        Bytes.textField name ++ (Bytes.textField value ++ paramsBody rest) := by
      simp [paramsBody]
    rw [hbody]
    refine ⟨_, (Writer.writes_stringField name).andThen
      ((Writer.writes_stringField value).andThen hrest), fun hlen => ?_⟩
    simp only [List.length_append, Bytes.length_textField] at hlen
    exact ⟨by omega, by omega, hp (by omega)⟩

/-- Writing a body succeeds if the parameters can be counted and the body has less than 2 ^ 32
bytes; it never succeeds if they cannot be counted. -/
theorem writes_writeBody (message : ClientMessage) :
    ∃ possible, Writer.Writes message.writeBody message.body possible ∧
      (possible → message.Countable) ∧
      (message.Countable → message.body.length < 2 ^ 32 → possible) := by
  cases message with
  | handshake version params =>
    obtain ⟨possible, hparams, hp⟩ := writes_writeParams params
    have hlim : BigEndian.limit 2 = 2 ^ 16 := by decide
    have hcount : Writer.Writes (if params.length < BigEndian.limit 2 then do
          Writer.word 2 params.length
          writeParams params
          Writer.word 2 0
        else throw (.tooLarge params.length))
        (BigEndian.encode 2 params.length ++ (paramsBody params ++ BigEndian.encode 2 0))
        (params.length < 2 ^ 16 ∧ possible) := by
      rw [hlim]
      by_cases hc : params.length < 2 ^ 16
      · rw [if_pos hc]
        exact ((Writer.writes_word 2 _).andThen
          (hparams.andThen (Writer.writes_word 2 0))).congr
          ⟨fun h => ⟨hc, h.2.1⟩, fun h => ⟨trivial, h.2, trivial⟩⟩
      · rw [if_neg hc]
        exact fun w => Or.inr ⟨fun h => hc h.1, params.length, w, rfl⟩
    have hbody : body (.handshake version params) = BigEndian.encode 2 version.major.toNat ++
        (BigEndian.encode 2 version.minor.toNat ++ (BigEndian.encode 2 params.length ++
          (paramsBody params ++ BigEndian.encode 2 0))) := by
      simp [body]
    rw [hbody]
    refine ⟨_, (Writer.writes_word 2 _).andThen ((Writer.writes_word 2 _).andThen hcount),
      fun h => h.2.2.1, fun hc hlen => ⟨trivial, trivial, hc, hp ?_⟩⟩
    simp only [List.length_append] at hlen
    omega
  | saslInitial mechanism data =>
    refine ⟨_, (Writer.writes_stringField mechanism).andThen (Writer.writes_stringField data),
      fun _ => trivial, fun _ hlen => ?_⟩
    simp only [body, List.length_append, Bytes.length_textField] at hlen
    exact ⟨by omega, by omega⟩
  | saslResponse data =>
    refine ⟨_, Writer.writes_stringField data, fun _ => trivial, fun _ hlen => ?_⟩
    simp only [body, Bytes.length_textField] at hlen
    omega
  | terminate => exact ⟨True, Writer.writes_nothing, fun _ => trivial, fun _ _ => trivial⟩

/-! ## Whole messages -/

/-- Whether a message can be written as a frame. -/
def Encodable (message : ClientMessage) : Prop := message.Countable ∧ message.frame.Fits

instance : DecidablePred Countable
  | .handshake _ params => inferInstanceAs (Decidable (params.length < 2 ^ 16))
  | .saslInitial .. | .saslResponse _ | .terminate => inferInstanceAs (Decidable True)

instance : DecidablePred Encodable := fun message =>
  inferInstanceAs (Decidable (message.Countable ∧ message.frame.Fits))

/-- Writing a message with nothing open adds its frame, or it is refused as too large. -/
theorem write_cases {w : Writer} (ht : w.openTag = none) (hr : w.reserved = [])
    (message : ClientMessage) :
    (message.Encodable ∧ message.write w = .ok () (w.append message.frame.toBytes)) ∨
      (¬ message.Encodable ∧ ∃ size w', message.write w = .error (.tooLarge size) w') := by
  obtain ⟨possible, hbody, hcount, hpossible⟩ := writes_writeBody message
  by_cases hp : possible
  · by_cases hf : message.frame.Fits
    · exact Or.inl ⟨⟨hcount hp, hf⟩, (hbody.adds hp).message ht hr hf⟩
    · exact Or.inr ⟨fun h => hf h.2, (hbody.adds hp).message_of_not_fits ht hr hf⟩
  · refine Or.inr ⟨fun h => hp (hpossible h.1 ?_), ?_⟩
    · have : lengthFieldSize + message.body.length < 2 ^ 32 := h.2
      omega
    · -- the body is already refused, whatever was begun
      have hbegin : Writer.beginMessage message.tag w =
          .ok () { (w.append [message.tag]).reserve with openTag := some message.tag } := by
        unfold Writer.beginMessage
        rw [ht]
      rcases hbody { (w.append [message.tag]).reserve with openTag := some message.tag } with
        ⟨hp', -⟩ | ⟨-, size, w', hb⟩
      · exact absurd hp' hp
      · exact ⟨size, w', (Writer.bind_of_ok hbegin).trans (Writer.bind_of_error hb)⟩

end ClientMessage

end EdgeClient
