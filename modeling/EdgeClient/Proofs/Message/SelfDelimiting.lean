import EdgeClient.Proofs.Message.ServerLayouts
import EdgeClient.Proofs.Wire.Extension

/-!
# Payloads that say where they end

A message that has to use up its payload is checked to the byte: its fields and counts say where it
ends, so a longer payload has bytes left over and a shorter one runs out of them, wherever it is cut
off. Two kinds of payload do not say it. A version may stand alone or with extensions behind it, and
what follows an unknown status is dropped. An error report says where it ends as well, but there
nobody minds what follows.

All of this comes from one fact about the reads, that bytes behind a window do not change what has
been decided about it (`Read.Stands`).
-/

namespace EdgeClient

theorem ServerError.stands_readAttribute (window : Bytes) : readAttribute.Stands window :=
  (Read.stands_uint16 window).bind fun _ rest _ => (Read.stands_bytesField rest).map _

theorem ServerError.stands_read (window : Bytes) : ServerError.read.Stands window :=
  (Read.stands_uint8 window).bind fun _ w _ => (Read.stands_uint32 w).bind fun _ w _ =>
    (Read.stands_stringField w).bind fun _ w _ => (Read.stands_uint16 w).bind fun _ w _ =>
      (Read.stands_replicate stands_readAttribute _ w).map _

namespace ServerMessage

/-! ## Payloads that have to be used up -/

theorem stands_skipHeader (window : Bytes) : skipHeader.Stands window :=
  (Read.stands_uint16 window).bind fun _ rest _ => (Read.stands_bytesField rest).map _

theorem stands_skipHeaders (window : Bytes) : skipHeaders.Stands window :=
  (Read.stands_uint16 window).bind fun _ rest _ => Read.stands_repeatUnit stands_skipHeader _ rest

theorem stands_readExtension (window : Bytes) : readExtension.Stands window :=
  (Read.stands_stringField window).bind fun _ rest _ => (stands_skipHeaders rest).map _

/-- The list of extensions may be missing, but where it has begun it has to go on to its end. -/
theorem stands_readExtensions {window : Bytes} (h : window ≠ []) : readExtensions.Stands window := by
  have hlist : Read.Stands (do
      let count ← Read.uint16
      Read.replicate count.toNat readExtension) window :=
    (Read.stands_uint16 window).bind fun _ rest _ =>
      Read.stands_replicate stands_readExtension _ rest
  obtain ⟨b, window, rfl⟩ := List.exists_cons_of_ne_nil h
  exact ⟨fun hok => hlist.ok hok, fun herror => hlist.error herror⟩

theorem length_of_uint16 {window rest : Bytes} {n : UInt16}
    (h : Read.uint16 window = .ok n rest) : window.length = 2 + rest.length := by
  obtain ⟨_, rfl, rfl⟩ := (Read.reads_uint16 _ _ _).mp h
  rw [List.length_append, BigEndian.length_encode]

theorem stands_readHandshake {window : Bytes} (h : window.length ≠ 4) :
    readHandshake.Stands window := by
  refine (Read.stands_uint16 window).bind fun major mid hmajor => ?_
  refine (Read.stands_uint16 mid).bind fun minor rest hminor => ?_
  have hwindow := length_of_uint16 hmajor
  have hmid := length_of_uint16 hminor
  have hrest : rest ≠ [] := by
    rintro rfl
    simp only [List.length_nil] at hmid
    omega
  exact (stands_readExtensions hrest).map _

theorem stands_readReadyForCommand (window : Bytes) : readReadyForCommand.Stands window :=
  (stands_skipHeaders window).bind fun _ rest _ => (Read.stands_uint8 rest).map _

theorem stands_readAuthentication {window : Bytes}
    (h : ∀ status rest, Read.uint32 window = .ok status rest → status ∈ [0, 0xa, 0xb, 0xc]) :
    readAuthentication.Stands window := by
  refine (Read.stands_uint32 window).bind fun status rest hstatus => ?_
  have hknown := h status rest hstatus
  simp only [List.mem_cons, List.not_mem_nil, or_false] at hknown
  rcases hknown with rfl | rfl | rfl | rfl
  · exact Read.stands_pure _ rest
  · exact (Read.stands_uint32 rest).bind fun _ w _ =>
      (Read.stands_replicate Read.stands_bytesField _ w).map _
  · exact (Read.stands_stringField rest).map _
  · exact (Read.stands_stringField rest).map _

/-- The status of a request stands at the front of its payload. -/
theorem HasLayout.uint32_status {request : Authentication} {payload : Bytes}
    (h : HasLayout (.authentication request) payload) :
    ∃ rest, Read.uint32 payload = .ok request.status rest := by
  have hread : ∀ (status : UInt32) (rest : Bytes),
      Read.uint32 (BigEndian.encode 4 status.toNat ++ rest) = .ok status rest :=
    fun status rest => (Read.reads_uint32 _ _ _).mpr ⟨_, rfl, rfl⟩
  cases h with
  | ok => exact ⟨[], hread 0 []⟩
  | sasl _ => exact ⟨_, hread 0xa _⟩
  | saslContinue _ => exact ⟨_, hread 0xb _⟩
  | saslFinal _ => exact ⟨_, hread 0xc _⟩
  | otherStatus _ dropped => exact ⟨_, hread _ dropped⟩

/-! ## What a read of a payload comes to -/

section

variable {tag : UInt8} {payload rest : Bytes} {r : Read ServerMessage} {m : ServerMessage}
  (ht : exactPayload? tag = some r)

include ht

theorem read_of_decode (h : decode ⟨tag, payload⟩ = .ok m) : r payload = .ok m [] := by
  unfold decode Frame.read at h
  rw [ht] at h
  cases hread : r payload with
  | error e left => simp [hread] at h
  | ok m' left =>
    cases left with
    | nil =>
      simp only [hread, Frame.finish, bind, Except.bind, pure, Except.pure, Except.ok.injEq] at h
      rw [h]
    | cons b left => simp [hread, Frame.finish, bind, Except.bind] at h

theorem decode_of_read_error {e : WireError} (h : r payload = .error e rest) :
    decode ⟨tag, payload⟩ = .error e := by
  unfold decode Frame.read
  rw [ht]
  simp only [h]

theorem decode_of_unread (h : r payload = .ok m rest) (hrest : rest ≠ []) :
    decode ⟨tag, payload⟩ = .error (.unreadData tag rest.length) := by
  obtain ⟨b, rest, rfl⟩ := List.exists_cons_of_ne_nil hrest
  unfold decode Frame.read
  rw [ht]
  simp only [h, Frame.finish, bind, Except.bind]

end

/-- Whether a message is one whose payload says where it ends. A proposed version does so only when
extensions follow its four bytes. -/
def IsSelfDelimiting : ServerMessage → Bytes → Prop
  | .handshake .., payload => 4 < payload.length
  | .keyData _, _ | .readyForCommand _, _ => True
  | .authentication request, _ => request.status ∈ [0, 0xa, 0xb, 0xc]
  | .error _, _ | .unknown _, _ => False

/-- Such a message has to use up its payload, and on no part of the payload that its read is tried
on do bytes behind it matter, unless it is a version that stands alone. -/
theorem stands_of_prefix {f : Frame} {m : ServerMessage} (h : decode f = .ok m)
    (hm : m.IsSelfDelimiting f.payload) :
    ∃ r, exactPayload? f.tag = some r ∧ ∀ front, front <+: f.payload →
      ¬ (f.tag = handshakeTag ∧ front.length = 4) → r.Stands front := by
  obtain ⟨tag, payload⟩ := f
  obtain ⟨rfl, hlayout⟩ := hasLayout_of_decode h
  cases m with
  | handshake version names =>
    exact ⟨readHandshake, rfl, fun front _ hv => stands_readHandshake fun h4 => hv ⟨rfl, h4⟩⟩
  | keyData key => exact ⟨readKeyData, rfl, fun front _ _ => (Read.stands_slice _ front).map _⟩
  | readyForCommand state =>
    exact ⟨readReadyForCommand, rfl, fun front _ _ => stands_readReadyForCommand front⟩
  | authentication request =>
    refine ⟨readAuthentication, rfl, fun front hfront _ => ?_⟩
    refine stands_readAuthentication fun status rest hstatus => ?_
    -- the status is in the front as soon as it can be read there
    obtain ⟨back, rfl⟩ := hfront
    obtain ⟨mid, hmid⟩ := hlayout.uint32_status
    have hwhole := (Read.stands_uint32 front).ok hstatus back
    rw [(EStateM.Result.ok.inj (hwhole.symm.trans hmid)).1]
    exact hm
  | error e => exact absurd hm id
  | unknown tag => exact absurd hm id

/-- A version that is followed by extensions is also accepted without them. -/
theorem decode_version {payload front : Bytes} {version : ProtocolVersion} {names : List String}
    (h : decode ⟨handshakeTag, payload⟩ = .ok (.handshake version names))
    (hfront : front <+: payload) (h4 : front.length = 4) :
    decode ⟨handshakeTag, front⟩ = .ok (.handshake version []) := by
  have hlayout : HasLayout (.handshake version names) payload := (hasLayout_of_decode h).2
  have hversion : ∀ major minor : UInt16, ∀ tail : Bytes,
      payload = BigEndian.encode 2 major.toNat ++ BigEndian.encode 2 minor.toNat ++ tail →
      decode ⟨handshakeTag, front⟩ = .ok (.handshake ⟨major, minor⟩ []) := by
    intro major minor tail hpayload
    rw [hpayload] at hfront
    have hlen : (BigEndian.encode 2 major.toNat ++ BigEndian.encode 2 minor.toNat).length = 4 := by
      rw [List.length_append, BigEndian.length_encode, BigEndian.length_encode]
    have heq : front = BigEndian.encode 2 major.toNat ++ BigEndian.encode 2 minor.toNat := by
      have := List.prefix_iff_eq_take.mp hfront
      rwa [h4, ← hlen, List.take_left] at this
    rw [heq]
    exact decode_of_hasLayout (.version major minor)
  cases hlayout with
  | version major minor => exact hversion major minor [] (List.append_nil _).symm
  | extensions major minor hnames => exact hversion major minor _ rfl

theorem IsSelfDelimiting.exists_names {m : ServerMessage} {payload : Bytes}
    (hm : m.IsSelfDelimiting payload) (ht : m.tag = handshakeTag) :
    4 < payload.length ∧ ∃ version names, m = .handshake version names := by
  cases m with
  | handshake version names => exact ⟨hm, version, names, rfl⟩
  | keyData key | readyForCommand state | authentication request | error e =>
    exact absurd ht (by rw [tag]; decide)
  | unknown tag => exact absurd hm id

/-! ## The payload is checked to the byte -/

/-- A payload that says where it ends is refused with any bytes behind it, which are counted, and is
too short wherever it is cut off; only a version that has lost all its extensions is accepted. An
error report is read the same whatever follows it, and is too short wherever it is cut off. -/
theorem payload_isSelfDelimiting :
    (∀ (f : Frame) (m : ServerMessage), decode f = .ok m → m.IsSelfDelimiting f.payload →
      (∀ more, more ≠ [] →
        decode ⟨f.tag, f.payload ++ more⟩ = .error (.unreadData f.tag more.length)) ∧
      (∀ front, front <+: f.payload → front ≠ f.payload →
        (¬ (f.tag = handshakeTag ∧ front.length = 4) →
          ∃ needed remaining, decode ⟨f.tag, front⟩ = .error (.underrun needed remaining)) ∧
        (f.tag = handshakeTag ∧ front.length = 4 → ∃ version names,
          m = .handshake version names ∧ decode ⟨f.tag, front⟩ = .ok (.handshake version [])))) ∧
    (∀ payload e rest, ServerError.read payload = .ok e rest →
      ∃ consumed, payload = consumed ++ rest ∧
        (∀ more, ServerError.read (payload ++ more) = .ok e (rest ++ more)) ∧
        (∀ front, front <+: consumed → front ≠ consumed → ∃ needed remaining left,
          ServerError.read front = .error (.underrun needed remaining) left)) := by
  constructor
  · intro f m h hm
    obtain ⟨r, hr, hstands⟩ := stands_of_prefix h hm
    obtain ⟨hmtag, -⟩ := hasLayout_of_decode h
    have hread : r f.payload = .ok m [] := read_of_decode hr h
    refine ⟨fun more hmore => ?_, fun front hfront hne => ⟨fun hv => ?_, ?_⟩⟩
    · have hwhole : ¬ (f.tag = handshakeTag ∧ f.payload.length = 4) := by
        rintro ⟨htag, h4⟩
        have hlong := (hm.exists_names (hmtag.trans htag)).1
        omega
      exact decode_of_unread hr ((hstands _ (List.prefix_refl _) hwhole).ok hread more) hmore
    · obtain ⟨needed, remaining, left, hshort⟩ :=
        (hstands front hfront hv).underrun_of_cutOff hread hfront hne
      exact ⟨needed, remaining, decode_of_read_error hr hshort⟩
    · rintro ⟨htag, h4⟩
      obtain ⟨-, version, names, rfl⟩ := hm.exists_names (hmtag.trans htag)
      obtain ⟨_, payload⟩ := f
      obtain rfl := htag
      exact ⟨version, names, rfl, decode_version h hfront h4⟩
  · intro payload e rest h
    obtain ⟨consumed, hform, rfl⟩ := (ServerError.reads_read _ _ _).mp h
    have hread : ServerError.read consumed = .ok e [] :=
      (ServerError.reads_read _ _ _).mpr ⟨consumed, hform, (List.append_nil _).symm⟩
    exact ⟨consumed, rfl, (ServerError.stands_read _).ok h, fun front hfront hne =>
      (ServerError.stands_read front).underrun_of_cutOff hread hfront hne⟩

/-- A version with one extension, which has one header. -/
def oneExtension : Frame :=
  ⟨handshakeTag, [0, 0, 0, 8, 0, 1, 0, 0, 0, 2, 0x78, 0x79, 0, 1, 0, 5, 0, 0, 0, 1, 9]⟩

/-- An error report without attributes, and a byte behind it. -/
def trailedReport : Bytes := [200, 0, 0, 0, 1, 0, 0, 0, 1, 0x6e, 0, 0, 0xde]

theorem payload_isSelfDelimiting_oneExtension :
    let m : ServerMessage := .handshake ⟨0, 8⟩ ["xy"]
    let e : ServerError := ⟨.fatal, 1, "n", []⟩
    decode oneExtension = .ok m ∧ m.IsSelfDelimiting oneExtension.payload ∧
      decode ⟨handshakeTag, oneExtension.payload ++ [7, 7]⟩ =
        .error (.unreadData handshakeTag 2) ∧
      decode ⟨handshakeTag, oneExtension.payload.take 4⟩ = .ok (.handshake ⟨0, 8⟩ []) ∧
      (∃ needed remaining, decode ⟨handshakeTag, oneExtension.payload.take 18⟩ =
        .error (.underrun needed remaining)) ∧
      ServerError.read trailedReport = .ok e [0xde] ∧
      ServerError.read (trailedReport ++ [0xad]) = .ok e [0xde, 0xad] := by
  intro m e
  have hm : decode oneExtension = .ok m := by decide +kernel
  have hlong : m.IsSelfDelimiting oneExtension.payload := by
    show 4 < oneExtension.payload.length
    decide
  have he : ServerError.read trailedReport = .ok e [0xde] := by rfl
  obtain ⟨hmessages, hreports⟩ := payload_isSelfDelimiting
  obtain ⟨hmore, hless⟩ := hmessages oneExtension m hm hlong
  obtain ⟨version, names, hv, hversion⟩ := (hless (oneExtension.payload.take 4)
    (List.take_prefix _ _) (by decide)).2 (by decide)
  obtain ⟨rfl, rfl⟩ := handshake.inj hv
  obtain ⟨consumed, -, hafter, -⟩ := hreports trailedReport e [0xde] he
  exact ⟨hm, hlong, hmore [7, 7] (by decide), hversion, (hless (oneExtension.payload.take 18)
    (List.take_prefix _ _) (by decide)).1 (by decide), he, hafter [0xad]⟩

end ServerMessage

end EdgeClient
