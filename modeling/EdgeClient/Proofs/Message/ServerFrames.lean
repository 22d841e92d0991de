import EdgeClient.Proofs.Message.ServerLayouts

/-!
# Authentication requests as frames

A request that was decoded came from its payload, so it is no longer than that, and its status on
the wire tells it from the other kinds. The other way round, a request that fits into a frame is
decoded from it.
-/

namespace EdgeClient

/-- Fields that stand one after the other are each as long as all of them together, and none is
empty. -/
theorem Bytes.length_fields (fields : List Bytes) :
    4 * fields.length ≤ (fields.flatMap field).length ∧
      ∀ bs ∈ fields, bs.length ≤ (fields.flatMap field).length := by
  induction fields with
  | nil => simp
  | cons bs fields ih =>
    rw [List.flatMap_cons, List.length_append, length_field, List.length_cons]
    refine ⟨by simp only [lengthFieldSize]; omega, fun cs hc => ?_⟩
    rcases List.mem_cons.mp hc with rfl | hc
    · omega
    · have := ih.2 cs hc
      omega

/-- A request as a frame. -/
def Authentication.frame (request : Authentication) : Frame :=
  ⟨ServerMessage.authenticationTag, request.payload⟩

namespace ServerMessage

theorem decode_authentication {f : Frame} {request : Authentication}
    (h : decode f = .ok (.authentication request)) :
    (∀ data, request = .saslContinue data → (Bytes.ofString data).length ≤ f.payload.length) ∧
      request.IsProper := by
  obtain ⟨tag, payload⟩ := f
  have hlayout : HasLayout (.authentication request) payload := (hasLayout_of_decode h).2
  clear h
  cases hlayout with
  | ok | sasl | saslFinal => exact ⟨by simp, trivial⟩
  | saslContinue hdata =>
    refine ⟨fun data hd => ?_, trivial⟩
    obtain rfl := Authentication.saslContinue.inj hd
    rw [hdata.2, List.length_append, Bytes.length_field]
    omega
  | otherStatus hproper dropped => exact ⟨by simp, hproper⟩

theorem hasLayout_payload {request : Authentication} (hfits : request.payload.length < 2 ^ 32)
    (hproper : request.IsProper) : HasLayout (.authentication request) request.payload := by
  cases request with
  | ok => exact .ok
  | sasl methods =>
    simp only [Authentication.payload, List.length_append, BigEndian.length_encode] at hfits
    obtain ⟨hcount, hsize⟩ := Bytes.length_fields methods
    have hlimit : BigEndian.limit 4 = 2 ^ 32 := by decide
    refine .sasl (Layout.counted_flatMap (by omega) fun bs hb => ⟨?_, rfl⟩)
    have := hsize bs hb
    omega
  | saslContinue data =>
    simp only [Authentication.payload, List.length_append, Bytes.length_textField] at hfits
    exact .saslContinue ⟨by omega, rfl⟩
  | saslFinal data =>
    simp only [Authentication.payload, List.length_append, Bytes.length_textField] at hfits
    exact .saslFinal ⟨by omega, rfl⟩
  | other status =>
    have := HasLayout.otherStatus hproper []
    rwa [List.append_nil] at this

/-- A request that fits into a frame is decoded from it. -/
theorem decode_frame {request : Authentication} (hfits : request.payload.length < 2 ^ 32)
    (hproper : request.IsProper) :
    decode request.frame = .ok (.authentication request) :=
  decode_of_hasLayout (hasLayout_payload hfits hproper)

end ServerMessage

end EdgeClient
