import StreamWire.Proofs.Frame.Demands
import StreamWire.Proofs.Text.Reading
/-!
# Error messages — texts across the wire

The data of an error frame is its message in UTF-8. The bytes of the data
come back as they were sent (`Frame.decode_of_encode`), so what happens to
a message is what happens to its bytes: a text comes back as it was, and
bytes that were sent for one can be had back from the message exactly if
they are well-formed.
-/

namespace StreamWire

namespace Frame

variable {f : Frame} {streamId code : Number} {data bytes : Bytes}

/-- An error is sent on any stream, and with any code of four bytes. -/
theorem exists_encode_error {flags : Number} {id n : Nat} (hid : streamId.key = .ofNat id)
    (hidle : id ≤ 0x7FFFFFFF) (hcode : code.key = .ofNat n) (hcodele : n ≤ 0xFFFFFFFF) :
    ∃ bytes, (Frame.mk streamId flags (.error code data)).encode = .ok bytes := by
  refine exists_encode fun demand => ?_
  cases demand with
  | knownType => rfl
  | scope =>
    rintro kind ⟨⟩
    rfl
  | streamId => exact ⟨id, hidle, hid⟩
  | field =>
    rintro field ⟨⟩
    exact ⟨n, hcodele, hcode⟩
  | metadataLength => nofun

/-- **The message of an error is read off the bytes that were sent.** -/
theorem errorMessage?_of_encode (hbody : f.body = .error code data)
    (hencode : f.encode = .ok bytes) :
    ∃ g, decode bytes = .ok g ∧ g.errorMessage? = some (Utf8.decode data) := by
  refine ⟨f.normal, decode_of_encode hencode, ?_⟩
  rw [errorMessage?, normal, hbody]
  rfl

/-- **Error messages survive the wire.** Every text can be sent as an
error, on any stream and with any code, and comes back as it was, marks at
its front, replacement characters and all. And of whatever bytes an error
was made with, the message spells the same bytes exactly if they are
well-formed. -/
theorem errorMessage_survives :
    (∀ (streamId code : Number) (text : String),
      (∃ id ≤ 0x7FFFFFFF, streamId.key = .ofNat id) → (∃ n ≤ 0xFFFFFFFF, code.key = .ofNat n) →
      ∃ bytes f, (ofError streamId code text).encode = .ok bytes ∧ decode bytes = .ok f ∧
        f.errorMessage? = some text) ∧
    ∀ (f : Frame) (code : Number) (data bytes : Bytes), f.body = .error code data →
      f.encode = .ok bytes →
      ∃ g message, decode bytes = .ok g ∧ g.errorMessage? = some message ∧
        (Utf8.encode message = data ↔ Utf8.WellFormed data) := by
  constructor
  · rintro streamId code text ⟨id, hidle, hid⟩ ⟨n, hcodele, hcode⟩
    obtain ⟨bytes, hencode⟩ : ∃ bytes, (ofError streamId code text).encode = .ok bytes :=
      exists_encode_error hid hidle hcode hcodele
    obtain ⟨f, hdecode, hmessage⟩ := errorMessage?_of_encode rfl hencode
    rw [Utf8.decode_encode] at hmessage
    exact ⟨bytes, f, hencode, hdecode, hmessage⟩
  · intro f code data bytes hbody hencode
    obtain ⟨g, hdecode, hmessage⟩ := errorMessage?_of_encode hbody hencode
    exact ⟨g, _, hdecode, hmessage, Utf8.encode_decode_iff⟩

/-- A byte order mark and a character of four bytes come back. Half a
surrogate pair does not: no text spells it, so the message spells other
bytes. -/
theorem errorMessage_survives_surrogate :
    (∃ bytes f, (ofError (.ofNat 5) (.ofNat 0x201) "\uFEFF😀").encode = .ok bytes ∧
      decode bytes = .ok f ∧ f.errorMessage? = some "\uFEFF😀") ∧
    (Frame.mk (.ofNat 0) (.ofNat 0) (.error (.ofNat 1) [0xED, 0xA0, 0xBD])).encode =
      .ok [0, 0, 0, 0, 44, 0, 0, 0, 0, 1, 0xED, 0xA0, 0xBD] ∧
    ∃ g message, decode [0, 0, 0, 0, 44, 0, 0, 0, 0, 1, 0xED, 0xA0, 0xBD] = .ok g ∧
      g.errorMessage? = some message ∧ Utf8.encode message ≠ [0xED, 0xA0, 0xBD] := by
  obtain ⟨htext, hdata⟩ := errorMessage_survives
  have hencode : (Frame.mk (.ofNat 0) (.ofNat 0) (.error (.ofNat 1) [0xED, 0xA0, 0xBD])).encode =
      .ok [0, 0, 0, 0, 44, 0, 0, 0, 0, 1, 0xED, 0xA0, 0xBD] := by rfl
  refine ⟨htext _ _ _ ⟨5, by decide, rfl⟩ ⟨0x201, by decide, rfl⟩, hencode, ?_⟩
  obtain ⟨g, message, hdecode, hmessage, hiff⟩ := hdata _ _ _ _ rfl hencode
  refine ⟨g, message, hdecode, hmessage, ?_⟩
  rw [Ne, hiff, ← Utf8.encode_decode_iff]
  decide +kernel

end Frame

end StreamWire
