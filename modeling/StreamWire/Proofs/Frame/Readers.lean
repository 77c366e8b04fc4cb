import StreamWire.Proofs.Frame.RoundTrip
/-!
# Readers — one field at a time

The readers in `Encoded` answer for one field of an encoded frame without
putting the frame together. They go by the table of kinds, and decoding
goes by the kind itself, so that they agree is a statement about both:
`Body.data?_eq` and `Frame.requestN?_of_decodeBody` compare the two.
Readers and decoding start from one `Layout`, and where there is none they
are refused for the same reason. `Frame.readers_agree` says so of every
byte string.
-/

namespace StreamWire

/-! ## The fields a body has -/

namespace Body

/-- The data of a body that has a data field. A body that is not
interpreted has none. -/
def data? : Body → Option Bytes
  | .message _ payload => some payload.data
  | .error _ data => some data
  | .keepAlive _ data => some data
  | _ => none

/-- The request count of a body that has one. -/
def requestN? : Body → Option Number
  | .message (.requestStream initialN) _ => some initialN
  | .message (.requestChannel initialN) _ => some initialN
  | .requestN count => some count
  | _ => none

/-- **The table knows which bodies have a data field.** -/
theorem data?_eq {body : Body} {kind : FrameKind} (h : body.kind = .ok kind) :
    body.data? = if kind.traits.canHaveData then some body.data else none := by
  rcases body with ⟨head, _⟩ | _ | _ | _ | _ | _ | ⟨raw, _⟩ | _ <;> cases h
  · rcases head with _ | _ | _ | _ | _ <;> rfl
  · rfl
  · rfl
  · rfl
  · rfl
  · rfl
  · rcases raw with _ | _ | _ | _ | _ <;> rfl

end Body

/-! ## From the layout to the frame -/

namespace Encoded

/-- A position is refused exactly if it has more than fifty-three bits. -/
theorem positionField_eq_error_iff {frame : Bytes} {fault : Fault} :
    positionField frame = .error fault ↔
      Wire.maxPosition < BigEndian.decode (slice frame Wire.headerSize Wire.positionSize) ∧
        fault = .positionTooLarge := by
  unfold positionField
  dsimp only
  split
  · rename_i hlarge
    simp [hlarge, eq_comm]
  · rename_i hsmall
    simp [hsmall]

end Encoded

namespace Frame

variable {frame data : Bytes} {metadata : Option Bytes} {kind : FrameKind} {f : Frame}
  {body : Body} {l : Layout} {fault : Fault}

/-- **The table knows which bodies are read with a request count**, and it
is the four bytes behind the header. -/
theorem requestN?_of_decodeBody (h : decodeBody kind frame metadata data = .ok body) :
    body.requestN? =
      if kind.traits.hasRequestN then some (.ofNat (Encoded.wordField frame)) else none := by
  cases kind with
  | keepAlive =>
    rcases hposition : Encoded.positionField frame with fault | position <;>
      simp only [decodeBody, hposition] at h <;> cases h
    rfl
  | metadataPush =>
    rcases metadata with _ | block <;> cases h
    rfl
  | _ => cases h; rfl

/-- **Where there is a layout, only two kinds can be refused**: a sign of
life for its position, and a metadata push without metadata. -/
theorem decodeBody_eq_error_iff :
    decodeBody kind frame metadata data = .error fault ↔
      (kind = .keepAlive ∧ Encoded.positionField frame = .error fault) ∨
      (kind = .metadataPush ∧ metadata = none ∧ fault = .metadataNotSent) := by
  cases kind with
  | keepAlive =>
    rcases hposition : Encoded.positionField frame with _ | position <;>
      simp [decodeBody, hposition]
  | metadataPush => rcases metadata with _ | block <;> simp [decodeBody, eq_comm]
  | _ => simp [decodeBody]

theorem decode_of_layout (h : Layout.of frame = .ok l) :
    decode frame =
      (decodeBody l.header.kind frame (l.metadata.map (·.of frame)) (l.data.of frame)).map
        fun body => ⟨.ofNat l.header.streamId, .ofFlags l.header.flags, body⟩ := by
  rw [decode, h]
  simp only [bind, Except.bind]
  rcases decodeBody l.header.kind frame _ _ with _ | _ <;> rfl

/-- Bytes with a layout are decoded, but for a position that is too large
and a metadata push without metadata. -/
theorem decode_eq_error_iff_of_layout (h : Layout.of frame = .ok l) :
    decode frame = .error fault ↔
      (l.header.kind = .keepAlive ∧
        Wire.maxPosition < BigEndian.decode (slice frame Wire.headerSize Wire.positionSize) ∧
        fault = .positionTooLarge) ∨
      (l.header.kind = .metadataPush ∧ l.header.hasMetadata = false ∧
        fault = .metadataNotSent) := by
  have htiles := Layout.tiles_of h
  rw [decode_of_layout h, map_eq_error_iff, decodeBody_eq_error_iff,
    Encoded.positionField_eq_error_iff, Option.map_eq_none_iff]
  -- On a metadata push the bit tells whether there is a metadata block.
  have hbit (hkind : l.header.kind = .metadataPush) :
      l.metadata = none ↔ l.header.hasMetadata = false := by
    have hraw : l.traits.raw = false := by rw [Layout.traits, hkind]; rfl
    rw [htiles.hasMetadata_eq hraw, Option.isSome_eq_false_iff, Option.isNone_iff_eq_none]
  constructor
  · rintro (hposition | ⟨hkind, hnone, hfault⟩)
    · exact .inl hposition
    · exact .inr ⟨hkind, (hbit hkind).1 hnone, hfault⟩
  · rintro (hposition | ⟨hkind, hclear, hfault⟩)
    · exact .inl hposition
    · exact .inr ⟨hkind, (hbit hkind).2 hclear, hfault⟩

theorem decode_of_layout_error (h : Layout.of frame = .error fault) :
    decode frame = .error fault := by
  rw [decode, h]
  rfl

/-- What a decoded frame was read from: its header, and a body made of the
stretches of its layout. -/
structure ReadFrom (f : Frame) (frame : Bytes) (l : Layout) : Prop where
  layout_eq : Layout.of frame = .ok l
  streamId_eq : f.streamId = .ofNat l.header.streamId
  flags_eq : f.flags = .ofFlags l.header.flags
  madeOf : MadeOf f.body l.header.kind (slice frame Wire.headerSize l.traits.fixedSize)
    (l.metadata.map (·.of frame)) (l.data.of frame)
  requestN?_eq : f.body.requestN? =
    if l.traits.hasRequestN then some (.ofNat (Encoded.wordField frame)) else none

/-- **A frame that is decoded is read from a layout.** -/
theorem exists_readFrom (h : decode frame = .ok f) : ∃ l, f.ReadFrom frame l := by
  rcases hlayout : Layout.of frame with fault | l
  · rw [decode_of_layout_error hlayout] at h
    cases h
  rw [decode_of_layout hlayout] at h
  obtain ⟨body, hbody, rfl⟩ := map_eq_ok_iff.1 h
  have hsound := (Layout.tiles_of hlayout).isSound_parts
  have hmade := madeOf_of_decodeBody hbody rfl hsound.length_fields hsound.metadata_eq_none
    hsound.data_eq_nil
  exact ⟨l, hlayout, rfl, rfl, hmade, requestN?_of_decodeBody hbody⟩

theorem ReadFrom.header_eq (h : f.ReadFrom frame l) : Header.decode frame = .ok l.header :=
  (Layout.tiles_of h.layout_eq).header_eq

theorem ReadFrom.kind_eq (h : f.ReadFrom frame l) : f.kind = .ok l.header.kind := h.madeOf.kind_eq

/-- A position that is read is the number behind the header, exactly. -/
theorem ReadFrom.position_eq (h : f.ReadFrom frame l) {position : Number}
    (hbody : f.body = .keepAlive position data) :
    position = .ofNat (BigEndian.decode (slice frame Wire.headerSize Wire.positionSize)) ∧
      BigEndian.decode (slice frame Wire.headerSize Wire.positionSize) ≤ Wire.maxPosition := by
  have hkind := h.madeOf.kind_eq
  have hfields := h.madeOf.fixedFields_eq
  have hnormal := h.madeOf.normal_eq
  rw [hbody] at hkind hfields hnormal
  injection hkind with hkind
  have htraits : l.traits.fixedSize = Wire.positionSize := by rw [Layout.traits, ← hkind]; rfl
  rw [htraits] at hfields
  rw [fixedFields_keepAlive] at hfields
  obtain ⟨hkey, hle⟩ := key_of_numberField hfields (by decide)
  injection hnormal with hsame
  exact ⟨hsame.symm.trans hkey, hle⟩

end Frame

/-! ## Field by field -/

namespace Encoded

variable {frame : Bytes} {f : Frame} {l : Layout}

theorem streamId_of_readFrom (h : f.ReadFrom frame l) :
    (streamId frame).map Number.ofNat = .ok f.streamId := by
  rw [streamId, h.header_eq, h.streamId_eq]
  rfl

theorem kind_of_readFrom (h : f.ReadFrom frame l) : kind frame = .ok l.header.kind := by
  rw [kind, h.header_eq]
  rfl

theorem flags_of_readFrom (h : f.ReadFrom frame l) :
    (flags frame).map Number.ofFlags = .ok f.flags := by
  rw [flags, h.header_eq, h.flags_eq]
  rfl

/-- Metadata is read where the frame has some. -/
theorem metadata_of_readFrom (h : f.ReadFrom frame l) :
    metadata frame =
      match f.metadata with
      | some block => .ok block
      | none => .error (.noMetadata l.header.kind) := by
  rw [Frame.metadata, h.madeOf.metadata_eq, metadata, h.layout_eq]
  simp only [bind, Except.bind]
  rcases l.metadata with _ | block <;> rfl

/-- Data is read where the body has a data field. -/
theorem data_of_readFrom (h : f.ReadFrom frame l) :
    data frame =
      match f.body.data? with
      | some data => .ok data
      | none => .error (.noData l.header.kind) := by
  have hfield : f.body.data? = if l.traits.canHaveData then some (l.data.of frame) else none := by
    rw [← h.madeOf.data_eq]
    exact Body.data?_eq h.madeOf.kind_eq
  rw [hfield, data, h.layout_eq]
  simp only [bind, Except.bind]
  by_cases hcarries : l.traits.canHaveData = true
  · rw [if_pos hcarries, if_pos hcarries]
    rfl
  · rw [if_neg hcarries, if_neg hcarries]
    rfl

/-- A request count is read where the body has one. -/
theorem requestN_of_readFrom (h : f.ReadFrom frame l) :
    (requestN frame).map Number.ofNat =
      match f.body.requestN? with
      | some count => .ok count
      | none => .error (.noRequestN l.header.kind) := by
  rw [h.requestN?_eq, requestN, h.layout_eq]
  simp only [bind, Except.bind]
  by_cases hcounts : l.traits.hasRequestN = true
  · rw [if_pos hcounts, if_pos hcounts]
    rfl
  · rw [if_neg hcounts, if_neg hcounts]
    rfl

/-- What follows the fixed fields and the metadata is as long as its
stretch. -/
theorem dataSize_of_readFrom (h : f.ReadFrom frame l) : dataSize frame = .ok f.data.length := by
  have hend := (Layout.tiles_of h.layout_eq).data_end
  have hlength : (l.data.of frame).length = l.data.length := length_slice (by omega)
  rw [Frame.data, h.madeOf.data_eq, hlength, dataSize, h.layout_eq]
  rfl

/-- Where there is no layout every reader of the body is refused for the
reason there is none. -/
theorem readers_of_layout_error {fault : Fault} (h : Layout.of frame = .error fault) :
    metadata frame = .error fault ∧ data frame = .error fault ∧ requestN frame = .error fault ∧
      dataSize frame = .error fault := by
  rw [metadata, data, requestN, dataSize, h]
  exact ⟨rfl, rfl, rfl, rfl⟩

end Encoded

namespace Frame

/-! ## Readers and frames -/

/-- **The readers agree with decoding.** Of bytes that decode they read
the stream id, the kind, the flags and the size of what follows the fixed
fields and metadata; metadata where the frame has some, data and a request
count where its body has the field, and are refused with the name of the
kind where not. Bytes without a layout are refused by all of them, and by
decoding, for one reason. And bytes with a layout are decoded, but for a
position that is too large and a metadata push without metadata. -/
theorem readers_agree (frame : Bytes) :
    (∀ f, decode frame = .ok f → ∃ kind, f.kind = .ok kind ∧
      (Encoded.streamId frame).map Number.ofNat = .ok f.streamId ∧
      Encoded.kind frame = .ok kind ∧
      (Encoded.flags frame).map Number.ofFlags = .ok f.flags ∧
      (Encoded.metadata frame =
        match f.metadata with
        | some block => .ok block
        | none => .error (.noMetadata kind)) ∧
      (Encoded.data frame =
        match f.body.data? with
        | some data => .ok data
        | none => .error (.noData kind)) ∧
      ((Encoded.requestN frame).map Number.ofNat =
        match f.body.requestN? with
        | some count => .ok count
        | none => .error (.noRequestN kind)) ∧
      Encoded.dataSize frame = .ok f.data.length) ∧
    (∀ fault, Layout.of frame = .error fault →
      decode frame = .error fault ∧ Encoded.metadata frame = .error fault ∧
        Encoded.data frame = .error fault ∧ Encoded.requestN frame = .error fault ∧
        Encoded.dataSize frame = .error fault) ∧
    ∀ l fault, Layout.of frame = .ok l →
      (decode frame = .error fault ↔
        (l.header.kind = .keepAlive ∧
          Wire.maxPosition < BigEndian.decode (slice frame Wire.headerSize Wire.positionSize) ∧
          fault = .positionTooLarge) ∨
        (l.header.kind = .metadataPush ∧ l.header.hasMetadata = false ∧
          fault = .metadataNotSent)) := by
  refine ⟨?_, ?_, ?_⟩
  · intro f h
    obtain ⟨l, hread⟩ := exists_readFrom h
    exact ⟨l.header.kind, hread.kind_eq, Encoded.streamId_of_readFrom hread,
      Encoded.kind_of_readFrom hread, Encoded.flags_of_readFrom hread,
      Encoded.metadata_of_readFrom hread, Encoded.data_of_readFrom hread,
      Encoded.requestN_of_readFrom hread, Encoded.dataSize_of_readFrom hread⟩
  · intro fault h
    exact ⟨decode_of_layout_error h, Encoded.readers_of_layout_error h⟩
  · intro l fault h
    exact decode_eq_error_iff_of_layout h

/-- An extension frame has its metadata bit set and neither metadata nor
data; three bytes are refused by everyone; and a metadata push is found,
but not decoded, when its bit is clear. -/
theorem readers_agree_ext :
    (decode [0, 0, 0, 1, 0xFD, 0, 7] = .ok ⟨.ofNat 1, .ofFlags 0x100, .raw .ext [7]⟩ ∧
      Encoded.metadata [0, 0, 0, 1, 0xFD, 0, 7] = .error (.noMetadata .ext) ∧
      Encoded.data [0, 0, 0, 1, 0xFD, 0, 7] = .error (.noData .ext) ∧
      Encoded.dataSize [0, 0, 0, 1, 0xFD, 0, 7] = .ok 1) ∧
    (Layout.of [0, 0, 0] = .error (.headerCut 3) ∧
      Encoded.dataSize [0, 0, 0] = .error (.headerCut 3)) ∧
    (Layout.of [0, 0, 0, 0, 0x30, 0] = .ok ⟨⟨0, .metadataPush, 0⟩, none, ⟨6, 0⟩⟩ ∧
      decode [0, 0, 0, 0, 0x30, 0] = .error .metadataNotSent) := by
  have hread : decode [0, 0, 0, 1, 0xFD, 0, 7] =
      .ok ⟨.ofNat 1, .ofFlags 0x100, .raw .ext [7]⟩ := by
    decide +kernel
  have hcut : Layout.of [0, 0, 0] = .error (.headerCut 3) := by decide +kernel
  have hpush : Layout.of [0, 0, 0, 0, 0x30, 0] =
      .ok ⟨⟨0, .metadataPush, 0⟩, none, ⟨6, 0⟩⟩ := by
    decide +kernel
  obtain ⟨kind, hkind, -, -, -, hmetadata, hdata, -, hsize⟩ := (readers_agree _).1 _ hread
  cases hkind
  obtain ⟨-, -, -, -, hshort⟩ := (readers_agree _).2.1 _ hcut
  refine ⟨⟨hread, hmetadata, hdata, hsize⟩, ⟨hcut, hshort⟩, hpush, ?_⟩
  exact ((readers_agree _).2.2 _ _ hpush).2 (.inr ⟨rfl, by decide, rfl⟩)

end Frame

end StreamWire
