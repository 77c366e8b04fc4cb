import StreamWire.Frame.Decoding
import StreamWire.Proofs.Frame.Layout
/-!
# Round trips — frames and bytes in one-to-one correspondence

A frame that is sent comes back as its `Frame.normal` form: the flags it
was sent with, and no sign on a zero. Bytes that are read are sent again
as they were, but for the reserved bit. Both follow from the parts of a
frame (`Parts`): encoding takes a frame apart and puts the parts one
after the other, decoding finds the parts and puts the frame together
(`Frame.decode_eq`), and the two ways of going between a frame and its
parts are inverse (`Frame.frame_of_parts`, `Parts.IsSound.parts_of_frame`).
-/

namespace StreamWire

/-! ## The form a frame is read in -/

/-- A body as it is read: its numbers without a sign on zero. -/
def Body.normal : Body → Body
  | .message (.requestStream initialN) payload => .message (.requestStream initialN.key) payload
  | .message (.requestChannel initialN) payload => .message (.requestChannel initialN.key) payload
  | .requestN count => .requestN count.key
  | .error code data => .error code.key data
  | .keepAlive position data => .keepAlive position.key data
  | body => body

/-- A frame as it is read: its numbers without a sign on zero, and the
flags it is sent with. -/
def Frame.normal (f : Frame) : Frame where
  streamId := f.streamId.key
  flags :=
    match f.wireFlags with
    | .ok flags => .ofFlags flags
    | .error _ => f.flags
  body := f.body.normal

namespace Body

@[simp] theorem kind_normal (body : Body) : body.normal.kind = body.kind := by
  unfold normal
  split <;> rfl

@[simp] theorem metadata_normal (body : Body) : body.normal.metadata = body.metadata := by
  unfold normal
  split <;> rfl

@[simp] theorem data_normal (body : Body) : body.normal.data = body.data := by
  unfold normal
  split <;> rfl

/-- Only kinds that can have metadata have some. -/
theorem canHaveMetadata_of_metadata {body : Body} {kind : FrameKind} (hkind : body.kind = .ok kind)
    (h : body.metadata.isSome = true) : kind.traits.canHaveMetadata = true := by
  cases body with
  | message head payload => cases hkind; cases head <;> rfl
  | metadataPush metadata => cases hkind; rfl
  | _ => cases h

/-- Only kinds that can have data have some. -/
theorem data_eq_nil {body : Body} {kind : FrameKind} (hkind : body.kind = .ok kind)
    (hraw : kind.traits.raw = false) (h : kind.traits.canHaveData = false) : body.data = [] := by
  cases body with
  | message head payload => cases hkind; cases head <;> cases h
  | error code data => cases hkind; cases h
  | keepAlive position data => cases hkind; cases h
  | raw kind body => cases hkind; cases kind <;> cases hraw
  | _ => rfl

end Body

/-! ## The metadata bit -/

/-- The metadata bit has a place of its own. -/
theorem metadataBit_eq : Flag.metadata.setWidth 10 = BitVec.twoPow 10 8 := by decide

theorem Header.hasMetadata_eq (h : Header) : h.hasMetadata = h.flags.getLsbD 8 := by
  rw [hasMetadata, metadataBit_eq, BitVec.and_twoPow]
  cases h.flags.getLsbD 8 <;> decide

namespace Frame

/-- The flags a frame is sent with, by its kind. -/
theorem wireFlags_of_kind {f : Frame} {kind : FrameKind} (h : f.kind = .ok kind) :
    f.wireFlags = .ok
      (if kind.traits.raw then f.flags.wireFlags
       else if f.metadata.isSome then f.flags.wireFlags ||| BitVec.twoPow 10 8
       else f.flags.wireFlags &&& ~~~BitVec.twoPow 10 8) := by
  rw [wireFlags, h]
  simp only [bind, Except.bind, pure, Except.pure, metadataBit_eq]
  split
  · rfl
  · split <;> rfl

/-- **Every flag is sent as given, but for the metadata bit**, which is
set exactly where there is metadata. Kinds whose body is not interpreted
keep that one too. -/
theorem getLsbD_wireFlags {f : Frame} {kind : FrameKind} {flags : BitVec 10}
    (hkind : f.kind = .ok kind) (h : f.wireFlags = .ok flags) (i : Nat) :
    flags.getLsbD i =
      if i = 8 ∧ kind.traits.raw = false then f.metadata.isSome
      else f.flags.wireFlags.getLsbD i := by
  rw [wireFlags_of_kind hkind] at h
  injection h with h
  rw [← h]
  by_cases hraw : kind.traits.raw = true
  · simp [hraw]
  by_cases hi : i = 8
  · subst hi
    cases f.metadata <;> simp [hraw]
  · have hout : 10 ≤ i → f.flags.wireFlags.getLsbD i = false := BitVec.getLsbD_of_ge _ _
    cases f.metadata <;> simp [hraw, hi, Ne.symm hi, BitVec.getLsbD_twoPow]
    by_cases hi10 : i < 10
    · simp [hi10]
    · simp [hout (Nat.not_lt.1 hi10)]

/-- The metadata bit tells whether there is metadata. -/
theorem getLsbD_metadataBit {f : Frame} {kind : FrameKind} {flags : BitVec 10}
    (hkind : f.kind = .ok kind) (hraw : kind.traits.raw = false) (h : f.wireFlags = .ok flags) :
    flags.getLsbD 8 = f.metadata.isSome := by
  rw [getLsbD_wireFlags hkind h, if_pos ⟨rfl, hraw⟩]

/-- Flags that already tell whether there is metadata are sent as they
are. -/
theorem wireFlags_eq_of_metadataBit {f : Frame} {kind : FrameKind} {flags : BitVec 10}
    (hkind : f.kind = .ok kind) (hflags : f.flags = .ofFlags flags)
    (hbit : kind.traits.raw = false → flags.getLsbD 8 = f.metadata.isSome) :
    f.wireFlags = .ok flags := by
  obtain ⟨sent, hsent⟩ := exists_wireFlags hkind
  rw [hsent]
  congr 1
  apply BitVec.eq_of_getLsbD_eq
  intro i _
  rw [getLsbD_wireFlags hkind hsent, hflags, Number.wireFlags_ofFlags]
  split
  · rename_i h
    rw [h.1, hbit h.2]
  · rfl

/-! ## From the frame to its parts and back -/

theorem normal_of_wireFlags {f : Frame} {flags : BitVec 10} (h : f.wireFlags = .ok flags) :
    f.normal = ⟨f.streamId.key, .ofFlags flags, f.body.normal⟩ := by
  rw [normal, h]

/-- The parts of a frame make a frame that may be sent. -/
theorem isSound_of_parts {f : Frame} {p : Parts} (h : f.parts = .ok p) : p.IsSound := by
  obtain ⟨hkind, hscope, hid, hfields, hshort, hflags, hmetadata, hdata⟩ := parts_eq_ok_iff.1 h
  obtain ⟨hkey, hle⟩ := StreamId.ofNumber?_eq_some_iff.1 hid
  constructor
  · exact hle
  · rw [← Scope.allows_congr (hkey.trans (Number.key_ofNat _).symm)]
    exact hscope
  · exact length_fixedFields hkind hfields
  · intro hraw
    rw [Header.hasMetadata_eq, getLsbD_metadataBit hkind hraw hflags, hmetadata]
  · intro hsome
    rw [hmetadata] at hsome
    exact Body.canHaveMetadata_of_metadata hkind hsome
  · intro block hblock
    rw [← hmetadata, hblock] at hshort
    exact hshort
  · intro hraw hnone
    rw [hdata]
    exact Body.data_eq_nil hkind hraw hnone

end Frame

namespace Parts

/-- The frame that the parts make. -/
def frame (p : Parts) : Except Fault Frame :=
  (Frame.decodeBody p.header.kind p.bytes p.metadata p.data).map fun body =>
    { streamId := .ofNat p.header.streamId, flags := .ofFlags p.header.flags, body }

end Parts

/-! ## Fixed fields -/

/-- A number that was written in a field is read back without a sign. -/
theorem key_of_numberField {width limit : Nat} {refusal : Number → Fault} {x : Number}
    {field : Bytes} (h : numberField width limit refusal x = .ok field)
    (hlimit : limit < 256 ^ width) :
    x.key = .ofNat (BigEndian.decode field) ∧ BigEndian.decode field ≤ limit := by
  obtain ⟨n, hkey, hle, rfl⟩ := Frame.numberField_eq_ok_iff.1 h
  rw [BigEndian.decode_encode_of_lt (Nat.lt_of_le_of_lt hle hlimit)]
  exact ⟨hkey, hle⟩

/-- A field that was read is written again as it was. -/
theorem numberField_decode {width limit : Nat} (refusal : Number → Fault) {field : Bytes}
    (hlength : field.length = width) (hle : BigEndian.decode field ≤ limit) :
    numberField width limit refusal (.ofNat (BigEndian.decode field)) = .ok field :=
  Frame.numberField_eq_ok_iff.2
    ⟨_, rfl, hle, (BigEndian.encode_decode_of_length hlength).symm⟩

namespace Encoded

variable {frame fields : Bytes}

theorem wordField_eq (hslice : slice frame Wire.headerSize 4 = fields) :
    wordField frame = BigEndian.decode fields :=
  congrArg BigEndian.decode hslice

theorem positionField_eq_ok_iff (hslice : slice frame Wire.headerSize 8 = fields) {n : Nat} :
    positionField frame = .ok n ↔
      BigEndian.decode fields = n ∧ BigEndian.decode fields ≤ Wire.maxPosition := by
  have hposition : positionField frame =
      if Wire.maxPosition < BigEndian.decode fields then .error .positionTooLarge
      else .ok (BigEndian.decode fields) := by
    rw [← hslice]
    rfl
  rw [hposition]
  split <;> simp <;> omega

/-- Four bytes hold every number that a request count or an error code
may be. -/
theorem decode_le_of_length (hlength : fields.length = 4) :
    BigEndian.decode fields ≤ 0xFFFFFFFF := by
  have := BigEndian.decode_lt fields
  rw [hlength] at this
  omega

end Encoded

namespace Frame

/-- **A body is read back** where its fixed fields stand behind the
header. -/
theorem decodeBody_of_body {body : Body} {kind : FrameKind} {frame fields : Bytes}
    (hkind : body.kind = .ok kind) (hfields : body.fixedFields = .ok fields)
    (hslice : slice frame Wire.headerSize kind.traits.fixedSize = fields) :
    decodeBody kind frame body.metadata body.data = .ok body.normal := by
  -- Kinds with a field of four bytes are read alike.
  have hword {limit : Nat} {refusal : Number → Fault} {x : Number}
      (hsize : kind.traits.fixedSize = 4) (h : numberField 4 limit refusal x = .ok fields)
      (hlimit : limit < 256 ^ 4) : x.key = .ofNat (Encoded.wordField frame) := by
    have hfour : slice frame Wire.headerSize 4 = fields := by rw [← hslice, hsize]
    rw [Encoded.wordField_eq hfour]
    exact (key_of_numberField h hlimit).1
  cases body with
  | message head payload =>
    cases hkind
    cases head with
    | requestStream count => rw [Body.normal, hword rfl hfields (by decide)]; rfl
    | requestChannel count => rw [Body.normal, hword rfl hfields (by decide)]; rfl
    | requestResponse => rfl
    | fireAndForget => rfl
    | payload => rfl
  | requestN count => cases hkind; rw [Body.normal, hword rfl hfields (by decide)]; rfl
  | error code data => cases hkind; rw [Body.normal, hword rfl hfields (by decide)]; rfl
  | keepAlive position data =>
    cases hkind
    rw [fixedFields_keepAlive] at hfields
    obtain ⟨hkey, hle⟩ := key_of_numberField hfields (by decide)
    have hposition := (Encoded.positionField_eq_ok_iff hslice).2 ⟨rfl, hle⟩
    simp only [decodeBody, hposition, Body.normal, hkey]
    rfl
  | raw kind body => cases hkind; cases kind <;> rfl
  | cancel => cases hkind; rfl
  | metadataPush metadata => cases hkind; rfl
  | unassigned code unused => cases hkind

/-- **Of the parts of a frame the frame is made again**, in normal
form. -/
theorem frame_of_parts {f : Frame} {p : Parts} (h : f.parts = .ok p) : p.frame = .ok f.normal := by
  have hsound := isSound_of_parts h
  obtain ⟨hkind, -, hid, hfields, -, hflags, hmetadata, hdata⟩ := parts_eq_ok_iff.1 h
  have hbody := decodeBody_of_body hkind hfields hsound.slice_fields
  rw [Parts.frame, hmetadata, hdata, normal_of_wireFlags hflags,
    (StreamId.ofNumber?_eq_some_iff.1 hid).1]
  exact congrArg (Except.map _) hbody

/-- What the body of a frame was made of. -/
structure MadeOf (body : Body) (kind : FrameKind) (fields : Bytes) (metadata : Option Bytes)
    (data : Bytes) : Prop where
  kind_eq : body.kind = .ok kind
  fixedFields_eq : body.fixedFields = .ok fields
  metadata_eq : body.metadata = metadata
  data_eq : body.data = data
  normal_eq : body.normal = body

/-- **A body that is read is made of what was read.** -/
theorem madeOf_of_decodeBody {kind : FrameKind} {frame fields data : Bytes}
    {metadata : Option Bytes} {body : Body} (h : decodeBody kind frame metadata data = .ok body)
    (hslice : slice frame Wire.headerSize kind.traits.fixedSize = fields)
    (hlength : fields.length = kind.traits.fixedSize)
    (hmetadata : kind.traits.canHaveMetadata = false → metadata = none)
    (hdata : kind.traits.raw = false → kind.traits.canHaveData = false → data = []) :
    MadeOf body kind fields metadata data := by
  have hnone (hsize : kind.traits.fixedSize = 0) :
      Except.ok [] = (.ok fields : Except Fault Bytes) := by
    rw [hsize, List.length_eq_zero_iff] at hlength
    rw [hlength]
  have hword (refusal : Number → Fault) (hsize : kind.traits.fixedSize = 4) :
      numberField 4 0xFFFFFFFF refusal (.ofNat (Encoded.wordField frame)) = .ok fields := by
    rw [hsize] at hslice hlength
    rw [Encoded.wordField_eq hslice]
    exact numberField_decode refusal hlength (Encoded.decode_le_of_length hlength)
  cases kind with
  | requestResponse | fireAndForget | payload => cases h; exact ⟨rfl, hnone rfl, rfl, rfl, rfl⟩
  | requestStream | requestChannel => cases h; exact ⟨rfl, hword _ rfl, rfl, rfl, rfl⟩
  | requestN => cases h; exact ⟨rfl, hword _ rfl, (hmetadata rfl).symm, (hdata rfl rfl).symm, rfl⟩
  | error => cases h; exact ⟨rfl, hword _ rfl, (hmetadata rfl).symm, rfl, rfl⟩
  | cancel => cases h; exact ⟨rfl, hnone rfl, (hmetadata rfl).symm, (hdata rfl rfl).symm, rfl⟩
  | setup | lease | resume | resumeOk | ext =>
    cases h
    exact ⟨rfl, hnone rfl, (hmetadata rfl).symm, rfl, rfl⟩
  | metadataPush =>
    cases metadata with
    | none => cases h
    | some block => cases h; exact ⟨rfl, hnone rfl, rfl, (hdata rfl rfl).symm, rfl⟩
  | keepAlive =>
    simp only [decodeBody] at h
    cases hposition : Encoded.positionField frame with
    | error fault => rw [hposition] at h; cases h
    | ok position =>
      rw [hposition] at h
      cases h
      obtain ⟨rfl, hle⟩ := (Encoded.positionField_eq_ok_iff hslice).1 hposition
      refine ⟨rfl, ?_, (hmetadata rfl).symm, rfl, rfl⟩
      rw [fixedFields_keepAlive]
      exact numberField_decode _ hlength hle

/-- **The frame that sound parts make has just those parts**, and is in
normal form. -/
theorem parts_of_frame {p : Parts} (hsound : p.IsSound) {f : Frame} (h : p.frame = .ok f) :
    f.parts = .ok p ∧ f.normal = f := by
  obtain ⟨body, hbody, rfl⟩ := map_eq_ok_iff.1 h
  have hmade := madeOf_of_decodeBody hbody hsound.slice_fields hsound.length_fields
    hsound.metadata_eq_none hsound.data_eq_nil
  -- The flags that were read already tell whether there is metadata.
  have hbit : p.traits.raw = false → p.header.flags.getLsbD 8 = body.metadata.isSome := by
    intro hraw
    rw [← Header.hasMetadata_eq, hsound.hasMetadata_eq hraw, hmade.metadata_eq]
  have hflags := wireFlags_eq_of_metadataBit (f := ⟨.ofNat p.header.streamId,
    .ofFlags p.header.flags, body⟩) hmade.kind_eq rfl hbit
  have hshort : (body.metadata.getD []).length ≤ Wire.maxMetadataLength := by
    rw [hmade.metadata_eq]
    cases hmetadata : p.metadata with
    | none => exact Nat.zero_le _
    | some block => exact hsound.length_metadata block hmetadata
  constructor
  · exact parts_eq_ok_iff.2 ⟨hmade.kind_eq, hsound.scope_allows,
      StreamId.ofNumber?_eq_some_iff.2 ⟨rfl, hsound.streamId_le⟩, hmade.fixedFields_eq, hshort,
      hflags, hmade.metadata_eq.symm, hmade.data_eq.symm⟩
  · rw [normal_of_wireFlags hflags, hmade.normal_eq]
    rfl

/-! ## Encoding and decoding -/

/-- What a frame encodes to is made of its parts. -/
theorem parts_of_encode {f : Frame} {bytes : Bytes} (h : f.encode = .ok bytes) :
    ∃ p, f.parts = .ok p ∧ p.bytes = bytes := by
  rw [encode_eq] at h
  exact map_eq_ok_iff.1 h

/-- **Decoding finds the parts of a frame and puts it together.** -/
theorem decode_eq (bytes : Bytes) :
    decode bytes = (Layout.of bytes).bind fun l => (l.parts bytes).frame := by
  cases hlayout : Layout.of bytes with
  | error fault =>
    rw [decode, hlayout]
    rfl
  | ok l =>
    -- The reserved bit lies in the header, so the fields are read as they were.
    have htiles := Layout.tiles_of hlayout
    have hfields : ∀ length, slice (l.parts bytes).bytes Wire.headerSize length =
        slice bytes Wire.headerSize length := by
      intro length
      rw [htiles.bytes_parts, slice_clearReserved (by decide)]
    have hbody : ∀ metadata data, decodeBody l.header.kind (l.parts bytes).bytes metadata data =
        decodeBody l.header.kind bytes metadata data := by
      intro metadata data
      simp only [decodeBody, Encoded.wordField, Encoded.positionField, hfields]
    rw [decode, hlayout]
    simp only [Except.bind, bind, Parts.frame, Layout.parts] at hbody ⊢
    rw [hbody]
    cases decodeBody l.header.kind bytes _ _ <;> rfl

/-- What a frame encodes to decodes to its normal form. -/
theorem decode_of_encode {f : Frame} {bytes : Bytes} (h : f.encode = .ok bytes) :
    decode bytes = .ok f.normal := by
  obtain ⟨p, hp, rfl⟩ := parts_of_encode h
  have hsound := isSound_of_parts hp
  rw [decode_eq, hsound.layout_of]
  simp only [Except.bind, hsound.parts_layout]
  exact frame_of_parts hp

/-- What decodes to a frame is what the frame encodes to, but for the
reserved bit. -/
theorem encode_of_decode {bytes : Bytes} {f : Frame} (h : decode bytes = .ok f) :
    f.encode = .ok (clearReserved bytes) ∧ f.normal = f := by
  rw [decode_eq] at h
  obtain ⟨l, hlayout, hframe⟩ := bind_eq_ok_iff.1 h
  have htiles := Layout.tiles_of hlayout
  obtain ⟨hparts, hnormal⟩ := parts_of_frame htiles.isSound_parts hframe
  refine ⟨?_, hnormal⟩
  rw [encode_eq, hparts, ← htiles.bytes_parts]
  rfl

/-- No frame encodes to bytes with the reserved bit set. -/
theorem clearReserved_of_encode {f : Frame} {bytes : Bytes} (h : f.encode = .ok bytes) :
    clearReserved bytes = bytes := by
  obtain ⟨p, hp, rfl⟩ := parts_of_encode h
  have hsound := isSound_of_parts hp
  rw [← (Layout.tiles_of hsound.layout_of).bytes_parts, hsound.parts_layout]

theorem size_of_encode {f : Frame} {bytes : Bytes} (h : f.encode = .ok bytes) :
    f.size = .ok bytes.length := by
  obtain ⟨p, hp, rfl⟩ := parts_of_encode h
  obtain ⟨hkind, -, -, hfields, -, -, hmetadata, hdata⟩ := parts_eq_ok_iff.1 hp
  rw [size_of_kind hkind, Parts.length_bytes, length_fixedFields hkind hfields, hmetadata, hdata]

/-- The bytes that a frame was decoded from are as many as its size. -/
theorem size_of_decode {bytes : Bytes} {f : Frame} (h : decode bytes = .ok f) :
    f.size = .ok bytes.length := by
  rw [size_of_encode (encode_of_decode h).1, length_clearReserved]

/-- Bytes that are read as a frame, and are not too many for the length
they follow on a byte stream. -/
structure IsRead (f : Frame) (bytes : Bytes) : Prop where
  decode_eq : decode bytes = .ok f
  length_le : bytes.length ≤ Wire.maxFrameLength

theorem isRead_of_encode {f : Frame} {bytes : Bytes} (h : f.encode = .ok bytes) {size : Nat}
    (hsize : f.size = .ok size) (hle : size ≤ Wire.maxFrameLength) : IsRead f.normal bytes := by
  have hlength := (size_of_encode h).symm.trans hsize
  injection hlength with hlength
  refine ⟨decode_of_encode h, ?_⟩
  rwa [hlength]

/-! ## What encoding depends on -/

theorem fixedFields_normal {body : Body} {fields : Bytes} :
    body.normal.fixedFields = .ok fields ↔ body.fixedFields = .ok fields := by
  have hkey {width limit : Nat} {refusal : Number → Fault} {x : Number} :
      numberField width limit refusal x.key = .ok fields ↔
        numberField width limit refusal x = .ok fields := by
    rw [numberField_eq_ok_iff, numberField_eq_ok_iff, Number.key_key]
  cases body with
  | message head payload => cases head <;> first | exact Iff.rfl | exact hkey
  | requestN count => exact hkey
  | error code data => exact hkey
  | keepAlive position data =>
    rw [Body.normal, fixedFields_keepAlive, fixedFields_keepAlive]
    exact hkey
  | _ => exact Iff.rfl

/-- **Frames of one normal form encode to the same bytes.** -/
theorem encode_congr {f g : Frame} {bytes : Bytes} (hnormal : g.normal = f.normal)
    (h : f.encode = .ok bytes) : g.encode = .ok bytes := by
  obtain ⟨p, hp, rfl⟩ := parts_of_encode h
  obtain ⟨hkind, hscope, hid, hfields, hshort, hflags, hmetadata, hdata⟩ := parts_eq_ok_iff.1 hp
  have hkey : g.streamId.key = f.streamId.key := congrArg Frame.streamId hnormal
  have hbody : g.body.normal = f.body.normal := congrArg Frame.body hnormal
  have hgkind : g.kind = .ok p.header.kind := by
    rw [kind, ← Body.kind_normal, hbody, Body.kind_normal]
    exact hkind
  have hgmetadata : g.metadata = f.metadata := by
    rw [metadata, ← Body.metadata_normal, hbody, Body.metadata_normal, metadata]
  have hgdata : g.data = f.data := by
    rw [data, ← Body.data_normal, hbody, Body.data_normal, data]
  obtain ⟨flags, hgflags⟩ := exists_wireFlags hgkind
  have hsame : Number.ofFlags flags = .ofFlags p.header.flags := by
    rw [normal_of_wireFlags hgflags, normal_of_wireFlags hflags] at hnormal
    exact congrArg Frame.flags hnormal
  have hparts : g.parts = .ok p := by
    rw [parts_eq_ok_iff, hgmetadata, hgdata, Scope.allows_congr hkey, StreamId.ofNumber?_congr hkey,
      ← fixedFields_normal, hbody, fixedFields_normal, hgflags, Number.ofFlags_injective hsame]
    exact ⟨hgkind, hscope, hid, hfields, hshort, rfl, hmetadata, hdata⟩
  rw [encode_eq, hparts]
  rfl

/-! ## Decoding undoes encoding -/

/-- **Decoding undoes encoding.** A frame that encodes at all decodes to
its normal form: the stream id and the numbers in its fields without a
sign on zero, the same metadata, absent or empty as it was, the same
data, and the flags it was sent with, of which only the metadata bit may
not be the caller's. So frames that encode alike have one normal form,
and only those encode alike. -/
theorem decode_encode_normal {f : Frame} {bytes : Bytes} (h : f.encode = .ok bytes) :
    ∃ kind flags, f.kind = .ok kind ∧ f.wireFlags = .ok flags ∧
      decode bytes = .ok ⟨f.streamId.key, .ofFlags flags, f.body.normal⟩ ∧
      f.body.normal.kind = .ok kind ∧ f.body.normal.metadata = f.metadata ∧
      f.body.normal.data = f.data ∧
      (∀ i < 10, flags.getLsbD i =
        if i = 8 ∧ kind.traits.raw = false then f.metadata.isSome else f.flags.word.getLsbD i) ∧
      ∀ g : Frame, g.encode = .ok bytes ↔ g.normal = f.normal := by
  have hread := decode_of_encode h
  obtain ⟨p, hp, -⟩ := parts_of_encode h
  obtain ⟨hkind, -, -, -, -, hflags, -, -⟩ := parts_eq_ok_iff.1 hp
  refine ⟨p.header.kind, p.header.flags, hkind, hflags, ?_, ?_, Body.metadata_normal _,
    Body.data_normal _, ?_, ?_⟩
  · rw [hread, normal_of_wireFlags hflags]
  · rw [Body.kind_normal]
    exact hkind
  · intro i hi
    rw [getLsbD_wireFlags hkind hflags, Number.wireFlags, BitVec.getLsbD_setWidth]
    simp [hi]
  · intro g
    constructor
    · intro hg
      have := (decode_of_encode hg).symm.trans hread
      injection this
    · intro hg
      exact encode_congr hg h

/-- A request for negative zero answers with empty metadata, all flags
set: what is read asks for zero and keeps the empty block. -/
theorem decode_encode_normal_requestStream :
    (Frame.mk (.ofNat 7) (.whole (-1))
      (.message (.requestStream .negZero) ⟨some [], [0xAB]⟩)).encode =
        .ok [0, 0, 0, 7, 27, 255, 0, 0, 0, 0, 0, 0, 0, 0xAB] ∧
    ∃ flags, decode [0, 0, 0, 7, 27, 255, 0, 0, 0, 0, 0, 0, 0, 0xAB] =
      .ok ⟨.ofNat 7, .ofFlags flags, .message (.requestStream (.ofNat 0)) ⟨some [], [0xAB]⟩⟩ ∧
      flags.getLsbD 8 = true := by
  have hencode : (Frame.mk (.ofNat 7) (.whole (-1))
      (.message (.requestStream .negZero) ⟨some [], [0xAB]⟩)).encode =
        .ok [0, 0, 0, 7, 27, 255, 0, 0, 0, 0, 0, 0, 0, 0xAB] := by rfl
  refine ⟨hencode, ?_⟩
  obtain ⟨kind, flags, hkind, -, hread, -, -, -, hbits, -⟩ := decode_encode_normal hencode
  cases hkind
  refine ⟨flags, hread, ?_⟩
  rw [hbits 8 (by decide)]
  rfl

/-! ## Encoding undoes decoding -/

/-- **Encoding undoes decoding**, but for the reserved bit. What decodes
encodes to itself with the bit cleared, and its size is computed
beforehand; so two byte strings decode to one frame exactly if they
differ in that bit at most, and what frames encode to is what decodes
and has the bit clear. -/
theorem encode_decode_clearReserved :
    (∀ (bytes : Bytes) (f : Frame), decode bytes = .ok f →
      f.encode = .ok (clearReserved bytes) ∧ f.size = .ok bytes.length) ∧
    (∀ (bytes other : Bytes) (f g : Frame), decode bytes = .ok f → decode other = .ok g →
      (f = g ↔ clearReserved bytes = clearReserved other)) ∧
    ∀ bytes : Bytes, (∃ f : Frame, f.encode = .ok bytes) ↔
      (∃ f : Frame, decode bytes = .ok f) ∧ clearReserved bytes = bytes := by
  refine ⟨?_, ?_, ?_⟩
  · intro bytes f h
    have hencode := (encode_of_decode h).1
    have hsize := size_of_encode hencode
    rw [length_clearReserved] at hsize
    exact ⟨hencode, hsize⟩
  · intro bytes other f g hf hg
    obtain ⟨hencodef, hnormalf⟩ := encode_of_decode hf
    obtain ⟨hencodeg, hnormalg⟩ := encode_of_decode hg
    constructor
    · rintro rfl
      have := hencodef.symm.trans hencodeg
      injection this
    · intro hsame
      -- Both are the normal form of what the common bytes decode to.
      rw [hsame] at hencodef
      have := (decode_of_encode hencodef).symm.trans (decode_of_encode hencodeg)
      rw [hnormalf, hnormalg] at this
      injection this
  · intro bytes
    constructor
    · rintro ⟨f, h⟩
      exact ⟨⟨f.normal, decode_of_encode h⟩, clearReserved_of_encode h⟩
    · rintro ⟨⟨f, h⟩, hclear⟩
      refine ⟨f, ?_⟩
      rw [(encode_of_decode h).1, hclear]

/-- A cancellation with the reserved bit set is read, and sent again
without it. -/
theorem encode_decode_clearReserved_cancel :
    decode [0x80, 0, 0, 1, 36, 0] = .ok ⟨.ofNat 1, .ofFlags 0, .cancel⟩ ∧
      (Frame.mk (.ofNat 1) (.ofFlags 0) .cancel).encode =
        .ok (clearReserved [0x80, 0, 0, 1, 36, 0]) := by
  have hread : decode [0x80, 0, 0, 1, 36, 0] = .ok ⟨.ofNat 1, .ofFlags 0, .cancel⟩ := by
    decide +kernel
  exact ⟨hread, (encode_decode_clearReserved.1 _ _ hread).1⟩

end Frame

end StreamWire
