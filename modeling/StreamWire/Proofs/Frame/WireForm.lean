import StreamWire.Proofs.Frame.RoundTrip
/-!
# Wire form — the bytes a frame is sent as

The layout of a frame as the wire format has it, from the stream id to
the data. `WireForm` is six stretches of bytes and `WireForm.IsOf` what a
frame asks of each: numbers stand in it by what they spell
(`Spells`), not by how they are written. The number between the header
and the metadata is a `Field`, which `Body.field?` finds for every kind,
as wide as the table of kinds has it.

Writing knows nothing of that layout. It fills a buffer whose size was
settled in advance, and drops without a word what does not fit.
`Frame.encode_wireForm` says that it drops nothing, leaves nothing blank,
and that what it has filled the buffer with is the wire form.
-/

namespace StreamWire

/-! ## Numbers on the wire -/

/-- A byte string is a number in so many bytes, most significant first. -/
structure Spells (bytes : Bytes) (width n : Nat) : Prop where
  length_eq : bytes.length = width
  decode_eq : BigEndian.decode bytes = n

theorem spells_encode {width n : Nat} (h : n < 256 ^ width) :
    Spells (BigEndian.encode width n) width n :=
  ⟨BigEndian.length_encode width n, BigEndian.decode_encode_of_lt h⟩

/-- The number between header and metadata: how many bytes it has, how
large it may be, and why it is refused otherwise. -/
structure Field where
  value : Number
  width : Nat
  limit : Nat
  refusal : Fault
  /-- No number that may be sent is cut. -/
  limit_lt : limit < 256 ^ width

namespace Field

/-- A number of thirty-two bits. -/
def word (value : Number) (refusal : Fault) : Field :=
  ⟨value, 4, 0xFFFFFFFF, refusal, by decide⟩

/-- A natural number that a double holds without gaps, in sixty-four
bits. -/
def position (value : Number) : Field :=
  ⟨value, 8, 0x1FFFFFFFFFFFFF, .invalidPosition value, by decide⟩

/-- The number may be sent. -/
def Fits (field : Field) : Prop := ∃ n ≤ field.limit, field.value.key = .ofNat n

end Field

namespace Body

/-- The number that is sent between header and metadata, if there is
one. -/
def field? : Body → Option Field
  | .message (.requestStream count) _ => some (.word count (.invalidRequestN count))
  | .message (.requestChannel count) _ => some (.word count (.invalidRequestN count))
  | .requestN count => some (.word count (.invalidRequestN count))
  | .error code _ => some (.word code (.invalidErrorCode code))
  | .keepAlive position _ => some (.position position)
  | _ => none

variable {body : Body} {field : Field}

theorem fixedFields_of_none (h : body.field? = none) : body.fixedFields = .ok [] := by
  rcases body with ⟨_ | _ | _ | _ | _, _⟩ | _ | _ | _ | _ | _ | _ | _ <;>
    first | rfl | exact nomatch h

theorem fixedFields_of_some (h : body.field? = some field) :
    body.fixedFields =
      numberField field.width field.limit (fun _ => field.refusal) field.value := by
  cases body with
  | keepAlive position data =>
    cases h
    rw [Frame.fixedFields_keepAlive]
    rfl
  | message head payload => cases head <;> cases h <;> rfl
  | _ => cases h <;> rfl

/-- A number is in its field when it has been written there. -/
theorem spells_fixedFields (h : body.field? = some field) {fields : Bytes}
    (hfields : body.fixedFields = .ok fields) :
    ∃ n ≤ field.limit, field.value.key = .ofNat n ∧ Spells fields field.width n := by
  rw [fixedFields_of_some h] at hfields
  obtain ⟨n, hkey, hle, rfl⟩ := Frame.numberField_eq_ok_iff.1 hfields
  exact ⟨n, hle, hkey, spells_encode (Nat.lt_of_le_of_lt hle field.limit_lt)⟩

end Body

/-! ## The wire form -/

/-- The stretches of a frame that is sent, first to last. -/
structure WireForm where
  streamId : Bytes
  tag : Bytes
  field : Bytes
  metadataLength : Bytes
  metadata : Bytes
  data : Bytes

/-- The frame. -/
def WireForm.bytes (w : WireForm) : Bytes :=
  w.streamId ++ (w.tag ++ (w.field ++ (w.metadataLength ++ (w.metadata ++ w.data))))

/-- The stretches hold a frame: its stream id below a reserved bit, the
code of its kind above its flags, its number if it has one, its metadata
behind its length if it has some, and all of its data. -/
structure WireForm.IsOf (w : WireForm) (f : Frame) (kind : FrameKind) (flags : BitVec 10) :
    Prop where
  streamId : ∃ id < 2 ^ 31, f.streamId.key = .ofNat id ∧ Spells w.streamId 4 id
  tag : Spells w.tag 2 (kind.code <<< 10 ||| flags.toNat)
  field_none : f.body.field? = none → w.field = []
  field_some : ∀ field, f.body.field? = some field →
    ∃ n ≤ field.limit, field.value.key = .ofNat n ∧ Spells w.field field.width n
  metadata_none : f.metadata = none → w.metadataLength = [] ∧ w.metadata = []
  metadata_some : ∀ block, f.metadata = some block →
    Spells w.metadataLength 3 block.length ∧ w.metadata = block
  data_eq : w.data = f.data

/-- A type code and ten flags do not meet in their word, and fill it. -/
theorem spells_tag (kind : FrameKind) (flags : BitVec 10) :
    Spells (BigEndian.encode 2 ((kind.code <<< Wire.typeShift) + flags.toNat)) 2
      (kind.code <<< 10 ||| flags.toNat) := by
  have hflags := flags.isLt
  have hcode := Header.code_lt kind
  rw [← Nat.shiftLeft_add_eq_or_of_lt hflags]
  apply spells_encode
  rw [Wire.typeShift, Nat.shiftLeft_eq]
  omega

namespace Parts

variable {p : Parts} {f : Frame}

/-- The stretches that parts are sent as. -/
def wireForm (p : Parts) : WireForm where
  streamId := BigEndian.encode 4 p.header.streamId
  tag := BigEndian.encode 2 ((p.header.kind.code <<< Wire.typeShift) + p.header.flags.toNat)
  field := p.fields
  metadataLength := (p.metadata.map (BigEndian.encode 3 ·.length)).getD []
  metadata := p.metadata.getD []
  data := p.data

theorem bytes_wireForm (p : Parts) : p.wireForm.bytes = p.bytes := by
  rw [WireForm.bytes, bytes, headerBytes, Header.bytes, wireForm]
  rcases p.metadata with _ | block <;> simp [metadataBlock, Wire.metadataLengthSize]

/-- **The parts of a frame are sent in its wire form.** -/
theorem isOf_wireForm (h : f.parts = .ok p) : p.wireForm.IsOf f p.header.kind p.header.flags := by
  obtain ⟨-, -, hid, hfields, hshort, -, hmetadata, hdata⟩ := Frame.parts_eq_ok_iff.1 h
  obtain ⟨hkey, hle⟩ := StreamId.ofNumber?_eq_some_iff.1 hid
  rw [Wire.maxStreamId] at hle
  refine ⟨⟨p.header.streamId, by omega, hkey, spells_encode (by omega)⟩, spells_tag _ _, ?_,
    fun _ hfield => Body.spells_fixedFields hfield hfields, ?_, ?_, hdata⟩
  · intro hnone
    rw [Body.fixedFields_of_none hnone] at hfields
    exact (Except.ok.inj hfields).symm
  · intro hnone
    rw [wireForm, hmetadata, hnone]
    exact ⟨rfl, rfl⟩
  · intro block hblock
    rw [hblock, Option.getD_some, Wire.maxMetadataLength] at hshort
    rw [wireForm, hmetadata, hblock]
    exact ⟨spells_encode (by omega), rfl⟩

end Parts

namespace Frame

variable {f : Frame} {bytes : Bytes}

/-- The writers fill the buffer that a frame is given to the last byte. -/
theorem exists_filled {p : Parts} (h : f.parts = .ok p) :
    ∃ written, (Write.frame f p.header.flags).filled (.blank p.bytes.length) = .ok written ∧
      written.Holds p.bytes 0 := by
  obtain ⟨hkind, -, hid, hfields, hshort, -, hmetadata, hdata⟩ := parts_eq_ok_iff.1 h
  have happends := appends_frame hkind hid hfields hshort p.header.flags
  rw [← hmetadata, ← hdata] at happends
  exact happends _ [] 0 (Writer.holds_blank _)

/-- **What a frame is encoded to is its wire form.** Its size, settled in
advance from the table of kinds and the lengths of metadata and data, is
the number of bytes that are written: the number between header and
metadata is as wide as the table says, no writer finds too little room for
what it writes, and the last one leaves no room. -/
theorem encode_wireForm (h : f.encode = .ok bytes) :
    ∃ (kind : FrameKind) (flags : BitVec 10) (w : WireForm),
      f.kind = .ok kind ∧ f.wireFlags = .ok flags ∧ w.IsOf f kind flags ∧ w.bytes = bytes ∧
      clearReserved bytes = bytes ∧ w.field.length = kind.traits.fixedSize ∧
      f.size = .ok bytes.length ∧
      ∃ written, (Write.frame f flags).filled (.blank bytes.length) = .ok written ∧
        written.Holds bytes 0 := by
  have hreserved := clearReserved_of_encode h
  have hsize := size_of_encode h
  obtain ⟨p, hp, rfl⟩ := parts_of_encode h
  obtain ⟨hkind, -, -, hfields, -, hflags, -, -⟩ := parts_eq_ok_iff.1 hp
  exact ⟨p.header.kind, p.header.flags, p.wireForm, hkind, hflags, Parts.isOf_wireForm hp,
    p.bytes_wireForm, hreserved, length_fixedFields hkind hfields, hsize, exists_filled hp⟩

/-- A request for two answers, with a byte of metadata and two of data. Its
flags were given without the metadata bit and with a bit above the tenth. -/
theorem encode_wireForm_requestStream :
    let f : Frame := ⟨.ofNat 7, .ofNat 0x480,
      .message (.requestStream (.ofNat 2)) ⟨some [0xA], [0xB, 0xC]⟩⟩
    let bytes : Bytes := [0, 0, 0, 7, 0x19, 0x80, 0, 0, 0, 2, 0, 0, 1, 0xA, 0xB, 0xC]
    f.encode = .ok bytes ∧ ∃ w : WireForm, w.IsOf f .requestStream 0x180 ∧ w.bytes = bytes ∧
      w.metadata = [0xA] ∧ w.data = [0xB, 0xC] := by
  intro f bytes
  have hencode : f.encode = .ok bytes := by decide +kernel
  obtain ⟨kind, flags, w, hkind, hflags, hform, hbytes, -⟩ := encode_wireForm hencode
  obtain rfl : FrameKind.requestStream = kind := Except.ok.inj hkind
  have hsent : f.wireFlags = .ok 0x180 := by decide +kernel
  obtain rfl : 0x180 = flags := Except.ok.inj (hsent.symm.trans hflags)
  exact ⟨hencode, w, hform, hbytes, (hform.metadata_some [0xA] rfl).2, hform.data_eq⟩

end Frame

end StreamWire
