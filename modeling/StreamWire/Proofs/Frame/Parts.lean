import Mathlib.Order.WellFounded
import StreamWire.Frame.Encoding
import StreamWire.Frame.Layout
import StreamWire.Proofs.Header
import StreamWire.Proofs.Number
import StreamWire.Proofs.Writer
/-!
# Parts — what an encoded frame consists of

`Parts` are the pieces an encoded frame is put together from: header,
fixed fields, metadata and data. `Parts.bytes` is the frame, and
`Parts.IsSound` says which parts make one: each piece is allowed on
frames of the kind, has its width, and the metadata bit tells whether
there is metadata.

`Frame.parts` judges a frame that is to be sent and takes it apart, and
**encoding is just that** (`Frame.encode_eq`): the parts a frame has,
one after the other, or the fault of the first that cannot be sent.
-/

namespace StreamWire

/-! ## Steps that succeed -/

/-- What succeeds in two steps succeeds in each of them. -/
theorem bind_eq_ok_iff {α β : Type} {x : Except Fault α} {g : α → Except Fault β} {result : β} :
    x >>= g = .ok result ↔ ∃ value, x = .ok value ∧ g value = .ok result := by
  cases x with
  | error fault => simp [bind, Except.bind]
  | ok value => simp [bind, Except.bind]

theorem map_eq_ok_iff {α β : Type} {x : Except Fault α} {g : α → β} {result : β} :
    x.map g = .ok result ↔ ∃ value, x = .ok value ∧ g value = result := by
  cases x with
  | error fault => simp [Except.map]
  | ok value => simp [Except.map]

/-- A step is refused where what it is made of is. -/
theorem map_eq_error_iff {α β : Type} {x : Except Fault α} {g : α → β} {fault : Fault} :
    x.map g = .error fault ↔ x = .error fault := by
  rcases x with _ | _ <;> simp [Except.map]

/-! ## Judging in order -/

/-- Of conditions that do not all hold, one is the first that fails. -/
theorem exists_first_failing {ι : Type} (rank : ι → Nat) {holds : ι → Prop}
    (h : ¬ ∀ i, holds i) : ∃ i, (∀ j, rank j < rank i → holds j) ∧ ¬ holds i := by
  obtain ⟨other, hother⟩ := not_forall.1 h
  obtain ⟨i, hfails, hleast⟩ := (measure rank).wf.has_min {i | ¬ holds i} ⟨other, hother⟩
  refine ⟨i, fun j hlt => ?_, hfails⟩
  by_contra hj
  exact hleast j hj hlt

/-! ## The pieces of a frame -/

/-- The pieces of an encoded frame. -/
structure Parts where
  header : Header
  fields : Bytes
  metadata : Option Bytes
  data : Bytes
deriving DecidableEq, Repr

/-- A metadata block: its length, and then the metadata. -/
def metadataBlock : Option Bytes → Bytes
  | some block => BigEndian.encode Wire.metadataLengthSize block.length ++ block
  | none => []

theorem length_metadataBlock (metadata : Option Bytes) :
    (metadataBlock metadata).length = Frame.metadataSize metadata := by
  cases metadata <;> simp [metadataBlock, Frame.metadataSize]

namespace Parts

/-- What a frame of this kind may carry. -/
abbrev traits (p : Parts) : Traits := p.header.kind.traits

/-- The six bytes of the header. -/
def headerBytes (p : Parts) : Bytes :=
  Header.bytes p.header.streamId p.header.kind p.header.flags

/-- The frame. -/
def bytes (p : Parts) : Bytes :=
  p.headerBytes ++ (p.fields ++ (metadataBlock p.metadata ++ p.data))

/-- The parts make a frame that may be sent. -/
structure IsSound (p : Parts) : Prop where
  streamId_le : p.header.streamId ≤ Wire.maxStreamId
  scope_allows : p.traits.scope.allows (.ofNat p.header.streamId) = true
  length_fields : p.fields.length = p.traits.fixedSize
  hasMetadata_eq : p.traits.raw = false → p.header.hasMetadata = p.metadata.isSome
  canHaveMetadata : p.metadata.isSome = true → p.traits.canHaveMetadata = true
  length_metadata : ∀ block, p.metadata = some block → block.length ≤ Wire.maxMetadataLength
  data_eq_nil : p.traits.raw = false → p.traits.canHaveData = false → p.data = []

/-- The number of bytes of a frame. -/
theorem length_bytes (p : Parts) :
    p.bytes.length =
      Wire.headerSize + p.fields.length + Frame.metadataSize p.metadata + p.data.length := by
  simp only [bytes, headerBytes, List.length_append, Header.length_bytes, length_metadataBlock]
  omega

end Parts

/-! ## Kinds whose body is not interpreted -/

theorem canHaveMetadata_of_raw {kind : FrameKind} (h : kind.traits.raw = true) :
    kind.traits.canHaveMetadata = false := by
  cases kind <;> first | rfl | exact absurd h (by decide)

theorem fixedSize_of_raw {kind : FrameKind} (h : kind.traits.raw = true) :
    kind.traits.fixedSize = 0 := by
  cases kind <;> first | rfl | exact absurd h (by decide)

/-! ## Writing part by part -/

namespace Write

theorem appends_header {streamId type : Number} {id : Nat} {kind : FrameKind}
    (hid : StreamId.ofNumber? streamId = some id) (hkind : resolveKind type = .ok kind)
    (flags : Number) :
    (header streamId type flags).Appends (Header.bytes id kind flags.wireFlags) := by
  rw [header, hid, hkind]
  exact appends_bytes _

theorem filled_header {streamId type : Number} {id : Nat} {kind : FrameKind}
    (hid : StreamId.ofNumber? streamId = some id) (hkind : resolveKind type = .ok kind)
    (flags : Number) (w : Writer) :
    ∃ written, (header streamId type flags).filled w = .ok written := by
  rw [header, hid, hkind]
  exact ⟨_, rfl⟩

theorem refuses_header {streamId : Number} (type flags : Number)
    (hid : StreamId.ofNumber? streamId = none) :
    (header streamId type flags).Refuses (.invalidStreamId streamId) := by
  rw [header, hid]
  exact refuses_throw _

theorem appends_fixedFields {body : Body} {fields : Bytes} (h : body.fixedFields = .ok fields) :
    (fixedFields body).Appends fields := by
  rw [fixedFields, h]
  exact appends_bytes _

theorem filled_fixedFields {body : Body} {fields : Bytes} (h : body.fixedFields = .ok fields)
    (w : Writer) : ∃ written, (fixedFields body).filled w = .ok written := by
  rw [fixedFields, h]
  exact ⟨_, rfl⟩

theorem refuses_fixedFields {body : Body} {fault : Fault} (h : body.fixedFields = .error fault) :
    (fixedFields body).Refuses fault := by
  rw [fixedFields, h]
  exact refuses_throw _

theorem appends_metadata? {metadata : Option Bytes}
    (h : (metadata.getD []).length ≤ Wire.maxMetadataLength) :
    (metadata? metadata).Appends (metadataBlock metadata) := by
  cases metadata with
  | none => exact appends_pure
  | some block =>
    rw [Option.getD_some] at h
    rw [metadata?, Write.metadata, if_neg (Nat.not_lt.2 h)]
    exact (appends_bytes _).bind (appends_bytes _)

theorem refuses_metadata? {metadata : Option Bytes}
    (h : Wire.maxMetadataLength < (metadata.getD []).length) :
    (metadata? metadata).Refuses (.metadataTooLong (metadata.getD []).length) := by
  cases metadata with
  | none => exact absurd h (Nat.not_lt_zero _)
  | some block =>
    rw [Option.getD_some] at h ⊢
    rw [metadata?, Write.metadata, if_pos h]
    exact refuses_throw _

end Write

/-! ## Encoding -/

namespace Frame

/-- The parts of a frame that is to be sent. They are judged in the order
they are written in: kind, stream scope, stream id, fixed fields,
metadata length. -/
def parts (f : Frame) : Except Fault Parts := do
  let kind ← f.kind
  if kind.traits.scope.allows f.streamId then
    match StreamId.ofNumber? f.streamId with
    | some streamId =>
      let fields ← f.body.fixedFields
      if Wire.maxMetadataLength < (f.metadata.getD []).length then
        throw (.metadataTooLong (f.metadata.getD []).length)
      else
        return ⟨⟨streamId, kind, ← f.wireFlags⟩, fields, f.metadata, f.data⟩
    | none => throw (.invalidStreamId f.streamId)
  else
    throw (.unsendable kind f.streamId)

/-! ### Fixed fields -/

/-- A field takes a value that denotes a number in range, and holds that
number. -/
theorem numberField_eq_ok_iff {width limit : Nat} {refusal : Number → Fault} {x : Number}
    {field : Bytes} :
    numberField width limit refusal x = .ok field ↔
      ∃ n, x.key = .ofNat n ∧ n ≤ limit ∧ field = BigEndian.encode width n := by
  unfold numberField
  cases h : x.toNatUpTo? limit with
  | some n =>
    obtain ⟨hkey, hle⟩ := Number.toNatUpTo?_eq_some_iff.1 h
    constructor
    · intro hfield
      cases hfield
      exact ⟨n, hkey, hle, rfl⟩
    · rintro ⟨m, hm, -, rfl⟩
      rw [Number.ofNat_injective (hkey.symm.trans hm)]
  | none =>
    constructor
    · intro hfield
      cases hfield
    · rintro ⟨n, hkey, hle, -⟩
      rw [Number.toNatUpTo?_eq_some_iff.2 ⟨hkey, hle⟩] at h
      cases h

/-- **The two words of a position are its eight bytes**, so a position is
written like any other field. -/
theorem fixedFields_keepAlive (position : Number) (data : Bytes) :
    (Body.keepAlive position data).fixedFields =
      numberField Wire.positionSize Wire.maxPosition .invalidPosition position := by
  have htwo (n : Nat) : BigEndian.encode Wire.positionSize n =
      BigEndian.encode 4 (n / 0x100000000) ++ BigEndian.encode 4 (n % 0x100000000) :=
    BigEndian.encode_add 4 4 n
  rw [Body.fixedFields, positionField, numberField]
  simp only [htwo]

/-- A field refuses a value that denotes no number in range. -/
theorem numberField_eq_error {width limit : Nat} {refusal : Number → Fault} {x : Number}
    (h : ∀ n ≤ limit, x.key ≠ .ofNat n) :
    numberField width limit refusal x = .error (refusal x) := by
  rw [numberField, Number.toNatUpTo?_eq_none_iff.2 h]

theorem length_numberField {width limit : Nat} {refusal : Number → Fault} {x : Number}
    {field : Bytes} (h : numberField width limit refusal x = .ok field) :
    field.length = width := by
  obtain ⟨n, -, -, rfl⟩ := numberField_eq_ok_iff.1 h
  exact BigEndian.length_encode width n

/-- The fixed fields of a body are as wide as its kind says. -/
theorem length_fixedFields {body : Body} {kind : FrameKind} {fields : Bytes}
    (hkind : body.kind = .ok kind) (h : body.fixedFields = .ok fields) :
    fields.length = kind.traits.fixedSize := by
  cases body with
  | message head payload =>
    cases hkind
    cases head with
    | requestStream count => exact length_numberField h
    | requestChannel count => exact length_numberField h
    | requestResponse => cases h; rfl
    | fireAndForget => cases h; rfl
    | payload => cases h; rfl
  | requestN count => cases hkind; exact length_numberField h
  | error code data => cases hkind; exact length_numberField h
  | keepAlive position data =>
    cases hkind
    rw [fixedFields_keepAlive] at h
    exact length_numberField h
  | cancel => cases hkind; cases h; rfl
  | metadataPush metadata => cases hkind; cases h; rfl
  | raw kind body => cases hkind; cases h; exact (fixedSize_of_raw (by cases kind <;> rfl)).symm
  | unassigned code unused => cases hkind

/-! ### The order of judgement -/

/-- A frame of a known kind has flags. -/
theorem exists_wireFlags {f : Frame} {kind : FrameKind} (h : f.kind = .ok kind) :
    ∃ flags, f.wireFlags = .ok flags := by
  rw [wireFlags, h]
  simp only [bind, Except.bind, pure, Except.pure]
  split
  · exact ⟨_, rfl⟩
  · split <;> exact ⟨_, rfl⟩

theorem size_of_kind {f : Frame} {kind : FrameKind} (h : f.kind = .ok kind) :
    f.size = .ok (Wire.headerSize + kind.traits.fixedSize + metadataSize f.metadata +
      f.data.length) := by
  rw [size, h]
  rfl

/-- A frame that has a size has a kind. -/
theorem exists_kind_of_size {f : Frame} {total : Nat} (h : f.size = .ok total) :
    ∃ kind, f.kind = .ok kind := by
  obtain ⟨kind, hkind, -⟩ := bind_eq_ok_iff.1 h
  exact ⟨kind, hkind⟩

/-- The metadata of a frame is no longer than the frame. -/
theorem length_metadata_le {f : Frame} {total : Nat} (h : f.size = .ok total) :
    (f.metadata.getD []).length ≤ total := by
  obtain ⟨kind, hkind⟩ := exists_kind_of_size h
  rw [size_of_kind hkind] at h
  injection h with h
  rcases hblock : f.metadata with _ | block
  · exact Nat.zero_le _
  · rw [hblock, metadataSize] at h
    rw [Option.getD_some]
    omega

/-- Encoding a frame of a known kind in its scope is writing it. -/
theorem encode_of_kind {f : Frame} {kind : FrameKind} {flags : BitVec 10} {size : Nat}
    (hkind : f.kind = .ok kind) (hscope : kind.traits.scope.allows f.streamId = true)
    (hflags : f.wireFlags = .ok flags) (hsize : f.size = .ok size) :
    f.encode = ((Write.frame f flags).filled (.blank size)).map Writer.bytes := by
  rw [encode, hkind]
  simp only [bind, Except.bind, if_pos hscope, hsize, hflags]
  cases (Write.frame f flags).filled (.blank size) <;> rfl

theorem resolveKind_typeCode {f : Frame} {kind : FrameKind} (h : f.kind = .ok kind) :
    resolveKind f.typeCode = .ok kind := by
  rw [typeCode, ← Body.kind_eq_resolveKind]
  exact h

/-- A frame whose parts can all be sent is written part by part. -/
theorem appends_frame {f : Frame} {kind : FrameKind} {id : Nat} {fields : Bytes}
    (hkind : f.kind = .ok kind) (hid : StreamId.ofNumber? f.streamId = some id)
    (hfields : f.body.fixedFields = .ok fields)
    (hmetadata : (f.metadata.getD []).length ≤ Wire.maxMetadataLength) (flags : BitVec 10) :
    (Write.frame f flags).Appends (Parts.mk ⟨id, kind, flags⟩ fields f.metadata f.data).bytes := by
  have hheader := Write.appends_header hid (resolveKind_typeCode hkind) (.ofFlags flags)
  rw [Number.wireFlags_ofFlags] at hheader
  refine hheader.bind ?_
  refine (Write.appends_fixedFields hfields).bind ?_
  exact (Write.appends_metadata? hmetadata).bind (Write.appends_bytes f.data)

/-- **Encoding puts the parts of a frame one after the other**, and is
refused where the frame has no parts, for the same reason. -/
theorem encode_eq (f : Frame) : f.encode = f.parts.map Parts.bytes := by
  cases hkind : f.kind with
  | error fault =>
    rw [encode, parts, hkind]
    rfl
  | ok kind =>
  by_cases hscope : kind.traits.scope.allows f.streamId = true
  · obtain ⟨flags, hflags⟩ := exists_wireFlags hkind
    have htype := resolveKind_typeCode hkind
    rw [encode_of_kind hkind hscope hflags (size_of_kind hkind), parts, hkind]
    simp only [bind, Except.bind, if_pos hscope, hflags]
    -- Writing and judging go through the same values in the same order.
    cases hid : StreamId.ofNumber? f.streamId with
    | none =>
      rw [Write.frame, (Write.refuses_header _ _ hid).bind]
      rfl
    | some id =>
    have hheader := Write.filled_header hid htype (.ofFlags flags)
    cases hfields : f.body.fixedFields with
    | error fault =>
      rw [Write.frame, Write.Refuses.after hheader ((Write.refuses_fixedFields hfields).bind _)]
      rfl
    | ok fields =>
    have hfixed := Write.filled_fixedFields hfields
    by_cases hlong : Wire.maxMetadataLength < (f.metadata.getD []).length
    · have hrefused := (Write.refuses_metadata? hlong).bind fun _ => Write.bytes f.data
      rw [Write.frame, Write.Refuses.after hheader (Write.Refuses.after hfixed hrefused)]
      simp only [if_pos hlong]
      rfl
    · -- Nothing is refused, and the parts fill the buffer to its end.
      have happends := appends_frame hkind hid hfields (Nat.not_lt.1 hlong) flags
      have hfilled := happends.filled_blank
      rw [Parts.length_bytes, length_fixedFields hkind hfields] at hfilled
      simp only [if_neg hlong]
      exact hfilled
  · rw [encode, parts, hkind]
    simp only [bind, Except.bind, if_neg hscope]
    rfl

/-- What the parts of a frame are. -/
theorem parts_eq_ok_iff {f : Frame} {p : Parts} :
    f.parts = .ok p ↔
      f.kind = .ok p.header.kind ∧ p.traits.scope.allows f.streamId = true ∧
      StreamId.ofNumber? f.streamId = some p.header.streamId ∧
      f.body.fixedFields = .ok p.fields ∧
      (f.metadata.getD []).length ≤ Wire.maxMetadataLength ∧
      f.wireFlags = .ok p.header.flags ∧ p.metadata = f.metadata ∧ p.data = f.data := by
  obtain ⟨⟨id, kind, flags⟩, fields, metadata, data⟩ := p
  constructor
  · intro h
    rw [parts, bind_eq_ok_iff] at h
    obtain ⟨kind', hkind, h⟩ := h
    split at h
    · rename_i hscope
      split at h
      · rename_i id' hid
        obtain ⟨fields', hfields, h⟩ := bind_eq_ok_iff.1 h
        split at h
        · cases h
        · rename_i hshort
          obtain ⟨flags', hflags, h⟩ := bind_eq_ok_iff.1 h
          cases h
          exact ⟨hkind, hscope, hid, hfields, Nat.not_lt.1 hshort, hflags, rfl, rfl⟩
      · cases h
    · cases h
  · rintro ⟨hkind, hscope, hid, hfields, hshort, hflags, rfl, rfl⟩
    rw [Parts.traits] at hscope
    simp only [parts, hkind, bind, Except.bind, if_pos hscope, hid, hfields,
      if_neg (Nat.not_lt.2 hshort), hflags]
    rfl

/-! ### Frames without parts -/

section

variable {f : Frame} {kind : FrameKind} {fault : Fault} {id : Nat} {fields : Bytes}

theorem parts_of_kind_error (h : f.kind = .error fault) : f.parts = .error fault := by
  rw [parts, h]
  rfl

theorem parts_of_scope (hkind : f.kind = .ok kind)
    (hscope : ¬ kind.traits.scope.allows f.streamId = true) :
    f.parts = .error (.unsendable kind f.streamId) := by
  simp only [parts, hkind, bind, Except.bind, if_neg hscope]
  rfl

theorem parts_of_streamId (hkind : f.kind = .ok kind)
    (hscope : kind.traits.scope.allows f.streamId = true)
    (hid : StreamId.ofNumber? f.streamId = none) :
    f.parts = .error (.invalidStreamId f.streamId) := by
  simp only [parts, hkind, bind, Except.bind, if_pos hscope, hid]
  rfl

theorem parts_of_fixedFields (hkind : f.kind = .ok kind)
    (hscope : kind.traits.scope.allows f.streamId = true)
    (hid : StreamId.ofNumber? f.streamId = some id)
    (hfields : f.body.fixedFields = .error fault) : f.parts = .error fault := by
  simp only [parts, hkind, bind, Except.bind, if_pos hscope, hid, hfields]

theorem parts_of_metadata (hkind : f.kind = .ok kind)
    (hscope : kind.traits.scope.allows f.streamId = true)
    (hid : StreamId.ofNumber? f.streamId = some id) (hfields : f.body.fixedFields = .ok fields)
    (hlong : Wire.maxMetadataLength < (f.metadata.getD []).length) :
    f.parts = .error (.metadataTooLong (f.metadata.getD []).length) := by
  simp only [parts, hkind, bind, Except.bind, if_pos hscope, hid, hfields, if_pos hlong]
  rfl

end

end Frame

end StreamWire
