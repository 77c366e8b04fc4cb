import StreamWire.Proofs.Frame.WireForm
import StreamWire.Proofs.Link.Stream
/-!
# Demands — which frames can be sent

What is demanded of a frame that is to be sent, in the order in which it
is judged (`Demand.IsMet`, `Demand.rank`), and why a frame is refused that
does not meet a demand (`Demand.Refuses`). The values of a frame are any
that a caller may have given, so a demand says which of them denote a
number in range.

`Frame.encode_demands` is what they are for: a frame is encoded exactly if
it meets every demand, and otherwise it is refused for the first that it
does not meet. Behind a length one thing is judged before the others, the
size of the whole. That no other thing can go wrong, since there is room
for whatever is written, is `Frame.writers_have_room`.
-/

namespace StreamWire

/-! ## The demands -/

/-- What is demanded of a frame that is to be sent. -/
inductive Demand where
  /-- The type code is that of a kind. -/
  | knownType
  /-- The kind may be sent on the stream. -/
  | scope
  /-- The stream id is one. -/
  | streamId
  /-- The number between header and metadata, if there is one, is in
  range. -/
  | field
  /-- The metadata, if there is some, is not too long for its length. -/
  | metadataLength
deriving DecidableEq, Repr

namespace Demand

/-- Every demand, in the order of judgement. -/
def all : List Demand := [.knownType, .scope, .streamId, .field, .metadataLength]

theorem mem_all (demand : Demand) : demand ∈ all := by
  cases demand <;> decide

/-- The place of a demand in that order. -/
def rank (demand : Demand) : Nat := all.idxOf demand

/-- What a demand asks. -/
def IsMet (f : Frame) : Demand → Prop
  | .knownType => (FrameKind.ofCode? f.typeCode).isSome = true
  | .scope => ∀ kind ∈ FrameKind.ofCode? f.typeCode,
      kind.traits.scope.allows f.streamId = true
  | .streamId => ∃ id ≤ 0x7FFFFFFF, f.streamId.key = .ofNat id
  | .field => ∀ field ∈ f.body.field?, field.Fits
  | .metadataLength => ∀ block ∈ f.metadata, block.length ≤ 0xFFFFFF

/-- Why a frame is refused that does not meet a demand. -/
inductive Refuses (f : Frame) : Demand → Fault → Prop
  | knownType : Refuses f .knownType (.unknownType f.typeCode)
  | scope (kind : FrameKind) : FrameKind.ofCode? f.typeCode = some kind →
      Refuses f .scope (.unsendable kind f.streamId)
  | streamId : Refuses f .streamId (.invalidStreamId f.streamId)
  | field (field : Field) : f.body.field? = some field → Refuses f .field field.refusal
  | metadataLength (block : Bytes) : f.metadata = some block →
      Refuses f .metadataLength (.metadataTooLong block.length)

/-- What should be concluded where a demand is not met. -/
def category : Demand → Category
  | .knownType => .unknownFrameType
  | .scope | .streamId | .field | .metadataLength => .range

/-- The first demand that a frame does not meet. -/
structure FirstUnmet (demand : Demand) (f : Frame) : Prop where
  earlier : ∀ other : Demand, other.rank < demand.rank → other.IsMet f
  unmet : ¬ demand.IsMet f

end Demand

/-! ### Deciding them -/

theorem Number.exists_le_key_iff {x : Number} {limit : Nat} :
    (∃ n ≤ limit, x.key = .ofNat n) ↔ (x.toNatUpTo? limit).isSome = true := by
  simp only [Option.isSome_iff_exists, Number.toNatUpTo?_eq_some_iff, and_comm]

instance (field : Field) : Decidable field.Fits :=
  decidable_of_iff _ Number.exists_le_key_iff.symm

instance (f : Frame) : (demand : Demand) → Decidable (demand.IsMet f)
  | .knownType => inferInstanceAs (Decidable (_ = true))
  | .scope => inferInstanceAs (Decidable (∀ kind ∈ FrameKind.ofCode? f.typeCode, _))
  | .streamId => decidable_of_iff _ Number.exists_le_key_iff.symm
  | .field => inferInstanceAs (Decidable (∀ field ∈ f.body.field?, _))
  | .metadataLength => inferInstanceAs (Decidable (∀ block ∈ f.metadata, _))

instance (demand : Demand) (f : Frame) : Decidable (demand.FirstUnmet f) :=
  decidable_of_iff
    ((∀ other ∈ Demand.all, other.rank < demand.rank → other.IsMet f) ∧ ¬ demand.IsMet f)
    ⟨fun h => ⟨fun other => h.1 other other.mem_all, h.2⟩,
      fun h => ⟨fun other _ => h.earlier other, h.unmet⟩⟩

/-! ## Encoding -/

variable {f : Frame} {demand : Demand} {fault : Fault}

theorem Body.category_refusal {body : Body} {field : Field} (h : body.field? = some field) :
    field.refusal.category = .range := by
  rcases body with ⟨_ | _ | _ | _ | _, _⟩ | _ | _ | _ | _ | _ | _ | _ <;> cases h <;> rfl

/-- A fault tells what demand was not met, as far as it matters to the
caller. -/
theorem Demand.Refuses.category_eq (h : demand.Refuses f fault) :
    fault.category = demand.category := by
  cases h with
  | field field hfield => exact Body.category_refusal hfield
  | _ => rfl

/-- What is refused on its stream is called by its kind. -/
theorem Demand.Refuses.exists_message {kind : FrameKind} (h : Demand.scope.Refuses f fault)
    (hcode : FrameKind.ofCode? f.typeCode = some kind) :
    ∃ words, fault.message = kind.name ++ words := by
  cases h with | scope other hother =>
  obtain rfl : kind = other := Option.some.inj (hcode.symm.trans hother)
  refine ⟨" frame cannot be sent on stream " ++ f.streamId.decimal, ?_⟩
  rw [← String.append_assoc]
  unfold Fault.message
  simp only [toString]

theorem Body.refusal_ne_metadataTooLong {body : Body} {field : Field}
    (h : body.field? = some field) (length : Nat) : field.refusal ≠ .metadataTooLong length := by
  rcases body with ⟨_ | _ | _ | _ | _, _⟩ | _ | _ | _ | _ | _ | _ | _ <;> cases h <;> nofun

/-- The length of metadata is what one demand is about. -/
theorem Demand.Refuses.eq_metadataLength {length : Nat}
    (h : demand.Refuses f (.metadataTooLong length)) : demand = .metadataLength := by
  generalize hfault : Fault.metadataTooLong length = fault at h
  cases h with
  | metadataLength block hblock => rfl
  | field field hfield => exact absurd hfault.symm (Body.refusal_ne_metadataTooLong hfield length)
  | _ => cases hfault

/-- There is a reason for every demand that is not met. -/
theorem Demand.exists_refuses (h : ¬ demand.IsMet f) : ∃ fault, demand.Refuses f fault := by
  rcases demand with _ | _ | _ | _ | _
  · exact ⟨_, .knownType⟩
  · simp only [IsMet, not_forall] at h
    obtain ⟨kind, hkind, -⟩ := h
    exact ⟨_, .scope kind hkind⟩
  · exact ⟨_, .streamId⟩
  · simp only [IsMet, not_forall] at h
    obtain ⟨field, hfield, -⟩ := h
    exact ⟨_, .field field hfield⟩
  · simp only [IsMet, not_forall] at h
    obtain ⟨block, hblock, -⟩ := h
    exact ⟨_, .metadataLength block hblock⟩

namespace Frame

/-! ### What each demand settles -/

theorem kind_of_ofCode? {kind : FrameKind} (h : FrameKind.ofCode? f.typeCode = some kind) :
    f.kind = .ok kind :=
  (Body.kind_eq_resolveKind f.body).trans (resolveKind_eq_ok_iff.2 h)

theorem kind_of_ofCode?_none (h : FrameKind.ofCode? f.typeCode = none) :
    f.kind = .error (.unknownType f.typeCode) := by
  have hkind : f.kind = resolveKind f.typeCode := Body.kind_eq_resolveKind f.body
  rw [hkind, resolveKind, h]

theorem exists_streamId_of_isMet (h : Demand.streamId.IsMet f) :
    ∃ id, StreamId.ofNumber? f.streamId = some id := by
  obtain ⟨id, hle, hkey⟩ := h
  exact ⟨id, StreamId.ofNumber?_eq_some_iff.2 ⟨hkey, hle⟩⟩

theorem exists_fixedFields_of_isMet (h : Demand.field.IsMet f) :
    ∃ fields, f.body.fixedFields = .ok fields := by
  rcases hfield : f.body.field? with _ | field
  · exact ⟨[], Body.fixedFields_of_none hfield⟩
  · obtain ⟨n, hle, hkey⟩ := h field hfield
    rw [Body.fixedFields_of_some hfield]
    exact ⟨_, numberField_eq_ok_iff.2 ⟨n, hkey, hle, rfl⟩⟩

theorem length_metadata_le_iff :
    (f.metadata.getD []).length ≤ Wire.maxMetadataLength ↔ Demand.metadataLength.IsMet f := by
  rw [Demand.IsMet, Wire.maxMetadataLength]
  rcases f.metadata with _ | block <;> simp

/-- **A frame that meets every demand is encoded.** -/
theorem exists_encode (h : ∀ demand : Demand, demand.IsMet f) :
    ∃ bytes, f.encode = .ok bytes := by
  obtain ⟨kind, hcode⟩ := Option.isSome_iff_exists.1 (h .knownType)
  have hkind := kind_of_ofCode? hcode
  obtain ⟨id, hid⟩ := exists_streamId_of_isMet (h .streamId)
  obtain ⟨fields, hfields⟩ := exists_fixedFields_of_isMet (h .field)
  obtain ⟨flags, hflags⟩ := exists_wireFlags hkind
  have hparts : f.parts = .ok ⟨⟨id, kind, flags⟩, fields, f.metadata, f.data⟩ :=
    parts_eq_ok_iff.2 ⟨hkind, h .scope kind hcode, hid, hfields,
      length_metadata_le_iff.2 (h .metadataLength), hflags, rfl, rfl⟩
  rw [encode_eq, hparts]
  exact ⟨_, rfl⟩

/-- The first demand that a frame does not meet is why it has no parts. -/
theorem parts_of_firstUnmet (h : demand.FirstUnmet f) (hfault : demand.Refuses f fault) :
    f.parts = .error fault := by
  obtain ⟨hearlier, hunmet⟩ := h
  -- What was judged before has been settled by the demands that are met.
  cases hfault with
  | knownType =>
    have hnone : FrameKind.ofCode? f.typeCode = none := by simpa [Demand.IsMet] using hunmet
    exact parts_of_kind_error (kind_of_ofCode?_none hnone)
  | scope kind hcode =>
    refine parts_of_scope (kind_of_ofCode? hcode) fun hallows => hunmet ?_
    simpa [Demand.IsMet, hcode] using hallows
  | streamId =>
    obtain ⟨kind, hcode⟩ := Option.isSome_iff_exists.1 (hearlier .knownType (by decide))
    refine parts_of_streamId (kind_of_ofCode? hcode) (hearlier .scope (by decide) kind hcode) ?_
    exact Number.toNatUpTo?_eq_none_iff.2 fun id hle hkey => hunmet ⟨id, hle, hkey⟩
  | field field hfield =>
    obtain ⟨kind, hcode⟩ := Option.isSome_iff_exists.1 (hearlier .knownType (by decide))
    obtain ⟨id, hid⟩ := exists_streamId_of_isMet (hearlier .streamId (by decide))
    refine parts_of_fixedFields (kind_of_ofCode? hcode) (hearlier .scope (by decide) kind hcode)
      hid ?_
    rw [Body.fixedFields_of_some hfield]
    refine numberField_eq_error fun n hle hkey => hunmet ?_
    simpa [Demand.IsMet, hfield] using show field.Fits from ⟨n, hle, hkey⟩
  | metadataLength block hblock =>
    obtain ⟨kind, hcode⟩ := Option.isSome_iff_exists.1 (hearlier .knownType (by decide))
    obtain ⟨id, hid⟩ := exists_streamId_of_isMet (hearlier .streamId (by decide))
    obtain ⟨fields, hfields⟩ := exists_fixedFields_of_isMet (hearlier .field (by decide))
    have hlong := mt length_metadata_le_iff.1 hunmet
    have hparts := parts_of_metadata (kind_of_ofCode? hcode)
      (hearlier .scope (by decide) kind hcode) hid hfields (Nat.not_le.1 hlong)
    rwa [hblock] at hparts

/-- **A frame is refused for the first demand that it does not meet.** -/
theorem encode_eq_of_firstUnmet (h : demand.FirstUnmet f) (hfault : demand.Refuses f fault) :
    f.encode = .error fault := by
  rw [encode_eq, parts_of_firstUnmet h hfault]
  rfl

/-- What does not meet every demand is refused for one of them. -/
theorem exists_refusal (h : ¬ ∀ demand : Demand, demand.IsMet f) :
    ∃ (demand : Demand) (fault : Fault),
      demand.FirstUnmet f ∧ demand.Refuses f fault ∧ f.encode = .error fault := by
  obtain ⟨demand, hearlier, hunmet⟩ := exists_first_failing Demand.rank h
  obtain ⟨fault, hfault⟩ := Demand.exists_refuses hunmet
  have hfirst : demand.FirstUnmet f := ⟨hearlier, hunmet⟩
  exact ⟨demand, fault, hfirst, hfault, encode_eq_of_firstUnmet hfirst hfault⟩

theorem exists_encode_iff :
    (∃ bytes, f.encode = .ok bytes) ↔ ∀ demand : Demand, demand.IsMet f := by
  refine ⟨fun ⟨bytes, hencode⟩ => ?_, exists_encode⟩
  by_contra hbroken
  obtain ⟨demand, fault, -, -, hrefused⟩ := exists_refusal hbroken
  rw [hrefused] at hencode
  cases hencode

/-- **What is refused has a demand that it does not meet first**, and is
refused for that. -/
theorem encode_eq_error_iff_firstUnmet :
    f.encode = .error fault ↔
      ∃ demand : Demand, demand.FirstUnmet f ∧ demand.Refuses f fault := by
  constructor
  · intro hencode
    have hbroken : ¬ ∀ demand : Demand, demand.IsMet f := by
      rw [← exists_encode_iff, hencode]
      rintro ⟨bytes, hbytes⟩
      cases hbytes
    obtain ⟨demand, other, hfirst, hother, hrefused⟩ := exists_refusal hbroken
    obtain rfl : other = fault := Except.error.inj (hrefused.symm.trans hencode)
    exact ⟨demand, hfirst, hother⟩
  · rintro ⟨demand, hfirst, hfault⟩
    exact encode_eq_of_firstUnmet hfirst hfault

/-! ## Room for what is written -/

/-- **Every writer of a frame finds room for what it writes**, whatever may
be refused later. The buffer begins with room for the header; behind it
there is room for the fixed fields, and behind these for the metadata and
its length. What is left then is as long as the data. -/
theorem writers_have_room {size : Nat} (hsize : f.size = .ok size) (flags : BitVec 10) :
    Wire.headerSize ≤ (Writer.blank size).rest.length ∧
    ∀ w₁, (Write.header f.streamId f.typeCode (.ofFlags flags)).filled (.blank size) = .ok w₁ →
      (∀ fields, f.body.fixedFields = .ok fields → fields.length ≤ w₁.rest.length) ∧
      ∀ w₂, (Write.fixedFields f.body).filled w₁ = .ok w₂ →
        metadataSize f.metadata ≤ w₂.rest.length ∧
        ∀ w₃, (Write.metadata? f.metadata).filled w₂ = .ok w₃ →
          w₃.rest.length = f.data.length := by
  obtain ⟨kind, hkind⟩ := exists_kind_of_size hsize
  have htotal : size = Wire.headerSize +
      (kind.traits.fixedSize + (metadataSize f.metadata + f.data.length)) := by
    rw [size_of_kind hkind] at hsize
    injection hsize with hsize
    omega
  have hblank := Writer.holds_blank size
  refine ⟨by rw [hblank.length_rest]; omega, fun w₁ hheader => ?_⟩
  -- A header that was written was that of a stream id.
  rcases hid : StreamId.ofNumber? f.streamId with _ | id
  · rw [Write.refuses_header _ _ hid] at hheader
    cases hheader
  have hfirst : w₁.Holds _ _ := (Write.appends_header hid (resolveKind_typeCode hkind)
    (.ofFlags flags)).holds_of_filled (by rwa [Header.length_bytes, ← htotal]) hheader
  refine ⟨fun fields hfields => ?_, fun w₂ hfixed => ?_⟩
  · rw [hfirst.length_rest, length_fixedFields hkind hfields]
    omega
  rcases hfields : f.body.fixedFields with fault | fields
  · rw [Write.refuses_fixedFields hfields] at hfixed
    cases hfixed
  have hsecond : w₂.Holds _ _ := (Write.appends_fixedFields hfields).holds_of_filled
    (by rwa [length_fixedFields hkind hfields]) hfixed
  refine ⟨by rw [hsecond.length_rest]; omega, fun w₃ hmetadata => ?_⟩
  by_cases hlong : Wire.maxMetadataLength < (f.metadata.getD []).length
  · rw [Write.refuses_metadata? hlong] at hmetadata
    cases hmetadata
  have hthird := (Write.appends_metadata? (Nat.not_lt.1 hlong)).holds_of_filled
    (by rwa [length_metadataBlock]) hmetadata
  exact hthird.length_rest

/-! ## Encoding behind a length -/

/-- A frame is refused behind its length for its type, which has no size,
for its size, or as it is refused without one. -/
theorem encodeWithLength_eq_error_iff :
    f.encodeWithLength = .error fault ↔
      (¬ Demand.knownType.IsMet f ∧ fault = .unknownType f.typeCode) ∨
      ∃ size, f.size = .ok size ∧
        ((0xFFFFFF < size ∧ fault = .frameTooLong size) ∨
          (size ≤ 0xFFFFFF ∧ f.encode = .error fault)) := by
  rcases hcode : FrameKind.ofCode? f.typeCode with _ | kind
  · have hunmet : ¬ Demand.knownType.IsMet f := by simp [Demand.IsMet, hcode]
    have hsize : f.size = .error (.unknownType f.typeCode) := by
      rw [size, kind_of_ofCode?_none hcode]
      rfl
    rw [encodeWithLength, hsize]
    constructor
    · intro h
      cases h
      exact .inl ⟨hunmet, rfl⟩
    · rintro (⟨-, rfl⟩ | ⟨total, htotal, -⟩)
      · rfl
      · cases htotal
  · have hmet : Demand.knownType.IsMet f := Option.isSome_iff_exists.2 ⟨kind, hcode⟩
    have hsize := size_of_kind (kind_of_ofCode? hcode)
    rw [encodeWithLength_of_size hsize]
    constructor
    · intro h
      refine .inr ⟨_, hsize, ?_⟩
      split at h
      · rename_i hlong
        injection h with h
        exact .inl ⟨hlong, h.symm⟩
      · rename_i hle
        exact .inr ⟨Nat.not_lt.1 hle, map_eq_error_iff.1 h⟩
    · rintro (⟨hunmet, -⟩ | ⟨total, htotal, hjudged⟩)
      · exact absurd hmet hunmet
      · obtain rfl := Except.ok.inj (hsize.symm.trans htotal)
        rcases hjudged with ⟨hlong, rfl⟩ | ⟨hle, hrefused⟩
        · exact if_pos hlong
        · exact (if_neg (Nat.not_lt.2 hle)).trans (map_eq_error_iff.2 hrefused)

/-- A frame whose size has been judged has no metadata that is too
long. -/
theorem encodeWithLength_ne_metadataTooLong (length : Nat) :
    f.encodeWithLength ≠ .error (.metadataTooLong length) := by
  intro h
  rcases encodeWithLength_eq_error_iff.1 h with ⟨-, hfault⟩ | ⟨size, hsize, hlong | ⟨hle, hrefused⟩⟩
  · cases hfault
  · cases hlong.2
  · obtain ⟨demand, hfirst, hfault⟩ := encode_eq_error_iff_firstUnmet.1 hrefused
    obtain rfl := hfault.eq_metadataLength
    exact hfirst.unmet (length_metadata_le_iff.1 ((length_metadata_le hsize).trans hle))

/-- **A frame is encoded exactly if it meets every demand**, and
otherwise it is refused for the first that it does not meet. An unknown
type is a fault of its own, everything else a value out of range, and what
is refused on its stream is called by its kind. Behind its length a frame
is refused for its type, then for its size, before any other demand is
looked at, and so never for the length of its metadata; and where it is
sent, its length is the number of bytes that follow. -/
theorem encode_demands (f : Frame) :
    ((∃ bytes, f.encode = .ok bytes) ↔ ∀ demand : Demand, demand.IsMet f) ∧
    (∀ fault, f.encode = .error fault ↔
      ∃ demand : Demand, demand.FirstUnmet f ∧ demand.Refuses f fault) ∧
    (∀ (demand : Demand) (fault : Fault), demand.Refuses f fault →
      fault.category = demand.category) ∧
    (∀ (kind : FrameKind) (fault : Fault), FrameKind.ofCode? f.typeCode = some kind →
      Demand.scope.Refuses f fault → ∃ words, fault.message = kind.name ++ words) ∧
    (∀ fault, f.encodeWithLength = .error fault ↔
      (¬ Demand.knownType.IsMet f ∧ fault = .unknownType f.typeCode) ∨
      ∃ size, f.size = .ok size ∧
        ((0xFFFFFF < size ∧ fault = .frameTooLong size) ∨
          (size ≤ 0xFFFFFF ∧ f.encode = .error fault))) ∧
    (∀ length, f.encodeWithLength ≠ .error (.metadataTooLong length)) ∧
    (∀ out, f.encodeWithLength = .ok out → ∃ announced bytes, out = announced ++ bytes ∧
      Spells announced 3 bytes.length ∧ f.encode = .ok bytes) := by
  refine ⟨exists_encode_iff, fun fault => encode_eq_error_iff_firstUnmet, ?_, ?_,
    fun fault => encodeWithLength_eq_error_iff, encodeWithLength_ne_metadataTooLong, ?_⟩
  · intro demand fault h
    exact h.category_eq
  · intro kind fault hcode h
    exact h.exists_message hcode
  · intro out h
    obtain ⟨bytes, hencode, hle, rfl⟩ := encodeWithLength_eq_ok_iff.1 h
    rw [Wire.maxFrameLength] at hle
    exact ⟨BigEndian.encode 3 bytes.length, bytes, rfl, spells_encode (by omega), hencode⟩

/-- A request that breaks two demands is refused for the first of them, and
one for a sign of life meets all but the one about its position. Metadata
that is too long is not what a frame is refused for behind its length. -/
theorem encode_demands_metadataTooLong :
    let count : Frame := ⟨.negZero, .nan, .requestN .nan⟩
    let alive : Frame := ⟨.negZero, .ofNat 0, .keepAlive (.ofNat 0x20000000000000) []⟩
    let long : Frame :=
      ⟨.ofNat 1, .ofNat 0, .message .payload ⟨some (List.replicate 0x1000000 0), []⟩⟩
    count.encode = .error (.unsendable .requestN .negZero) ∧
      (∃ words, (Fault.unsendable .requestN .negZero).message = "REQUEST_N" ++ words) ∧
      alive.encode = .error (.invalidPosition (.ofNat 0x20000000000000)) ∧
      long.encode = .error (.metadataTooLong 0x1000000) ∧
      long.encodeWithLength = .error (.frameTooLong 0x1000009) := by
  intro count alive long
  obtain ⟨-, hcount, -, hwords, -⟩ := encode_demands count
  obtain ⟨-, halive, -⟩ := encode_demands alive
  obtain ⟨-, hlong, -, -, hbehind, -⟩ := encode_demands long
  have hscope : Demand.scope.Refuses count (.unsendable .requestN .negZero) := .scope _ rfl
  have hfirst : Demand.metadataLength.FirstUnmet long := by
    constructor
    · intro other hlt
      cases other with
      | metadataLength => exact absurd hlt (by decide)
      | _ => decide
    · intro hmet
      have hle := hmet (List.replicate 0x1000000 0) rfl
      rw [List.length_replicate] at hle
      omega
  have hfault := Demand.Refuses.metadataLength (f := long) (List.replicate 0x1000000 0) rfl
  rw [List.length_replicate] at hfault
  have hsizes (block : Bytes) :
      (Frame.mk (.ofNat 1) (.ofNat 0) (.message .payload ⟨some block, []⟩)).size =
        .ok (6 + 0 + (3 + block.length) + 0) := rfl
  have hsize : long.size = .ok 0x1000009 := by
    rw [hsizes, List.length_replicate]
  refine ⟨(hcount _).2 ⟨.scope, by decide, hscope⟩, hwords .requestN _ rfl hscope,
    (halive _).2 ⟨.field, by decide, .field (.position _) rfl⟩, (hlong _).2 ⟨_, hfirst, hfault⟩,
    (hbehind _).2 (.inr ⟨_, hsize, .inl ⟨by decide, rfl⟩⟩)⟩

end Frame

end StreamWire
