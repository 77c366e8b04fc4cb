import StreamWire.Proofs.Frame.WireForm
/-!
# In place — what a writer changes of its buffer

A writer of a header or a metadata block is given a buffer that may hold
anything, and a place in it. What it writes stands there afterwards, and no
other byte of the buffer has changed (`Overwrites`). A header is written
whole where there is room for it; of metadata only what there is room for,
behind a length that tells all of it. A writer judges its values before it
writes, so what it refuses leaves the buffer as it was
(`Write.overwrites_or_unchanged`).

What a writer has written so far, and what it has still to write over, are
those of the buffer (`Writer.Fills`); each write keeps that
(`Writer.Fills.put`).
-/

namespace StreamWire

/-! ## One buffer and another -/

/-- A buffer has become another in that `source` was written at `offset`.
It stands there, and at every other place is what was there before. -/
structure Overwrites (written buffer : Bytes) (offset : Nat) (source : Bytes) : Prop where
  length_eq : written.length = buffer.length
  slice_eq : slice written offset source.length = source
  getElem?_eq : ∀ i, i < offset ∨ offset + source.length ≤ i → written[i]? = buffer[i]?

/-- A buffer taken apart where something is to be written. -/
theorem overwrites_append {buffer source : Bytes} {offset : Nat}
    (h : offset + source.length ≤ buffer.length) :
    Overwrites (buffer.take offset ++ (source ++ buffer.drop (offset + source.length))) buffer
      offset source := by
  have hbefore : (buffer.take offset).length = offset := by
    rw [List.length_take]
    omega
  refine ⟨?_, slice_append hbefore rfl, ?_⟩
  · rw [List.length_append, List.length_append, List.length_drop, hbefore]
    omega
  · rintro i (hlt | hge)
    · rw [List.getElem?_append_left (by omega), List.getElem?_take_of_lt hlt]
    · rw [List.getElem?_append_right (by omega), List.getElem?_append_right (by omega),
        List.getElem?_drop, hbefore]
      congr 1
      omega

namespace Writer

/-- A writer has written `source` into a buffer from `offset` on: before the
next write lie the bytes before `offset` and then `source`, and behind it is
the rest of the buffer. -/
structure Fills (w : Writer) (buffer : Bytes) (offset : Nat) (source : Bytes) : Prop where
  done_eq : w.parts.reverse.flatten = buffer.take offset ++ source
  rest_eq : w.rest = buffer.drop (offset + source.length)

variable {w : Writer} {buffer source : Bytes} {offset : Nat}

/-- The next write begins behind the parts before it. -/
theorem offset_eq (w : Writer) : w.offset = w.parts.reverse.flatten.length := by
  obtain ⟨parts, rest⟩ := w
  rw [offset]
  induction parts with
  | nil => rfl
  | cons part parts ih =>
    rw [List.foldr_cons, ih, List.reverse_cons, List.flatten_append, List.flatten_singleton,
      List.length_append, Nat.add_comm]

theorem fills_startAt (buffer : Bytes) (offset : Nat) :
    (startAt buffer offset).Fills buffer offset [] := by
  constructor
  · rw [startAt, front_eq_take, List.reverse_singleton, List.flatten_singleton, List.append_nil]
  · rfl

/-- **A write adds what there is room for.** -/
theorem Fills.put (h : w.Fills buffer offset source) (more : Bytes) :
    (w.put more).Fills buffer offset
      (source ++ more.take (buffer.length - (offset + source.length))) := by
  have hroom : w.rest.length = buffer.length - (offset + source.length) := by
    rw [h.rest_eq, List.length_drop]
  rw [Writer.put, front_eq_take, hroom]
  constructor
  · rw [List.reverse_cons, List.flatten_append, List.flatten_singleton, h.done_eq,
      List.append_assoc]
  · rw [h.rest_eq, List.drop_drop, List.length_append, Nat.add_assoc]

/-- A write that there is room for adds all of it. -/
theorem Fills.put_of_le (h : w.Fills buffer offset source) (more : Bytes)
    (hfits : offset + source.length + more.length ≤ buffer.length) :
    (w.put more).Fills buffer offset (source ++ more) := by
  have hput := h.put more
  rwa [List.take_of_length_le (by omega)] at hput

theorem Fills.offset_eq (h : w.Fills buffer offset source) (hoffset : offset ≤ buffer.length) :
    w.offset = offset + source.length := by
  rw [Writer.offset_eq, h.done_eq, List.length_append, List.length_take, Nat.min_eq_left hoffset]

theorem Fills.overwrites (h : w.Fills buffer offset source)
    (hfits : offset + source.length ≤ buffer.length) :
    Overwrites w.bytes buffer offset source := by
  rw [bytes_eq, h.done_eq, h.rest_eq, List.append_assoc]
  exact overwrites_append hfits

end Writer

namespace Write

variable {buffer block : Bytes} {offset : Nat} {streamId type : Number}

/-! ## Headers -/

/-- A stream id and the code of a kind are written, and six bytes with
them. -/
theorem header_overwrites (hfits : offset + Wire.headerSize ≤ buffer.length) {id : Nat}
    (hid : StreamId.ofNumber? streamId = some id) {kind : FrameKind}
    (hkind : FrameKind.ofCode? type = some kind) (flags : Number) :
    ∃ (first second : Bytes) (written : Writer),
      Spells first 4 id ∧ Spells second 2 (kind.code <<< 10 ||| flags.wireFlags.toNat) ∧
      (header streamId type flags).run (.startAt buffer offset) = .ok () written ∧
      written.offset = offset + Wire.headerSize ∧
      Overwrites written.bytes buffer offset (first ++ second) := by
  have hle := (StreamId.ofNumber?_eq_some_iff.1 hid).2
  rw [Wire.maxStreamId] at hle
  have hlength := Header.length_bytes id kind flags.wireFlags
  have hrun : (header streamId type flags).run (.startAt buffer offset) =
      .ok () ((Writer.startAt buffer offset).put (Header.bytes id kind flags.wireFlags)) := by
    rw [header, hid, resolveKind, hkind]
    rfl
  have hfills := (Writer.fills_startAt buffer offset).put_of_le
    (Header.bytes id kind flags.wireFlags) (by rwa [List.length_nil, hlength])
  rw [List.nil_append] at hfills
  have hoffset := hfills.offset_eq (by omega)
  have hwritten := hfills.overwrites (by omega)
  rw [hlength] at hoffset
  exact ⟨_, _, _, spells_encode (by omega), spells_tag kind flags.wireFlags, hrun, hoffset,
    hwritten⟩

/-- A value that is no stream id is refused first, and then one that is no
code of a kind. -/
theorem header_unchanged (flags : Number)
    (h : StreamId.ofNumber? streamId = none ∨ FrameKind.ofCode? type = none) :
    ∃ (fault : Fault) (left : Writer),
      (header streamId type flags).run (.startAt buffer offset) = .error fault left ∧
      (fault = .invalidStreamId streamId ∨ fault = .unknownType type) ∧ left.bytes = buffer := by
  have hkept := Writer.bytes_startAt buffer offset
  cases hid : StreamId.ofNumber? streamId with
  | none =>
    refine ⟨_, .startAt buffer offset, ?_, .inl rfl, hkept⟩
    rw [header, hid]
    rfl
  | some id =>
    rw [hid] at h
    have hnone := h.resolve_left (Option.some_ne_none id)
    refine ⟨_, .startAt buffer offset, ?_, .inr rfl, hkept⟩
    rw [header, hid, resolveKind, hnone]
    rfl

/-! ## Metadata -/

/-- Metadata that has a length is written behind it, as far as there is
room. -/
theorem metadata_overwrites (hfits : offset + Wire.metadataLengthSize ≤ buffer.length)
    (hshort : block.length ≤ Wire.maxMetadataLength) {k : Nat}
    (hk : k = min block.length (buffer.length - offset - Wire.metadataLengthSize)) :
    ∃ (length : Bytes) (written : Writer),
      Spells length 3 block.length ∧
      (metadata block).run (.startAt buffer offset) = .ok () written ∧
      written.offset = offset + Wire.metadataLengthSize + k ∧
      Overwrites written.bytes buffer offset (length ++ block.take k) := by
  let length := BigEndian.encode Wire.metadataLengthSize block.length
  have hlength : length.length = Wire.metadataLengthSize := BigEndian.length_encode _ _
  have hrun : (metadata block).run (.startAt buffer offset) =
      .ok () (((Writer.startAt buffer offset).put length).put block) := by
    rw [metadata, if_neg (Nat.not_lt.2 hshort)]
    rfl
  have hfills := ((Writer.fills_startAt buffer offset).put_of_le length
    (by rwa [List.length_nil, hlength])).put block
  have htaken : block.take (buffer.length - (offset + length.length)) = block.take k := by
    rw [hk, hlength, List.take_eq_take_iff]
    omega
  rw [List.nil_append, htaken] at hfills
  have hall : (length ++ block.take k).length = Wire.metadataLengthSize + k := by
    rw [List.length_append, hlength, List.length_take, hk]
    omega
  have hoffset := hfills.offset_eq (by omega)
  rw [hall, ← Nat.add_assoc] at hoffset
  have hspells : Spells (BigEndian.encode 3 block.length) 3 block.length := by
    rw [Wire.maxMetadataLength] at hshort
    exact spells_encode (by omega)
  exact ⟨length, _, hspells, hrun, hoffset, hfills.overwrites (by omega)⟩

/-- Metadata that is too long for its length is refused. -/
theorem metadata_unchanged (hlong : Wire.maxMetadataLength < block.length) :
    ∃ left, (metadata block).run (.startAt buffer offset) =
      .error (.metadataTooLong block.length) left ∧ left.bytes = buffer := by
  refine ⟨.startAt buffer offset, ?_, Writer.bytes_startAt buffer offset⟩
  rw [metadata, if_pos hlong]
  rfl

/-! ## Either writer -/

/-- **A writer touches its own bytes, or none.** At a place of a buffer with
room for six bytes, a stream id and the code of a kind are written as a
header: the id, and the code above ten flags. The next write begins six
bytes on, and no byte but those six has changed. Any other value is refused,
as a stream id or as an unknown type, and no byte has changed.

At a place with room for three bytes, metadata is written behind its length,
and cut without a word where the buffer ends. The next write begins behind
what was written, and no other byte has changed. If the metadata is too long
for its length it is refused, and no byte has changed. -/
theorem overwrites_or_unchanged (buffer : Bytes) (offset : Nat) :
    (offset + Wire.headerSize ≤ buffer.length → ∀ streamId type flags : Number,
      (∀ id kind, StreamId.ofNumber? streamId = some id → FrameKind.ofCode? type = some kind →
        ∃ (first second : Bytes) (written : Writer),
          Spells first 4 id ∧ Spells second 2 (kind.code <<< 10 ||| flags.wireFlags.toNat) ∧
          (header streamId type flags).run (.startAt buffer offset) = .ok () written ∧
          written.offset = offset + Wire.headerSize ∧
          Overwrites written.bytes buffer offset (first ++ second)) ∧
      (StreamId.ofNumber? streamId = none ∨ FrameKind.ofCode? type = none →
        ∃ (fault : Fault) (left : Writer),
          (header streamId type flags).run (.startAt buffer offset) = .error fault left ∧
          (fault = .invalidStreamId streamId ∧ fault.category = .range ∨
            fault = .unknownType type ∧ fault.category = .unknownFrameType) ∧
          left.bytes = buffer)) ∧
    (offset + Wire.metadataLengthSize ≤ buffer.length → ∀ block : Bytes,
      (block.length ≤ Wire.maxMetadataLength →
        let k := min block.length (buffer.length - offset - Wire.metadataLengthSize)
        ∃ (length : Bytes) (written : Writer),
          Spells length 3 block.length ∧
          (metadata block).run (.startAt buffer offset) = .ok () written ∧
          written.offset = offset + Wire.metadataLengthSize + k ∧
          Overwrites written.bytes buffer offset (length ++ block.take k)) ∧
      (Wire.maxMetadataLength < block.length →
        ∃ left, (metadata block).run (.startAt buffer offset) =
          .error (.metadataTooLong block.length) left ∧ left.bytes = buffer)) := by
  refine ⟨fun hfits streamId type flags => ⟨fun id kind hid hkind => ?_, fun hnone => ?_⟩,
    fun hfits block => ⟨fun hshort => ?_, metadata_unchanged⟩⟩
  · exact header_overwrites hfits hid hkind flags
  · obtain ⟨fault, left, hrun, hfault, hkept⟩ := header_unchanged flags hnone
    refine ⟨fault, left, hrun, ?_, hkept⟩
    rcases hfault with rfl | rfl
    · exact .inl ⟨rfl, rfl⟩
    · exact .inr ⟨rfl, rfl⟩
  · exact metadata_overwrites hfits hshort rfl

/-- Into nine bytes, from the third on: a header, with an eleventh flag that
is dropped; a code that no kind has; six bytes of metadata, for four of
which there is room; and metadata a byte too long. -/
theorem overwrites_or_unchanged_nine :
    let buffer : Bytes := List.replicate 9 0xFF
    (∃ written, (header (.ofNat 5) (.ofNat 10) (.ofNat 0x420)).run (.startAt buffer 2) =
        .ok () written ∧ written.offset = 8 ∧
        written.bytes = [0xFF, 0xFF, 0, 0, 0, 5, 0x28, 0x20, 0xFF] ∧
        ∀ i, i < 2 ∨ 8 ≤ i → written.bytes[i]? = buffer[i]?) ∧
      (∃ fault left, (header (.ofNat 5) (.ofNat 15) (.ofNat 0)).run (.startAt buffer 2) =
        .error fault left ∧ left.bytes = buffer) ∧
      (∃ written, (metadata [1, 2, 3, 4, 5, 6]).run (.startAt buffer 2) = .ok () written ∧
        written.offset = 9 ∧ written.bytes = [0xFF, 0xFF, 0, 0, 6, 1, 2, 3, 4]) ∧
      ∃ left, (metadata (List.replicate 0x1000000 0)).run (.startAt buffer 2) =
        .error (.metadataTooLong 0x1000000) left ∧ left.bytes = buffer := by
  intro buffer
  obtain ⟨hheader, hmetadata⟩ := overwrites_or_unchanged buffer 2
  obtain ⟨first, second, written, hfirst, hsecond, hrun, hoffset, hover⟩ :=
    (hheader (by decide) (.ofNat 5) (.ofNat 10) (.ofNat 0x420)).1 5 .payload rfl rfl
  obtain ⟨fault, left, hrefused, -, hkept⟩ :=
    (hheader (by decide) (.ofNat 5) (.ofNat 15) (.ofNat 0)).2 (.inr rfl)
  obtain ⟨length, clipped, -, hclip, hend, -⟩ :=
    (hmetadata (by decide) [1, 2, 3, 4, 5, 6]).1 (by decide)
  have hlong := (hmetadata (by decide) (List.replicate 0x1000000 0)).2 (by
    rw [List.length_replicate]
    decide)
  rw [List.length_replicate] at hlong
  have hsix : (first ++ second).length = 6 := by
    rw [List.length_append, hfirst.length_eq, hsecond.length_eq]
  refine ⟨⟨written, hrun, hoffset, ?_, ?_⟩, ⟨fault, left, hrefused, hkept⟩,
    ⟨clipped, hclip, hend, ?_⟩, hlong⟩
  · cases hrun
    decide
  · have houtside := hover.getElem?_eq
    rwa [hsix] at houtside
  · cases hclip
    decide

end Write

end StreamWire
