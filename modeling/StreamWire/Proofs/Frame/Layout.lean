import StreamWire.Proofs.Frame.Parts
/-!
# Layout — the parts of a frame, found again

`Layout.Tiles` says how the stretches that `Layout.of` finds lie in a
frame: one after the other, from the header to the last byte. So the
pieces they hold (`Layout.parts`) are sound and make the frame, but for
the reserved bit (`isSound_parts`, `bytes_parts`), and of a frame made
of sound parts just those parts are found (`layout_of`, `parts_layout`).
-/

namespace StreamWire

/-- What lies behind a place is the next stretch and what lies behind
that. -/
theorem drop_eq_slice_append (frame : Bytes) (offset length : Nat) :
    frame.drop offset = slice frame offset length ++ frame.drop (offset + length) := by
  rw [slice_eq, ← List.drop_drop, List.take_append_drop]

namespace Layout

/-- The stretches of a frame: fixed fields behind the header, then the
metadata block where there is one, then data up to the end. -/
structure Tiles (l : Layout) (frame : Bytes) : Prop where
  header_eq : Header.decode frame = .ok l.header
  scope_allows : l.traits.scope.allows (.ofNat l.header.streamId) = true
  fixedEnd_le : Wire.headerSize + l.traits.fixedSize ≤ frame.length
  hasMetadata_eq : l.traits.raw = false → l.header.hasMetadata = l.metadata.isSome
  metadata_none : l.metadata = none → l.data.offset = Wire.headerSize + l.traits.fixedSize
  metadata_some : ∀ block, l.metadata = some block →
    l.traits.canHaveMetadata = true ∧
    block.offset = Wire.headerSize + l.traits.fixedSize + Wire.metadataLengthSize ∧
    block.length = BigEndian.decode
      (slice frame (Wire.headerSize + l.traits.fixedSize) Wire.metadataLengthSize) ∧
    l.data.offset = block.offset + block.length
  data_end : l.data.offset + l.data.length = frame.length
  data_length : l.traits.raw = false → l.traits.canHaveData = false → l.data.length = 0

/-- Data reaches up to the end, and is nothing where the kind carries
none. -/
theorem dataSection_eq_ok {header : Header} {metadata : Option Section} {offset length : Nat}
    {l : Layout} (h : dataSection header metadata offset length = .ok l) :
    l = ⟨header, metadata, ⟨offset, length - offset⟩⟩ ∧
      (header.kind.traits.canHaveData = false → length - offset = 0) := by
  unfold dataSection at h
  split at h
  · cases h
  · rename_i hdata
    cases h
    refine ⟨rfl, fun hnone => ?_⟩
    simpa [hnone] using hdata

/-- What lies behind the fixed fields. -/
theorem afterFixedFields_eq_ok {header : Header} {frame : Bytes} {offset : Nat} {l : Layout}
    (h : afterFixedFields header frame offset = .ok l) :
    (header.hasMetadata = false ∧ dataSection header none offset frame.length = .ok l) ∨
    (header.hasMetadata = true ∧ header.kind.traits.canHaveMetadata = true ∧
      ∃ announced, announced = BigEndian.decode (slice frame offset Wire.metadataLengthSize) ∧
        offset + Wire.metadataLengthSize + announced ≤ frame.length ∧
        dataSection header (some ⟨offset + Wire.metadataLengthSize, announced⟩)
          (offset + Wire.metadataLengthSize + announced) frame.length = .ok l) := by
  simp only [afterFixedFields] at h
  split at h
  · rename_i hflag
    exact .inl ⟨by simpa using hflag, h⟩
  rename_i hflag
  -- Three refusals: the kind has no metadata, its length is cut, it is cut itself.
  split at h
  · cases h
  rename_i hallowed
  split at h
  · cases h
  split at h
  · cases h
  rename_i hroom
  exact .inr ⟨by simpa using hflag, by simpa using hallowed, _, rfl, Nat.not_lt.1 hroom, h⟩

/-- A frame whose body is not interpreted: all of it is data. -/
theorem tiles_raw {frame : Bytes} {header : Header} (hheader : Header.decode frame = .ok header)
    (hscope : header.kind.traits.scope.allows (.ofNat header.streamId) = true)
    (hraw : header.kind.traits.raw = true) (hlong : Wire.headerSize ≤ frame.length) :
    Tiles ⟨header, none, ⟨Wire.headerSize, frame.length - Wire.headerSize⟩⟩ frame := by
  have hfixed : header.kind.traits.fixedSize = 0 := fixedSize_of_raw hraw
  have hnot : ¬ header.kind.traits.raw = false := by simp [hraw]
  refine ⟨hheader, hscope, ?_, fun h => absurd h hnot, fun _ => ?_, ?_, ?_,
    fun h => absurd h hnot⟩
  · rw [Layout.traits, hfixed]
    exact hlong
  · rw [Layout.traits, hfixed]
    rfl
  · intro block hblock
    cases hblock
  · exact Nat.add_sub_cancel' hlong

/-- A frame whose body is interpreted. -/
theorem tiles_afterFixedFields {frame : Bytes} {header : Header} {l : Layout}
    (hheader : Header.decode frame = .ok header)
    (hscope : header.kind.traits.scope.allows (.ofNat header.streamId) = true)
    (hfixed : Wire.headerSize + header.kind.traits.fixedSize ≤ frame.length)
    (h : afterFixedFields header frame (Wire.headerSize + header.kind.traits.fixedSize) = .ok l) :
    l.Tiles frame := by
  rcases afterFixedFields_eq_ok h with ⟨hflag, hdata⟩ | ⟨hflag, hallowed, announced, hannounced,
    hroom, hdata⟩
  · -- Data begins where the fixed fields end.
    obtain ⟨rfl, hnone⟩ := dataSection_eq_ok hdata
    refine ⟨hheader, hscope, hfixed, fun _ => hflag, fun _ => rfl, ?_, ?_, fun _ => hnone⟩
    · intro block hblock
      cases hblock
    · exact Nat.add_sub_cancel' hfixed
  · -- Data begins where the metadata block ends.
    obtain ⟨rfl, hnone⟩ := dataSection_eq_ok hdata
    refine ⟨hheader, hscope, hfixed, fun _ => hflag, ?_, ?_, ?_, fun _ => hnone⟩
    · intro hmetadata
      cases hmetadata
    · intro block hblock
      cases hblock
      exact ⟨hallowed, rfl, hannounced, rfl⟩
    · exact Nat.add_sub_cancel' hroom

/-- **The stretches of a frame tile it.** -/
theorem tiles_of {frame : Bytes} {l : Layout} (h : Layout.of frame = .ok l) : l.Tiles frame := by
  unfold Layout.of at h
  cases hheader : Header.decode frame with
  | error fault =>
    rw [hheader] at h
    cases h
  | ok header =>
  simp only [hheader] at h
  split at h
  · cases h
  rename_i hscope
  replace hscope : header.kind.traits.scope.allows (.ofNat header.streamId) = true := by
    simpa using hscope
  split at h
  · rename_i hraw
    cases h
    exact tiles_raw hheader hscope hraw (Header.headerSize_le_of_decode hheader)
  · split at h
    · cases h
    · rename_i hfixed
      exact tiles_afterFixedFields hheader hscope (Nat.not_lt.1 hfixed) h

/-! ## From the frame to its parts -/

/-- The pieces that the stretches hold. -/
def parts (l : Layout) (frame : Bytes) : Parts where
  header := l.header
  fields := slice frame Wire.headerSize l.traits.fixedSize
  metadata := l.metadata.map (·.of frame)
  data := l.data.of frame

/-- Data is what lies behind its offset. -/
theorem Tiles.data_of {l : Layout} {frame : Bytes} (h : l.Tiles frame) :
    l.data.of frame = frame.drop l.data.offset := by
  have hend := h.data_end
  rw [Section.of, slice_eq]
  apply List.take_of_length_le
  rw [List.length_drop]
  omega

/-- The metadata block lies between the fixed fields and the data. -/
theorem Tiles.metadataBlock_append {l : Layout} {frame : Bytes} (h : l.Tiles frame)
    {block : Section} (hblock : l.metadata = some block) :
    frame.drop (Wire.headerSize + l.traits.fixedSize) =
      metadataBlock (some (block.of frame)) ++ frame.drop l.data.offset ∧
    (block.of frame).length ≤ Wire.maxMetadataLength := by
  obtain ⟨-, hoffset, hlength, hdata⟩ := h.metadata_some block hblock
  have hend := h.data_end
  have hprefix : (slice frame (Wire.headerSize + l.traits.fixedSize)
      Wire.metadataLengthSize).length = Wire.metadataLengthSize := by
    apply length_slice
    omega
  have hpiece : (block.of frame).length = block.length := by
    apply length_slice
    omega
  -- A length of three bytes is no longer than metadata may be.
  have hannounced := BigEndian.decode_lt
    (slice frame (Wire.headerSize + l.traits.fixedSize) Wire.metadataLengthSize)
  rw [← hlength, hprefix, Wire.metadataLengthSize] at hannounced
  constructor
  · rw [metadataBlock, hpiece, hlength, BigEndian.encode_decode_of_length hprefix, Section.of,
      List.append_assoc, hdata, ← drop_eq_slice_append, hoffset, ← drop_eq_slice_append]
  · rw [hpiece, Wire.maxMetadataLength]
    omega

/-- The pieces of a frame are sound. -/
theorem Tiles.isSound_parts {l : Layout} {frame : Bytes} (h : l.Tiles frame) :
    (l.parts frame).IsSound where
  streamId_le := (Header.clearReserved_of_decode h.header_eq).1
  scope_allows := h.scope_allows
  length_fields := length_slice h.fixedEnd_le
  hasMetadata_eq hraw := by
    rw [parts, Option.isSome_map]
    exact h.hasMetadata_eq hraw
  canHaveMetadata hsome := by
    rw [parts, Option.isSome_map, Option.isSome_iff_exists] at hsome
    obtain ⟨block, hblock⟩ := hsome
    exact (h.metadata_some block hblock).1
  length_metadata piece hpiece := by
    obtain ⟨block, hblock, rfl⟩ := Option.map_eq_some_iff.1 hpiece
    exact (h.metadataBlock_append hblock).2
  data_eq_nil hraw hdata := by
    have hnone := h.data_length hraw hdata
    simp only [parts, Section.of, slice_eq, hnone, List.take_zero]

/-- **The pieces of a frame make the frame**, but for the reserved
bit. -/
theorem Tiles.bytes_parts {l : Layout} {frame : Bytes} (h : l.Tiles frame) :
    (l.parts frame).bytes = clearReserved frame := by
  have hfields := drop_eq_slice_append frame Wire.headerSize l.traits.fixedSize
  rw [(Header.clearReserved_of_decode h.header_eq).2, hfields]
  simp only [Parts.bytes, Parts.headerBytes, parts, h.data_of]
  cases hmetadata : l.metadata with
  | none => rw [h.metadata_none hmetadata, Option.map_none, metadataBlock, List.nil_append]
  | some block => rw [Option.map_some, (h.metadataBlock_append hmetadata).1]

end Layout

/-! ## From the parts to the frame -/

namespace Parts

/-- Where the parts lie in the frame they make. -/
def layout (p : Parts) : Layout where
  header := p.header
  metadata := p.metadata.map fun block =>
    ⟨Wire.headerSize + p.traits.fixedSize + Wire.metadataLengthSize, block.length⟩
  data := ⟨Wire.headerSize + p.traits.fixedSize + Frame.metadataSize p.metadata, p.data.length⟩

theorem IsSound.metadata_eq_none {p : Parts} (h : p.IsSound)
    (hkind : p.traits.canHaveMetadata = false) : p.metadata = none := by
  by_contra hne
  have := h.canHaveMetadata (Option.isSome_iff_ne_none.2 hne)
  rw [hkind] at this
  cases this

theorem IsSound.header_decode {p : Parts} (h : p.IsSound) :
    Header.decode p.bytes = .ok p.header :=
  Header.decode_bytes_append h.streamId_le _ _ _

theorem IsSound.length_eq {p : Parts} (h : p.IsSound) :
    p.bytes.length =
      Wire.headerSize + p.traits.fixedSize + Frame.metadataSize p.metadata + p.data.length := by
  rw [length_bytes, h.length_fields]

/-- Data that the kind carries is found behind everything else. -/
theorem IsSound.dataSection_eq {p : Parts} (h : p.IsSound) (hraw : p.traits.raw = false)
    (metadata : Option Section) {offset : Nat} (hoffset : offset + p.data.length = p.bytes.length) :
    Layout.dataSection p.header metadata offset p.bytes.length =
      .ok ⟨p.header, metadata, ⟨offset, p.data.length⟩⟩ := by
  have hlength : p.bytes.length - offset = p.data.length := by omega
  rw [Layout.dataSection, hlength, if_neg]
  intro hrefused
  rw [Bool.and_eq_true, bne_iff_ne, Bool.not_eq_true'] at hrefused
  exact hrefused.2 (by rw [h.data_eq_nil hraw hrefused.1, List.length_nil])

/-- The length of the metadata stands behind the fixed fields. -/
theorem IsSound.announced {p : Parts} (h : p.IsSound) {block : Bytes}
    (hblock : p.metadata = some block) :
    BigEndian.decode
      (slice p.bytes (Wire.headerSize + p.traits.fixedSize) Wire.metadataLengthSize) =
        block.length := by
  have hbytes : p.bytes = (p.headerBytes ++ p.fields) ++
      (BigEndian.encode Wire.metadataLengthSize block.length ++ (block ++ p.data)) := by
    rw [bytes, hblock, metadataBlock, List.append_assoc, List.append_assoc]
  have hbefore : (p.headerBytes ++ p.fields).length = Wire.headerSize + p.traits.fixedSize := by
    rw [List.length_append, headerBytes, Header.length_bytes, h.length_fields]
  have hfits := h.length_metadata block hblock
  rw [hbytes, slice_append hbefore (BigEndian.length_encode _ _), BigEndian.decode_encode_of_lt]
  rw [Wire.metadataLengthSize]
  rw [Wire.maxMetadataLength] at hfits
  omega

/-- What is judged behind the fixed fields of sound parts. -/
theorem IsSound.afterFixedFields_eq {p : Parts} (h : p.IsSound) (hraw : p.traits.raw = false) :
    Layout.afterFixedFields p.header p.bytes (Wire.headerSize + p.traits.fixedSize) =
      .ok p.layout := by
  have hlength := h.length_eq
  have hflag := h.hasMetadata_eq hraw
  simp only [Layout.afterFixedFields]
  cases hmetadata : p.metadata with
  | none =>
    rw [hmetadata, Frame.metadataSize] at hlength
    rw [hmetadata, Option.isSome_none] at hflag
    rw [hflag, Bool.not_false, if_pos rfl, h.dataSection_eq hraw none (by omega), layout, hmetadata]
    rfl
  | some block =>
    rw [hmetadata, Frame.metadataSize] at hlength
    rw [hmetadata, Option.isSome_some] at hflag
    have hallowed := h.canHaveMetadata (by rw [hmetadata]; rfl)
    have hroom : ¬ p.bytes.length <
        Wire.headerSize + p.traits.fixedSize + Wire.metadataLengthSize := by omega
    have hblock : ¬ p.bytes.length <
        Wire.headerSize + p.traits.fixedSize + Wire.metadataLengthSize + block.length := by omega
    rw [hflag, hallowed, Bool.not_true, if_neg Bool.false_ne_true, if_neg Bool.false_ne_true,
      if_neg hroom, h.announced hmetadata, if_neg hblock,
      h.dataSection_eq hraw _ (by omega), layout, hmetadata]
    rw [Option.map_some, Frame.metadataSize, ← Nat.add_assoc]

/-- **Of sound parts just those are found** in the frame they make. -/
theorem IsSound.layout_of {p : Parts} (h : p.IsSound) : Layout.of p.bytes = .ok p.layout := by
  have hlength := h.length_eq
  simp only [Layout.of, h.header_decode, h.scope_allows, Bool.not_true, Bool.false_eq_true,
    if_false]
  by_cases hraw : p.traits.raw = true
  · -- A body that is not interpreted begins behind the header.
    have hmetadata := h.metadata_eq_none (canHaveMetadata_of_raw hraw)
    have hfixed : p.traits.fixedSize = 0 := fixedSize_of_raw hraw
    rw [hmetadata, hfixed, Frame.metadataSize, Nat.add_zero] at hlength
    rw [if_pos hraw, hlength, layout, hmetadata, hfixed, Frame.metadataSize,
      Nat.add_sub_cancel_left]
    rfl
  · have hroom : ¬ p.bytes.length < Wire.headerSize + p.traits.fixedSize := by omega
    rw [if_neg hraw, if_neg hroom]
    exact h.afterFixedFields_eq (by simpa using hraw)

theorem IsSound.slice_fields {p : Parts} (h : p.IsSound) :
    slice p.bytes Wire.headerSize p.traits.fixedSize = p.fields :=
  slice_append (Header.length_bytes _ _ _) h.length_fields

theorem IsSound.metadata_of {p : Parts} (h : p.IsSound) :
    p.layout.metadata.map (·.of p.bytes) = p.metadata := by
  cases hmetadata : p.metadata with
  | none => simp [layout, hmetadata]
  | some block =>
    have hbytes : p.bytes = (p.headerBytes ++ p.fields ++
        BigEndian.encode Wire.metadataLengthSize block.length) ++ (block ++ p.data) := by
      rw [bytes, hmetadata, metadataBlock]
      simp only [List.append_assoc]
    have hbefore : (p.headerBytes ++ p.fields ++
        BigEndian.encode Wire.metadataLengthSize block.length).length =
          Wire.headerSize + p.traits.fixedSize + Wire.metadataLengthSize := by
      rw [List.length_append, List.length_append, headerBytes, Header.length_bytes,
        h.length_fields, BigEndian.length_encode]
    rw [layout, hmetadata, Option.map_some, Option.map_some, Section.of, hbytes,
      slice_append hbefore rfl]

theorem IsSound.data_of {p : Parts} (h : p.IsSound) : p.layout.data.of p.bytes = p.data := by
  have hbytes : p.bytes = (p.headerBytes ++ p.fields ++ metadataBlock p.metadata) ++ p.data := by
    rw [bytes]
    simp only [List.append_assoc]
  have hbefore : (p.headerBytes ++ p.fields ++ metadataBlock p.metadata).length =
      Wire.headerSize + p.traits.fixedSize + Frame.metadataSize p.metadata := by
    rw [List.length_append, List.length_append, headerBytes, Header.length_bytes,
      h.length_fields, length_metadataBlock]
  rw [layout, Section.of, hbytes, slice_append_last hbefore rfl]

/-- And they are the parts it was made of. -/
theorem IsSound.parts_layout {p : Parts} (h : p.IsSound) : p.layout.parts p.bytes = p := by
  rw [Layout.parts, h.metadata_of, h.data_of]
  simp only [Layout.traits, layout, h.slice_fields]

end Parts

end StreamWire
