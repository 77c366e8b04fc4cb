import StreamWire.Proofs.Frame.Readers
/-!
# Truncation — frames cut short and frames run on

What comes before the data of an encoded frame says how long it is itself,
and nothing in it says how long the data is. So a frame is its
`Parts.opening` and then its data, and any data behind the opening makes a
frame of an open-ended kind (`Frame.decode_opening`). A cut inside the
opening leaves some part of it that is not all there, and bytes behind a
frame without data are too many; which of that is found the number of bytes
decides (`Parts.IsSound.layout_of_alike`, `Parts.exists_found_of_lt`,
`Parts.exists_found_of_gt`). `Frame.decode_cut_or_extended` goes through
every cut of every frame.
-/

namespace StreamWire

/-- Frames of the kind reach to the end of their bytes, with data or with a
body that is not interpreted. -/
def Traits.isOpenEnded (t : Traits) : Bool := t.canHaveData || t.raw

/-! ## Other data -/

/-- The body with other data, if it is one that has data. -/
def Body.withData (body : Body) (data : Bytes) : Body :=
  match body with
  | .message head payload => .message head { payload with data }
  | .error code _ => .error code data
  | .keepAlive position _ => .keepAlive position data
  | .raw kind _ => .raw kind data
  | other => other

/-- The frame with other data, if it is one that has data. -/
def Frame.withData (f : Frame) (data : Bytes) : Frame := { f with body := f.body.withData data }

namespace Body

variable {body : Body} {data : Bytes}

@[simp] theorem kind_withData : (body.withData data).kind = body.kind := by
  cases body <;> rfl

@[simp] theorem metadata_withData : (body.withData data).metadata = body.metadata := by
  cases body <;> rfl

@[simp] theorem fixedFields_withData : (body.withData data).fixedFields = body.fixedFields := by
  rcases body with ⟨_ | _ | _ | _ | _, _⟩ | _ | _ | _ | _ | _ | _ | _ <;> rfl

theorem normal_withData : (body.withData data).normal = body.normal.withData data := by
  rcases body with ⟨_ | _ | _ | _ | _, _⟩ | _ | _ | _ | _ | _ | _ | _ <;> rfl

/-- Bodies of open-ended kinds have the data they are given. -/
theorem data_withData {kind : FrameKind} (hkind : body.kind = .ok kind)
    (hopen : kind.traits.isOpenEnded = true) : (body.withData data).data = data := by
  cases body with
  | message | error | keepAlive | raw => rfl
  | requestN | cancel | metadataPush => cases hkind; cases hopen
  | unassigned => cases hkind

end Body

namespace Frame

variable {f : Frame} {data : Bytes}

@[simp] theorem wireFlags_withData : (f.withData data).wireFlags = f.wireFlags := by
  have hkind : (f.withData data).kind = f.kind := Body.kind_withData
  have hmetadata : (f.withData data).metadata = f.metadata := Body.metadata_withData
  rw [wireFlags, wireFlags, hkind, hmetadata]
  rfl

theorem normal_withData : (f.withData data).normal = f.normal.withData data := by
  simp only [normal, wireFlags_withData]
  simp only [withData, Body.normal_withData]

end Frame

/-! ## The opening of a frame -/

namespace Parts

variable {p : Parts}

/-- All that comes before the data. -/
def opening (p : Parts) : Bytes := p.headerBytes ++ (p.fields ++ metadataBlock p.metadata)

/-- A frame is its opening, and then its data. -/
theorem bytes_eq_opening_append (p : Parts) : p.bytes = p.opening ++ p.data := by
  simp only [bytes, opening, List.append_assoc]

/-- Data begins where the opening ends. -/
theorem IsSound.length_opening (h : p.IsSound) : p.opening.length = p.layout.data.offset := by
  simp only [opening, headerBytes, layout, List.length_append, Header.length_bytes,
    length_metadataBlock, h.length_fields]
  omega

end Parts

namespace Frame

variable {f : Frame} {p : Parts}

/-- A frame of an open-ended kind has the parts it had, but for its data,
when it is given other data. -/
theorem parts_withData (h : f.parts = .ok p) (hopen : p.traits.isOpenEnded = true) (data : Bytes) :
    (f.withData data).parts = .ok { p with data } := by
  obtain ⟨hkind, hscope, hid, hfields, hshort, hflags, hmetadata, -⟩ := parts_eq_ok_iff.1 h
  have hblock : (f.withData data).metadata = f.metadata := Body.metadata_withData
  refine parts_eq_ok_iff.2 ⟨Body.kind_withData.trans hkind, hscope, hid,
    Body.fixedFields_withData.trans hfields, ?_, wireFlags_withData.trans hflags,
    hmetadata.trans hblock.symm, (Body.data_withData hkind hopen).symm⟩
  rwa [hblock]

/-- **Any data behind the opening of an open-ended frame** is the data of
what is read. -/
theorem decode_opening (h : f.parts = .ok p) (hopen : p.traits.isOpenEnded = true)
    (data : Bytes) : decode (p.opening ++ data) = .ok (f.normal.withData data) := by
  have hencode : (f.withData data).encode = .ok (p.opening ++ data) := by
    rw [encode_eq, parts_withData h hopen]
    exact congrArg Except.ok (Parts.bytes_eq_opening_append { p with data })
  rw [decode_of_encode hencode, normal_withData]

end Frame

/-! ## Frames that begin alike -/

/-- Two byte strings agree as far as both of them reach. -/
def BeginAlike (bytes other : Bytes) : Prop :=
  bytes.take other.length = other.take bytes.length

namespace BeginAlike

variable {bytes other : Bytes}

/-- A byte string agrees with what is left of it by a cut. -/
theorem take (bytes : Bytes) (n : Nat) : BeginAlike (bytes.take n) bytes := by
  rw [BeginAlike, List.length_take, List.take_take, Nat.min_comm]

/-- And with what it is followed up to. -/
theorem append (bytes more : Bytes) : BeginAlike (bytes ++ more) bytes := by
  rw [BeginAlike, List.take_left' rfl, List.take_of_length_le]
  rw [List.length_append]
  exact Nat.le_add_right _ _

/-- What both of them reach is the same in both. -/
theorem slice_eq (h : BeginAlike bytes other) {offset length : Nat}
    (hbytes : offset + length ≤ bytes.length) (hother : offset + length ≤ other.length) :
    slice bytes offset length = slice other offset length := by
  rw [← slice_take hother, h, slice_take hbytes]

end BeginAlike

namespace Parts

variable {p : Parts} {frame : Bytes}

/-- What is found of the parts in so many bytes that begin as they do. -/
def found (p : Parts) (length : Nat) : Except Fault Layout :=
  let fixedEnd := Wire.headerSize + p.traits.fixedSize
  if length < fixedEnd then
    .error (.fixedFieldsCut p.header.kind fixedEnd length)
  else
    match p.metadata with
    | none => Layout.dataSection p.header none fixedEnd length
    | some block =>
      let start := fixedEnd + Wire.metadataLengthSize
      if length < start then
        .error (.metadataLengthCut p.header.kind)
      else if length < start + block.length then
        .error (.metadataOverrun p.header.kind block.length (length - start))
      else
        Layout.dataSection p.header (some ⟨start, block.length⟩) (start + block.length) length

/-- The header is read as it was written. -/
theorem IsSound.header_of_alike (h : p.IsSound) (hlong : 6 ≤ frame.length)
    (halike : BeginAlike frame p.bytes) : Header.decode frame = .ok p.header := by
  have hheader : p.headerBytes.length = 6 := Header.length_bytes _ _ _
  have hreach : 6 ≤ p.bytes.length := by
    rw [h.length_eq, Wire.headerSize]
    omega
  have hfirst : frame.take 6 = p.headerBytes := by
    have hsame : slice frame 0 6 = slice p.bytes 0 6 :=
      halike.slice_eq (by omega) (by omega)
    rw [slice_eq, slice_eq, List.drop_zero, List.drop_zero] at hsame
    rw [hsame, bytes]
    exact List.take_left' hheader
  rw [← List.take_append_drop 6 frame, hfirst]
  exact Header.decode_bytes_append h.streamId_le _ _ _

/-- **Of frames that begin alike the length decides** what is found. -/
theorem IsSound.layout_of_alike (h : p.IsSound) (hraw : p.traits.raw = false)
    (hlong : 6 ≤ frame.length) (halike : BeginAlike frame p.bytes) :
    Layout.of frame = p.found frame.length := by
  simp only [Layout.of, h.header_of_alike hlong halike, h.scope_allows, hraw, Bool.not_true,
    Bool.false_eq_true, if_false]
  unfold found
  dsimp only
  split
  · rfl
  have hflag := h.hasMetadata_eq hraw
  rw [Layout.afterFixedFields]
  cases hmetadata : p.metadata with
  | none =>
    rw [hmetadata, Option.isSome_none] at hflag
    rw [hflag]
    rfl
  | some block =>
    rw [hmetadata, Option.isSome_some] at hflag
    have hallowed := h.canHaveMetadata (by rw [hmetadata]; rfl)
    rw [hflag, hallowed, Bool.not_true, if_neg Bool.false_ne_true, if_neg Bool.false_ne_true]
    by_cases hcut : frame.length < Wire.headerSize + p.traits.fixedSize + Wire.metadataLengthSize
    · dsimp only
      rw [if_pos hcut, if_pos hcut]
    · -- The length of the metadata is all there, and says what it said before.
      have hreach := h.length_eq
      rw [hmetadata, Frame.metadataSize] at hreach
      have hsame := halike.slice_eq (Nat.not_lt.1 hcut) (by omega)
      dsimp only
      rw [if_neg hcut, if_neg hcut, hsame, h.announced hmetadata]

/-- The opening of a frame whose body is not interpreted is its header. -/
theorem IsSound.offset_of_raw (h : p.IsSound) (hraw : p.traits.raw = true) :
    p.layout.data.offset = 6 := by
  have hfixed : p.traits.fixedSize = 0 := fixedSize_of_raw hraw
  rw [layout, h.metadata_eq_none (canHaveMetadata_of_raw hraw), hfixed]
  rfl

/-- **In fewer bytes than the opening has something is not all there**: the
fixed fields, the metadata length, or the metadata. -/
theorem exists_found_of_lt {length : Nat} (hcut : length < p.layout.data.offset) :
    ∃ fault, p.found length = .error fault ∧ fault.category = .inconsistentPayloadSize := by
  unfold found
  dsimp only
  split
  · exact ⟨_, rfl, rfl⟩
  rename_i hfixed
  rw [layout] at hcut
  cases hmetadata : p.metadata with
  | none =>
    rw [hmetadata] at hcut
    exact absurd hcut hfixed
  | some block =>
    rw [hmetadata, Frame.metadataSize] at hcut
    dsimp only at hcut ⊢
    split
    · exact ⟨_, rfl, rfl⟩
    · rw [if_pos (by omega)]
      exact ⟨_, rfl, rfl⟩

/-- **In more bytes than a frame without data has** something is left. -/
theorem exists_found_of_gt {length : Nat} (hnone : p.traits.canHaveData = false)
    (hleft : p.layout.data.offset < length) :
    ∃ fault, p.found length = .error fault ∧ fault.category = .inconsistentPayloadSize := by
  have hdata (metadata : Option Section) {offset : Nat} (hlt : offset < length) :
      Layout.dataSection p.header metadata offset length =
        .error (.trailingBytes p.header.kind (length - offset)) := by
    have hsome : length - offset ≠ 0 := by omega
    rw [Layout.dataSection, if_pos]
    rw [Bool.and_eq_true, bne_iff_ne, Bool.not_eq_true']
    exact ⟨hnone, hsome⟩
  rw [layout] at hleft
  unfold found
  dsimp only at hleft ⊢
  rw [if_neg (by omega)]
  cases hmetadata : p.metadata with
  | none =>
    rw [hmetadata] at hleft
    exact ⟨_, hdata none hleft, rfl⟩
  | some block =>
    rw [hmetadata, Frame.metadataSize] at hleft
    dsimp only
    rw [if_neg (by omega), if_neg (by omega), hdata _ (by omega)]
    exact ⟨_, rfl, rfl⟩

end Parts

/-! ## Every cut of every frame -/

namespace Frame

variable {f : Frame} {p : Parts}

/-- The data of a frame, and what is read of it. -/
theorem data_normal_of_parts (h : f.parts = .ok p) : f.normal.data = p.data := by
  obtain ⟨-, -, -, -, -, -, -, hdata⟩ := parts_eq_ok_iff.1 h
  rw [hdata]
  exact Body.data_normal f.body

/-- A cut inside the header leaves no header. -/
theorem decode_of_short {frame : Bytes} (hshort : frame.length < 6) :
    decode frame = .error (.headerCut frame.length) := by
  apply decode_of_layout_error
  rw [Layout.of, Header.decode, Wire.headerSize, if_pos hshort]

/-- A cut inside the data, or at its end. -/
theorem decode_take_of_le (h : f.parts = .ok p) (hopen : p.traits.isOpenEnded = true) {n : Nat}
    (hle : p.layout.data.offset ≤ n) :
    decode (p.bytes.take n) =
      .ok (f.normal.withData (f.normal.data.take (n - p.layout.data.offset))) := by
  have hlength := (isSound_of_parts h).length_opening
  rw [data_normal_of_parts h, ← hlength, p.bytes_eq_opening_append, List.take_append,
    List.take_of_length_le (by omega), decode_opening h hopen]

/-- A cut before the data. -/
theorem decode_take_of_lt (h : f.parts = .ok p) {n : Nat} (hlt : n < p.layout.data.offset) :
    ∃ fault, decode (p.bytes.take n) = .error fault ∧
      fault.category = if n < 6 then .malformedFrame else .inconsistentPayloadSize := by
  have hsound := isSound_of_parts h
  have hlength : (p.bytes.take n).length = n := by
    rw [List.length_take, p.bytes_eq_opening_append, List.length_append, hsound.length_opening]
    omega
  by_cases hshort : n < 6
  · rw [decode_of_short (by rwa [hlength]), if_pos hshort]
    exact ⟨_, rfl, rfl⟩
  · have hraw : p.traits.raw = false := by
      by_contra hraw
      rw [hsound.offset_of_raw (Bool.eq_true_of_not_eq_false hraw)] at hlt
      exact hshort hlt
    obtain ⟨fault, hfound, hcategory⟩ := Parts.exists_found_of_lt hlt
    have hlayout := hsound.layout_of_alike hraw (by omega) (BeginAlike.take p.bytes n)
    rw [hlength, hfound] at hlayout
    rw [if_neg hshort]
    exact ⟨fault, decode_of_layout_error hlayout, hcategory⟩

/-- More data behind a frame of an open-ended kind. -/
theorem decode_append (h : f.parts = .ok p) (hopen : p.traits.isOpenEnded = true) (more : Bytes) :
    decode (p.bytes ++ more) = .ok (f.normal.withData (f.normal.data ++ more)) := by
  rw [data_normal_of_parts h, p.bytes_eq_opening_append, List.append_assoc,
    decode_opening h hopen]

/-- A frame without data ends with its opening. -/
theorem length_of_closed (h : f.parts = .ok p) (hclosed : p.traits.isOpenEnded = false) :
    p.bytes.length = p.layout.data.offset := by
  have hsound := isSound_of_parts h
  obtain ⟨hnone, hraw⟩ := Bool.or_eq_false_iff.1 hclosed
  rw [p.bytes_eq_opening_append, hsound.data_eq_nil hraw hnone, List.append_nil,
    hsound.length_opening]

/-- Bytes behind it are too many. -/
theorem decode_append_of_closed (h : f.parts = .ok p) (hclosed : p.traits.isOpenEnded = false)
    {more : Bytes} (hne : more ≠ []) :
    ∃ fault, decode (p.bytes ++ more) = .error fault ∧
      fault.category = .inconsistentPayloadSize := by
  obtain ⟨hnone, hraw⟩ := Bool.or_eq_false_iff.1 hclosed
  have hmore := List.length_pos_iff.2 hne
  have hlength : (p.bytes ++ more).length = p.layout.data.offset + more.length := by
    rw [List.length_append, length_of_closed h hclosed]
  have hlong : 6 ≤ p.layout.data.offset := by
    rw [Parts.layout, Wire.headerSize]
    dsimp only
    omega
  obtain ⟨fault, hfound, hcategory⟩ := Parts.exists_found_of_gt hnone
    (Nat.lt_add_of_pos_right (n := p.layout.data.offset) hmore)
  have hlayout := (isSound_of_parts h).layout_of_alike hraw (by omega)
    (BeginAlike.append p.bytes more)
  rw [hlength, hfound] at hlayout
  exact ⟨fault, decode_of_layout_error hlayout, hcategory⟩

/-- **Where a frame is cut, and what is put behind it, changes its data and
nothing else.** Of a frame that is cut short the rest is read exactly if
the frame has data, or a body that is not interpreted, and the cut does not
come before it; what is read then is the frame with as much of its data as
there is. A cut inside the header is malformed, and any other leaves
inconsistent sizes. Bytes behind a frame become part of its data, and where
it has none leave inconsistent sizes. -/
theorem decode_cut_or_extended {bytes : Bytes} (h : f.encode = .ok bytes) :
    ∃ kind l g, f.kind = .ok kind ∧ Layout.of bytes = .ok l ∧ decode bytes = .ok g ∧
      (∀ n < bytes.length,
        ((∃ cut, decode (bytes.take n) = .ok cut) ↔
          (kind.traits.canHaveData = true ∨ kind.traits.raw = true) ∧ l.data.offset ≤ n) ∧
        (∀ cut, decode (bytes.take n) = .ok cut →
          cut = g.withData (g.data.take (n - l.data.offset))) ∧
        (∀ fault, decode (bytes.take n) = .error fault →
          fault.category = if n < 6 then .malformedFrame else .inconsistentPayloadSize)) ∧
      ∀ more : Bytes, more ≠ [] →
        (kind.traits.canHaveData = true ∨ kind.traits.raw = true →
          decode (bytes ++ more) = .ok (g.withData (g.data ++ more))) ∧
        (¬ (kind.traits.canHaveData = true ∨ kind.traits.raw = true) →
          ∃ fault, decode (bytes ++ more) = .error fault ∧
            fault.category = .inconsistentPayloadSize) := by
  have hread := decode_of_encode h
  obtain ⟨p, hp, rfl⟩ := parts_of_encode h
  have hkind := (parts_eq_ok_iff.1 hp).1
  have hiff : p.traits.isOpenEnded = true ↔ p.traits.canHaveData = true ∨ p.traits.raw = true :=
    Bool.or_eq_true_iff
  refine ⟨p.header.kind, p.layout, f.normal, hkind, (isSound_of_parts hp).layout_of, hread,
    fun n hn => ?_, fun more hne => ⟨fun hopen => decode_append hp (hiff.2 hopen) more,
      fun hclosed => ?_⟩⟩
  · by_cases hcut : n < p.layout.data.offset
    · obtain ⟨fault, hrefused, hcategory⟩ := decode_take_of_lt hp hcut
      rw [hrefused]
      refine ⟨⟨?_, fun hboth => absurd hcut (Nat.not_lt.2 hboth.2)⟩, ?_, ?_⟩
      · rintro ⟨cut, hcut⟩
        cases hcut
      · intro cut hcut
        cases hcut
      · intro other hother
        cases hother
        exact hcategory
    · -- A frame that reaches behind its opening has data.
      have hopen : p.traits.isOpenEnded = true := by
        by_contra hclosed
        rw [length_of_closed hp (Bool.eq_false_of_not_eq_true hclosed)] at hn
        exact hcut hn
      rw [decode_take_of_le hp hopen (Nat.not_lt.1 hcut)]
      refine ⟨⟨fun _ => ⟨hiff.1 hopen, Nat.not_lt.1 hcut⟩, fun _ => ⟨_, rfl⟩⟩, ?_, ?_⟩
      · intro cut hcut
        cases hcut
        rfl
      · intro fault hrefused
        cases hrefused
  · refine decode_append_of_closed hp ?_ hne
    exact Bool.eq_false_of_not_eq_true (mt hiff.1 hclosed)

/-- An item with a byte of metadata and two of data, its data cut by one
byte, cut off before its metadata, and lengthened by a byte; and a
cancellation that is followed by a byte. -/
theorem decode_cut_or_extended_payload :
    let item : Bytes := [0, 0, 0, 7, 0x29, 0, 0, 0, 1, 0xA, 0xB, 0xC]
    let cancellation : Bytes := [0, 0, 0, 7, 0x24, 0]
    let read (data : Bytes) : Frame :=
      ⟨.ofNat 7, .ofFlags 0x100, .message .payload ⟨some [0xA], data⟩⟩
    (Frame.ofPayload (.ofNat 7) [0xB, 0xC] (some [0xA]) (.ofNat 0)).encode = .ok item ∧
      decode (item.take 11) = .ok (read [0xB]) ∧
      (∃ fault, decode (item.take 9) = .error fault ∧
        fault.category = .inconsistentPayloadSize) ∧
      decode (item ++ [0xD]) = .ok (read [0xB, 0xC, 0xD]) ∧
      (Frame.ofCancel (.ofNat 7)).encode = .ok cancellation ∧
      ∃ fault, decode (cancellation ++ [0]) = .error fault ∧
        fault.category = .inconsistentPayloadSize := by
  intro item cancellation read
  have hitem : (Frame.ofPayload (.ofNat 7) [0xB, 0xC] (some [0xA]) (.ofNat 0)).encode =
      .ok item := by decide +kernel
  have hcancel : (Frame.ofCancel (.ofNat 7)).encode = .ok cancellation := by decide +kernel
  obtain ⟨kind, l, g, hkind, hlayout, hread, hcuts, hmore⟩ := decode_cut_or_extended hitem
  obtain rfl : FrameKind.payload = kind := Except.ok.inj hkind
  have hfound : Layout.of item = .ok ⟨⟨7, .payload, 0x100⟩, some ⟨9, 1⟩, ⟨10, 2⟩⟩ := by
    decide +kernel
  obtain rfl := Except.ok.inj (hfound.symm.trans hlayout)
  have hwhole : decode item = .ok (read [0xB, 0xC]) := by decide +kernel
  obtain rfl := Except.ok.inj (hwhole.symm.trans hread)
  obtain ⟨hin, hcut, -⟩ := hcuts 11 (by decide)
  obtain ⟨hbefore, -, hwhy⟩ := hcuts 9 (by decide)
  obtain ⟨cut, hless⟩ := hin.2 ⟨.inl rfl, by decide⟩
  obtain ⟨_, _, _, hkind', -, -, -, hclosed⟩ := decode_cut_or_extended hcancel
  obtain rfl := Except.ok.inj hkind'
  refine ⟨hitem, by rw [hless, hcut _ hless]; rfl, ?_, (hmore [0xD] (by decide)).1 (.inl rfl),
    hcancel, (hclosed [0] (by decide)).2 (by decide)⟩
  rcases hrest : decode (item.take 9) with fault | other
  · exact ⟨fault, rfl, hwhy fault hrest⟩
  · exact absurd (hbefore.1 ⟨other, hrest⟩).2 (by decide)

end Frame

end StreamWire
