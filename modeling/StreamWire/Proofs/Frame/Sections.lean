import StreamWire.Proofs.Frame.Readers
/-!
# Sections — every byte of a frame in one stretch

Header, fixed fields, metadata length, metadata and data: `Layout.sections`
lists the stretches of a frame from the first byte to the last. They are a
`Section.Run`, one behind the other without a gap, and of a run it can be
said once and for all that its stretches do not meet, end where the run
ends at the latest, and hold every place in between just once
(`Section.Run.flatMap_places`). Where each of them begins is computed in
two ways, forwards from the header and backwards from the length of the
frame, and `Layout.sections_cover` says that the two agree, and that all
that is read of a frame is read off its stretches.
-/

namespace StreamWire

namespace Section

/-! ## Stretches one behind the other -/

/-- Where a stretch ends. -/
def stop (s : Section) : Nat := s.offset + s.length

/-- The places of the bytes in a stretch. -/
def places (s : Section) : List Nat := List.range' s.offset s.length

/-- Stretches that lie one behind the other between two places, without a
gap. -/
def Run : Nat → List Section → Nat → Prop
  | start, [], finish => start = finish
  | start, s :: later, finish => s.offset = start ∧ Run s.stop later finish

variable {start finish : Nat} {sections : List Section}

theorem Run.le (h : Run start sections finish) : start ≤ finish := by
  induction sections generalizing start with
  | nil => exact Nat.le_of_eq h
  | cons s later ih =>
    obtain ⟨rfl, hlater⟩ := h
    have := ih hlater
    rw [stop] at this
    omega

/-- No stretch of a run begins before the run or ends behind it. -/
theorem Run.within (h : Run start sections finish) {s : Section} (hmem : s ∈ sections) :
    start ≤ s.offset ∧ s.stop ≤ finish := by
  induction sections generalizing start with
  | nil => exact absurd hmem List.not_mem_nil
  | cons first later ih =>
    obtain ⟨rfl, hlater⟩ := h
    rcases List.mem_cons.1 hmem with rfl | hmem
    · exact ⟨Nat.le_refl _, hlater.le⟩
    · obtain ⟨hstart, hstop⟩ := ih hlater hmem
      refine ⟨?_, hstop⟩
      rw [stop] at hstart
      omega

/-- **Stretches of a run do not meet.** Each ends before the next
begins. -/
theorem Run.pairwise (h : Run start sections finish) :
    sections.Pairwise fun s later => s.stop ≤ later.offset := by
  induction sections generalizing start with
  | nil => exact List.Pairwise.nil
  | cons first rest ih =>
    exact List.Pairwise.cons (fun later hmem => (h.2.within hmem).1) (ih h.2)

/-- **A run holds every place between its ends just once**, and in
order. -/
theorem Run.flatMap_places (h : Run start sections finish) :
    sections.flatMap places = List.range' start (finish - start) := by
  induction sections generalizing start with
  | nil =>
    obtain rfl : start = finish := h
    rw [Nat.sub_self]
    rfl
  | cons first later ih =>
    obtain ⟨rfl, hlater⟩ := h
    have hle := hlater.le
    rw [stop] at hle
    have hsplit : finish - first.offset = first.length + (finish - first.stop) := by
      rw [stop]
      omega
    rw [List.flatMap_cons, ih hlater, hsplit, ← List.range'_append_1, places, stop]

end Section

namespace Layout

/-! ## The stretches of a frame -/

/-- The fixed fields, behind the header. -/
def fields (l : Layout) : Section := ⟨6, l.traits.fixedSize⟩

/-- The metadata with its length in front, where there is some. -/
def metadataSections (l : Layout) : List Section :=
  match l.metadata with
  | some block => [⟨6 + l.traits.fixedSize, 3⟩, block]
  | none => []

/-- All stretches of a frame, first to last. -/
def sections (l : Layout) : List Section :=
  ⟨0, 6⟩ :: l.fields :: (l.metadataSections ++ [l.data])

variable {l : Layout} {frame : Bytes}

/-- **The stretches of a frame run from its first byte to its end.** -/
theorem Tiles.run_sections (h : l.Tiles frame) : Section.Run 0 l.sections frame.length := by
  have hend := h.data_end
  refine ⟨rfl, rfl, ?_⟩
  rw [metadataSections]
  rcases hmetadata : l.metadata with _ | block
  · exact ⟨h.metadata_none hmetadata, hend⟩
  · obtain ⟨-, hoffset, -, hdata⟩ := h.metadata_some block hmetadata
    exact ⟨rfl, hoffset, hdata, hend⟩

/-! ## Where the stretches begin -/

/-- Nothing stands between the fixed fields and the data. -/
structure IsBare (l : Layout) : Prop where
  metadataOffset_eq : l.metadataOffset = -1
  metadataLength_eq : l.metadataLength = 0
  data_offset_eq : l.data.offset = 6 + l.traits.fixedSize

theorem Tiles.isBare (h : l.Tiles frame) (hnone : l.metadata = none) : l.IsBare where
  metadataOffset_eq := by rw [metadataOffset, hnone]
  metadataLength_eq := by rw [metadataLength, hnone]
  data_offset_eq := h.metadata_none hnone

/-- Kinds whose body is not interpreted have no metadata. -/
theorem Tiles.metadata_of_raw (h : l.Tiles frame) (hraw : l.traits.raw = true) :
    l.metadata = none := by
  rcases hmetadata : l.metadata with _ | block
  · rfl
  · have hallowed := (h.metadata_some block hmetadata).1
    have hnever : l.traits.canHaveMetadata = false := canHaveMetadata_of_raw hraw
    rw [hnever] at hallowed
    exact absurd hallowed Bool.false_ne_true

/-- Of all others the metadata bit tells whether there is some. -/
theorem Tiles.metadata_of_bit (h : l.Tiles frame) (hraw : l.traits.raw = false)
    (hclear : l.header.hasMetadata = false) : l.metadata = none := by
  rw [h.hasMetadata_eq hraw, Option.isSome_eq_false_iff, Option.isNone_iff_eq_none] at hclear
  exact hclear

theorem Tiles.exists_block (h : l.Tiles frame) (hraw : l.traits.raw = false)
    (hset : l.header.hasMetadata = true) : ∃ block, l.metadata = some block := by
  rw [h.hasMetadata_eq hraw, Option.isSome_iff_exists] at hset
  exact hset

/-- **Counted from the end, data is as long as counted from the
front.** -/
theorem Tiles.data_length_eq (h : l.Tiles frame) :
    (l.data.length : Int) = frame.length - 6 - l.traits.fixedSize -
      (if 0 ≤ l.metadataOffset then 3 + l.metadataLength else 0 : Int) := by
  have hend := h.data_end
  rcases hmetadata : l.metadata with _ | block
  · obtain ⟨hoffset, -, hdata⟩ := h.isBare hmetadata
    rw [hoffset, if_neg (by decide)]
    omega
  · obtain ⟨-, hoffset, -, hdata⟩ := h.metadata_some block hmetadata
    simp only [Wire.headerSize, Wire.metadataLengthSize] at hoffset
    rw [metadataOffset, metadataLength, hmetadata]
    dsimp only
    rw [if_pos (Int.natCast_nonneg _)]
    omega

/-! ## What is read off them -/

/-- All that is read of a frame is what its stretches hold, by decoding
and by each of the readers. -/
structure IsReadFrom (l : Layout) (frame : Bytes) : Prop where
  decode : ∀ f, Frame.decode frame = .ok f →
    f.body.fixedFields = .ok (l.fields.of frame) ∧ f.metadata = l.metadata.map (·.of frame) ∧
      f.data = l.data.of frame
  metadata : ∀ bytes, Encoded.metadata frame = .ok bytes →
    ∃ block ∈ l.sections, l.metadata = some block ∧ block.of frame = bytes
  data : ∀ bytes, Encoded.data frame = .ok bytes → l.data.of frame = bytes
  requestN : ∀ count, Encoded.requestN frame = .ok count →
    BigEndian.decode (l.fields.of frame) = count
  dataSize : Encoded.dataSize frame = .ok l.data.length

/-- A request count is all there is of the fixed fields. -/
theorem fixedSize_of_hasRequestN {kind : FrameKind} (h : kind.traits.hasRequestN = true) :
    kind.traits.fixedSize = 4 := by
  rcases kind <;> first | rfl | exact absurd h (by decide)

theorem mem_sections {block : Section} (h : l.metadata = some block) : block ∈ l.sections := by
  rw [sections, metadataSections, h]
  simp

theorem isReadFrom_of (h : Layout.of frame = .ok l) : l.IsReadFrom frame where
  decode f hread := by
    obtain ⟨l', hfrom⟩ := Frame.exists_readFrom hread
    obtain rfl : l' = l := Except.ok.inj (hfrom.layout_eq.symm.trans h)
    exact ⟨hfrom.madeOf.fixedFields_eq, hfrom.madeOf.metadata_eq, hfrom.madeOf.data_eq⟩
  metadata bytes hread := by
    rw [Encoded.metadata, h] at hread
    simp only [bind, Except.bind] at hread
    rcases hblock : l.metadata with _ | block
    · rw [hblock] at hread
      cases hread
    · rw [hblock] at hread
      exact ⟨block, mem_sections hblock, rfl, Except.ok.inj hread⟩
  data bytes hread := by
    rw [Encoded.data, h] at hread
    simp only [bind, Except.bind] at hread
    split at hread
    · exact Except.ok.inj hread
    · cases hread
  requestN count hread := by
    rw [Encoded.requestN, h] at hread
    simp only [bind, Except.bind] at hread
    split at hread
    · rename_i hcounts
      have hfields : l.fields = ⟨6, 4⟩ := by
        rw [fields, traits, fixedSize_of_hasRequestN hcounts]
      rw [hfields]
      exact Except.ok.inj hread
    · cases hread
  dataSize := by
    rw [Encoded.dataSize, h]
    rfl

/-- **The stretches of a frame cover it.** A body that is not interpreted
begins behind the header, and any other behind its fixed fields, unless
the metadata bit is set: then the metadata stands behind its length, as
long as that says, and the data behind the metadata. Data reaches up to
the end, so that it is as long as what is left of the frame without the
rest, and kinds that carry none have none. So no stretch is cut off at the
end of the frame or meets another, every byte is in just one of them, and
what is read of the frame is read off them. -/
theorem sections_cover (h : Layout.of frame = .ok l) :
    (l.traits.raw = true →
      l.metadataOffset = -1 ∧ l.metadataLength = 0 ∧ l.data.offset = 6) ∧
    (l.traits.raw = false →
      (l.header.hasMetadata = false →
        l.metadataOffset = -1 ∧ l.metadataLength = 0 ∧ l.data.offset = 6 + l.traits.fixedSize) ∧
      (l.header.hasMetadata = true →
        l.metadataOffset = 6 + l.traits.fixedSize + 3 ∧
        l.metadataLength = BigEndian.decode (slice frame (6 + l.traits.fixedSize) 3) ∧
        (l.data.offset : Int) = l.metadataOffset + l.metadataLength) ∧
      (l.traits.canHaveData = false → l.data.length = 0)) ∧
    l.data.offset + l.data.length = frame.length ∧
    (l.data.length : Int) = frame.length - 6 - l.traits.fixedSize -
      (if 0 ≤ l.metadataOffset then 3 + l.metadataLength else 0 : Int) ∧
    (∀ s ∈ l.sections, s.stop ≤ frame.length ∧ (s.of frame).length = s.length) ∧
    l.sections.Pairwise (fun s later => s.stop ≤ later.offset) ∧
    l.sections.flatMap Section.places = List.range frame.length ∧
    l.IsReadFrom frame := by
  have htiles := tiles_of h
  have hrun := htiles.run_sections
  refine ⟨?_, ?_, htiles.data_end, htiles.data_length_eq, ?_, hrun.pairwise, ?_, isReadFrom_of h⟩
  · intro hraw
    obtain ⟨hoffset, hlength, hdata⟩ := htiles.isBare (htiles.metadata_of_raw hraw)
    have hfixed : l.traits.fixedSize = 0 := fixedSize_of_raw hraw
    rw [hfixed] at hdata
    exact ⟨hoffset, hlength, hdata⟩
  · intro hraw
    refine ⟨fun hclear => ?_, fun hset => ?_, htiles.data_length hraw⟩
    · obtain ⟨hoffset, hlength, hdata⟩ := htiles.isBare (htiles.metadata_of_bit hraw hclear)
      exact ⟨hoffset, hlength, hdata⟩
    · obtain ⟨block, hblock⟩ := htiles.exists_block hraw hset
      obtain ⟨-, hoffset, hlength, hdata⟩ := htiles.metadata_some block hblock
      simp only [Wire.headerSize, Wire.metadataLengthSize] at hoffset hlength
      rw [metadataOffset, metadataLength, hblock]
      dsimp only
      exact ⟨by omega, hlength, by omega⟩
  · intro s hmem
    have hstop := (hrun.within hmem).2
    exact ⟨hstop, length_slice hstop⟩
  · rw [hrun.flatMap_places, List.range_eq_range', Nat.sub_zero]

/-- A request for five answers with two bytes of metadata and one of data:
five stretches, of which the fields, the metadata and the data are read. -/
theorem sections_cover_requestStream :
    let frame : Bytes := [0, 0, 0, 7, 25, 0, 0, 0, 0, 5, 0, 0, 2, 0xA, 0xB, 0xC]
    let l : Layout := ⟨⟨7, .requestStream, 0x100⟩, some ⟨13, 2⟩, ⟨15, 1⟩⟩
    Layout.of frame = .ok l ∧ l.metadataOffset = 6 + l.traits.fixedSize + 3 ∧
      l.sections = [⟨0, 6⟩, ⟨6, 4⟩, ⟨10, 3⟩, ⟨13, 2⟩, ⟨15, 1⟩] ∧
      l.sections.flatMap Section.places = List.range 16 ∧
      Encoded.requestN frame = .ok 5 ∧ BigEndian.decode (l.fields.of frame) = 5 := by
  intro frame l
  have hlayout : Layout.of frame = .ok l := by decide +kernel
  have hcount : Encoded.requestN frame = .ok 5 := by decide +kernel
  obtain ⟨-, hinside, -, -, -, -, hplaces, hread⟩ := sections_cover hlayout
  obtain ⟨-, hset, -⟩ := hinside rfl
  exact ⟨hlayout, (hset (by decide)).1, rfl, hplaces, hcount, hread.requestN 5 hcount⟩

end Layout

end StreamWire
