import StreamWire.Proofs.Frame.Position
import StreamWire.Proofs.Frame.Readers
/-!
# Grammar — which byte strings are frames

The wire format as ten rules. What a rule asks of a byte string is read
off its bytes and the table of kinds, without a header, a layout or a
decoder (`Rule.Holds`), and the rules stand in the order in which a
receiver judges them (`Rule.rank`). `Frame.decode_follows_grammar` is
what they are for: the byte strings that keep every rule are those that
decode, and the first rule that is broken tells what a receiver should
conclude. In between, `Keeps` says how far a byte string has come, and
each of its lemmas what is settled by then.
-/

namespace StreamWire

namespace Grammar

/-! ## What the bytes say -/

/-- The stream id, below the reserved bit. -/
def streamId (frame : Bytes) : Nat := BigEndian.decode (slice frame 0 4) % 0x80000000

/-- The word of type code and flags. -/
def tag (frame : Bytes) : Nat := BigEndian.decode (slice frame 4 2)

/-- The kind whose code stands above the ten flags. -/
def kind? (frame : Bytes) : Option FrameKind := FrameKind.ofNat? (tag frame / 0x400)

/-- Whether the metadata bit is set. -/
def hasMetadata (frame : Bytes) : Bool := (tag frame).testBit 8

/-- Where the fixed fields end. -/
def fixedEnd (kind : FrameKind) : Nat := 6 + kind.traits.fixedSize

/-- The length that metadata is announced with. -/
def announced (kind : FrameKind) (frame : Bytes) : Nat :=
  BigEndian.decode (slice frame (fixedEnd kind) 3)

/-- Where the last field before the data ends. -/
def dataStart (kind : FrameKind) (frame : Bytes) : Nat :=
  if hasMetadata frame then fixedEnd kind + 3 + announced kind frame else fixedEnd kind

/-- The eight bytes behind the header. -/
def position (frame : Bytes) : Nat := BigEndian.decode (slice frame 6 8)

/-! ## The rules -/

/-- What the wire format asks of a frame. -/
inductive Rule where
  /-- There is a header. -/
  | header
  /-- The type code is that of a kind. -/
  | knownType
  /-- The kind may be sent on the stream. -/
  | scope
  /-- The fixed fields are all there. -/
  | fixedFields
  /-- Only kinds that carry metadata have the metadata bit set. -/
  | metadataAllowed
  /-- The length of the metadata is all there. -/
  | metadataLength
  /-- The metadata ends within the frame. -/
  | metadataFits
  /-- Kinds without data have nothing behind their last field. -/
  | nothingLeft
  /-- A keep-alive position has at most fifty-three bits. -/
  | positionFits
  /-- A metadata push has the metadata bit set. -/
  | pushHasMetadata
deriving DecidableEq, Repr

/-- Every rule, in the order of judgement. -/
def Rule.all : List Rule :=
  [.header, .knownType, .scope, .fixedFields, .metadataAllowed, .metadataLength, .metadataFits,
    .nothingLeft, .positionFits, .pushHasMetadata]

theorem Rule.mem_all (rule : Rule) : rule ∈ all := by
  cases rule <;> decide

/-- The place of a rule in that order. -/
def Rule.rank (rule : Rule) : Nat := all.idxOf rule

/-- What should be concluded where a rule is broken. Everything that is a
matter of sizes, but for the header, is an inconsistent size. -/
def Rule.category : Rule → Category
  | .knownType => .unknownFrameType
  | .header | .scope | .metadataAllowed | .positionFits | .pushHasMetadata => .malformedFrame
  | .fixedFields | .metadataLength | .metadataFits | .nothingLeft => .inconsistentPayloadSize

/-- What a rule asks. The rules about the inside of a frame leave the
kinds alone whose body is not interpreted. -/
def Rule.Holds (frame : Bytes) : Rule → Prop
  | .header => 6 ≤ frame.length
  | .knownType => (kind? frame).isSome = true
  | .scope => ∀ kind ∈ kind? frame, kind.traits.scope.allows (.ofNat (streamId frame)) = true
  | .fixedFields => ∀ kind ∈ kind? frame, kind.traits.raw = false → fixedEnd kind ≤ frame.length
  | .metadataAllowed => ∀ kind ∈ kind? frame, kind.traits.raw = false →
      hasMetadata frame = true → kind.traits.canHaveMetadata = true
  | .metadataLength => ∀ kind ∈ kind? frame, kind.traits.raw = false →
      hasMetadata frame = true → fixedEnd kind + 3 ≤ frame.length
  | .metadataFits => ∀ kind ∈ kind? frame, kind.traits.raw = false →
      hasMetadata frame = true → fixedEnd kind + 3 + announced kind frame ≤ frame.length
  | .nothingLeft => ∀ kind ∈ kind? frame, kind.traits.raw = false →
      kind.traits.canHaveData = false → frame.length ≤ dataStart kind frame
  | .positionFits => kind? frame = some .keepAlive → position frame ≤ 0x1FFFFFFFFFFFFF
  | .pushHasMetadata => kind? frame = some .metadataPush → hasMetadata frame = true

instance (frame : Bytes) : (rule : Rule) → Decidable (rule.Holds frame)
  | .header => inferInstanceAs (Decidable (_ ≤ _))
  | .knownType => inferInstanceAs (Decidable (_ = true))
  | .scope | .fixedFields | .metadataAllowed | .metadataLength | .metadataFits | .nothingLeft =>
    inferInstanceAs (Decidable (∀ kind ∈ kind? frame, _))
  | .positionFits | .pushHasMetadata => inferInstanceAs (Decidable (_ → _))

/-- A byte string keeps the first `n` rules. -/
def Keeps (frame : Bytes) (n : Nat) : Prop := ∀ rule : Rule, rule.rank < n → rule.Holds frame

instance (frame : Bytes) (n : Nat) : Decidable (Keeps frame n) :=
  decidable_of_iff (∀ rule ∈ Rule.all, rule.rank < n → rule.Holds frame)
    ⟨fun h rule => h rule rule.mem_all, fun h rule _ => h rule⟩

/-- The first rule that a byte string breaks. -/
structure Rule.FirstBroken (rule : Rule) (frame : Bytes) : Prop where
  keeps : Keeps frame rule.rank
  broken : ¬ rule.Holds frame

/-- A byte string that does not keep the rules breaks one of them
first. -/
theorem exists_firstBroken {frame : Bytes} (h : ¬ ∀ rule : Rule, rule.Holds frame) :
    ∃ rule : Rule, rule.FirstBroken frame := by
  obtain ⟨rule, hkeeps, hbroken⟩ := exists_first_failing Rule.rank h
  exact ⟨rule, hkeeps, hbroken⟩

/-! ## As far as the layout -/

variable {frame : Bytes} {kind : FrameKind} {m n : Nat}

/-- The header of a frame of known kind. -/
def header (kind : FrameKind) (frame : Bytes) : Header :=
  ⟨streamId frame, kind, BitVec.ofNat 10 (tag frame)⟩

theorem hasMetadata_header (kind : FrameKind) (frame : Bytes) :
    (header kind frame).hasMetadata = hasMetadata frame := by
  rw [Header.hasMetadata_eq, header, BitVec.getLsbD_ofNat, hasMetadata]
  rfl

/-- A type code is judged by the kind it belongs to. -/
theorem decode_of_long (h : 6 ≤ frame.length) :
    Header.decode frame =
      match kind? frame with
      | some kind => .ok (header kind frame)
      | none => .error (.unknownType (.ofNat (tag frame / 0x400))) := by
  have hcode : BigEndian.decode (slice frame 4 2) >>> Wire.typeShift = tag frame / 0x400 :=
    Nat.shiftRight_eq_div_pow _ 10
  rw [Header.decode_of_length (Nat.not_lt.2 h), hcode, resolveKind, FrameKind.ofCode?,
    Number.toNat?_ofNat, Option.bind_some, kind?]
  rcases FrameKind.ofNat? (tag frame / 0x400) with _ | kind <;> rfl

theorem layout_of_header_error {fault : Fault} (h : Header.decode frame = .error fault) :
    Layout.of frame = .error fault := by
  rw [Layout.of, h]

theorem Keeps.mono (h : Keeps frame n) (hle : m ≤ n) : Keeps frame m :=
  fun rule hlt => h rule (hlt.trans_le hle)

/-- Two rules make a header. -/
theorem Keeps.header_eq (h : Keeps frame 2) (hkind : kind? frame = some kind) :
    Header.decode frame = .ok (header kind frame) := by
  have hlong : 6 ≤ frame.length := h .header (by decide)
  rw [decode_of_long hlong, hkind]

/-- Behind the header the kind decides: where it may be sent, whether its
body is interpreted, and how far its fixed fields reach. -/
theorem Keeps.layout_of_kind (h : Keeps frame 2) (hkind : kind? frame = some kind) :
    Layout.of frame =
      if !kind.traits.scope.allows (.ofNat (streamId frame)) then
        .error (.misplaced kind (streamId frame))
      else if kind.traits.raw then
        .ok ⟨header kind frame, none, ⟨6, frame.length - 6⟩⟩
      else if frame.length < fixedEnd kind then
        .error (.fixedFieldsCut kind (fixedEnd kind) frame.length)
      else
        Layout.afterFixedFields (header kind frame) frame (fixedEnd kind) := by
  rw [Layout.of, h.header_eq hkind]
  rfl

/-- Three rules admit the kinds whose body is not interpreted. -/
theorem Keeps.layout_of_raw (h : Keeps frame 3) (hkind : kind? frame = some kind)
    (hraw : kind.traits.raw = true) :
    Layout.of frame = .ok ⟨header kind frame, none, ⟨6, frame.length - 6⟩⟩ := by
  have hscope := h .scope (by decide) kind hkind
  rw [(h.mono (by decide)).layout_of_kind hkind, hscope, Bool.not_true,
    if_neg Bool.false_ne_true, if_pos hraw]

/-- The fourth finds the fixed fields of all others. -/
theorem Keeps.layout_eq (h : Keeps frame 4) (hkind : kind? frame = some kind)
    (hraw : kind.traits.raw = false) :
    Layout.of frame = Layout.afterFixedFields (header kind frame) frame (fixedEnd kind) := by
  have hscope := h .scope (by decide) kind hkind
  have hfixed := h .fixedFields (by decide) kind hkind hraw
  rw [(h.mono (by decide)).layout_of_kind hkind, hscope, hraw, Bool.not_true,
    if_neg Bool.false_ne_true, if_neg Bool.false_ne_true, if_neg (Nat.not_lt.2 hfixed)]

/-- And where the metadata bit is set the metadata is judged: the kind, the
length, and how far it reaches. -/
theorem Keeps.layout_of_set (h : Keeps frame 4) (hkind : kind? frame = some kind)
    (hraw : kind.traits.raw = false) (hset : hasMetadata frame = true) :
    Layout.of frame =
      if !kind.traits.canHaveMetadata then
        .error (.metadataNotAllowed kind)
      else if frame.length < fixedEnd kind + 3 then
        .error (.metadataLengthCut kind)
      else if frame.length < fixedEnd kind + 3 + announced kind frame then
        .error (.metadataOverrun kind (announced kind frame) (frame.length - (fixedEnd kind + 3)))
      else
        Layout.dataSection (header kind frame) (some ⟨fixedEnd kind + 3, announced kind frame⟩)
          (fixedEnd kind + 3 + announced kind frame) frame.length := by
  rw [h.layout_eq hkind hraw, Layout.afterFixedFields, hasMetadata_header, hset]
  rfl

/-- Seven rules find the metadata, and only what follows it is left to
judge. -/
theorem Keeps.exists_dataSection (h : Keeps frame 7) (hkind : kind? frame = some kind)
    (hraw : kind.traits.raw = false) :
    ∃ metadata, Layout.of frame =
      Layout.dataSection (header kind frame) metadata (dataStart kind frame) frame.length := by
  have hfixed : Keeps frame 4 := h.mono (by decide)
  rw [dataStart]
  rcases hbit : hasMetadata frame with _ | _
  · refine ⟨none, ?_⟩
    rw [hfixed.layout_eq hkind hraw, Layout.afterFixedFields, hasMetadata_header, hbit]
    rfl
  · have hallowed := h .metadataAllowed (by decide) kind hkind hraw hbit
    have hlength := h .metadataLength (by decide) kind hkind hraw hbit
    have hfits := h .metadataFits (by decide) kind hkind hraw hbit
    refine ⟨some ⟨fixedEnd kind + 3, announced kind frame⟩, ?_⟩
    rw [hfixed.layout_of_set hkind hraw hbit, hallowed, Bool.not_true,
      if_neg Bool.false_ne_true, if_neg (Nat.not_lt.2 hlength), if_neg (Nat.not_lt.2 hfits)]
    rfl

/-- **Eight rules make a layout.** -/
theorem Keeps.exists_layout (h : Keeps frame 8) :
    ∃ kind l, kind? frame = some kind ∧ Layout.of frame = .ok l ∧
      l.header = header kind frame := by
  obtain ⟨kind, hkind⟩ := Option.isSome_iff_exists.1 (h .knownType (by decide))
  rcases hraw : kind.traits.raw with _ | _
  · obtain ⟨metadata, hlayout⟩ := (h.mono (by decide)).exists_dataSection hkind hraw
    have hnothing := h .nothingLeft (by decide) kind hkind hraw
    rw [Layout.dataSection, if_neg] at hlayout
    · exact ⟨kind, _, hkind, hlayout, rfl⟩
    · intro hrefused
      rw [Bool.and_eq_true, bne_iff_ne, Bool.not_eq_true'] at hrefused
      have hleft := hnothing hrefused.1
      omega
  · exact ⟨kind, _, hkind, (h.mono (by decide)).layout_of_raw hkind hraw, rfl⟩

/-! ## Every rule -/

/-- What is refused with a layout breaks one of the last two rules. -/
theorem decode_eq_error_iff_of_header {l : Layout} {fault : Fault}
    (h : Layout.of frame = .ok l) (hheader : l.header = header kind frame) :
    Frame.decode frame = .error fault ↔
      (kind = .keepAlive ∧ 0x1FFFFFFFFFFFFF < position frame ∧ fault = .positionTooLarge) ∨
      (kind = .metadataPush ∧ hasMetadata frame = false ∧ fault = .metadataNotSent) := by
  rw [Frame.decode_eq_error_iff_of_layout h, hheader, hasMetadata_header]
  rfl

/-- **What keeps every rule decodes.** -/
theorem exists_decode (h : ∀ rule : Rule, rule.Holds frame) :
    ∃ f, Frame.decode frame = .ok f := by
  obtain ⟨kind, l, hkind, hlayout, hheader⟩ := Keeps.exists_layout fun rule _ => h rule
  rcases hread : Frame.decode frame with fault | f
  · rcases (decode_eq_error_iff_of_header hlayout hheader).1 hread with
      ⟨rfl, hlarge, -⟩ | ⟨rfl, hclear, -⟩
    · exact absurd (h .positionFits hkind) (Nat.not_le.2 hlarge)
    · rw [h .pushHasMetadata hkind] at hclear
      cases hclear
  · exact ⟨f, rfl⟩

/-- A rule about the layout that is the first to be broken is why there is
no layout. -/
theorem Rule.FirstBroken.exists_layout_fault {rule : Rule} (h : rule.FirstBroken frame)
    (hrank : rule.rank < 8) :
    ∃ fault, Layout.of frame = .error fault ∧ fault.category = rule.category := by
  obtain ⟨hkeeps, hbroken⟩ := h
  -- Every rule before this one is kept, so the judgement comes as far as its own question.
  cases rule with
  | header =>
    have hshort : frame.length < Wire.headerSize := Nat.not_le.1 hbroken
    have hheader : Header.decode frame = .error (.headerCut frame.length) := by
      rw [Header.decode, if_pos hshort]
    exact ⟨_, layout_of_header_error hheader, rfl⟩
  | knownType =>
    have hnone : kind? frame = none := by simpa [Rule.Holds] using hbroken
    have hheader := decode_of_long (hkeeps .header (by decide))
    rw [hnone] at hheader
    exact ⟨_, layout_of_header_error hheader, rfl⟩
  | scope =>
    simp only [Rule.Holds, not_forall] at hbroken
    obtain ⟨kind, hkind, hscope⟩ := hbroken
    refine ⟨.misplaced kind (streamId frame), ?_, rfl⟩
    rw [hkeeps.layout_of_kind hkind, Bool.eq_false_of_not_eq_true hscope, Bool.not_false,
      if_pos rfl]
  | fixedFields =>
    simp only [Rule.Holds, not_forall] at hbroken
    obtain ⟨kind, hkind, hraw, hcut⟩ := hbroken
    have hscope := hkeeps .scope (by decide) kind hkind
    refine ⟨.fixedFieldsCut kind (fixedEnd kind) frame.length, ?_, rfl⟩
    rw [(hkeeps.mono (by decide)).layout_of_kind hkind, hscope, hraw, Bool.not_true,
      if_neg Bool.false_ne_true, if_neg Bool.false_ne_true, if_pos (Nat.not_le.1 hcut)]
  | metadataAllowed =>
    simp only [Rule.Holds, not_forall] at hbroken
    obtain ⟨kind, hkind, hraw, hset, hnever⟩ := hbroken
    refine ⟨.metadataNotAllowed kind, ?_, rfl⟩
    rw [hkeeps.layout_of_set hkind hraw hset, Bool.eq_false_of_not_eq_true hnever,
      Bool.not_false, if_pos rfl]
  | metadataLength =>
    simp only [Rule.Holds, not_forall] at hbroken
    obtain ⟨kind, hkind, hraw, hset, hcut⟩ := hbroken
    have hallowed := hkeeps .metadataAllowed (by decide) kind hkind hraw hset
    refine ⟨.metadataLengthCut kind, ?_, rfl⟩
    rw [(hkeeps.mono (by decide)).layout_of_set hkind hraw hset, hallowed, Bool.not_true,
      if_neg Bool.false_ne_true, if_pos (Nat.not_le.1 hcut)]
  | metadataFits =>
    simp only [Rule.Holds, not_forall] at hbroken
    obtain ⟨kind, hkind, hraw, hset, hover⟩ := hbroken
    have hallowed := hkeeps .metadataAllowed (by decide) kind hkind hraw hset
    have hlength := hkeeps .metadataLength (by decide) kind hkind hraw hset
    refine ⟨.metadataOverrun kind (announced kind frame) (frame.length - (fixedEnd kind + 3)), ?_,
      rfl⟩
    rw [(hkeeps.mono (by decide)).layout_of_set hkind hraw hset, hallowed, Bool.not_true,
      if_neg Bool.false_ne_true, if_neg (Nat.not_lt.2 hlength), if_pos (Nat.not_le.1 hover)]
  | nothingLeft =>
    simp only [Rule.Holds, not_forall] at hbroken
    obtain ⟨kind, hkind, hraw, hnone, hleft⟩ := hbroken
    obtain ⟨metadata, hlayout⟩ := hkeeps.exists_dataSection hkind hraw
    refine ⟨.trailingBytes kind (frame.length - dataStart kind frame), ?_, rfl⟩
    have hsome : frame.length - dataStart kind frame ≠ 0 := by omega
    have hrefused : (!(Grammar.header kind frame).kind.traits.canHaveData &&
        frame.length - dataStart kind frame != 0) = true := by
      rw [Bool.and_eq_true, bne_iff_ne, Bool.not_eq_true']
      exact ⟨hnone, hsome⟩
    rw [hlayout, Layout.dataSection, if_pos hrefused]
    rfl
  | positionFits => exact absurd hrank (by decide)
  | pushHasMetadata => exact absurd hrank (by decide)

/-- **What breaks a rule is refused for the first it breaks.** -/
theorem Rule.FirstBroken.exists_fault {rule : Rule} (h : rule.FirstBroken frame) :
    ∃ fault, Frame.decode frame = .error fault ∧ fault.category = rule.category := by
  rcases Nat.lt_or_ge rule.rank 8 with hrank | hrank
  · obtain ⟨fault, hlayout, hcategory⟩ := h.exists_layout_fault hrank
    exact ⟨fault, Frame.decode_of_layout_error hlayout, hcategory⟩
  obtain ⟨kind, l, hkind, hlayout, hheader⟩ := (h.keeps.mono hrank).exists_layout
  have hbroken := h.broken
  cases rule with
  | positionFits =>
    obtain ⟨hkeepAlive, hlarge⟩ := Classical.not_imp.1 hbroken
    refine ⟨.positionTooLarge, ?_, rfl⟩
    rw [decode_eq_error_iff_of_header hlayout hheader]
    exact .inl ⟨Option.some.inj (hkind.symm.trans hkeepAlive), Nat.not_le.1 hlarge, rfl⟩
  | pushHasMetadata =>
    obtain ⟨hpush, hclear⟩ := Classical.not_imp.1 hbroken
    refine ⟨.metadataNotSent, ?_, rfl⟩
    rw [decode_eq_error_iff_of_header hlayout hheader]
    exact .inr ⟨Option.some.inj (hkind.symm.trans hpush), Bool.eq_false_of_not_eq_true hclear, rfl⟩
  | _ => exact absurd hrank (by decide)

end Grammar

namespace Frame

/-- **Decoding follows the grammar.** The byte strings that decode are
those that keep every rule. Any other is refused for the first rule it
breaks, and so as malformed, an unknown type being one way to be that, or
for inconsistent sizes. The position of a sign of life comes back exactly,
and a receiver that puts it together in double precision refuses the same
positions and reads the same of the rest. -/
theorem decode_follows_grammar (frame : Bytes) :
    ((∃ f, decode frame = .ok f) ↔ ∀ rule : Grammar.Rule, rule.Holds frame) ∧
    (∀ rule : Grammar.Rule, rule.FirstBroken frame →
      ∃ fault, decode frame = .error fault ∧ fault.category = rule.category) ∧
    (∀ fault, decode frame = .error fault →
      Category.malformedFrame.name ∈ fault.category.lineage ∨
        fault.category = .inconsistentPayloadSize) ∧
    (∀ f position data, decode frame = .ok f → f.body = .keepAlive position data →
      position = .ofNat (Grammar.position frame)) ∧
    (Wire.headerSize + Wire.positionSize ≤ frame.length →
      Encoded.positionField frame = Encoded.positionInDoubles frame) := by
  refine ⟨⟨?_, Grammar.exists_decode⟩, ?_, ?_, ?_, ?_⟩
  · rintro ⟨f, hread⟩
    by_contra hbroken
    obtain ⟨rule, hfirst⟩ := Grammar.exists_firstBroken hbroken
    obtain ⟨fault, hrefused, -⟩ := hfirst.exists_fault
    rw [hread] at hrefused
    cases hrefused
  · intro rule hfirst
    exact hfirst.exists_fault
  · intro fault hrefused
    have hbroken : ¬ ∀ rule : Grammar.Rule, rule.Holds frame := by
      intro hholds
      obtain ⟨f, hread⟩ := Grammar.exists_decode hholds
      rw [hread] at hrefused
      cases hrefused
    obtain ⟨rule, hfirst⟩ := Grammar.exists_firstBroken hbroken
    obtain ⟨fault', hrefused', hcategory⟩ := hfirst.exists_fault
    obtain rfl : fault' = fault := Except.error.inj (hrefused'.symm.trans hrefused)
    rw [hcategory]
    cases rule <;> decide
  · intro f position data hread hbody
    obtain ⟨l, hfrom⟩ := exists_readFrom hread
    exact (hfrom.position_eq hbody).1
  · exact Encoded.positionField_eq_positionInDoubles

/-- A sign of life carries the largest position there is; one more breaks
the ninth rule, and a byte less the fourth. -/
theorem decode_follows_grammar_keepAlive :
    (decode [0, 0, 0, 0, 0x0C, 0, 0, 0x1F, 255, 255, 255, 255, 255, 255] =
        .ok ⟨.ofNat 0, .ofFlags 0, .keepAlive (.ofNat 0x1FFFFFFFFFFFFF) []⟩ ∧
      (∀ rule : Grammar.Rule,
        rule.Holds [0, 0, 0, 0, 0x0C, 0, 0, 0x1F, 255, 255, 255, 255, 255, 255]) ∧
      Number.ofNat 0x1FFFFFFFFFFFFF = .ofNat (Grammar.position
        [0, 0, 0, 0, 0x0C, 0, 0, 0x1F, 255, 255, 255, 255, 255, 255])) ∧
    (Grammar.Rule.positionFits.FirstBroken [0, 0, 0, 0, 0x0C, 0, 0, 0x20, 0, 0, 0, 0, 0, 0] ∧
      ∃ fault, decode [0, 0, 0, 0, 0x0C, 0, 0, 0x20, 0, 0, 0, 0, 0, 0] = .error fault ∧
        fault.category = .malformedFrame) ∧
    (Grammar.Rule.fixedFields.FirstBroken [0, 0, 0, 0, 0x0C, 0, 0, 0x20, 0, 0, 0, 0, 0] ∧
      ∃ fault, decode [0, 0, 0, 0, 0x0C, 0, 0, 0x20, 0, 0, 0, 0, 0] = .error fault ∧
        fault.category = .inconsistentPayloadSize) := by
  have hread : decode [0, 0, 0, 0, 0x0C, 0, 0, 0x1F, 255, 255, 255, 255, 255, 255] =
      .ok ⟨.ofNat 0, .ofFlags 0, .keepAlive (.ofNat 0x1FFFFFFFFFFFFF) []⟩ := by
    decide +kernel
  have hlarge : Grammar.Rule.positionFits.FirstBroken
      [0, 0, 0, 0, 0x0C, 0, 0, 0x20, 0, 0, 0, 0, 0, 0] :=
    ⟨by decide +kernel, by decide +kernel⟩
  have hcut : Grammar.Rule.fixedFields.FirstBroken
      [0, 0, 0, 0, 0x0C, 0, 0, 0x20, 0, 0, 0, 0, 0] :=
    ⟨by decide +kernel, by decide +kernel⟩
  have hgood := decode_follows_grammar
    [0, 0, 0, 0, 0x0C, 0, 0, 0x1F, 255, 255, 255, 255, 255, 255]
  exact ⟨⟨hread, hgood.1.1 ⟨_, hread⟩, hgood.2.2.2.1 _ _ _ hread rfl⟩,
    ⟨hlarge, (decode_follows_grammar _).2.1 _ hlarge⟩,
    ⟨hcut, (decode_follows_grammar _).2.1 _ hcut⟩⟩

end Frame

end StreamWire
