import StreamWire.Frame
/-!
# Layout — where the parts of an encoded frame lie

`Layout.of` judges the bytes of one frame without copying any of them,
and says where its metadata and its data begin and end. It checks, in
this order: header, stream scope, fixed fields, whether the kind may
carry metadata, the metadata length and the metadata it announces, and
that nothing is left over where the kind carries no data. Decoding and
the single-field readers both start from here, so they refuse the same
frames for the same reasons.
-/

namespace StreamWire

/-- A stretch of an encoded frame. -/
structure Section where
  offset : Nat
  length : Nat
deriving DecidableEq, Repr

/-- The bytes of a stretch. -/
def Section.of (s : Section) (frame : Bytes) : Bytes := slice frame s.offset s.length

/-- The parts of an encoded frame. -/
structure Layout where
  header : Header
  metadata : Option Section
  data : Section
deriving DecidableEq, Repr

namespace Layout

/-- Where the metadata begins, and `-1` where there is none. -/
def metadataOffset (l : Layout) : Int :=
  match l.metadata with
  | some block => block.offset
  | none => -1

/-- How long the metadata is, and zero where there is none. -/
def metadataLength (l : Layout) : Nat :=
  match l.metadata with
  | some block => block.length
  | none => 0

/-- What the kind of the frame may carry. -/
def traits (l : Layout) : Traits := l.header.kind.traits

/-! ## Judging a frame -/

/-- The stretch from `offset` to the end of a frame of `length` bytes, as
data of the frame's kind. Kinds without data end where their last field
does. -/
def dataSection (header : Header) (metadata : Option Section) (offset length : Nat) :
    Except Fault Layout :=
  if !header.kind.traits.canHaveData && length - offset != 0 then
    .error (.trailingBytes header.kind (length - offset))
  else
    .ok { header, metadata, data := ⟨offset, length - offset⟩ }

/-- The parts of a frame whose fixed fields end at `offset`. -/
def afterFixedFields (header : Header) (frame : Bytes) (offset : Nat) : Except Fault Layout :=
  let length := frame.length
  if !header.hasMetadata then
    dataSection header none offset length
  else if !header.kind.traits.canHaveMetadata then
    .error (.metadataNotAllowed header.kind)
  else if length < offset + Wire.metadataLengthSize then
    .error (.metadataLengthCut header.kind)
  else
    let announced := BigEndian.decode (slice frame offset Wire.metadataLengthSize)
    let start := offset + Wire.metadataLengthSize
    if length < start + announced then
      .error (.metadataOverrun header.kind announced (length - start))
    else
      dataSection header (some ⟨start, announced⟩) (start + announced) length

/-- The parts of an encoded frame. -/
def of (frame : Bytes) : Except Fault Layout :=
  match Header.decode frame with
  | .error fault => .error fault
  | .ok header =>
    let traits := header.kind.traits
    let fixedEnd := Wire.headerSize + traits.fixedSize
    if !traits.scope.allows (.ofNat header.streamId) then
      .error (.misplaced header.kind header.streamId)
    else if traits.raw then
      .ok { header, metadata := none, data := ⟨Wire.headerSize, frame.length - Wire.headerSize⟩ }
    else if frame.length < fixedEnd then
      .error (.fixedFieldsCut header.kind fixedEnd frame.length)
    else
      afterFixedFields header frame fixedEnd

end Layout

end StreamWire
