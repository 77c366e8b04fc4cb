import StreamWire.Kind
import StreamWire.Number.Decimal
import StreamWire.Number.Hexadecimal
/-!
# Faults — every way a call can be refused

A `Fault` is a cause, with the values that brought it about.
`Fault.category` groups causes by what the caller should conclude:
`malformedFrame` and `inconsistentPayloadSize` are defects of the bytes
and mean that the connection is corrupted, the categories of single
fields mean that the frame does not carry what was asked of it, and
`range` means that a value given by the caller cannot be sent.
`Fault.message` is the one place where a cause is put into words.
-/

namespace StreamWire

/-- Why a call was refused. -/
inductive Fault where
  /-- A type code that belongs to no kind. -/
  | unknownType (code : Number)
  /-- Fewer bytes than a header. -/
  | headerCut (length : Nat)
  /-- A received frame on a stream its kind is not allowed on. -/
  | misplaced (kind : FrameKind) (streamId : Nat)
  /-- The metadata bit on a kind that carries no metadata. -/
  | metadataNotAllowed (kind : FrameKind)
  /-- A keep-alive position with more than fifty-three bits. -/
  | positionTooLarge
  /-- A metadata push without metadata. -/
  | metadataNotSent
  /-- An announced frame length above the receiver's maximum. -/
  | frameTooLarge (size : Nat) (maximum : Number)
  /-- A frame other than a continuation within a chain of fragments. -/
  | brokenChain (streamId : Number) (kind : FrameKind)
  /-- Fewer bytes than the fixed fields. -/
  | fixedFieldsCut (kind : FrameKind) (expected length : Nat)
  /-- Fewer bytes than the metadata length. -/
  | metadataLengthCut (kind : FrameKind)
  /-- Metadata announced beyond the end of the frame. -/
  | metadataOverrun (kind : FrameKind) (announced remaining : Nat)
  /-- Bytes after the last field of a kind that carries no data. -/
  | trailingBytes (kind : FrameKind) (count : Nat)
  /-- Metadata asked of a frame that has none. -/
  | noMetadata (kind : FrameKind)
  /-- Data asked of a kind that carries none. -/
  | noData (kind : FrameKind)
  /-- A request count asked of a kind that carries none. -/
  | noRequestN (kind : FrameKind)
  /-- A chain started while another stream's chain was open. -/
  | interleaved (openStreamId streamId : Number)
  /-- The connection ended with chains still open. -/
  | incompleteChains (streamIds : List Number)
  /-- A message that grew beyond the receiver's maximum. -/
  | messageTooLarge (streamId : Number) (size : Nat) (maximum : Number)
  /-- A value that is no stream id. -/
  | invalidStreamId (streamId : Number)
  /-- A frame to be sent on a stream its kind is not allowed on. -/
  | unsendable (kind : FrameKind) (streamId : Number)
  /-- A value that is no request count. -/
  | invalidRequestN (count : Number)
  /-- A value that is no error code. -/
  | invalidErrorCode (code : Number)
  /-- A value that is no position. -/
  | invalidPosition (position : Number)
  /-- Metadata too long for its length field. -/
  | metadataTooLong (length : Nat)
  /-- A frame too long for its length field. -/
  | frameTooLong (size : Nat)
  /-- A value that is no size to split messages to. -/
  | invalidFragmentSize (size : Number)
  /-- A frame above the size asked for, of a kind that is never split. -/
  | unsplittable (kind : FrameKind) (size limit : Nat)
deriving DecidableEq, Repr

/-! ## Categories -/

/-- What a caller should conclude from a fault. -/
inductive Category where
  | unknownFrameType
  | malformedFrame
  | inconsistentPayloadSize
  | noMetadataPresent
  | dataNotSupported
  | requestNNotSupported
  | interleavedFragments
  | incompleteFragmentChain
  | messageTooLarge
  | range
deriving DecidableEq, Repr

/-- The name a category is reported under. -/
def Category.name : Category → String
  | .unknownFrameType => "UnknownFrameTypeError"
  | .malformedFrame => "MalformedFrameError"
  | .inconsistentPayloadSize => "InconsistentPayloadSizeError"
  | .noMetadataPresent => "NoMetadataPresentError"
  | .dataNotSupported => "DataNotSupportedError"
  | .requestNNotSupported => "RequestNNotSupportedError"
  | .interleavedFragments => "InterleavedFragmentsError"
  | .incompleteFragmentChain => "IncompleteFragmentChainError"
  | .messageTooLarge => "MessageTooLargeError"
  | .range => "RangeError"

/-- The name that all categories about frames share. -/
def Category.frameName : String := "FrameError"

/-- The names a category answers to, the narrowest first. An unknown type
is a malformed frame, and all but `range` are about frames. -/
def Category.lineage : Category → List String
  | .range => [Category.range.name]
  | .unknownFrameType =>
    [Category.unknownFrameType.name, Category.malformedFrame.name, Category.frameName]
  | category => [category.name, Category.frameName]

namespace Fault

/-- The category of a cause. -/
def category : Fault → Category
  | unknownType _ => .unknownFrameType
  | headerCut _ | misplaced _ _ | metadataNotAllowed _ | positionTooLarge | metadataNotSent
  | frameTooLarge _ _ | brokenChain _ _ => .malformedFrame
  | fixedFieldsCut _ _ _ | metadataLengthCut _ | metadataOverrun _ _ _ | trailingBytes _ _ =>
    .inconsistentPayloadSize
  | noMetadata _ => .noMetadataPresent
  | noData _ => .dataNotSupported
  | noRequestN _ => .requestNNotSupported
  | interleaved _ _ => .interleavedFragments
  | incompleteChains _ => .incompleteFragmentChain
  | messageTooLarge _ _ _ => .messageTooLarge
  | invalidStreamId _ | unsendable _ _ | invalidRequestN _ | invalidErrorCode _
  | invalidPosition _ | metadataTooLong _ | frameTooLong _ | invalidFragmentSize _
  | unsplittable _ _ _ => .range

/-! ## Words -/

/-- A type code in hexadecimal, with at least two places. -/
def codeText (code : Number) : String :=
  let text := code.hexadecimal
  "0x" ++ String.ofList (List.replicate (2 - text.length) '0') ++ text

/-- What is reported of a fault. -/
def message : Fault → String
  | unknownType code => "Unknown frame type: " ++ codeText code
  | headerCut length =>
    s!"Frame too short: expected at least {Wire.headerSize} bytes, got {length}"
  | misplaced kind streamId => s!"{kind.name} frame not allowed on stream {streamId}"
  | metadataNotAllowed kind => s!"{kind.name} frame cannot carry metadata"
  | positionTooLarge => s!"{FrameKind.keepAlive.name} position exceeds 2^53-1"
  | metadataNotSent => s!"{FrameKind.metadataPush.name} frame without METADATA flag"
  | frameTooLarge size maximum => s!"Frame size {size} exceeds maximum {maximum.decimal}"
  | brokenChain streamId kind =>
    s!"Expected {FrameKind.payload.name} continuation on stream {streamId.decimal}, " ++
      s!"got {kind.name}"
  | fixedFieldsCut kind expected length =>
    s!"{kind.name} frame truncated: expected at least {expected} bytes, got {length}"
  | metadataLengthCut kind => s!"{kind.name} frame truncated inside metadata length"
  | metadataOverrun kind announced remaining =>
    s!"{kind.name} frame metadata length {announced} exceeds remaining {remaining} bytes"
  | trailingBytes kind count => s!"{kind.name} frame has {count} unexpected trailing bytes"
  | noMetadata kind => s!"{kind.name} frame has no metadata"
  | noData kind => s!"{kind.name} frame does not support data content"
  | noRequestN kind => s!"{kind.name} frame does not support requestN"
  | interleaved openStreamId streamId =>
    s!"Fragment for stream {streamId.decimal} interleaved with open chain on stream " ++
      openStreamId.decimal
  | incompleteChains streamIds =>
    "Connection closed with incomplete fragment chains on streams: " ++
      ", ".intercalate (streamIds.map Number.decimal)
  | messageTooLarge streamId size maximum =>
    s!"Reassembled message on stream {streamId.decimal} ({size} bytes) exceeds maximum " ++
      maximum.decimal
  | invalidStreamId streamId => s!"Invalid stream id: {streamId.decimal}"
  | unsendable kind streamId =>
    s!"{kind.name} frame cannot be sent on stream {streamId.decimal}"
  | invalidRequestN count => s!"Invalid requestN: {count.decimal}"
  | invalidErrorCode code => s!"Invalid error code: {code.decimal}"
  | invalidPosition position => s!"Invalid lastReceivedPosition: {position.decimal}"
  | metadataTooLong length =>
    s!"Metadata length {length} exceeds maximum {Wire.maxMetadataLength}"
  | frameTooLong size => s!"Frame size {size} exceeds maximum {Wire.maxFrameLength}"
  | invalidFragmentSize size =>
    s!"Fragment size must be an integer in [{Wire.minFragmentSize}, {Wire.maxFrameLength}], " ++
      s!"got {size.decimal}"
  | unsplittable kind size limit =>
    s!"{kind.name} frame of {size} bytes exceeds {limit} and cannot be fragmented"

end Fault

/-- The name of a type code: its kind's name, or the code itself where no
kind has it. -/
def typeName (code : Number) : String :=
  match FrameKind.ofCode? code with
  | some kind => kind.name
  | none => "UNKNOWN(0x" ++ code.hexadecimal ++ ")"

/-- The kind of a type code. -/
def resolveKind (code : Number) : Except Fault FrameKind :=
  match FrameKind.ofCode? code with
  | some kind => .ok kind
  | none => .error (.unknownType code)

/-- **A code is refused exactly when no kind has it.** -/
theorem resolveKind_eq_ok_iff {code : Number} {kind : FrameKind} :
    resolveKind code = .ok kind ↔ FrameKind.ofCode? code = some kind := by
  unfold resolveKind
  split <;> simp_all

end StreamWire
