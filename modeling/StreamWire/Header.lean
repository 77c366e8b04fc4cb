import StreamWire.StreamId
import StreamWire.Writer
/-!
# Headers — stream id, type and flags in six bytes

The first four bytes are the stream id, with the top bit reserved: it is
written as zero and ignored when read. The next two hold the type code
above ten flag bits. `Write.header` judges both before it writes
anything; `Header.decode` refuses what is too short and what names no
kind.
-/

namespace StreamWire

/-- A header as read from the wire. -/
structure Header where
  streamId : Nat
  kind : FrameKind
  flags : BitVec 10
deriving DecidableEq, Repr

/-! ## Flag words -/

namespace Number

/-- The ten flag bits of a value. -/
def wireFlags (x : Number) : BitVec 10 := x.word.setWidth 10

/-- Ten flag bits as a value. -/
def ofFlags (flags : BitVec 10) : Number := ofNat flags.toNat

/-- Whether a value has any bit of a mask set. -/
def hasFlag (x : Number) (mask : BitVec 32) : Bool := x.word &&& mask != 0

@[simp] theorem wireFlags_ofFlags (flags : BitVec 10) : (ofFlags flags).wireFlags = flags := by
  simp [wireFlags, ofFlags, ofNat, word]

end Number

/-! ## Encoding -/

/-- The six bytes of a header. -/
def Header.bytes (streamId : Nat) (kind : FrameKind) (flags : BitVec 10) : Bytes :=
  BigEndian.encode 4 streamId ++ BigEndian.encode 2 ((kind.code <<< Wire.typeShift) + flags.toNat)

/-- Writes a header. The stream id is judged first, then the type code;
of the flags the low ten bits are kept. -/
def Write.header (streamId type flags : Number) : Write Unit :=
  match StreamId.ofNumber? streamId with
  | none => throw (.invalidStreamId streamId)
  | some id =>
    match resolveKind type with
    | .error fault => throw fault
    | .ok kind => Write.bytes (Header.bytes id kind flags.wireFlags)

namespace Header

/-- A header on its own. -/
def encode (streamId type flags : Number) : Except Fault Bytes :=
  ((Write.header streamId type flags).filled (.blank Wire.headerSize)).map Writer.bytes

/-! ## Decoding -/

/-- The header at the start of a frame. -/
def decode (frame : Bytes) : Except Fault Header :=
  if frame.length < Wire.headerSize then
    .error (.headerCut frame.length)
  else
    let tag := BigEndian.decode (slice frame 4 2)
    match resolveKind (.ofNat (tag >>> Wire.typeShift)) with
    | .error fault => .error fault
    | .ok kind =>
      .ok { streamId := BigEndian.decode (slice frame 0 4) % (Wire.maxStreamId + 1)
            kind
            flags := BitVec.ofNat 10 tag }

/-- Whether the metadata bit is set. -/
def hasMetadata (h : Header) : Bool := h.flags &&& Flag.metadata.setWidth 10 != 0

end Header

end StreamWire
