import StreamWire.Frame
import StreamWire.Text.Utf8
/-!
# Encoding — a frame as bytes

A frame is written into a blank buffer whose size is read off the table
of kinds: header, fixed fields, metadata block, data. Each writer judges
its own values before it writes, and the first value that cannot be sent
decides the fault: type, stream scope, stream id, fixed fields, metadata
length. `Frame.encodeWithLength` is the form frames take on a byte
stream, behind their own length.
-/

namespace StreamWire

/-! ## Fields -/

/-- The `width` bytes of a number that is at most `limit`; any other
value is refused. -/
def numberField (width limit : Nat) (refusal : Number → Fault) (x : Number) :
    Except Fault Bytes :=
  match x.toNatUpTo? limit with
  | some n => .ok (BigEndian.encode width n)
  | none => .error (refusal x)

/-- The four bytes of a request count. -/
def requestNField : Number → Except Fault Bytes :=
  numberField Wire.requestNSize Wire.maxRequestN .invalidRequestN

/-- The four bytes of an error code. -/
def errorCodeField : Number → Except Fault Bytes :=
  numberField Wire.errorCodeSize Wire.maxErrorCode .invalidErrorCode

/-- The eight bytes of a position, as two words with the high one first.
Neither is rounded in double precision, where a division by a power of two
keeps every binary place. -/
def positionField (x : Number) : Except Fault Bytes :=
  match x.toNatUpTo? Wire.maxPosition with
  | some n => .ok (BigEndian.encode 4 (n / 0x100000000) ++ BigEndian.encode 4 (n % 0x100000000))
  | none => .error (.invalidPosition x)

/-- The bytes between the header and the metadata block. -/
def Body.fixedFields : Body → Except Fault Bytes
  | .message (.requestStream count) _ => requestNField count
  | .message (.requestChannel count) _ => requestNField count
  | .requestN count => requestNField count
  | .error code _ => errorCodeField code
  | .keepAlive position _ => positionField position
  | _ => .ok []

/-! ## Writing -/

namespace Write

/-- Writes the fixed fields of a body. -/
def fixedFields (body : Body) : Write Unit :=
  match body.fixedFields with
  | .ok fields => Write.bytes fields
  | .error fault => throw fault

/-- Writes a metadata block: its length, and then as much of it as the
buffer has room for. -/
def metadata (block : Bytes) : Write Unit :=
  let length := block.length
  if Wire.maxMetadataLength < length then
    throw (.metadataTooLong length)
  else do
    Write.bytes (BigEndian.encode Wire.metadataLengthSize length)
    Write.bytes block

/-- Writes the metadata block of a frame that has one. -/
def metadata? : Option Bytes → Write Unit
  | some block => Write.metadata block
  | none => pure ()

/-- Writes a frame with the given flags. -/
def frame (f : Frame) (flags : BitVec 10) : Write Unit := do
  Write.header f.streamId f.typeCode (.ofFlags flags)
  Write.fixedFields f.body
  Write.metadata? f.metadata
  Write.bytes f.data

end Write

namespace Frame

/-- The bytes of a frame. -/
def encode (f : Frame) : Except Fault Bytes := do
  let kind ← f.kind
  if kind.traits.scope.allows f.streamId then
    let size ← f.size
    let flags ← f.wireFlags
    let written ← (Write.frame f flags).filled (.blank size)
    return written.bytes
  else
    throw (.unsendable kind f.streamId)

/-- The bytes of a frame behind their own length. A frame that is too
long for the length field is refused before any of its fields is looked
at. -/
def encodeWithLength (f : Frame) : Except Fault Bytes := do
  let size ← f.size
  if Wire.maxFrameLength < size then
    throw (.frameTooLong size)
  else
    return BigEndian.encode Wire.lengthSize size ++ (← f.encode)

/-! ## Common frames -/

/-- An item of a stream. -/
def ofPayload (streamId : Number) (data : Bytes) (metadata : Option Bytes := none)
    (flags : Number := .ofWord Flag.next) : Frame :=
  ⟨streamId, flags, .message .payload ⟨metadata, data⟩⟩

/-- A request for a stream of answers. -/
def ofRequestStream (streamId initialN : Number) (data : Bytes)
    (metadata : Option Bytes := none) : Frame :=
  ⟨streamId, .ofNat 0, .message (.requestStream initialN) ⟨metadata, data⟩⟩

/-- A request for more answers. -/
def ofRequestN (streamId count : Number) : Frame :=
  ⟨streamId, .ofNat 0, .requestN count⟩

/-- The end of a stream at its receiver's wish. -/
def ofCancel (streamId : Number) : Frame :=
  ⟨streamId, .ofNat 0, .cancel⟩

/-- An error with a message. -/
def ofError (streamId code : Number) (message : String) : Frame :=
  ⟨streamId, .ofNat 0, .error code (Utf8.encode message)⟩

/-- A sign of life, on the connection. -/
def ofKeepAlive (position : Number) (data : Bytes := []) (respond : Bool := false) : Frame :=
  ⟨.ofNat 0, if respond then .ofWord Flag.respond else .ofNat 0, .keepAlive position data⟩

/-- Metadata about the connection itself. -/
def ofMetadataPush (metadata : Bytes) : Frame :=
  ⟨.ofNat 0, .ofNat 0, .metadataPush metadata⟩

end Frame

end StreamWire
