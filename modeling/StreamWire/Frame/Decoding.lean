import StreamWire.Frame.Layout
import StreamWire.Text.Utf8
/-!
# Decoding — bytes as a frame

`Frame.decode` turns the bytes of one frame into a `Frame`. Beyond what
`Layout.of` asks for it refuses two things: a keep-alive position that no
double holds exactly, and a metadata push without metadata. The readers
in `Encoded` answer a question about one field without decoding the
frame.
-/

namespace StreamWire

namespace Encoded

/-! ## Fixed fields -/

/-- The four bytes after the header, as a number. -/
def wordField (frame : Bytes) : Nat :=
  BigEndian.decode (slice frame Wire.headerSize Wire.requestNSize)

/-- The eight bytes after the header, as a position. -/
def positionField (frame : Bytes) : Except Fault Nat :=
  let position := BigEndian.decode (slice frame Wire.headerSize Wire.positionSize)
  if Wire.maxPosition < position then .error .positionTooLarge else .ok position

/-! ## Single fields -/

/-- The stream id of an encoded frame. -/
def streamId (frame : Bytes) : Except Fault Nat :=
  (Header.decode frame).map Header.streamId

/-- The kind of an encoded frame. -/
def kind (frame : Bytes) : Except Fault FrameKind :=
  (Header.decode frame).map Header.kind

/-- The flags of an encoded frame. -/
def flags (frame : Bytes) : Except Fault (BitVec 10) :=
  (Header.decode frame).map Header.flags

/-- The metadata of an encoded frame that has some. -/
def metadata (frame : Bytes) : Except Fault Bytes := do
  let layout ← Layout.of frame
  match layout.metadata with
  | some block => return block.of frame
  | none => throw (.noMetadata layout.header.kind)

/-- The data of an encoded frame of a kind that carries data. -/
def data (frame : Bytes) : Except Fault Bytes := do
  let layout ← Layout.of frame
  if layout.traits.canHaveData then return layout.data.of frame
  else throw (.noData layout.header.kind)

/-- The request count of an encoded frame of a kind that carries one. -/
def requestN (frame : Bytes) : Except Fault Nat := do
  let layout ← Layout.of frame
  if layout.traits.hasRequestN then return wordField frame
  else throw (.noRequestN layout.header.kind)

/-- How many bytes follow the fixed fields and the metadata. -/
def dataSize (frame : Bytes) : Except Fault Nat := do
  return (← Layout.of frame).data.length

end Encoded

namespace Frame

/-- The body of a frame of known kind, from its parts. -/
def decodeBody (kind : FrameKind) (frame : Bytes) (metadata : Option Bytes) (data : Bytes) :
    Except Fault Body :=
  match kind with
  | .requestResponse => .ok (.message .requestResponse ⟨metadata, data⟩)
  | .fireAndForget => .ok (.message .fireAndForget ⟨metadata, data⟩)
  | .payload => .ok (.message .payload ⟨metadata, data⟩)
  | .requestStream =>
    .ok (.message (.requestStream (.ofNat (Encoded.wordField frame))) ⟨metadata, data⟩)
  | .requestChannel =>
    .ok (.message (.requestChannel (.ofNat (Encoded.wordField frame))) ⟨metadata, data⟩)
  | .requestN => .ok (.requestN (.ofNat (Encoded.wordField frame)))
  | .cancel => .ok .cancel
  | .error => .ok (.error (.ofNat (Encoded.wordField frame)) data)
  | .keepAlive =>
    match Encoded.positionField frame with
    | .ok position => .ok (.keepAlive (.ofNat position) data)
    | .error fault => .error fault
  | .metadataPush =>
    match metadata with
    | some block => .ok (.metadataPush block)
    | none => .error .metadataNotSent
  | .setup => .ok (.raw .setup data)
  | .lease => .ok (.raw .lease data)
  | .resume => .ok (.raw .resume data)
  | .resumeOk => .ok (.raw .resumeOk data)
  | .ext => .ok (.raw .ext data)

/-- The frame that a byte string encodes. -/
def decode (frame : Bytes) : Except Fault Frame := do
  let layout ← Layout.of frame
  let metadata := layout.metadata.map (·.of frame)
  let body ← decodeBody layout.header.kind frame metadata (layout.data.of frame)
  return { streamId := .ofNat layout.header.streamId
           flags := .ofFlags layout.header.flags
           body }

/-! ## Error messages -/

/-- The message of an error frame. -/
def errorMessage? (f : Frame) : Option String :=
  match f.body with
  | .error _ data => some (Utf8.decode data)
  | _ => none

end Frame

end StreamWire
