import StreamWire.Header
/-!
# Frames — what one unit of the protocol holds

A `Frame` is a stream id, a flag field and a `Body`. The five kinds that
carry a message, and can be split, share one body: a `Head` with the
fields of the kind and a `Payload` of metadata and data. The numeric
fields hold whatever the caller gave; whether a frame can be sent is
decided when it is encoded. A body with an unassigned type code carries
the proof that no kind has the code, so that `Frame.kind` and
`Frame.typeCode` never disagree.
-/

namespace StreamWire

/-- Metadata, which may be absent, and data, which may be empty. -/
structure Payload where
  metadata : Option Bytes
  data : Bytes
deriving DecidableEq, Repr

/-- The bytes of metadata and data together. -/
def Payload.size (p : Payload) : Nat := (p.metadata.getD []).length + p.data.length

/-- The kinds that carry a message, each with its own fields. -/
inductive Head where
  | requestResponse
  | fireAndForget
  | requestStream (initialN : Number)
  | requestChannel (initialN : Number)
  | payload
deriving DecidableEq, Repr

/-- The kinds whose body is carried without being interpreted. -/
inductive RawKind where
  | setup
  | lease
  | resume
  | resumeOk
  | ext
deriving DecidableEq, Repr

/-- What a frame holds behind its header. -/
inductive Body where
  | message (head : Head) (payload : Payload)
  | requestN (count : Number)
  | cancel
  | error (code : Number) (data : Bytes)
  | keepAlive (position : Number) (data : Bytes)
  | metadataPush (metadata : Bytes)
  | raw (kind : RawKind) (body : Bytes)
  | unassigned (code : Number) (unused : FrameKind.ofCode? code = none)
deriving DecidableEq, Repr

/-- One unit of the protocol. -/
structure Frame where
  streamId : Number
  flags : Number
  body : Body
deriving DecidableEq, Repr

/-! ## Kinds -/

/-- The frame kind of a message. -/
def Head.kind : Head → FrameKind
  | .requestResponse => .requestResponse
  | .fireAndForget => .fireAndForget
  | .requestStream _ => .requestStream
  | .requestChannel _ => .requestChannel
  | .payload => .payload

/-- The frame kind of an uninterpreted body. -/
def RawKind.kind : RawKind → FrameKind
  | .setup => .setup
  | .lease => .lease
  | .resume => .resume
  | .resumeOk => .resumeOk
  | .ext => .ext

namespace Body

/-- The frame kind of a body. -/
def kind : Body → Except Fault FrameKind
  | .message head _ => .ok head.kind
  | .requestN _ => .ok .requestN
  | .cancel => .ok .cancel
  | .error _ _ => .ok .error
  | .keepAlive _ _ => .ok .keepAlive
  | .metadataPush _ => .ok .metadataPush
  | .raw kind _ => .ok kind.kind
  | .unassigned code _ => .error (.unknownType code)

/-- The type code of a body. -/
def typeCode : Body → Number
  | .unassigned code _ => code
  | .message head _ => .ofNat head.kind.code
  | .requestN _ => .ofNat FrameKind.requestN.code
  | .cancel => .ofNat FrameKind.cancel.code
  | .error _ _ => .ofNat FrameKind.error.code
  | .keepAlive _ _ => .ofNat FrameKind.keepAlive.code
  | .metadataPush _ => .ofNat FrameKind.metadataPush.code
  | .raw kind _ => .ofNat kind.kind.code

/-- **A body's kind is the kind of its type code.** -/
theorem kind_eq_resolveKind (body : Body) : body.kind = resolveKind body.typeCode := by
  cases body with
  | unassigned code unused => simp [kind, typeCode, resolveKind, unused]
  | _ => simp [kind, typeCode, resolveKind]

/-- The metadata of a body, if it has any. -/
def metadata : Body → Option Bytes
  | .message _ payload => payload.metadata
  | .metadataPush metadata => some metadata
  | _ => none

/-- The bytes of a body after its fixed fields and metadata. -/
def data : Body → Bytes
  | .message _ payload => payload.data
  | .error _ data => data
  | .keepAlive _ data => data
  | .raw _ body => body
  | _ => []

end Body

namespace Frame

/-- The kind of a frame. -/
def kind (f : Frame) : Except Fault FrameKind := f.body.kind

/-- The type code of a frame. -/
def typeCode (f : Frame) : Number := f.body.typeCode

/-- The metadata of a frame, if it has any. -/
def metadata (f : Frame) : Option Bytes := f.body.metadata

/-- The bytes of a frame after its fixed fields and metadata. -/
def data (f : Frame) : Bytes := f.body.data

/-- Whether a frame is of a kind that may be split into fragments. -/
def isFragmentable (f : Frame) : Except Fault Bool := do
  return (← f.kind).traits.fragmentable

/-- The flags a frame is sent with: the low ten bits of its flag field,
with the metadata bit telling whether there is metadata. Kinds with an
uninterpreted body keep the bit they were given. -/
def wireFlags (f : Frame) : Except Fault (BitVec 10) := do
  let flags := f.flags.wireFlags
  let bit : BitVec 10 := Flag.metadata.setWidth 10
  if (← f.kind).traits.raw then return flags
  else if f.metadata.isSome then return flags ||| bit
  else return flags &&& ~~~bit

/-- The bytes a metadata block takes. -/
def metadataSize (metadata : Option Bytes) : Nat :=
  match metadata with
  | some block => Wire.metadataLengthSize + block.length
  | none => 0

/-- The bytes a frame takes, without the length it follows on a byte
stream. -/
def size (f : Frame) : Except Fault Nat := do
  return Wire.headerSize + (← f.kind).traits.fixedSize + metadataSize f.metadata + f.data.length

end Frame

end StreamWire
