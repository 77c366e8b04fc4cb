import StreamWire.Number
import StreamWire.Wire
/-!
# Frame kinds — what each may carry, and where

`FrameKind` lists the kinds of frame that are in use, and
`FrameKind.traits` is the one table every other module reads: fixed
fields, metadata, data, fragmentation, and the streams a kind may be sent
on. Kinds whose body is carried without being interpreted are `raw`.
`FrameKind.ofCode?` finds the kind of a type code; a code that belongs to
none is unassigned.
-/

namespace StreamWire

/-- The streams a kind of frame may be sent on: the connection itself,
which is stream zero, any other stream, or either. -/
inductive Scope where
  | connection
  | stream
  | any
deriving DecidableEq, Repr

/-- Whether a scope admits a stream id. -/
def Scope.allows (scope : Scope) (streamId : Number) : Bool :=
  match scope with
  | .connection => streamId.isZero
  | .stream => !streamId.isZero
  | .any => true

/-- The kinds of frame in use. -/
inductive FrameKind where
  | setup
  | lease
  | keepAlive
  | requestResponse
  | fireAndForget
  | requestStream
  | requestChannel
  | requestN
  | cancel
  | payload
  | error
  | metadataPush
  | resume
  | resumeOk
  | ext
deriving DecidableEq, Repr

/-- What a kind of frame may carry. -/
structure Traits where
  /-- A request count follows the header and the frame opens a stream. -/
  hasInitialRequestN : Bool := false
  /-- A request count is carried at all. -/
  hasRequestN : Bool := false
  canHaveMetadata : Bool := false
  canHaveData : Bool := false
  /-- Bytes between the header and the metadata block. -/
  fixedSize : Nat := 0
  /-- A message of this kind may be split into fragments. -/
  fragmentable : Bool := false
  scope : Scope := .stream
  /-- The body is carried without being interpreted. -/
  raw : Bool := false
deriving DecidableEq, Repr

namespace FrameKind

/-- Every kind, by ascending type code. -/
def all : List FrameKind :=
  [.setup, .lease, .keepAlive, .requestResponse, .fireAndForget, .requestStream, .requestChannel,
    .requestN, .cancel, .payload, .error, .metadataPush, .resume, .resumeOk, .ext]

/-- The type code in the header. -/
def code : FrameKind → Nat
  | .setup => 1
  | .lease => 2
  | .keepAlive => 3
  | .requestResponse => 4
  | .fireAndForget => 5
  | .requestStream => 6
  | .requestChannel => 7
  | .requestN => 8
  | .cancel => 9
  | .payload => 10
  | .error => 11
  | .metadataPush => 12
  | .resume => 13
  | .resumeOk => 14
  | .ext => 63

/-- The type code that is set aside and never sent. -/
def reservedCode : Nat := 0

/-- The name a kind goes by in messages. -/
def name : FrameKind → String
  | .setup => "SETUP"
  | .lease => "LEASE"
  | .keepAlive => "KEEPALIVE"
  | .requestResponse => "REQUEST_RESPONSE"
  | .fireAndForget => "REQUEST_FNF"
  | .requestStream => "REQUEST_STREAM"
  | .requestChannel => "REQUEST_CHANNEL"
  | .requestN => "REQUEST_N"
  | .cancel => "CANCEL"
  | .payload => "PAYLOAD"
  | .error => "ERROR"
  | .metadataPush => "METADATA_PUSH"
  | .resume => "RESUME"
  | .resumeOk => "RESUME_OK"
  | .ext => "EXT"

/-! ## The table -/

/-- A message of metadata and data. -/
def messageTraits : Traits :=
  { canHaveMetadata := true, canHaveData := true, fragmentable := true }

/-- A message that asks for a number of answers. -/
def countedTraits : Traits :=
  { messageTraits with
    hasInitialRequestN := true, hasRequestN := true, fixedSize := Wire.requestNSize }

/-- Connection negotiation. -/
def rawTraits : Traits := { scope := .connection, raw := true }

/-- What each kind may carry, and on which streams. -/
def traits : FrameKind → Traits
  | .setup | .lease | .resume | .resumeOk => rawTraits
  | .ext => { rawTraits with scope := .any }
  | .keepAlive => { canHaveData := true, fixedSize := Wire.positionSize, scope := .connection }
  | .requestResponse | .fireAndForget | .payload => messageTraits
  | .requestStream | .requestChannel => countedTraits
  | .requestN => { hasRequestN := true, fixedSize := Wire.requestNSize }
  | .cancel => {}
  | .error => { canHaveData := true, fixedSize := Wire.errorCodeSize, scope := .any }
  | .metadataPush => { canHaveMetadata := true, scope := .connection }

/-! ## Type codes -/

/-- The kind with a given type code. -/
def ofNat? (n : Nat) : Option FrameKind :=
  all.find? fun kind => kind.code == n

/-- The kind a value is the type code of. -/
def ofCode? (code : Number) : Option FrameKind :=
  code.toNat?.bind ofNat?

/-- Every kind is found by its own code. -/
@[simp] theorem ofNat?_code (kind : FrameKind) : ofNat? kind.code = some kind := by
  cases kind <;> rfl

/-- A kind is found under its own code and no other. -/
theorem ofNat?_eq_some_iff {n : Nat} {kind : FrameKind} :
    ofNat? n = some kind ↔ n = kind.code := by
  constructor
  · intro h
    have := List.find?_some (p := fun kind : FrameKind => kind.code == n) h
    exact (beq_iff_eq.1 this).symm
  · rintro rfl
    exact ofNat?_code kind

/-- The type code of a kind, as a value, leads back to it. -/
@[simp] theorem ofCode?_code (kind : FrameKind) : ofCode? (Number.ofNat kind.code) = some kind := by
  simp [ofCode?]

end FrameKind

end StreamWire
