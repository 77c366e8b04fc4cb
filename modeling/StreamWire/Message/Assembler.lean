import StreamWire.Frame.Decoding
import StreamWire.Notice
/-!
# The assembler — chains of fragments back into messages

An `Assembler` receives the frames of one connection in wire order. A
message frame with the `follows` bit starts a chain on its stream, the
`payload` frames that come after it on that stream are added to it, and
the first of them without the bit completes the message. Everything else
passes through. At most one chain is open on a stream, chains are listed
in the order they were started, and a stream is known by the `key` of
its id. What a call leads to is an `Outcome`: the assembler afterwards,
the result, and the notices it gave.
-/

namespace StreamWire

/-! ## Chains -/

/-- A message of which the last fragment has not arrived: the stream id,
flags and head of its first frame, the payloads so far, and their bytes. -/
structure Chain where
  streamId : Number
  flags : Number
  head : Head
  pieces : List Payload
  size : Nat
deriving DecidableEq, Repr

/-- Payloads one after the other. Metadata is present if any of them has
some. -/
def Payload.concat (pieces : List Payload) : Payload where
  metadata :=
    if pieces.any (·.metadata.isSome) then some (pieces.filterMap (·.metadata)).flatten else none
  data := (pieces.map (·.data)).flatten

namespace Chain

/-- The stream a chain belongs to. -/
def key (chain : Chain) : Number := chain.streamId.key

/-- A chain with one more payload. -/
def append (chain : Chain) (piece : Payload) : Chain :=
  { chain with pieces := chain.pieces ++ [piece], size := chain.size + piece.size }

/-- The message of a chain whose last frame had the flags `last`: the
flags of the first frame, with `complete` from the last one and the
metadata bit telling whether there is metadata. -/
def message (chain : Chain) (last : Number) : Frame :=
  let payload := Payload.concat chain.pieces
  let kept := chain.flags.word &&& ~~~(Flag.follows ||| Flag.complete ||| Flag.metadata)
  let done := last.word &&& Flag.complete
  let described := if payload.metadata.isSome then Flag.metadata else 0
  { streamId := chain.streamId
    flags := .ofWord (kept ||| done ||| described)
    body := .message chain.head payload }

end Chain

/-! ## The assembler -/

/-- How an assembler is to be run. -/
structure AssemblerOptions where
  /-- Whether chains may be open on several streams at once. -/
  allowInterleaving : Bool := true
  /-- The most bytes of metadata and data a message may have. -/
  maxMessageSize : Number := .infinity
deriving DecidableEq, Repr

/-- The open chains of a connection, by the time they were started. -/
structure Assembler where
  options : AssemblerOptions := {}
  chains : List Chain := []
deriving DecidableEq, Repr

/-- What a call led to. -/
structure Outcome (α : Type) where
  assembler : Assembler
  result : Except Fault α
  notices : List Notice := []

namespace Assembler

/-- The chain that is open on a stream. -/
def chain? (a : Assembler) (streamId : Number) : Option Chain :=
  a.chains.find? fun chain => chain.key == streamId.key

/-- The streams with an open chain, by the time the chains were started. -/
def pending (a : Assembler) : List Number := a.chains.map Chain.key

/-- Without the chain of a stream. -/
def drop (a : Assembler) (streamId : Number) : Assembler :=
  { a with chains := a.chains.filter fun chain => chain.key != streamId.key }

/-- With a chain in the place of the one on its stream, or after all
others where its stream had none. -/
def put (a : Assembler) (chain : Chain) : Assembler :=
  if (a.chain? chain.streamId).isSome then
    { a with chains := a.chains.map fun other => if other.key == chain.key then chain else other }
  else
    { a with chains := a.chains ++ [chain] }

/-- The chain with one more payload, if the message stays within the
maximum. -/
def grow (a : Assembler) (streamId : Number) (chain : Chain) (piece : Payload) :
    Except Fault Chain :=
  let grown := chain.append piece
  if a.options.maxMessageSize.isBelow grown.size then
    .error (.messageTooLarge streamId grown.size a.options.maxMessageSize)
  else
    .ok grown

/-! ## Calls -/

/-- Drops the chain of a stream, and tells whether there was one. -/
def discard (a : Assembler) (streamId : Number) : Outcome Bool :=
  match a.chain? streamId with
  | none => { assembler := a, result := .ok false }
  | some chain =>
    { assembler := a.drop streamId
      result := .ok true
      notices := [.discarded streamId chain.size] }

/-- The open chain that keeps another from being started, if chains may
not be open side by side. -/
def obstacle? (a : Assembler) (streamId : Number) : Option Chain :=
  if a.options.allowInterleaving then none
  else a.chains.find? fun chain => chain.key != streamId.key

/-- A frame on a stream without an open chain. It passes, unless it is
the first of a chain. -/
def onIdleStream (a : Assembler) (f : Frame) : Outcome (Option Frame) :=
  match f.body with
  | .unassigned code _ => { assembler := a, result := .error (.unknownType code) }
  | .message head payload =>
    if f.flags.hasFlag Flag.follows then
      match a.obstacle? f.streamId with
      | some other => { assembler := a, result := .error (.interleaved other.key f.streamId) }
      | none =>
        match a.grow f.streamId ⟨f.streamId, f.flags, head, [], 0⟩ payload with
        | .error fault => { assembler := a.drop f.streamId, result := .error fault }
        | .ok started => { assembler := a.put started, result := .ok none }
    else
      { assembler := a, result := .ok (some f) }
  | _ => { assembler := a, result := .ok (some f) }

/-- A frame on a stream whose chain is open. The end of the stream drops
the chain and passes, a payload is added to it, and anything else breaks
it. -/
def onOpenStream (a : Assembler) (chain : Chain) (f : Frame) : Outcome (Option Frame) :=
  match f.body with
  | .cancel | .error _ _ =>
    let dropped := a.discard f.streamId
    { assembler := dropped.assembler, result := .ok (some f), notices := dropped.notices }
  | .message .payload payload =>
    match a.grow f.streamId chain payload with
    | .error fault => { assembler := a.drop f.streamId, result := .error fault }
    | .ok grown =>
      if f.flags.hasFlag Flag.follows then
        { assembler := a.put grown, result := .ok none }
      else
        { assembler := a.drop f.streamId, result := .ok (some (grown.message f.flags)) }
  | body =>
    { assembler := a.drop f.streamId
      result :=
        match body.kind with
        | .ok kind => .error (.brokenChain f.streamId kind)
        | .error fault => .error fault }

/-- Receives a frame. The result is a whole frame or message, or nothing
while the chain it belongs to is open. -/
def push (a : Assembler) (f : Frame) : Outcome (Option Frame) :=
  match a.chain? f.streamId with
  | none => a.onIdleStream f
  | some chain => a.onOpenStream chain f

/-- Receives an encoded frame. -/
def pushEncoded (a : Assembler) (frame : Bytes) : Outcome (Option Frame) :=
  match Frame.decode frame with
  | .ok f => a.push f
  | .error fault => { assembler := a, result := .error fault }

/-- Ends the connection. Chains that are still open are dropped and
reported. -/
def close (a : Assembler) : Outcome Unit :=
  { assembler := { a with chains := [] }
    result := if a.chains.isEmpty then .ok () else .error (.incompleteChains a.pending) }

end Assembler

end StreamWire
