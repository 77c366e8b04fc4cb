import StreamWire.Inbound.Session
import StreamWire.Message.Assembler
import StreamWire.Message.Fragments
/-!
# Links — one direction of a connection, end to end

At the sending end each frame becomes a chain of fragments, the chains
share the link in turns, and every fragment is sent behind its length. At
the receiving end the byte stream arrives in chunks of any size, a
deframer reads the frames, and an assembler puts the messages together.
`Link.transmit` runs both ends and reports what went over the link and
what came out of it.
-/

namespace StreamWire

namespace Link

/-! ## The sending end -/

/-- The lists in turns: the first element of each, then the second of
each, and so on, passing over those that have run out. -/
def interleave {α : Type} (queues : List (List α)) : List α :=
  let longest := (queues.map List.length).foldl max 0
  (List.range longest).flatMap fun turn => queues.filterMap (·[turn]?)

/-- A fragment behind its length. -/
def delimited (fragment : Bytes) : Bytes :=
  BigEndian.encode Wire.lengthSize fragment.length ++ fragment

/-- The chunks a byte stream is cut into, with the sizes taken in turns.
No chunk is empty. -/
def cutFrom (sizes : List Nat) (turn : Nat) (stream : Bytes) : List Bytes :=
  if stream = [] then []
  else
    let size := max 1 (sizes.getD (turn % sizes.length) 1)
    stream.take size :: cutFrom sizes (turn + 1) (stream.drop size)
termination_by stream.length
decreasing_by
  have := List.length_pos_iff.2 ‹stream ≠ []›
  simp only [List.length_drop]
  omega

/-! ## The receiving end -/

/-- What came out of a link. -/
inductive Delivery where
  /-- A whole frame or a message put together. -/
  | message (f : Frame)
  /-- A frame that the assembler refused. -/
  | refused (fault : Fault)
  /-- The byte stream could not be read on. -/
  | unreadable (fault : Fault)
deriving DecidableEq, Repr

/-- The receiving end, with what it has put out and logged. -/
structure Receiver where
  session : Session := {}
  assembler : Assembler := {}
  deliveries : Array Delivery := #[]
  notices : Array Notice := #[]

namespace Receiver

/-- Hands a frame to the assembler. -/
def accept (r : Receiver) (f : Frame) : Receiver :=
  let outcome := r.assembler.push f
  let deliveries :=
    match outcome.result with
    | .ok (some message) => r.deliveries.push (.message message)
    | .ok none => r.deliveries
    | .error fault => r.deliveries.push (.refused fault)
  { r with
    assembler := outcome.assembler
    deliveries
    notices := r.notices ++ outcome.notices.toArray }

/-- Follows what the deframer announced. -/
def observe (r : Receiver) : Event → Receiver
  | .frame f _ => r.accept f
  | .failure fault _ => { r with deliveries := r.deliveries.push (.unreadable fault) }
  | .notice notice => { r with notices := r.notices.push notice }

/-- Receives a chunk. -/
def feed (r : Receiver) (chunk : Bytes) : Receiver :=
  let run := r.session.call (.feed chunk)
  run.events.foldl observe { r with session := run.session }

end Receiver

/-! ## Both ends -/

/-- What went over a link, what came out of it, and how it was left. -/
structure Transcript where
  sizes : List Nat
  stream : Bytes
  deliveries : List Delivery
  pending : List Number
  buffered : Nat
  closing : Except Fault Unit
  notices : List Notice

/-- Sends frames over a link and closes it. -/
def transmit (frames : List Frame) (fragmentSize : Number) (chunkSizes : List Nat)
    (options : AssemblerOptions) : Except Fault Transcript := do
  let chains ← frames.mapM fun f => f.fragments fragmentSize
  let fragments := interleave chains
  let stream := (fragments.map delimited).flatten
  let received :=
    (cutFrom chunkSizes 0 stream).foldl Receiver.feed { assembler := { options } }
  return { sizes := fragments.map List.length
           stream
           deliveries := received.deliveries.toList
           pending := received.assembler.pending
           buffered := received.session.deframer.buffered
           closing := received.assembler.close.result
           notices := received.notices.toList }

end Link

end StreamWire
