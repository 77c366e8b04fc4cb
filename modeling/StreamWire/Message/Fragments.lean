import StreamWire.Frame.Encoding
/-!
# Fragments — a message split into frames of bounded size

A message too long for one frame is sent as a chain: a first frame of the
message's own kind, which holds its fixed fields, and then `payload`
frames on the same stream. Metadata is sent out before data, and every
frame but the last has the `follows` bit. `Payload.cut` takes one
frame's share of what is left, `Payload.continuations` repeats it until
nothing is, and `Frame.fragments` is the encoded chain.
-/

namespace StreamWire

/-! ## The size asked for -/

/-- A size that messages can be split to. -/
structure FragmentLimit where
  bytes : Nat
  atLeast : Wire.minFragmentSize ≤ bytes
  atMost : bytes ≤ Wire.maxFrameLength
deriving DecidableEq, Repr

namespace FragmentLimit

/-- The limit a value denotes. -/
def ofNumber (x : Number) : Except Fault FragmentLimit :=
  match x.toNat? with
  | some bytes =>
    if h : Wire.minFragmentSize ≤ bytes ∧ bytes ≤ Wire.maxFrameLength then
      .ok ⟨bytes, h.1, h.2⟩
    else
      .error (.invalidFragmentSize x)
  | none => .error (.invalidFragmentSize x)

/-- The room for metadata and data in a frame with `fixedSize` bytes of
fixed fields. -/
def room (limit : FragmentLimit) (fixedSize : Nat) : Int :=
  limit.bytes - Wire.headerSize - fixedSize

end FragmentLimit

/-! ## One frame's share -/

/-- What one frame takes of a payload, and what it leaves. -/
structure Cut where
  piece : Payload
  rest : Payload
deriving DecidableEq, Repr

namespace Payload

/-- Whether there is nothing left to send. -/
def isSpent (p : Payload) : Bool := (p.metadata.getD []).isEmpty && p.data.isEmpty

/-- Takes as much as `room` allows: metadata behind its length, then
data. The first frame of a chain announces metadata even where it is
empty; a later one only while some is left. -/
def cut (p : Payload) (opening : Bool) (room : Int) : Cut :=
  match p.metadata with
  | some block =>
    if opening || !block.isEmpty then
      let forBlock := room - Wire.metadataLengthSize
      let taken := block.take forBlock.toNat
      let forData := forBlock - taken.length
      { piece := ⟨some taken, p.data.take forData.toNat⟩
        rest := ⟨some (block.drop taken.length), p.data.drop forData.toNat⟩ }
    else
      { piece := ⟨none, p.data.take room.toNat⟩
        rest := ⟨some block, p.data.drop room.toNat⟩ }
  | none =>
    { piece := ⟨none, p.data.take room.toNat⟩
      rest := ⟨none, p.data.drop room.toNat⟩ }

/-- **Every share is progress.** Room for more than the metadata length
takes at least one byte of a payload that is not spent. -/
theorem size_rest_lt {p : Payload} {opening : Bool} {room : Int}
    (hroom : Wire.metadataLengthSize < room) (hp : ¬ p.isSpent) :
    (p.cut opening room).rest.size < p.size := by
  obtain ⟨metadata, data⟩ := p
  simp only [Wire.metadataLengthSize] at hroom
  have hspent : (metadata.getD []).length + data.length ≠ 0 := by
    intro h
    apply hp
    have h1 := List.length_eq_zero_iff.1 (Nat.eq_zero_of_add_eq_zero h).1
    have h2 := List.length_eq_zero_iff.1 (Nat.eq_zero_of_add_eq_zero h).2
    simp [isSpent, h1, h2]
  unfold cut
  cases metadata with
  | none =>
    simp only [size, Option.getD_none, List.length_nil, List.length_drop] at hspent ⊢
    omega
  | some block =>
    by_cases hb : (opening || !block.isEmpty) = true
    · simp only [hb, if_true, size, Option.getD_some, List.length_drop, List.length_take,
        Wire.metadataLengthSize] at hspent ⊢
      omega
    · have hempty : block = [] := by
        simp only [Bool.or_eq_true, Bool.not_eq_true', not_or] at hb
        simpa using hb.2
      subst hempty
      simp only [hb, if_false, size, Option.getD_some, List.length_nil, List.length_drop,
        Bool.false_eq_true] at hspent ⊢
      omega

end Payload

/-! ## The chain -/

/-- A share of a message, and whether nothing is left after it. -/
structure Piece where
  payload : Payload
  last : Bool
deriving DecidableEq, Repr

/-- A limit leaves room in every continuation for more than a metadata
length. -/
theorem FragmentLimit.metadataLengthSize_lt_room (limit : FragmentLimit) :
    (Wire.metadataLengthSize : Int) < limit.room 0 := by
  have := limit.atLeast
  simp only [FragmentLimit.room, Wire.minFragmentSize, Wire.headerSize,
    Wire.metadataLengthSize] at this ⊢
  omega

/-- The shares of a payload that has begun to be sent. -/
def Payload.continuations (limit : FragmentLimit) (p : Payload) : List Piece :=
  if p.isSpent then []
  else
    let share := p.cut false (limit.room 0)
    ⟨share.piece, share.rest.isSpent⟩ :: share.rest.continuations limit
termination_by p.size
decreasing_by exact Payload.size_rest_lt limit.metadataLengthSize_lt_room ‹_›

/-- The shares of a payload whose first frame has `fixedSize` bytes of
fixed fields. -/
def Payload.pieces (limit : FragmentLimit) (fixedSize : Nat) (p : Payload) : Piece × List Piece :=
  let share := p.cut true (limit.room fixedSize)
  (⟨share.piece, share.rest.isSpent⟩, share.rest.continuations limit)

namespace Frame

/-- The flags of a fragment: `follows` on every fragment but the last,
and on the last `complete` if the message is the end of its stream. -/
def fragmentFlags (flags : BitVec 32) (last complete : Bool) : Number :=
  let more := if last then 0 else Flag.follows
  let done := if last && complete then Flag.complete else 0
  .ofWord (flags ||| more ||| done)

/-- The frames of a chain. -/
def split (f : Frame) (head : Head) (payload : Payload) (limit : FragmentLimit) : List Frame :=
  let complete := f.flags.hasFlag Flag.complete
  let flags := f.flags.word &&& ~~~(Flag.follows ||| Flag.complete)
  let (opening, continuations) := payload.pieces limit head.kind.traits.fixedSize
  { streamId := f.streamId
    flags := fragmentFlags flags opening.last complete
    body := .message head opening.payload } ::
  continuations.map fun piece =>
    { streamId := f.streamId
      flags := fragmentFlags Flag.next piece.last complete
      body := .message .payload piece.payload }

/-- A frame as encoded frames of at most `maximum` bytes each: the frame
itself where it fits, and a chain of fragments where its kind allows
one. -/
def fragments (f : Frame) (maximum : Number) : Except Fault (List Bytes) := do
  let limit ← FragmentLimit.ofNumber maximum
  let size ← f.size
  if size ≤ limit.bytes then
    return [← f.encode]
  else
    match f.body with
    | .message head payload => (f.split head payload limit).mapM encode
    | _ => throw (.unsplittable (← f.kind) size limit.bytes)

end Frame

end StreamWire
