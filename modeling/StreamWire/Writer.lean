import StreamWire.Bytes
import StreamWire.Fault
/-!
# Writers — buffers filled in place

A frame is written into a buffer of known length. A `Writer` is such a
buffer together with the place of the next write; `Writer.put` replaces
the bytes there and never moves the end. A `Write` is a step of filling
a buffer that may be refused. Refused or not it leaves a buffer behind,
so it can be said of a step that a refusal changes nothing.
-/

namespace StreamWire

/-- A buffer being filled: the parts that lie before the next write,
latest first, and the bytes that are still to be replaced. -/
structure Writer where
  parts : List Bytes
  rest : Bytes
deriving DecidableEq, Repr

namespace Writer

/-- A writer at `offset` in a buffer. -/
def startAt (buffer : Bytes) (offset : Nat) : Writer := ⟨[front buffer offset], buffer.drop offset⟩

/-- A writer at the start of `size` zero bytes. -/
def blank (size : Nat) : Writer := ⟨[], List.replicate size 0⟩

/-- The whole buffer. -/
def bytes (w : Writer) : Bytes := w.parts.foldl (fun behind part => followedBy part behind) w.rest

/-- Where the next write begins. -/
def offset (w : Writer) : Nat := w.parts.foldr (fun part before => part.length + before) 0

/-- Replaces the next bytes by `source`. What would reach past the end of
the buffer is left out. That is meant for bytes that are copied; what has a
fixed width is written where there is room for it, which for a frame is
`Frame.writers_have_room`. -/
def put (w : Writer) (source : Bytes) : Writer :=
  let kept := front source w.rest.length
  ⟨kept :: w.parts, w.rest.drop kept.length⟩

/-- The buffer is its parts in order, and then the rest. -/
theorem bytes_eq (w : Writer) : w.bytes = w.parts.reverse.flatten ++ w.rest := by
  obtain ⟨parts, rest⟩ := w
  induction parts generalizing rest with
  | nil => rfl
  | cons part parts ih =>
    have := ih (part ++ rest)
    simp_all [bytes]

/-- A place in a buffer changes none of it. -/
@[simp] theorem bytes_startAt (buffer : Bytes) (offset : Nat) :
    (Writer.startAt buffer offset).bytes = buffer := by
  simp [bytes_eq, Writer.startAt]

/-- **A write never moves the end of the buffer.** -/
@[simp] theorem length_put (w : Writer) (source : Bytes) :
    (w.put source).bytes.length = w.bytes.length := by
  simp only [bytes_eq, put, front_eq_take, List.length_append, List.length_drop,
    List.length_take, List.reverse_cons, List.flatten_append, List.flatten_cons, List.flatten_nil,
    List.append_nil]
  omega

end Writer

/-! ## Steps that may be refused -/

/-- A step of filling a buffer. -/
abbrev Write := EStateM Fault Writer

namespace Write

/-- Writes bytes. -/
def bytes (source : Bytes) : Write Unit := modify (·.put source)

/-- The buffer that a step leaves, unless it is refused. -/
def filled (step : Write Unit) (w : Writer) : Except Fault Writer :=
  match step.run w with
  | .ok _ written => .ok written
  | .error fault _ => .error fault

/-- What follows a step is done in the buffer that the step leaves. -/
theorem run_bind (step : Write Unit) (next : Unit → Write Unit) (w : Writer) :
    (step >>= next).run w =
      match step.run w with
      | .ok _ written => (next ()).run written
      | .error fault left => .error fault left := by
  simp only [EStateM.run, bind, EStateM.bind]
  cases step w <;> rfl

end Write

end StreamWire
