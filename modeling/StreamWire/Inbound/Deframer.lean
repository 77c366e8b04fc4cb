import StreamWire.Frame.Decoding
import StreamWire.Inbound.ChunkQueue
/-!
# The deframer — frames out of a byte stream

On a byte stream every frame follows its length. A `Deframer` holds the
bytes that wait and, between a length and its frame, the length. A length
is judged once, against the maximum in force when it is read. The first
failure is final: what waits is thrown away, and nothing more is received.
`Deframer.poll` goes as far as the next frame or failure and no further,
so that a listener can act in between. It does not ask whether reading has
failed. Nothing is left for it then (`Deframer.IsSpent`), and so it finds
nothing (`Deframer.IsSpent.poll_eq`).
-/

namespace StreamWire

/-- The reading end of a byte stream. -/
structure Deframer where
  queue : ChunkQueue := {}
  /-- The length that was read, while its frame has not been. -/
  awaiting : Option Nat := none
  maximum : Number := .ofNat Wire.defaultMaxFrameSize
  failed : Bool := false
deriving DecidableEq, Repr

/-- How far the bytes that wait reach. -/
inductive Poll where
  | waiting
  | frame (f : Frame)
  | failure (fault : Fault)
deriving DecidableEq, Repr

namespace Deframer

/-- The bytes that wait. -/
def buffered (d : Deframer) : Nat := d.queue.size

/-- Adds a chunk to the bytes that wait. Nothing is added after a
failure, and an empty chunk adds nothing. -/
def receive (d : Deframer) (chunk : Bytes) : Deframer :=
  if d.failed || chunk.isEmpty then d else { d with queue := d.queue.push chunk }

/-- After a failure. -/
def fail (d : Deframer) : Deframer :=
  { d with queue := {}, awaiting := none, failed := true }

/-! ## Reading on -/

/-- Reads a frame of `length` bytes, once they wait. -/
def pollFrame (d : Deframer) (length : Nat) : Poll × Deframer :=
  match d.queue.take? length with
  | none => (.waiting, { d with awaiting := some length })
  | some (bytes, queue) =>
    match Frame.decode bytes with
    | .ok f => (.frame f, { d with queue, awaiting := none })
    | .error fault => (.failure fault, d.fail)

/-- Reads a length, once it waits, and then its frame. -/
def pollLength (d : Deframer) : Poll × Deframer :=
  match d.queue.take? Wire.lengthSize with
  | none => (.waiting, d)
  | some (bytes, queue) =>
    let length := BigEndian.decode bytes
    if d.maximum.isBelow length then
      (.failure (.frameTooLarge length d.maximum), d.fail)
    else
      { d with queue }.pollFrame length

/-- Reads on to the next frame or failure. -/
def poll (d : Deframer) : Poll × Deframer :=
  match d.awaiting with
  | some length => d.pollFrame length
  | none => d.pollLength

/-! ## What a poll takes -/

/-- Reading has failed, and there is nothing to go on with: no bytes wait,
and no length was read ahead of its frame. -/
structure IsSpent (d : Deframer) : Prop where
  failed_eq : d.failed = true
  buffered_eq : d.buffered = 0
  awaiting_eq : d.awaiting = none

instance (d : Deframer) : Decidable d.IsSpent :=
  decidable_of_iff (d.failed = true ∧ d.buffered = 0 ∧ d.awaiting = none)
    ⟨fun ⟨hfailed, hempty, hidle⟩ => ⟨hfailed, hempty, hidle⟩,
      fun ⟨hfailed, hempty, hidle⟩ => ⟨hfailed, hempty, hidle⟩⟩

/-- A failure leaves nothing behind. -/
theorem isSpent_fail (d : Deframer) : d.fail.IsSpent := ⟨rfl, rfl, rfl⟩

/-- Not even a length is left. -/
theorem IsSpent.take?_eq {d : Deframer} (h : d.IsSpent) :
    d.queue.take? Wire.lengthSize = none := by
  have hempty : d.queue.size = 0 := h.buffered_eq
  have hshort : d.queue.size < Wire.lengthSize := by
    rw [hempty]
    exact Nat.succ_pos _
  rw [ChunkQueue.take?, if_pos hshort]

/-- **Where nothing is left, a poll finds nothing.** That reading has failed
is not asked. -/
theorem IsSpent.poll_eq {d : Deframer} (h : d.IsSpent) : d.poll = (.waiting, d) := by
  rw [poll, h.awaiting_eq]
  simp only [pollLength, h.take?_eq]

/-- What a poll may have done to the bytes that wait and to the failure:
a frame takes a header's size at least, and a failure leaves nothing. -/
def Took (d : Deframer) : Poll × Deframer → Prop
  | (.waiting, d') => d'.buffered ≤ d.buffered ∧ d'.failed = d.failed
  | (.frame _, d') => d'.buffered + Wire.headerSize ≤ d.buffered ∧ d'.failed = d.failed
  | (.failure _, d') => d'.IsSpent

/-- Every frame has a header. -/
theorem headerSize_le_of_decode {bytes : Bytes} {f : Frame} (h : Frame.decode bytes = .ok f) :
    Wire.headerSize ≤ bytes.length := by
  by_cases hlt : bytes.length < Wire.headerSize
  · have : Frame.decode bytes = .error (.headerCut bytes.length) := by
      simp [Frame.decode, Layout.of, Header.decode, hlt, bind, Except.bind]
    simp [this] at h
  · omega

theorem took_pollFrame (d : Deframer) (length : Nat) : d.Took (d.pollFrame length) := by
  unfold pollFrame
  cases ht : d.queue.take? length with
  | none => exact ⟨Nat.le_refl _, rfl⟩
  | some read =>
    obtain ⟨bytes, queue⟩ := read
    have hlength := ChunkQueue.length_of_take? ht
    have hsize := ChunkQueue.size_of_take? ht
    cases hd : Frame.decode bytes with
    | error fault =>
      simp only [hd]
      exact d.isSpent_fail
    | ok f =>
      have := headerSize_le_of_decode hd
      have : queue.size + Wire.headerSize ≤ d.queue.size := by omega
      simpa [Took, hd, buffered] using this

theorem took_pollLength (d : Deframer) : d.Took d.pollLength := by
  unfold pollLength
  cases ht : d.queue.take? Wire.lengthSize with
  | none => exact ⟨Nat.le_refl _, rfl⟩
  | some read =>
    obtain ⟨bytes, queue⟩ := read
    have hsize := ChunkQueue.size_of_take? ht
    by_cases hm : d.maximum.isBelow (BigEndian.decode bytes)
    · simp only [hm, if_true]
      exact d.isSpent_fail
    · have htook := took_pollFrame { d with queue } (BigEndian.decode bytes)
      simp only [hm, Bool.false_eq_true, if_false]
      generalize pollFrame { d with queue } (BigEndian.decode bytes) = outcome at htook ⊢
      obtain ⟨found, d'⟩ := outcome
      cases found with
      | waiting => exact ⟨Nat.le_trans htook.1 (Nat.le.intro hsize), htook.2⟩
      | frame f => exact ⟨Nat.le_trans htook.1 (Nat.le.intro hsize), htook.2⟩
      | failure fault => exact htook

/-- **A poll never adds to the bytes that wait**, a frame takes a header's
size at least, and a failure leaves nothing. -/
theorem took_poll (d : Deframer) : d.Took d.poll := by
  unfold poll
  cases d.awaiting with
  | some length => exact d.took_pollFrame length
  | none => exact d.took_pollLength

end Deframer

end StreamWire
