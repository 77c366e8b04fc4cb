import StreamWire.Inbound.Deframer
import StreamWire.Proofs.Inbound.ChunkQueue
/-!
# Inlets — a deframer whose unread bytes are one byte string

How the waiting bytes lie in chunks decides nothing. An `Inlet` is a
deframer without the chunks, with an `Inlet.poll` of its own on the byte
string, and `Deframer.pollsAs_poll` says that a deframer polls as its inlet
does. Bytes that come later change nothing that was read before them:
what a poll finds it also finds with more bytes behind, and where it has
to wait it reads on with them from where it stopped (`Inlet.poll_add`).
-/

namespace StreamWire

/-- The reading end of a byte stream: the bytes that wait, the length
that was read while its frame has not been, the maximum in force, and
whether reading has failed. -/
structure Inlet where
  unread : Bytes
  awaiting : Option Nat
  maximum : Number
  failed : Bool
deriving DecidableEq, Repr

namespace Inlet

/-- After a failure. -/
def fail (i : Inlet) : Inlet := { i with unread := [], awaiting := none, failed := true }

/-- With more bytes to read. -/
def add (i : Inlet) (more : Bytes) : Inlet := { i with unread := i.unread ++ more }

/-- Reads a frame of `length` bytes, once they wait. -/
def pollFrame (i : Inlet) (length : Nat) : Poll × Inlet :=
  if i.unread.length < length then (.waiting, { i with awaiting := some length })
  else
    match Frame.decode (i.unread.take length) with
    | .ok f => (.frame f, { i with unread := i.unread.drop length, awaiting := none })
    | .error fault => (.failure fault, i.fail)

/-- Behind a length. -/
def pastLength (i : Inlet) : Inlet := { i with unread := i.unread.drop Wire.lengthSize }

/-- Reads a length, once it waits, and then its frame. -/
def pollLength (i : Inlet) : Poll × Inlet :=
  if i.unread.length < Wire.lengthSize then (.waiting, i)
  else
    let length := BigEndian.decode (i.unread.take Wire.lengthSize)
    if i.maximum.isBelow length then (.failure (.frameTooLarge length i.maximum), i.fail)
    else i.pastLength.pollFrame length

/-- Reads on to the next frame or failure. -/
def poll (i : Inlet) : Poll × Inlet :=
  match i.awaiting with
  | some length => i.pollFrame length
  | none => i.pollLength

/-- Receives a chunk, unless reading has failed. -/
def receive (i : Inlet) (chunk : Bytes) : Inlet := if i.failed then i else i.add chunk

end Inlet

/-! ## The inlet of a deframer -/

namespace Deframer

/-- A deframer without its chunks. -/
def inlet (d : Deframer) : Inlet := ⟨d.queue.bytes, d.awaiting, d.maximum, d.failed⟩

variable {d : Deframer}

theorem buffered_eq (h : d.queue.IsSound) : d.buffered = d.inlet.unread.length := h.size_eq

theorem isSound_receive (h : d.queue.IsSound) (chunk : Bytes) :
    (d.receive chunk).queue.IsSound := by
  unfold receive
  split
  · exact h
  · rename_i hopen
    apply h.push
    rintro rfl
    simp at hopen

/-- A chunk changes the bytes that wait, and nothing else. -/
@[simp] theorem failed_receive (d : Deframer) (chunk : Bytes) :
    (d.receive chunk).failed = d.failed := by
  unfold receive
  split <;> rfl

@[simp] theorem awaiting_receive (d : Deframer) (chunk : Bytes) :
    (d.receive chunk).awaiting = d.awaiting := by
  unfold receive
  split <;> rfl

@[simp] theorem maximum_receive (d : Deframer) (chunk : Bytes) :
    (d.receive chunk).maximum = d.maximum := by
  unfold receive
  split <;> rfl

theorem inlet_receive (d : Deframer) (chunk : Bytes) :
    (d.receive chunk).inlet = d.inlet.receive chunk := by
  unfold receive Inlet.receive
  cases hfailed : d.failed with
  | true => simp [inlet, hfailed]
  | false =>
    cases chunk with
    | nil => simp [inlet, hfailed, Inlet.add]
    | cons byte rest => simp [inlet, hfailed, Inlet.add]

/-! ### Nothing is left after a failure -/

/-- If reading has failed, it has left nothing to go on with. -/
def IsTidy (d : Deframer) : Prop := d.failed = true → d.IsSpent

theorem isTidy_start (maximum : Number) : IsTidy { maximum } := by
  rintro ⟨⟩

/-- Nothing is received any more. -/
theorem IsSpent.receive (h : d.IsSpent) (chunk : Bytes) : (d.receive chunk).IsSpent := by
  rwa [Deframer.receive, h.failed_eq, Bool.true_or, if_pos rfl]

/-- A maximum is not asked for. -/
theorem IsSpent.withMaximum (h : d.IsSpent) (size : Number) :
    { d with maximum := size }.IsSpent :=
  ⟨h.failed_eq, h.buffered_eq, h.awaiting_eq⟩

theorem IsTidy.receive (h : d.IsTidy) (chunk : Bytes) : (d.receive chunk).IsTidy := by
  intro hfailed
  rw [failed_receive] at hfailed
  exact (h hfailed).receive chunk

theorem IsTidy.withMaximum (h : d.IsTidy) (size : Number) : { d with maximum := size }.IsTidy :=
  fun hfailed => (h hfailed).withMaximum size

/-- **A poll keeps it so.** Once reading has failed there is nothing to
find, and a failure that is found leaves nothing. -/
theorem IsTidy.poll (h : d.IsTidy) : d.poll.2.IsTidy := by
  cases hfailed : d.failed with
  | true =>
    rw [(h hfailed).poll_eq]
    exact h
  | false =>
    have htook := d.took_poll
    rcases hpoll : d.poll with ⟨_ | f | fault, d'⟩
    all_goals
      rw [hpoll] at htook
      intro hended
    · cases hended.symm.trans (htook.2.trans hfailed)
    · cases hended.symm.trans (htook.2.trans hfailed)
    · exact htook

/-! ### Polling -/

/-- What a poll finds, and the inlet it leaves. -/
structure PollsAs (outcome : Poll × Deframer) (expected : Poll × Inlet) : Prop where
  found_eq : outcome.1 = expected.1
  inlet_eq : outcome.2.inlet = expected.2
  isSound : outcome.2.queue.IsSound

theorem pollsAs_pollFrame (h : d.queue.IsSound) (length : Nat) :
    PollsAs (d.pollFrame length) (d.inlet.pollFrame length) := by
  have hsize : d.inlet.unread.length = d.queue.size := h.size_eq.symm
  unfold pollFrame Inlet.pollFrame
  by_cases hshort : d.queue.size < length
  · rw [ChunkQueue.take?_of_lt hshort, hsize, if_pos hshort]
    exact ⟨rfl, rfl, h⟩
  · -- The queue is read across its chunks, the inlet off its front.
    obtain ⟨left, htake, hleft, hbytes⟩ := ChunkQueue.take?_of_le h (Nat.not_lt.1 hshort)
    rw [htake, hsize, if_neg hshort]
    cases hdecode : Frame.decode (d.queue.bytes.take length) with
    | error fault =>
      simp only [inlet, hdecode]
      exact ⟨rfl, rfl, ChunkQueue.isSound_empty⟩
    | ok f =>
      simp only [inlet, hdecode]
      refine ⟨rfl, ?_, hleft⟩
      simp only [inlet, hbytes]

theorem pollsAs_pollLength (h : d.queue.IsSound) :
    PollsAs d.pollLength d.inlet.pollLength := by
  have hsize : d.inlet.unread.length = d.queue.size := h.size_eq.symm
  unfold pollLength Inlet.pollLength
  by_cases hshort : d.queue.size < Wire.lengthSize
  · rw [ChunkQueue.take?_of_lt hshort, hsize, if_pos hshort]
    exact ⟨rfl, rfl, h⟩
  · obtain ⟨left, htake, hleft, hbytes⟩ := ChunkQueue.take?_of_le h (Nat.not_lt.1 hshort)
    rw [htake, hsize, if_neg hshort]
    have hlength : d.inlet.unread.take Wire.lengthSize = d.queue.bytes.take Wire.lengthSize := rfl
    have hmaximum : d.inlet.maximum = d.maximum := rfl
    have hpast : d.inlet.pastLength = { d with queue := left }.inlet := by
      simp only [inlet, Inlet.pastLength, hbytes]
    dsimp only
    rw [hlength, hmaximum, hpast]
    by_cases hlarge : d.maximum.isBelow (BigEndian.decode (d.queue.bytes.take Wire.lengthSize))
    · rw [if_pos hlarge, if_pos hlarge]
      exact ⟨rfl, rfl, ChunkQueue.isSound_empty⟩
    · rw [if_neg hlarge, if_neg hlarge]
      exact pollsAs_pollFrame hleft _

/-- **A deframer polls as its inlet does**, however its bytes lie in
chunks. -/
theorem pollsAs_poll (h : d.queue.IsSound) : PollsAs d.poll d.inlet.poll := by
  have hawaiting : d.inlet.awaiting = d.awaiting := rfl
  unfold poll Inlet.poll
  rw [hawaiting]
  cases d.awaiting with
  | some length => exact pollsAs_pollFrame h length
  | none => exact pollsAs_pollLength h

/-- What a deframer finds its inlet finds. -/
theorem inlet_poll (h : d.queue.IsSound) {found : Poll} {d' : Deframer}
    (hpoll : d.poll = (found, d')) : d.inlet.poll = (found, d'.inlet) ∧ d'.queue.IsSound := by
  obtain ⟨hfound, hinlet, hsound⟩ := pollsAs_poll h
  rw [hpoll] at hfound hinlet hsound
  exact ⟨Prod.ext hfound.symm hinlet.symm, hsound⟩

end Deframer

/-! ## Bytes that come later -/

namespace Inlet

/-- What a poll that stops amounts to, once more bytes have come. -/
def resume (more : Bytes) : Poll × Inlet → Poll × Inlet
  | (.waiting, i) => (i.add more).poll
  | (.frame f, i) => (.frame f, i.add more)
  | (.failure fault, i) => (.failure fault, i)

variable {i : Inlet}

theorem pollFrame_add (i : Inlet) (length : Nat) (more : Bytes) :
    (i.add more).pollFrame length = resume more (i.pollFrame length) := by
  by_cases hshort : i.unread.length < length
  · -- The length is remembered, so with more bytes only the frame is read.
    have hwait : i.pollFrame length = (.waiting, { i with awaiting := some length }) := by
      rw [pollFrame, if_pos hshort]
    rw [hwait, resume]
    rfl
  · have hlong : ¬ (i.add more).unread.length < length := by
      simp only [add, List.length_append]
      omega
    rw [pollFrame, pollFrame, if_neg hshort, if_neg hlong]
    simp only [add, List.take_append_of_le_length (Nat.not_lt.1 hshort),
      List.drop_append_of_le_length (Nat.not_lt.1 hshort)]
    cases Frame.decode (i.unread.take length) <;> rfl

theorem pollLength_add (hidle : i.awaiting = none) (more : Bytes) :
    (i.add more).pollLength = resume more i.pollLength := by
  by_cases hshort : i.unread.length < Wire.lengthSize
  · have hwait : i.pollLength = (.waiting, i) := by rw [pollLength, if_pos hshort]
    rw [hwait, resume, poll, add, hidle]
  · -- The length is read from the same bytes as before.
    have hlong : ¬ (i.add more).unread.length < Wire.lengthSize := by
      simp only [add, List.length_append]
      omega
    have htake : (i.add more).unread.take Wire.lengthSize = i.unread.take Wire.lengthSize :=
      List.take_append_of_le_length (Nat.not_lt.1 hshort)
    have hmaximum : (i.add more).maximum = i.maximum := rfl
    have hpast : (i.add more).pastLength = i.pastLength.add more := by
      simp only [add, pastLength, List.drop_append_of_le_length (Nat.not_lt.1 hshort)]
    rw [pollLength, pollLength, if_neg hshort, if_neg hlong]
    dsimp only
    rw [htake, hmaximum, hpast]
    split
    · rfl
    · exact pollFrame_add i.pastLength _ more

/-- **Later bytes change nothing that was read before them.** A poll that
found something finds it also with more bytes behind, and one that had
to wait reads on from where it stopped. -/
theorem poll_add (i : Inlet) (more : Bytes) : (i.add more).poll = resume more i.poll := by
  have hawaiting : (i.add more).awaiting = i.awaiting := rfl
  rw [poll, poll, hawaiting]
  cases hidle : i.awaiting with
  | some length => exact pollFrame_add i length more
  | none => exact pollLength_add hidle more

/-! ## What a poll leaves -/

/-- What a poll leaves: the maximum as it was, fewer bytes after a frame,
and nothing to be read after a failure. -/
def Leaves (i : Inlet) : Poll × Inlet → Prop
  | (.waiting, j) => j.failed = i.failed ∧ j.maximum = i.maximum
  | (.frame _, j) =>
    j.failed = i.failed ∧ j.maximum = i.maximum ∧ j.unread.length < i.unread.length
  | (.failure _, j) => j = i.fail

theorem leaves_pollFrame (i : Inlet) (length : Nat) : i.Leaves (i.pollFrame length) := by
  unfold pollFrame
  split
  · exact ⟨rfl, rfl⟩
  · rename_i hlong
    cases hdecode : Frame.decode (i.unread.take length) with
    | error fault => exact rfl
    | ok f =>
      have hheader := Deframer.headerSize_le_of_decode hdecode
      refine ⟨rfl, rfl, ?_⟩
      rw [List.length_take, Wire.headerSize] at hheader
      rw [List.length_drop]
      omega

theorem leaves_pollLength (i : Inlet) : i.Leaves i.pollLength := by
  unfold pollLength
  split
  · exact ⟨rfl, rfl⟩
  dsimp only
  split
  · exact rfl
  · have h := i.pastLength.leaves_pollFrame (BigEndian.decode (i.unread.take Wire.lengthSize))
    have hlength : i.pastLength.unread.length ≤ i.unread.length := by
      rw [pastLength, List.length_drop]
      omega
    generalize i.pastLength.pollFrame _ = outcome at h
    obtain ⟨found, j⟩ := outcome
    cases found with
    | waiting => exact h
    | frame f => exact ⟨h.1, h.2.1, Nat.lt_of_lt_of_le h.2.2 hlength⟩
    | failure fault => exact h

theorem leaves_of_poll {outcome : Poll × Inlet} (h : i.poll = outcome) : i.Leaves outcome := by
  rw [← h, poll]
  cases i.awaiting with
  | some length => exact i.leaves_pollFrame length
  | none => exact i.leaves_pollLength

end Inlet

end StreamWire
