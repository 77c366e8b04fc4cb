import StreamWire.Proofs.Inbound.Inlet
/-!
# Announcements — what a byte stream says

`announced` reads a whole byte stream in one go: length, maximum, frame,
and again, up to the first failure or the end of the bytes.
`Inlet.drain` is what a deframer does with the bytes that wait, frame by
frame. A stream that arrives in two pieces is drained in two goes to the
same end (`Inlet.drain_receive_append`), and from its beginning it is drained
to what it says (`Inlet.drain_start`).
-/

namespace StreamWire

/-- What listeners are told. -/
inductive Announcement where
  | frame (f : Frame)
  | failure (fault : Fault)
deriving DecidableEq, Repr

/-- What a whole byte stream says to a receiver with a maximum: a length
of three bytes, judged against the maximum, then a frame of that length,
and so on. A length above the maximum ends it, and so does a frame that
cannot be decoded. Where the bytes run out nothing more is said. -/
def announced (maximum : Number) (stream : Bytes) : List Announcement :=
  if stream.length < Wire.lengthSize then []
  else
    let length := BigEndian.decode (stream.take Wire.lengthSize)
    let rest := stream.drop Wire.lengthSize
    if maximum.isBelow length then [.failure (.frameTooLarge length maximum)]
    else if rest.length < length then []
    else
      match Frame.decode (rest.take length) with
      | .ok f => .frame f :: announced maximum (rest.drop length)
      | .error fault => [.failure fault]
termination_by stream.length
decreasing_by
  have hlength := ‹¬ stream.length < Wire.lengthSize›
  simp only [Wire.lengthSize] at hlength
  simp only [List.length_drop, Wire.lengthSize]
  omega

namespace Inlet

/-! ## Draining -/

/-- Reads on until the bytes run out or reading fails. -/
def drain (i : Inlet) : List Announcement × Inlet :=
  match _ : i.poll with
  | (.waiting, j) => ([], j)
  | (.frame f, j) => (.frame f :: j.drain.1, j.drain.2)
  | (.failure fault, j) => ([.failure fault], j)
termination_by i.unread.length
decreasing_by
  all_goals
    rename_i hpoll
    exact (leaves_of_poll hpoll).2.2

variable {i j : Inlet}

theorem drain_of_waiting (h : i.poll = (.waiting, j)) : i.drain = ([], j) := by
  rw [drain]
  split <;> simp_all

theorem drain_of_frame {f : Frame} (h : i.poll = (.frame f, j)) :
    i.drain = (.frame f :: j.drain.1, j.drain.2) := by
  rw [drain]
  split <;> simp_all

theorem drain_of_failure {fault : Fault} (h : i.poll = (.failure fault, j)) :
    i.drain = ([.failure fault], j) := by
  rw [drain]
  split <;> simp_all

/-- What a drain does is decided by the first poll. -/
theorem drain_congr (h : i.poll = j.poll) : i.drain = j.drain := by
  rcases hpoll : j.poll with ⟨_ | f | fault, k⟩
  · rw [drain_of_waiting (h.trans hpoll), drain_of_waiting hpoll]
  · rw [drain_of_frame (h.trans hpoll), drain_of_frame hpoll]
  · rw [drain_of_failure (h.trans hpoll), drain_of_failure hpoll]

/-- Two goes at a stream: what both announced, and where the second
left it. -/
def both (first second : List Announcement × Inlet) : List Announcement × Inlet :=
  (first.1 ++ second.1, second.2)

theorem both_assoc (first second third : List Announcement × Inlet) :
    both (both first second) third = both first (both second third) := by
  simp only [both, List.append_assoc]

theorem receive_nil (i : Inlet) : i.receive [] = i := by
  unfold receive
  split
  · rfl
  · simp only [add, List.append_nil]

theorem receive_of_failed (h : i.failed = true) (more : Bytes) : i.receive more = i := by
  rw [receive, if_pos h]

theorem receive_of_open (h : i.failed = false) (more : Bytes) : i.receive more = i.add more := by
  rw [receive, if_neg (by simp [h])]

/-! ## Nothing more to read -/

/-- There is nothing more to read: the bytes do not reach as far as the
length, or the frame, that comes next. -/
def IsDrained (i : Inlet) : Prop := i.unread.length < i.awaiting.getD Wire.lengthSize

/-- A failure leaves nothing to read. -/
theorem isDrained_fail (i : Inlet) : i.fail.IsDrained := Nat.succ_pos _

theorem drain_of_isDrained (h : i.IsDrained) : i.drain = ([], i) := by
  apply drain_of_waiting
  obtain ⟨unread, awaiting, maximum, failed⟩ := i
  rw [poll]
  cases awaiting with
  | some length => exact if_pos h
  | none => exact if_pos h

/-- A frame that is waited for is longer than what waits. -/
theorem isDrained_of_pollFrame {length : Nat} (h : i.pollFrame length = (.waiting, j)) :
    j.IsDrained := by
  rw [pollFrame] at h
  split at h
  · rename_i hshort
    obtain ⟨-, rfl⟩ := Prod.mk.inj h
    exact hshort
  · split at h <;> cases (Prod.mk.inj h).1

theorem isDrained_of_waiting (h : i.poll = (.waiting, j)) : j.IsDrained := by
  rw [poll] at h
  cases hawaiting : i.awaiting with
  | some length =>
    rw [hawaiting] at h
    exact isDrained_of_pollFrame h
  | none =>
    rw [hawaiting] at h
    simp only [pollLength] at h
    split at h
    · rename_i hshort
      obtain ⟨-, rfl⟩ := Prod.mk.inj h
      rwa [IsDrained, hawaiting]
    · split at h
      · cases (Prod.mk.inj h).1
      · exact isDrained_of_pollFrame h

/-- A drain leaves nothing more to read. -/
theorem isDrained_drain (i : Inlet) : i.drain.2.IsDrained := by
  fun_induction drain i with
  | case1 i j hpoll => exact isDrained_of_waiting hpoll
  | case2 i f j hpoll ih => exact ih
  | case3 i fault j hpoll =>
    obtain rfl := leaves_of_poll hpoll
    exact i.isDrained_fail

/-- Reading leaves the maximum as it was. -/
theorem maximum_drain (i : Inlet) : i.drain.2.maximum = i.maximum := by
  fun_induction drain i with
  | case1 i j hpoll => exact (leaves_of_poll hpoll).2
  | case2 i f j hpoll ih => exact ih.trans (leaves_of_poll hpoll).2.1
  | case3 i fault j hpoll =>
    obtain rfl := leaves_of_poll hpoll
    rfl

/-- What has failed stays so. -/
theorem failed_drain (h : i.failed = true) : i.drain.2.failed = true := by
  fun_induction drain i with
  | case1 i j hpoll => exact (leaves_of_poll hpoll).1.trans h
  | case2 i f j hpoll ih => exact ih ((leaves_of_poll hpoll).1.trans h)
  | case3 i fault j hpoll =>
    obtain rfl := leaves_of_poll hpoll
    rfl

end Inlet

/-- Where nothing is left, there is nothing to read. -/
theorem Deframer.IsSpent.isDrained {d : Deframer} (h : d.IsSpent) (hsound : d.queue.IsSound) :
    d.inlet.IsDrained := by
  have hunread : d.inlet.unread.length = 0 := (Deframer.buffered_eq hsound).symm.trans h.buffered_eq
  have hawaiting : d.inlet.awaiting = none := h.awaiting_eq
  rw [Inlet.IsDrained, hunread, hawaiting]
  exact Nat.succ_pos _

namespace Inlet

variable {i : Inlet}

/-! ## Two goes -/

/-- **Draining in two goes comes to the same end.** Whatever has been
drained, more bytes are drained as if they had been there before. -/
theorem drain_add (hopen : i.failed = false) (more : Bytes) :
    (i.add more).drain = both i.drain (i.drain.2.receive more).drain := by
  -- Every frame takes bytes, so the induction is on how many are unread.
  induction hn : i.unread.length using Nat.strongRecOn generalizing i with
  | ind n ih =>
  have hadd := i.poll_add more
  rcases hpoll : i.poll with ⟨_ | f | fault, j⟩
  · -- The bytes run out: with more of them reading goes on from there.
    obtain ⟨hfailed, -⟩ := leaves_of_poll hpoll
    rw [hpoll] at hadd
    rw [drain_of_waiting hpoll, receive_of_open (hfailed.trans hopen), drain_congr hadd]
    rfl
  · obtain ⟨hfailed, -, hlt⟩ := leaves_of_poll hpoll
    have hrest := ih j.unread.length (by omega) (hfailed.trans hopen) rfl
    rw [hpoll] at hadd
    rw [drain_of_frame hadd, drain_of_frame hpoll, hrest]
    rfl
  · -- After a failure nothing is left to be read, nor does more come in.
    obtain rfl := leaves_of_poll hpoll
    have hfailed : i.fail.failed = true := rfl
    rw [hpoll] at hadd
    rw [drain_of_failure hadd, drain_of_failure hpoll, receive_of_failed hfailed,
      drain_of_isDrained i.isDrained_fail]
    rfl

/-- **A chunk may arrive in two pieces.** -/
theorem drain_receive_append (i : Inlet) (first more : Bytes) :
    (i.receive (first ++ more)).drain =
      both (i.receive first).drain ((i.receive first).drain.2.receive more).drain := by
  cases hfailed : i.failed with
  | true =>
    have hdrained := drain_of_isDrained i.isDrained_drain
    rw [receive_of_failed hfailed, receive_of_failed hfailed,
      receive_of_failed (failed_drain hfailed), hdrained, both, List.append_nil]
  | false =>
    -- The first piece may make reading fail, and then the rest is not received.
    have hfirst : (i.add first).failed = false := hfailed
    have hadd : i.add (first ++ more) = (i.add first).add more := by
      simp only [add, List.append_assoc]
    rw [receive_of_open hfailed, receive_of_open hfailed, hadd, drain_add hfirst]

/-! ## The whole stream -/

/-- A deframer in front of a whole stream. -/
def start (maximum : Number) (stream : Bytes) : Inlet := ⟨stream, none, maximum, false⟩

theorem poll_start (maximum : Number) (stream : Bytes) :
    (start maximum stream).poll = (start maximum stream).pollLength := rfl

/-- Behind a length that is admitted the frame is read. -/
theorem pollLength_start {maximum : Number} {stream : Bytes}
    (hlong : ¬ stream.length < Wire.lengthSize)
    (hsmall : ¬ maximum.isBelow (BigEndian.decode (stream.take Wire.lengthSize)) = true) :
    (start maximum stream).pollLength =
      (start maximum (stream.drop Wire.lengthSize)).pollFrame
        (BigEndian.decode (stream.take Wire.lengthSize)) := by
  rw [pollLength]
  exact (if_neg hlong).trans (if_neg hsmall)

/-- **A stream is drained to what it says.** -/
theorem drain_start (maximum : Number) (stream : Bytes) :
    (start maximum stream).drain.1 = announced maximum stream := by
  fun_induction announced maximum stream with
  | case1 stream hshort =>
    have hpoll : (start maximum stream).poll = (.waiting, start maximum stream) := by
      rw [poll_start, pollLength]
      exact if_pos hshort
    rw [drain_of_waiting hpoll]
  | case2 stream hlong length hlarge =>
    have hpoll : (start maximum stream).poll =
        (.failure (.frameTooLarge length maximum), (start maximum stream).fail) := by
      rw [poll_start, pollLength]
      exact (if_neg hlong).trans (if_pos hlarge)
    rw [drain_of_failure hpoll]
  | case3 stream hlong length rest hsmall hshort =>
    have hpoll : (start maximum stream).poll =
        (.waiting, { start maximum rest with awaiting := some length }) := by
      rw [poll_start, pollLength_start hlong hsmall, pollFrame]
      exact if_pos hshort
    rw [drain_of_waiting hpoll]
  | case4 stream hlong length rest hsmall hroom f hdecode ih =>
    have hpoll : (start maximum stream).poll =
        (.frame f, start maximum (rest.drop length)) := by
      rw [poll_start, pollLength_start hlong hsmall, pollFrame]
      refine (if_neg hroom).trans ?_
      simp only [start, rest, length] at hdecode ⊢
      rw [hdecode]
    rw [drain_of_frame hpoll, ih]
  | case5 stream hlong length rest hsmall hroom fault hdecode =>
    have hpoll : (start maximum stream).poll =
        (.failure fault, (start maximum rest).fail) := by
      rw [poll_start, pollLength_start hlong hsmall, pollFrame]
      refine (if_neg hroom).trans ?_
      simp only [start, rest, length] at hdecode ⊢
      rw [hdecode]
    rw [drain_of_failure hpoll]

end Inlet

end StreamWire
