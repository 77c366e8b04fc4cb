import Mathlib.Data.List.Forall2
import StreamWire.Link
import StreamWire.Proofs.Frame.RoundTrip
import StreamWire.Proofs.Inbound.Reentrancy
/-!
# Accounting — every byte is in a frame or still waits

What a session does to its deframer is three things: it receives, it
polls, and it changes the maximum. What none of them makes false holds
throughout, whoever listens and whatever they do
(`Deframer.IsInvariant.after`). One such thing is that the books balance
(`Deframer.Accounts`): as long as nothing has failed, the bytes that have
been entered are those of the frames that have been announced, each behind
its length, and then the length that was read ahead of its frame, and the
bytes that wait.
-/

namespace StreamWire

/-! ## What nothing makes false -/

/-- Something said of a deframer, the bytes that were entered and what was
announced, which nothing that is done to the deframer makes false. A
failure that was found may go unheard. -/
structure Deframer.IsInvariant (P : Deframer → Bytes → List Announcement → Prop) : Prop where
  receive : ∀ {d fed said}, P d fed said → ∀ chunk, P (d.receive chunk) (fed ++ chunk) said
  setMaximum : ∀ {d fed said}, P d fed said → ∀ size, P { d with maximum := size } fed said
  poll : ∀ {d d' fed said found}, P d fed said → d.poll = (found, d') →
    P d' fed (said ++ found.told)
  unheard : ∀ {d d' fed said fault}, P d fed said → d.poll = (.failure fault, d') → P d' fed said

namespace Run

variable {P : Deframer → Bytes → List Announcement → Prop} {r : Run} {fed : Bytes}
  {said : List Announcement}

/-- It holds at this moment of a call, `said` having been announced
before. -/
def Obeys (r : Run) (P : Deframer → Bytes → List Announcement → Prop) (fed : Bytes)
    (said : List Announcement) : Prop :=
  P r.session.deframer fed (said ++ told r.events.toList)

theorem Obeys.perform (h : r.Obeys P fed said) (hP : Deframer.IsInvariant P) (action : Action) :
    (r.perform action).Obeys P (fed ++ action.bytes) said := by
  cases action with
  | feed chunk =>
    have hreceive := hP.receive h chunk
    unfold Run.perform
    dsimp only
    split
    · rename_i hnothing
      rw [Deframer.receive, if_pos hnothing] at hreceive
      exact hreceive
    · exact hreceive
  | setMaximum size =>
    have hnothing : Action.bytes (.setMaximum size) = [] := rfl
    rw [hnothing, List.append_nil]
    exact hP.setMaximum h size
  | throw message =>
    have hnothing : Action.bytes (.throw message) = [] := rfl
    rw [hnothing, List.append_nil]
    exact h

theorem Obeys.drain (h : r.Obeys P fed said) (hP : Deframer.IsInvariant P) :
    r.drain.Obeys P fed said := by
  rcases hpoll : r.session.deframer.poll with ⟨found, d⟩
  have hfound := hP.poll h hpoll
  unfold Run.drain
  rw [hpoll]
  rw [List.append_assoc] at hfound
  rcases found with _ | f | fault
  · rw [Poll.told, List.append_nil] at hfound
    exact hfound
  · -- The listener is told, and acts in tasks of its own.
    dsimp only [Obeys, announceFrame]
    rw [told_push]
    exact hfound
  · dsimp only [Obeys, announceFailure]
    split
    · rw [told_push_notice]
      exact hP.unheard h hpoll
    · rw [told_push, told_push_notice]
      exact hfound

/-- **A task keeps it so.** -/
theorem Obeys.step (h : r.Obeys P fed said) (hP : Deframer.IsInvariant P) :
    r.step.Obeys P (fed ++ r.entering) said := by
  unfold Run.step Run.entering
  rcases hagenda : r.agenda with _ | ⟨_ | action, rest⟩
  · rw [List.append_nil]
    exact h
  · rw [List.append_nil]
    exact @Obeys.drain P { r with agenda := rest } fed said h hP
  · exact @Obeys.perform P { r with agenda := rest } fed said h hP action

end Run

namespace Deframer

variable {P : Deframer → Bytes → List Announcement → Prop}

/-- **And every task of every call**, `fed` having been entered and `said`
announced before. -/
theorem IsInvariant.isKept (hP : IsInvariant P) (fed : Bytes) (said : List Announcement) :
    Session.IsKept Run.entering fun s entered events =>
      P s.deframer (fed ++ entered) (said ++ told events) := by
  intro r log before h
  rw [told_append, ← List.append_assoc] at h ⊢
  rw [← List.append_assoc]
  exact Run.Obeys.step h hP

/-- **And it is so after calls one after the other.** -/
theorem IsInvariant.after (hP : IsInvariant P) {s : Session} {fed : Bytes}
    {said : List Announcement} (h : P s.deframer fed said) (chunks : List Bytes) :
    P (s.after (chunks.map .feed)).deframer (fed ++ s.entered chunks)
      (said ++ told (s.events (chunks.map .feed))) := by
  have hstart : P s.deframer (fed ++ []) (said ++ told []) := by
    rwa [List.append_nil, told, List.filterMap_nil, List.append_nil]
  have hafter := (hP.isKept fed said).after hstart (chunks.map .feed)
  rwa [Session.logged_feeds, List.nil_append, List.nil_append] at hafter

end Deframer

/-! ## What a poll takes off a stream -/

namespace Inlet

variable {i j : Inlet}

/-- The bytes that belong to no frame yet: the length that was read, if
its frame has not been, and the bytes that wait. -/
def rest (i : Inlet) : Bytes :=
  match i.awaiting with
  | some length => BigEndian.encode Wire.lengthSize length ++ i.unread
  | none => i.unread

/-- Bytes that come later belong to no frame yet. -/
theorem rest_add (i : Inlet) (more : Bytes) : (i.add more).rest = i.rest ++ more := by
  unfold rest
  rcases hawaiting : i.awaiting with _ | length
  · simp only [add, hawaiting]
  · simp only [add, hawaiting, List.append_assoc]

/-- A length that was read is one of three bytes. -/
def IsBounded (i : Inlet) : Prop :=
  ∀ length, i.awaiting = some length → length ≤ Wire.maxFrameLength

/-- What a poll may do to the bytes in front of an inlet. A frame takes
its own bytes, behind their length, and waiting takes none. -/
def Takes (stream : Bytes) : Poll × Inlet → Prop
  | (.waiting, j) => j.IsBounded ∧ j.rest = stream
  | (.frame f, j) =>
    j.IsBounded ∧ ∃ body, Frame.IsRead f body ∧ stream = Link.delimited body ++ j.rest
  | (.failure _, j) => j.IsBounded

/-- Behind a length the frame is taken, once it waits. -/
theorem takes_pollFrame {length : Nat} (hle : length ≤ Wire.maxFrameLength) :
    Takes (BigEndian.encode Wire.lengthSize length ++ i.unread) (i.pollFrame length) := by
  unfold pollFrame
  split
  · refine ⟨?_, rfl⟩
    rintro _ ⟨⟩
    exact hle
  rename_i hlong
  have hlength : (i.unread.take length).length = length :=
    List.length_take_of_le (Nat.not_lt.1 hlong)
  rcases hdecode : Frame.decode (i.unread.take length) with fault | f
  · rintro _ ⟨⟩
  · refine ⟨?_, i.unread.take length, ⟨hdecode, ?_⟩, ?_⟩
    · rintro _ ⟨⟩
    · rwa [hlength]
    · rw [Link.delimited, hlength, List.append_assoc, rest, List.take_append_drop]

/-- A length is taken off the stream together with its frame. -/
theorem takes_pollLength (hbounded : i.IsBounded) (hidle : i.awaiting = none) :
    Takes i.unread i.pollLength := by
  unfold pollLength
  split
  · exact ⟨hbounded, by rw [rest, hidle]⟩
  rename_i hlong
  have hwidth : (i.unread.take Wire.lengthSize).length = Wire.lengthSize :=
    List.length_take_of_le (Nat.not_lt.1 hlong)
  have hle : BigEndian.decode (i.unread.take Wire.lengthSize) ≤ Wire.maxFrameLength := by
    have hlt := BigEndian.decode_lt (i.unread.take Wire.lengthSize)
    rw [hwidth] at hlt
    exact Nat.le_of_lt_succ hlt
  dsimp only
  split
  · rintro _ ⟨⟩
  · have htakes := takes_pollFrame (i := i.pastLength) hle
    rw [BigEndian.encode_decode_of_length hwidth, pastLength, List.take_append_drop] at htakes
    exact htakes

/-- **A poll takes a whole frame off the stream, or nothing.** -/
theorem takes_poll (hbounded : i.IsBounded) : Takes i.rest i.poll := by
  unfold poll
  rcases hawaiting : i.awaiting with _ | length
  · rw [rest, hawaiting]
    exact takes_pollLength hbounded hawaiting
  · rw [rest, hawaiting]
    exact takes_pollFrame (hbounded length hawaiting)

end Inlet

/-! ## The books -/

namespace Deframer

/-- The books of a deframer: unless it has failed, frames were announced
and nothing else, and the bytes that were entered are theirs, each behind
its length, and those that belong to no frame yet. -/
structure Accounts (d : Deframer) (fed : Bytes) (said : List Announcement) : Prop where
  isSound : d.queue.IsSound
  isBounded : d.inlet.IsBounded
  fed_eq : d.failed = false → ∃ frames bodies, said = frames.map .frame ∧
    List.Forall₂ Frame.IsRead frames bodies ∧
    fed = (bodies.map Link.delimited).flatten ++ d.inlet.rest

/-- A failure closes the books, whatever is announced of it. -/
theorem Accounts.of_failure {d d' : Deframer} {fed : Bytes} {said : List Announcement}
    {fault : Fault} (h : d.Accounts fed said) (hpoll : d.poll = (.failure fault, d'))
    (said' : List Announcement) : d'.Accounts fed said' := by
  obtain ⟨hinlet, hsound⟩ := inlet_poll h.isSound hpoll
  have htakes := Inlet.takes_poll h.isBounded
  have htook := d.took_poll
  rw [hinlet] at htakes
  rw [hpoll] at htook
  refine ⟨hsound, htakes, fun hopen => ?_⟩
  have hspent : d'.IsSpent := htook
  rw [hspent.failed_eq] at hopen
  cases hopen

/-- **The books balance**, whatever is done to the deframer. -/
theorem isInvariant_accounts : IsInvariant Accounts where
  receive {d fed said} h chunk := by
    refine ⟨isSound_receive h.isSound chunk, ?_, ?_⟩
    · rw [inlet_receive]
      unfold Inlet.receive
      split <;> exact h.isBounded
    · intro hopen
      have hbefore : d.failed = false := (failed_receive d chunk).symm.trans hopen
      obtain ⟨frames, bodies, hsaid, hread, hfed⟩ := h.fed_eq hbefore
      refine ⟨frames, bodies, hsaid, hread, ?_⟩
      rw [inlet_receive, Inlet.receive_of_open hbefore, Inlet.rest_add, hfed, List.append_assoc]
  setMaximum h size := ⟨h.isSound, h.isBounded, h.fed_eq⟩
  poll {d d' fed said found} h hpoll := by
    obtain ⟨hinlet, hsound⟩ := inlet_poll h.isSound hpoll
    have htakes := Inlet.takes_poll h.isBounded
    have htook := d.took_poll
    rw [hinlet] at htakes
    rw [hpoll] at htook
    rcases found with _ | f | fault
    · refine ⟨hsound, htakes.1, fun hopen => ?_⟩
      obtain ⟨frames, bodies, hsaid, hread, hfed⟩ := h.fed_eq (htook.2.symm.trans hopen)
      refine ⟨frames, bodies, ?_, hread, ?_⟩
      · rw [Poll.told, List.append_nil, hsaid]
      · rw [hfed, htakes.2]
    · obtain ⟨hbounded, body, hbody, hrest⟩ := htakes
      refine ⟨hsound, hbounded, fun hopen => ?_⟩
      obtain ⟨frames, bodies, hsaid, hread, hfed⟩ := h.fed_eq (htook.2.symm.trans hopen)
      refine ⟨frames ++ [f], bodies ++ [body], ?_, ?_, ?_⟩
      · rw [Poll.told, hsaid, List.map_append, List.map_singleton]
      · exact List.rel_append hread (.cons hbody .nil)
      · rw [hfed, hrest, List.map_append, List.flatten_append, List.map_singleton,
          List.flatten_singleton, List.append_assoc]
    · exact h.of_failure hpoll _
  unheard h hpoll := h.of_failure hpoll _

/-- Before anything has arrived the books are empty. -/
theorem accounts_start (maximum : Number) : Accounts { maximum } [] [] where
  isSound := ChunkQueue.isSound_empty
  isBounded := by rintro _ ⟨⟩
  fed_eq _ := ⟨[], [], rfl, .nil, rfl⟩

/-- **Where nothing is left waiting, all that was entered is in the
frames.** -/
theorem Accounts.closed {d : Deframer} {fed : Bytes} {said : List Announcement}
    (h : d.Accounts fed said) (hopen : d.failed = false) (hempty : d.buffered = 0)
    (hidle : d.awaiting = none) :
    ∃ frames bodies, said = frames.map .frame ∧ List.Forall₂ Frame.IsRead frames bodies ∧
      fed = (bodies.map Link.delimited).flatten := by
  obtain ⟨frames, bodies, hsaid, hread, hfed⟩ := h.fed_eq hopen
  have hawaiting : d.inlet.awaiting = none := hidle
  have hunread : d.inlet.unread = [] := by
    rw [buffered_eq h.isSound] at hempty
    exact List.length_eq_zero_iff.1 hempty
  refine ⟨frames, bodies, hsaid, hread, ?_⟩
  rw [hfed, Inlet.rest, hawaiting]
  dsimp only
  rw [hunread, List.append_nil]

end Deframer

end StreamWire
