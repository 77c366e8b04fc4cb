import StreamWire.Proofs.Inbound.Chunking
import StreamWire.Proofs.Inbound.Moment
/-!
# Finality — a failure is the last that is heard

Up to its first failure a session tells of frames and of nothing else;
with the failure it logs one notice, and tells the listener, or throws
where nobody listens; and then it is silent. `Session.Course` is these two
shapes, and every task of a call leads from one of them to the other or
leaves it as it is (`Run.IsOnCourse.step`), whatever the listeners feed,
throw, or make of the maximum. What a failed session does is settled apart.
Nothing stops the reading that a listener interrupted; it goes on, and
finds nothing to go on with (`Run.drain_of_isSpent`). So a task of a call
under way can still change the maximum and nothing else
(`Run.quiets_step`), and a call from outside is over after one task
(`Session.call_of_failed`).
-/

namespace StreamWire

/-! ## What is told of a failure -/

/-- The event of a frame. -/
def Event.isFrame : Event → Bool
  | .frame _ _ => true
  | _ => false

/-- The failure that a listener is told. -/
def Event.failure? : Event → Option Fault
  | .failure fault _ => some fault
  | _ => none

/-- The notice that is logged. -/
def Event.notice? : Event → Option Notice
  | .notice told => some told
  | _ => none

/-- The failure that is thrown where nobody listens for it. -/
def Thrown.fault? : Thrown → Option Fault
  | .fault cause => some cause
  | .plain _ => none

namespace Session

/-- All that is told of the failure: a notice, and then the listener is
told, if there is one, while no bytes wait. -/
def lastWords (listened : Bool) (fault : Fault) : List Event :=
  .notice (.unreadable fault) :: if listened then [.failure fault 0] else []

/-- What is thrown at the failure: itself, if nobody listens. -/
def outcry (listened : Bool) (fault : Fault) : List Fault :=
  if listened then [] else [fault]

/-- The failures that the calls of a history throw. -/
def faults (s : Session) (history : List Action) : List Fault :=
  (s.throws history).filterMap Thrown.fault?

/-- Where a session stands after some events and some failures thrown: it
still reads, and has told of frames alone, or it has failed, nothing is
left to read, and the failure was the last it told of. -/
inductive Course (s : Session) (listened : Bool) (events : List Event) (thrown : List Fault) : Prop
  | reading (hlistener : s.onFailure.isSome = listened) (hopen : s.deframer.failed = false)
      (hframes : ∀ event ∈ events, event.isFrame = true) (hthrown : thrown = [])
  | ended (hlistener : s.onFailure.isSome = listened) (hspent : s.deframer.IsSpent)
      (frames : List Event) (fault : Fault)
      (hframes : ∀ event ∈ frames, event.isFrame = true)
      (hevents : events = frames ++ lastWords listened fault)
      (hthrown : thrown = outcry listened fault)

variable {s t : Session} {listened : Bool} {events : List Event} {thrown : List Fault}

/-- Frames are neither failures nor notices. -/
theorem filterMap_frames {frames : List Event} (h : ∀ event ∈ frames, event.isFrame = true) :
    frames.filterMap Event.failure? = [] ∧ frames.filterMap Event.notice? = [] := by
  simp only [List.filterMap_eq_nil_iff]
  refine ⟨fun event hmem => ?_, fun event hmem => ?_⟩ <;>
  · have hframe := h event hmem
    cases event <;> first | rfl | cases hframe

/-- **A failure is told once**: to the listener or to the caller, and to
the log. -/
theorem Course.once (h : s.Course listened events thrown) :
    (events.filterMap Event.failure? ++ thrown).length ≤ 1 ∧
      (events.filterMap Event.notice?).length ≤ 1 := by
  rcases h with ⟨-, -, hframes, rfl⟩ | ⟨-, -, frames, fault, hframes, rfl, rfl⟩
  · obtain ⟨hfailures, hnotices⟩ := filterMap_frames hframes
    rw [hfailures, hnotices]
    exact ⟨Nat.zero_le _, Nat.zero_le _⟩
  · obtain ⟨hfailures, hnotices⟩ := filterMap_frames hframes
    rw [List.filterMap_append, List.filterMap_append, hfailures, hnotices]
    cases listened <;> exact ⟨Nat.le_refl _, Nat.le_refl _⟩

/-- Only the failure, what it has left and the listener for it matter. -/
theorem Course.congr (h : s.Course listened events thrown)
    (hfailed : t.deframer.failed = s.deframer.failed)
    (hspent : s.deframer.IsSpent → t.deframer.IsSpent) (honFailure : t.onFailure = s.onFailure) :
    t.Course listened events thrown := by
  rcases h with ⟨hlistener, hopen, hframes, hthrown⟩ |
    ⟨hlistener, hended, frames, fault, hframes, hevents, hthrown⟩
  · exact .reading (honFailure ▸ hlistener) (hfailed.trans hopen) hframes hthrown
  · exact .ended (honFailure ▸ hlistener) (hspent hended) frames fault hframes hevents hthrown

/-- **What has failed has nothing left to read**: no bytes wait, and no
frame is waited for. -/
theorem Course.isTidy (h : s.Course listened events thrown) : s.deframer.IsTidy := by
  intro hfailed
  rcases h with ⟨-, hopen, -, -⟩ | ⟨-, hspent, -⟩
  · rw [hfailed] at hopen
    cases hopen
  · exact hspent

end Session

/-! ## Task by task -/

namespace Run

variable {r : Run} {listened : Bool} {before : List Event} {faults : List Fault}

/-- A call under way, some events having been told and some failures
thrown before. A call that has thrown has nothing left to do. -/
structure IsOnCourse (r : Run) (listened : Bool) (before : List Event) (faults : List Fault) :
    Prop where
  course : r.session.Course listened (before ++ r.events.toList)
    (faults ++ r.thrown.toList.filterMap Thrown.fault?)
  agenda_eq_nil : r.thrown.isSome = true → r.agenda = []

/-- A call that has not thrown may have anything left to do. -/
theorem agenda_of_returns (hreturns : r.thrown = none) :
    r.thrown.isSome = true → r.agenda = [] := by
  intro hthrown
  rw [hreturns] at hthrown
  cases hthrown

theorem IsOnCourse.perform (h : r.IsOnCourse listened before faults) (hreturns : r.thrown = none)
    (action : Action) : (r.perform action).IsOnCourse listened before faults := by
  have hcourse := h.course
  cases action with
  | feed chunk =>
    unfold Run.perform
    dsimp only
    split
    · exact h
    · exact ⟨hcourse.congr (Deframer.failed_receive _ chunk) (·.receive chunk) rfl,
        agenda_of_returns hreturns⟩
  | setMaximum size => exact ⟨hcourse.congr rfl (·.withMaximum size) rfl, h.agenda_eq_nil⟩
  | throw message =>
    refine ⟨?_, fun _ => rfl⟩
    rw [hreturns] at hcourse
    exact hcourse

/-- Announcing a frame, after frames alone. -/
theorem isOnCourse_announceFrame (hlistener : r.session.onFailure.isSome = listened)
    (hopen : r.session.deframer.failed = false)
    (hframes : ∀ event ∈ before ++ r.events.toList, event.isFrame = true)
    (hreturns : r.thrown = none) (f : Frame) :
    (r.announceFrame f).IsOnCourse listened before [] := by
  refine ⟨.reading hlistener hopen ?_ ?_, agenda_of_returns hreturns⟩
  · rw [announceFrame, Array.toList_push, ← List.append_assoc, List.forall_mem_append,
      List.forall_mem_singleton]
    exact ⟨hframes, rfl⟩
  · rw [announceFrame, hreturns]
    rfl

/-- Announcing the failure, after frames alone. -/
theorem isOnCourse_announceFailure (hlistener : r.session.onFailure.isSome = listened)
    (hspent : r.session.deframer.IsSpent)
    (hframes : ∀ event ∈ before ++ r.events.toList, event.isFrame = true)
    (hreturns : r.thrown = none) (fault : Fault) :
    (r.announceFailure fault).IsOnCourse listened before [] := by
  unfold announceFailure
  rcases honFailure : r.session.onFailure with _ | actions
  · obtain rfl : false = listened := by rwa [honFailure] at hlistener
    refine ⟨.ended hlistener hspent _ fault hframes ?_ rfl, fun _ => rfl⟩
    rw [Array.toList_push, ← List.append_assoc]
    rfl
  · obtain rfl : true = listened := by rwa [honFailure] at hlistener
    refine ⟨.ended hlistener hspent _ fault hframes ?_ ?_, agenda_of_returns hreturns⟩
    · rw [Array.toList_push, Array.toList_push, hspent.buffered_eq, List.append_assoc,
        ← List.append_assoc]
      rfl
    · rw [hreturns]
      rfl

theorem IsOnCourse.drain (h : r.IsOnCourse listened before faults) (hreturns : r.thrown = none) :
    r.drain.IsOnCourse listened before faults := by
  obtain ⟨hlistener, hopen, hframes, hnone⟩ | ⟨-, hspent, -⟩ := h.course
  · -- The session still reads, so frames alone were told, and nothing was thrown.
    obtain ⟨rfl, -⟩ := List.append_eq_nil_iff.1 hnone
    have htook := r.session.deframer.took_poll
    rcases hpoll : r.session.deframer.poll with ⟨found, d⟩
    rw [hpoll] at htook
    unfold Run.drain
    rw [hpoll]
    let q : Run := { r with session := { r.session with deframer := d } }
    cases found with
    | waiting =>
      exact ⟨.reading hlistener (htook.2.trans hopen) hframes hnone, agenda_of_returns hreturns⟩
    | frame f =>
      exact isOnCourse_announceFrame (r := q) hlistener (htook.2.trans hopen) hframes hreturns f
    | failure fault =>
      exact isOnCourse_announceFailure (r := q) hlistener htook hframes hreturns fault
  · rw [drain_of_isSpent hspent]
    exact h

/-- **A task keeps it so.** -/
theorem IsOnCourse.step (h : r.IsOnCourse listened before faults) :
    r.step.IsOnCourse listened before faults := by
  unfold Run.step
  rcases hagenda : r.agenda with _ | ⟨task, rest⟩
  · exact h
  -- A call that has thrown has no task left.
  have hreturns : r.thrown = none := by
    rw [← Option.not_isSome_iff_eq_none]
    intro hthrown
    rw [h.agenda_eq_nil hthrown] at hagenda
    cases hagenda
  have hrest : IsOnCourse { r with agenda := rest } listened before faults :=
    ⟨h.course, agenda_of_returns hreturns⟩
  rcases task with _ | action
  · exact hrest.drain hreturns
  · exact hrest.perform hreturns action

/-- **It is so at every moment of a call.** -/
theorem IsOnCourse.steps (h : r.IsOnCourse listened before faults) (n : Nat) :
    (r.steps n).IsOnCourse listened before faults := by
  induction n generalizing r with
  | zero => exact h
  | succ n ih => exact ih h.step

end Run

/-! ## Call by call -/

namespace Session

variable {s : Session} {listened : Bool} {events : List Event} {thrown : List Fault}

theorem Course.start (h : s.Course listened events thrown) (action : Action) :
    (s.start action).IsOnCourse listened events thrown := by
  refine ⟨?_, fun hthrown => ?_⟩
  · rw [← List.append_nil events, ← List.append_nil thrown] at h
    exact h
  · cases hthrown

theorem faults_cons (s : Session) (action : Action) (later : List Action) :
    s.faults (action :: later) =
      (s.call action).thrown.toList.filterMap Thrown.fault? ++
        (s.call action).session.faults later := by
  have hcons : s.throws (action :: later) =
      (s.call action).thrown.toList ++ (s.call action).session.throws later := by
    rw [throws, records, List.filterMap_cons, throws]
    rcases (s.call action).thrown with _ | thrown <;> rfl
  rw [faults, hcons, List.filterMap_append, faults]

/-- **A history keeps to the two shapes.** -/
theorem Course.after (h : s.Course listened events thrown) (history : List Action) :
    (s.after history).Course listened (events ++ s.events history)
      (thrown ++ s.faults history) := by
  induction history generalizing s events thrown with
  | nil =>
    have hevents : s.events [] = [] := rfl
    have hfaults : s.faults [] = [] := rfl
    rw [hevents, hfaults, List.append_nil, List.append_nil]
    exact h
  | cons action later ih =>
    have hcall := ((h.start action).steps (s.start action).weight).course
    rw [← call_eq_steps] at hcall
    rw [events_cons, faults_cons, ← List.append_assoc, ← List.append_assoc]
    exact ih hcall

/-- A session at its beginning has told of nothing. -/
theorem course_start (maximum : Number) (onFrame : List (List Action))
    (onFailure : Option (List Action)) :
    Course { deframer := { maximum }, onFrame, onFailure } onFailure.isSome [] [] :=
  .reading rfl rfl (fun _ hmem => absurd hmem List.not_mem_nil) rfl

end Session

/-! ## After the failure -/

/-- A session with another maximum. -/
def Session.withMaximum (s : Session) (size : Number) : Session :=
  { s with deframer := { s.deframer with maximum := size } }

namespace Run

variable {r q p : Run}

/-- Between two moments of a call the maximum may have been changed, and
nothing else has happened. -/
structure Quiets (r q : Run) : Prop where
  events_eq : q.events = r.events
  session_eq : ∃ size, q.session = r.session.withMaximum size

theorem Quiets.refl (r : Run) : r.Quiets r := ⟨rfl, r.session.deframer.maximum, rfl⟩

theorem Quiets.trans (h : r.Quiets q) (h' : q.Quiets p) : r.Quiets p := by
  obtain ⟨hevents, size, hsession⟩ := h
  obtain ⟨hevents', size', hsession'⟩ := h'
  refine ⟨hevents'.trans hevents, size', ?_⟩
  rw [hsession', hsession]
  rfl

theorem Quiets.isSpent (h : r.Quiets q) (hspent : r.session.deframer.IsSpent) :
    q.session.deframer.IsSpent := by
  obtain ⟨size, hsession⟩ := h.session_eq
  rw [hsession]
  exact hspent.withMaximum size

/-- A feed after the failure returns at once. -/
theorem perform_feed_of_failed (h : r.session.deframer.failed = true) (chunk : Bytes) :
    r.perform (.feed chunk) = r := by
  unfold perform
  dsimp only
  rw [h, Bool.true_or, if_pos rfl]

/-- **After the failure a task is quiet.** -/
theorem quiets_step (h : r.session.deframer.IsSpent) : r.Quiets r.step := by
  unfold step
  rcases r.agenda with _ | ⟨_ | action, rest⟩
  · exact Quiets.refl r
  · -- A reading that was interrupted finds nothing to go on with.
    have hdrain := drain_of_isSpent (r := { r with agenda := rest }) h
    dsimp only
    rw [hdrain]
    exact ⟨rfl, r.session.deframer.maximum, rfl⟩
  · cases action with
    | feed chunk =>
      have hfeed := perform_feed_of_failed (r := { r with agenda := rest }) h.failed_eq chunk
      dsimp only
      rw [hfeed]
      exact ⟨rfl, r.session.deframer.maximum, rfl⟩
    | setMaximum size => exact ⟨rfl, size, rfl⟩
    | throw message => exact ⟨rfl, r.session.deframer.maximum, rfl⟩

/-- **So is all that is left of the call.** -/
theorem quiets_steps (h : r.session.deframer.IsSpent) (n : Nat) : r.Quiets (r.steps n) := by
  induction n generalizing r with
  | zero => exact Quiets.refl r
  | succ n ih =>
    have hstep := quiets_step h
    exact hstep.trans (ih (hstep.isSpent h))

end Run

namespace Session

variable {s : Session}

/-- **A call of a failed session is over after one task.** A feed does
nothing and returns. -/
theorem call_of_failed (h : s.deframer.failed = true) (action : Action) :
    s.call action =
      { session := match action with
          | .setMaximum size => s.withMaximum size
          | _ => s
        agenda := []
        thrown := action.thrown? } := by
  rw [call, Run.finish_of_left (by simp)]
  cases action with
  | feed chunk =>
    have hfeed := Run.perform_feed_of_failed (r := { session := s, agenda := [] }) h chunk
    rw [Run.step]
    dsimp only
    rw [hfeed, Run.finish_of_done rfl]
    rfl
  | setMaximum size => exact Run.finish_of_done rfl
  | throw message => exact Run.finish_of_done rfl

theorem isSpent_call (h : s.deframer.IsSpent) (action : Action) :
    (s.call action).session.deframer.IsSpent := by
  rw [call_of_failed h.failed_eq]
  cases action with
  | setMaximum size => exact h.withMaximum size
  | _ => exact h

/-- **Nothing more is seen of a failed session**, but for what callers
throw themselves. -/
theorem records_of_isSpent (h : s.deframer.IsSpent) (later : List Action) :
    s.records later = later.map fun action => ⟨[], action.thrown?, 0⟩ := by
  induction later generalizing s with
  | nil => rfl
  | cons action later ih =>
    have hcall := isSpent_call h action
    rw [records, List.map_cons, ih hcall, hcall.buffered_eq, call_of_failed h.failed_eq]

/-- A failed session stays so, and still has nothing to read. -/
theorem isSpent_after (h : s.deframer.IsSpent) (later : List Action) :
    (s.after later).deframer.IsSpent := by
  induction later generalizing s with
  | nil => exact h
  | cons action later ih => exact ih (isSpent_call h action)

/-! ## One failure, and the last -/

/-- **A failure is final.** Whoever listens and whatever they do, at every
moment of every call: frames alone were told before the failure, and it
was told once, while no bytes waited. Once it has happened, nothing is
told in what is left of the call, the readings among it that listeners
interrupted; no bytes wait; and a feed returns at once. And of all calls
after it nothing is seen but that they return, or throw what their caller
throws, with no bytes waiting, whatever becomes of the maximum, and a feed
leaves the session as it was. -/
theorem failure_final (maximum : Number) (onFrame : List (List Action))
    (onFailure : Option (List Action)) (history : List Action) (action : Action) (n : Nat) :
    let s : Session := { deframer := { maximum }, onFrame, onFailure }
    let r := (s.after history).start action
    let events := s.events history ++ (r.steps n).events.toList
    let thrown := s.faults history ++ (r.steps n).thrown.toList.filterMap Thrown.fault?
    (r.steps n).session.Course onFailure.isSome events thrown ∧
    ((events.filterMap Event.failure? ++ thrown).length ≤ 1 ∧
      (events.filterMap Event.notice?).length ≤ 1) ∧
    ((r.steps n).session.deframer.failed = true →
      (∀ m, (r.steps (n + m)).events = (r.steps n).events ∧
        (r.steps (n + m)).session.deframer.buffered = 0 ∧
        ∀ chunk rest, (r.steps (n + m)).agenda = .perform (.feed chunk) :: rest →
          (r.steps (n + m)).step = { r.steps (n + m) with agenda := rest }) ∧
      ∀ later,
        (s.after (history ++ [action])).records later =
          later.map (fun action => ⟨[], action.thrown?, 0⟩) ∧
        ∀ chunk, ((s.after (history ++ action :: later)).call (.feed chunk)).session =
          s.after (history ++ action :: later)) := by
  intro s r events thrown
  have hstart : s.Course onFailure.isSome [] [] := course_start maximum onFrame onFailure
  have hmoment (n : Nat) := (((hstart.after history).start action).steps n).course
  refine ⟨hmoment n, (hmoment n).once, fun hfailed => ?_⟩
  have hspent := (hmoment n).isTidy hfailed
  refine ⟨?_, ?_⟩
  · intro m
    have hquiet := Run.quiets_steps hspent m
    rw [← Run.steps_add] at hquiet
    have hstill := hquiet.isSpent hspent
    refine ⟨hquiet.events_eq, hstill.buffered_eq, ?_⟩
    intro chunk rest hagenda
    rw [Run.step, hagenda]
    exact Run.perform_feed_of_failed (r := { r.steps (n + m) with agenda := rest })
      hstill.failed_eq chunk
  · intro later
    -- The call is over as many tasks from here as there was work in it.
    have hcall : s.after (history ++ [action]) = (r.steps (n + r.weight)).session := by
      rw [after_append, Run.steps_of_weight_le (Nat.le_add_left _ _)]
      rfl
    have hended : (s.after (history ++ [action])).deframer.IsSpent := by
      rw [hcall, Run.steps_add]
      exact (Run.quiets_steps hspent r.weight).isSpent hspent
    refine ⟨records_of_isSpent hended later, fun chunk => ?_⟩
    have hsplit : history ++ action :: later = (history ++ [action]) ++ later := by simp
    rw [hsplit, after_append, call_of_failed (isSpent_after hended later).failed_eq]

/-- A listener feeds a length that is too large while a frame is
announced, and the one for the failure feeds, lifts the maximum and
throws. The bytes behind the frame are never read. -/
theorem failure_final_nested :
    let onFailure : List Action := [.feed [1, 2, 3], .setMaximum .infinity, .throw "late"]
    let s : Session :=
      { deframer := { maximum := .ofNat 64 }
        onFrame := [[.feed [0, 0, 65]]]
        onFailure := some onFailure }
    let chunk : Bytes := [0, 0, 6, 0, 0, 0, 1, 36, 0]
    let fault : Fault := .frameTooLarge 65 (.ofNat 64)
    let r := s.start (.feed chunk)
    (r.steps 4).session.deframer.failed = true ∧
      (r.steps 4).events.toList =
        [.frame ⟨.ofNat 1, .ofFlags 0, .cancel⟩ 0, .notice (.unreadable fault),
          .failure fault 0] ∧
      (∀ m, (r.steps (4 + m)).events = (r.steps 4).events) ∧
      (s.after [.feed chunk]).records [.setMaximum .infinity, .feed chunk] =
        [⟨[], none, 0⟩, ⟨[], none, 0⟩] := by
  intro onFailure s chunk fault r
  have hfailed : (r.steps 4).session.deframer.failed = true := by decide +kernel
  have hfinal := (failure_final (.ofNat 64) [[.feed [0, 0, 65]]] (some onFailure) []
    (.feed chunk) 4).2.2 hfailed
  exact ⟨hfailed, by decide +kernel, fun m => (hfinal.1 m).1,
    (hfinal.2 [.setMaximum .infinity, .feed chunk]).1⟩

end Session

end StreamWire
