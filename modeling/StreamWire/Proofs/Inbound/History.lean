import StreamWire.Inbound.Session
import StreamWire.Proofs.Inbound.Inlet
/-!
# Histories — a session across calls

A history is a list of actions, each done by a call of its own once the
call before has come to its end. `Session.records` is what is seen of
each, `Session.after` what is left of the session. Nothing that is seen
depends on how the bytes that wait lie in chunks: two sessions that differ
in that alone are `Alike`, every task keeps them so, and whatever happens
to both of them is the same (`Session.Alike.records_eq`).
-/

namespace StreamWire

/-- What is seen of a call: what was announced in its course, how it
ended if not by returning, and how many bytes waited afterwards. -/
structure Record where
  events : List Event
  thrown : Option Thrown
  buffered : Nat
deriving DecidableEq, Repr

namespace Session

/-- What is seen of each call of a history. -/
def records (s : Session) : List Action → List Record
  | [] => []
  | action :: later =>
    let r := s.call action
    ⟨r.events.toList, r.thrown, r.session.deframer.buffered⟩ :: r.session.records later

/-- The session after a history. -/
def after (s : Session) : List Action → Session
  | [] => s
  | action :: later => (s.call action).session.after later

/-- Everything that is announced in the course of a history. -/
def events (s : Session) (history : List Action) : List Event :=
  (s.records history).flatMap Record.events

theorem events_cons (s : Session) (action : Action) (later : List Action) :
    s.events (action :: later) =
      (s.call action).events.toList ++ (s.call action).session.events later := by
  rw [events, records, List.flatMap_cons]
  rfl

/-- Everything that calls end in, other than returning. -/
def throws (s : Session) (history : List Action) : List Thrown :=
  (s.records history).filterMap Record.thrown

/-! ## Chunks are not seen -/

/-- Sessions that differ at most in how the bytes that wait lie in
chunks. -/
structure Alike (s t : Session) : Prop where
  inlet_eq : s.deframer.inlet = t.deframer.inlet
  isSound : s.deframer.queue.IsSound
  isSound' : t.deframer.queue.IsSound
  onFrame_eq : s.onFrame = t.onFrame
  onFailure_eq : s.onFailure = t.onFailure

theorem Alike.buffered_eq {s t : Session} (h : s.Alike t) :
    s.deframer.buffered = t.deframer.buffered := by
  rw [Deframer.buffered_eq h.isSound, Deframer.buffered_eq h.isSound', h.inlet_eq]

end Session

namespace Run

/-- Calls under way that differ at most in the chunks. -/
structure Alike (r q : Run) : Prop where
  session : r.session.Alike q.session
  agenda_eq : r.agenda = q.agenda
  events_eq : r.events = q.events
  thrown_eq : r.thrown = q.thrown

variable {r q : Run}

theorem Alike.perform (h : r.Alike q) (action : Action) :
    (r.perform action).Alike (q.perform action) := by
  have hfailed : r.session.deframer.failed = q.session.deframer.failed :=
    congrArg Inlet.failed h.session.inlet_eq
  cases action with
  | feed chunk =>
    simp only [Run.perform, hfailed]
    split
    · exact h
    · refine ⟨⟨?_, ?_, ?_, h.session.onFrame_eq, h.session.onFailure_eq⟩, ?_, h.events_eq,
        h.thrown_eq⟩
      · rw [Deframer.inlet_receive, Deframer.inlet_receive, h.session.inlet_eq]
      · exact Deframer.isSound_receive h.session.isSound chunk
      · exact Deframer.isSound_receive h.session.isSound' chunk
      · rw [h.agenda_eq]
  | setMaximum size =>
    refine ⟨⟨?_, h.session.isSound, h.session.isSound', h.session.onFrame_eq,
      h.session.onFailure_eq⟩, h.agenda_eq, h.events_eq, h.thrown_eq⟩
    exact congrArg (fun i : Inlet => { i with maximum := size }) h.session.inlet_eq
  | throw message => exact ⟨h.session, rfl, h.events_eq, rfl⟩

theorem Alike.announceFrame (h : r.Alike q) (f : Frame) :
    (r.announceFrame f).Alike (q.announceFrame f) := by
  have honFrame := h.session.onFrame_eq
  refine ⟨⟨h.session.inlet_eq, h.session.isSound, h.session.isSound', ?_,
    h.session.onFailure_eq⟩, ?_, ?_, h.thrown_eq⟩
  · rw [Run.announceFrame, Run.announceFrame, honFrame]
  · rw [Run.announceFrame, Run.announceFrame, honFrame, h.agenda_eq]
  · rw [Run.announceFrame, Run.announceFrame, h.events_eq, h.session.buffered_eq]

theorem Alike.announceFailure (h : r.Alike q) (fault : Fault) :
    (r.announceFailure fault).Alike (q.announceFailure fault) := by
  unfold Run.announceFailure
  rw [h.session.onFailure_eq, h.events_eq, h.session.buffered_eq, h.agenda_eq]
  cases q.session.onFailure with
  | none => exact ⟨h.session, rfl, rfl, rfl⟩
  | some actions => exact ⟨h.session, rfl, rfl, h.thrown_eq⟩

theorem Alike.drain (h : r.Alike q) : r.drain.Alike q.drain := by
  obtain ⟨hfound, hinlet, hsound⟩ := Deframer.pollsAs_poll h.session.isSound
  obtain ⟨hfound', hinlet', hsound'⟩ := Deframer.pollsAs_poll h.session.isSound'
  rw [← h.session.inlet_eq] at hfound' hinlet'
  -- Both polls find what the inlet they share finds.
  have hleft : ({ r with session := { r.session with deframer := r.session.deframer.poll.2 } } :
      Run).Alike { q with session := { q.session with deframer := q.session.deframer.poll.2 } } :=
    ⟨⟨hinlet.trans hinlet'.symm, hsound, hsound', h.session.onFrame_eq, h.session.onFailure_eq⟩,
      h.agenda_eq, h.events_eq, h.thrown_eq⟩
  unfold Run.drain
  dsimp only
  rw [hfound, hfound']
  cases r.session.deframer.inlet.poll.1 with
  | waiting => exact hleft
  | frame f => exact hleft.announceFrame f
  | failure fault => exact hleft.announceFailure fault

/-- What holds of the actions of every listener, and of none at all, holds
of those of the next. -/
theorem headD_of_forall_mem {lists : List (List Action)} {P : List Action → Prop} (hnil : P [])
    (h : ∀ actions ∈ lists, P actions) : P (lists.headD []) := by
  cases lists with
  | nil => exact hnil
  | cons actions later => exact h actions List.mem_cons_self

/-- **Every task keeps runs alike.** -/
theorem Alike.step (h : r.Alike q) : r.step.Alike q.step := by
  have hagenda := h.agenda_eq
  unfold Run.step
  rw [← hagenda]
  split
  · exact h
  · apply Alike.drain
    exact ⟨h.session, rfl, h.events_eq, h.thrown_eq⟩
  · apply Alike.perform
    exact ⟨h.session, rfl, h.events_eq, h.thrown_eq⟩

theorem finish_of_done (h : r.agenda = []) : r.finish = r := by
  rw [finish, if_pos h]

theorem finish_of_left (h : r.agenda ≠ []) : r.finish = r.step.finish := by
  rw [finish, if_neg h]

theorem Alike.finish (h : r.Alike q) : r.finish.Alike q.finish := by
  fun_induction Run.finish r generalizing q with
  | case1 r hdone =>
    have hdone' : q.agenda = [] := h.agenda_eq ▸ hdone
    rwa [finish_of_done hdone']
  | case2 r hleft ih =>
    have hleft' : q.agenda ≠ [] := h.agenda_eq ▸ hleft
    rw [finish_of_left hleft']
    exact ih h.step

end Run

namespace Session

variable {s t : Session}

theorem Alike.call (h : s.Alike t) (action : Action) : (s.call action).Alike (t.call action) :=
  Run.Alike.finish ⟨h, rfl, rfl, rfl⟩

/-- **Of sessions that are alike the same is seen**, whatever happens to
both and whoever listens. -/
theorem Alike.records_eq (h : s.Alike t) (history : List Action) :
    s.records history = t.records history := by
  induction history generalizing s t with
  | nil => rfl
  | cons action later ih =>
    have hcall := h.call action
    rw [records, records, hcall.events_eq, hcall.thrown_eq, hcall.session.buffered_eq,
      ih hcall.session]

end Session

end StreamWire
