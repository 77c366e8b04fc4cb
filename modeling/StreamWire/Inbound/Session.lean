import StreamWire.Inbound.Deframer
import StreamWire.Notice
/-!
# Sessions — a deframer and those who listen to it

Frames and the failure are announced to listeners as they are read, and
a listener may itself feed the deframer, change its maximum, or throw.
What was interrupted waits until the listener is done, and a throw
abandons everything up to the outermost call. `Run` makes that explicit:
an agenda of tasks, of which the first is next. A frame puts its
listener's actions in front of the reading it interrupts, a feed puts
reading in front of what comes after it, and a throw empties the agenda.
`Run.step` does one task. Each task makes the work that is left smaller
(`weight_step_lt`), so `Run.finish` always comes to an end.
-/

namespace StreamWire

/-- What a caller or a listener may do. -/
inductive Action where
  | feed (chunk : Bytes)
  | setMaximum (size : Number)
  | throw (message : String)
deriving DecidableEq, Repr

/-- What a call may end in, other than returning. -/
inductive Thrown where
  /-- A failure that nobody listened for. -/
  | fault (fault : Fault)
  /-- What a listener threw. -/
  | plain (message : String)
deriving DecidableEq, Repr

/-- What can be observed of a session: announcements, each with the bytes
that waited at that moment, and notices. -/
inductive Event where
  | frame (f : Frame) (buffered : Nat)
  | failure (fault : Fault) (buffered : Nat)
  | notice (notice : Notice)
deriving DecidableEq, Repr

/-- A deframer with its listeners: the actions to be taken at each frame
to come, and those at the failure if there is a listener for it. -/
structure Session where
  deframer : Deframer := {}
  onFrame : List (List Action) := []
  onFailure : Option (List Action) := some []
deriving DecidableEq, Repr

/-- What is left to do. -/
inductive Task where
  /-- Read on until the bytes that wait run out. -/
  | drain
  | perform (action : Action)
deriving DecidableEq, Repr

/-- A call under way: the session, what is left to do, what has been
observed, and how the call ended if not by returning. -/
structure Run where
  session : Session
  agenda : List Task
  events : Array Event := #[]
  thrown : Option Thrown := none

namespace Run

/-! ## One task -/

/-- Does an action. -/
def perform (r : Run) (action : Action) : Run :=
  let d := r.session.deframer
  match action with
  | .feed chunk =>
    if d.failed || chunk.isEmpty then r
    else
      { r with session := { r.session with deframer := d.receive chunk }
               agenda := .drain :: r.agenda }
  | .setMaximum size =>
    { r with session := { r.session with deframer := { d with maximum := size } } }
  | .throw message => { r with agenda := [], thrown := some (.plain message) }

/-- Announces a frame. Its listener acts before anything else is read. -/
def announceFrame (r : Run) (f : Frame) : Run :=
  { r with
    session := { r.session with onFrame := r.session.onFrame.tail }
    agenda := (r.session.onFrame.headD []).map .perform ++ .drain :: r.agenda
    events := r.events.push (.frame f r.session.deframer.buffered) }

/-- Announces the failure. Without a listener it is thrown. -/
def announceFailure (r : Run) (fault : Fault) : Run :=
  let events := r.events.push (.notice (.unreadable fault))
  match r.session.onFailure with
  | none => { r with agenda := [], events, thrown := some (.fault fault) }
  | some actions =>
    { r with
      agenda := actions.map .perform ++ r.agenda
      events := events.push (.failure fault r.session.deframer.buffered) }

/-- Reads on to the next frame or failure, and announces it. -/
def drain (r : Run) : Run :=
  let (found, deframer) := r.session.deframer.poll
  let r := { r with session := { r.session with deframer } }
  match found with
  | .waiting => r
  | .frame f => r.announceFrame f
  | .failure fault => r.announceFailure fault

/-- Where nothing is left, reading on does nothing. -/
theorem drain_of_isSpent {r : Run} (h : r.session.deframer.IsSpent) : r.drain = r := by
  rw [drain, h.poll_eq]

/-- Does the first task of the agenda. -/
def step (r : Run) : Run :=
  match r.agenda with
  | [] => r
  | .drain :: rest => { r with agenda := rest }.drain
  | .perform action :: rest => { r with agenda := rest }.perform action

/-! ## The work that is left -/

/-- The work in an action: more than the reading that it can bring
about. -/
def actionWeight : Action → Nat
  | .feed chunk => chunk.length + 2
  | _ => 1

/-- The work in some actions. -/
def actionsWeight : List Action → Nat
  | [] => 0
  | action :: rest => actionWeight action + actionsWeight rest

/-- The work in the actions at each frame to come. -/
def scriptWeight : List (List Action) → Nat
  | [] => 0
  | actions :: rest => actionsWeight actions + scriptWeight rest

/-- The work in a task. -/
def taskWeight : Task → Nat
  | .drain => 1
  | .perform action => actionWeight action

/-- The work in an agenda. -/
def agendaWeight : List Task → Nat
  | [] => 0
  | task :: rest => taskWeight task + agendaWeight rest

/-- The work in the listeners of a session. The failure can still be
announced as long as it has not happened and left nothing to read. -/
def listenersWeight (s : Session) : Nat :=
  scriptWeight s.onFrame +
    if s.deframer.IsSpent then 0 else actionsWeight (s.onFailure.getD []) + 1

/-- The work that is left: bytes to be read, tasks to be done, and
listeners to be called. -/
def weight (r : Run) : Nat :=
  r.session.deframer.buffered + agendaWeight r.agenda + listenersWeight r.session

/-- Actions put in front of an agenda bring their own work and no more. -/
theorem agendaWeight_perform_append (actions : List Action) (agenda : List Task) :
    agendaWeight (actions.map .perform ++ agenda) =
      actionsWeight actions + agendaWeight agenda := by
  induction actions with
  | nil => simp [actionsWeight]
  | cons action rest ih =>
    simp only [List.map_cons, List.cons_append, agendaWeight, taskWeight, actionsWeight, ih]
    omega

/-- Announcing moves the work of one listener to the agenda, and adds the
reading it interrupted. -/
theorem weight_announceFrame (r : Run) (f : Frame) :
    (r.announceFrame f).weight = r.weight + 1 := by
  cases h : r.session.onFrame with
  | nil =>
    simp only [announceFrame, weight, listenersWeight, h, List.headD_nil, List.map_nil,
      List.nil_append, agendaWeight, taskWeight, List.tail_nil]
    omega
  | cons actions later =>
    simp only [announceFrame, weight, listenersWeight, h, List.headD_cons,
      agendaWeight_perform_append, agendaWeight, scriptWeight, taskWeight, List.tail_cons]
    omega

theorem weight_announceFailure_le (r : Run) (fault : Fault) :
    (r.announceFailure fault).weight ≤ r.weight + actionsWeight (r.session.onFailure.getD []) := by
  cases h : r.session.onFailure with
  | none =>
    simp only [announceFailure, weight, listenersWeight, h, agendaWeight]
    omega
  | some actions =>
    simp only [announceFailure, weight, listenersWeight, h, Option.getD_some,
      agendaWeight_perform_append]
    omega

theorem listenersWeight_of_isSpent {s : Session} (h : s.deframer.IsSpent) :
    listenersWeight s = scriptWeight s.onFrame := by
  rw [listenersWeight, if_pos h, Nat.add_zero]

theorem listenersWeight_of_not_isSpent {s : Session} (h : ¬ s.deframer.IsSpent) :
    listenersWeight s = scriptWeight s.onFrame + (actionsWeight (s.onFailure.getD []) + 1) := by
  rw [listenersWeight, if_neg h]

theorem listenersWeight_le (s : Session) :
    listenersWeight s ≤ scriptWeight s.onFrame + (actionsWeight (s.onFailure.getD []) + 1) := by
  by_cases h : s.deframer.IsSpent
  · rw [listenersWeight_of_isSpent h]
    exact Nat.le_add_right _ _
  · exact Nat.le_of_eq (listenersWeight_of_not_isSpent h)

theorem weight_drain_le (r : Run) : r.drain.weight ≤ r.weight := by
  by_cases hspent : r.session.deframer.IsSpent
  · exact Nat.le_of_eq (congrArg weight (drain_of_isSpent hspent))
  have htook := r.session.deframer.took_poll
  have hlisteners := listenersWeight_of_not_isSpent hspent
  unfold drain
  generalize r.session.deframer.poll = outcome at htook ⊢
  obtain ⟨found, deframer⟩ := outcome
  have hleft := listenersWeight_le { r.session with deframer }
  cases found with
  | waiting =>
    obtain ⟨hbuffered, -⟩ := htook
    simp only [weight, hlisteners] at hleft ⊢
    omega
  | frame f =>
    obtain ⟨hbuffered, -⟩ := htook
    simp only [Wire.headerSize] at hbuffered
    rw [weight_announceFrame]
    simp only [weight, hlisteners] at hleft ⊢
    omega
  | failure fault =>
    -- The failure is announced, and cannot be announced again.
    have hgone : deframer.IsSpent := htook
    have hdone := @listenersWeight_of_isSpent { r.session with deframer } hgone
    have hempty := hgone.buffered_eq
    refine Nat.le_trans (weight_announceFailure_le _ _) ?_
    simp only [weight, hlisteners] at hdone ⊢
    omega

theorem weight_perform_lt (r : Run) (action : Action) :
    (r.perform action).weight < r.weight + actionWeight action := by
  cases action with
  | feed chunk =>
    simp only [perform]
    split
    · simp [actionWeight]
    · next h =>
      -- Reading goes on, so the failure is still ahead.
      have hopen : ¬ r.session.deframer.IsSpent := fun hspent => by simp [hspent.failed_eq] at h
      have hbefore := listenersWeight_of_not_isSpent hopen
      have hbehind := listenersWeight_le
        { r.session with deframer := r.session.deframer.receive chunk }
      simp only [weight, actionWeight, taskWeight, Deframer.receive, h, Deframer.buffered,
        ChunkQueue.push, agendaWeight, Bool.false_eq_true, if_false] at hbehind ⊢
      omega
  | setMaximum size =>
    have hsame : { r.session.deframer with maximum := size }.IsSpent ↔
        r.session.deframer.IsSpent :=
      ⟨fun h => ⟨h.failed_eq, h.buffered_eq, h.awaiting_eq⟩,
        fun h => ⟨h.failed_eq, h.buffered_eq, h.awaiting_eq⟩⟩
    simp only [perform, weight, listenersWeight, hsame]
    exact Nat.lt_succ_self _
  | throw message =>
    simp only [perform, weight, actionWeight, agendaWeight]
    omega

/-- **Every task makes the work that is left smaller.** -/
theorem weight_step_lt (r : Run) (h : r.agenda ≠ []) : r.step.weight < r.weight := by
  cases ha : r.agenda with
  | nil => exact absurd ha h
  | cons task rest =>
    have hweight : r.weight = { r with agenda := rest }.weight + taskWeight task := by
      simp only [weight, ha, agendaWeight]
      omega
    cases task with
    | drain =>
      have := weight_drain_le { r with agenda := rest }
      simp only [step, ha, hweight, taskWeight]
      omega
    | perform action =>
      have := weight_perform_lt { r with agenda := rest } action
      simpa only [step, ha, hweight, taskWeight] using this

/-! ## A whole call -/

/-- Does every task of the agenda. -/
def finish (r : Run) : Run :=
  if r.agenda = [] then r else r.step.finish
termination_by r.weight
decreasing_by exact weight_step_lt r ‹_›

end Run

/-- A call from outside, with all that it brings about. -/
def Session.call (s : Session) (action : Action) : Run :=
  Run.finish { session := s, agenda := [.perform action] }

end StreamWire
