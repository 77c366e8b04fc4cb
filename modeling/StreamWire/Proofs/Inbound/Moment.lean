import StreamWire.Proofs.Inbound.History
/-!
# Moments — a call in its course

A listener may feed the session in the midst of a call, or throw and
leave the call unfinished, so what a call comes to is not all there is to
say of it. `Run.steps` is the run after so many of its tasks, and
`Run.entered` holds the bytes of the feeds that have been entered until
then, those of listeners among them. As many tasks as there is work left
are the whole call (`Run.steps_of_weight_le`), so what they enter is all
that the call enters, and `Session.entered` is what a history of feeds has
entered.

Other things than bytes can be noted of every task: `Run.logged` and
`Session.logged` are such a log, and what every task keeps of a session,
its log and its events holds at every moment (`Session.IsKept.moment`). A
call that a listener makes is a run of its own inside the one it
interrupts (`Run.within`), and some moment of the outer one is its end
(`Session.exists_steps_call`).
-/

namespace StreamWire

/-- The bytes that an action feeds. -/
def Action.bytes : Action → Bytes
  | .feed chunk => chunk
  | _ => []

/-- What a task makes of the deframer. -/
def Deframer.afterTask (d : Deframer) : Task → Deframer
  | .drain => d.poll.2
  | .perform (.feed chunk) => d.receive chunk
  | .perform (.setMaximum size) => { d with maximum := size }
  | .perform (.throw _) => d

namespace Run

/-! ## So many tasks -/

/-- The run after so many tasks. -/
def steps (r : Run) : Nat → Run
  | 0 => r
  | n + 1 => r.step.steps n

/-- The bytes of the feed that is entered next, if the next task is one.
They count whether or not they are received. -/
def entering (r : Run) : Bytes :=
  match r.agenda with
  | .perform action :: _ => action.bytes
  | _ => []

/-- The bytes of the feeds that are entered in so many tasks, one after the
other. -/
def entered (r : Run) : Nat → Bytes
  | 0 => []
  | n + 1 => r.entering ++ r.step.entered n

variable {r : Run}

theorem step_of_done (h : r.agenda = []) : r.step = r := by
  rw [step, h]

theorem steps_of_done (h : r.agenda = []) (n : Nat) : r.steps n = r := by
  induction n with
  | zero => rfl
  | succ n ih => rw [steps, step_of_done h, ih]

/-- **As many tasks as there is work left are enough.** -/
theorem steps_of_weight_le {n : Nat} (h : r.weight ≤ n) : r.steps n = r.finish := by
  induction n generalizing r with
  | zero =>
    have hdone : r.agenda = [] := by
      cases hagenda : r.agenda with
      | nil => rfl
      | cons task rest =>
        have := weight_step_lt r (by simp [hagenda])
        omega
    rw [steps, finish_of_done hdone]
  | succ n ih =>
    by_cases hdone : r.agenda = []
    · rw [steps_of_done hdone, finish_of_done hdone]
    · have := weight_step_lt r hdone
      rw [steps, finish_of_left hdone, ih (by omega)]

/-- A call that has come to its end has nothing left to do. -/
theorem agenda_finish (r : Run) : r.finish.agenda = [] := by
  fun_induction finish r with
  | case1 r hdone => exact hdone
  | case2 r hleft ih => exact ih

theorem steps_add (r : Run) (m n : Nat) : r.steps (m + n) = (r.steps m).steps n := by
  induction m generalizing r with
  | zero => rw [Nat.zero_add, steps]
  | succ m ih => rw [Nat.succ_add, steps, steps, ih]

/-! ## What is done to the deframer -/

theorem deframer_drain (r : Run) : r.drain.session.deframer = r.session.deframer.poll.2 := by
  unfold drain
  rcases r.session.deframer.poll with ⟨_ | f | fault, d⟩
  · rfl
  · rfl
  · unfold announceFailure
    dsimp only
    split <;> rfl

/-- **A task does one thing to the deframer**, whoever listens. -/
theorem deframer_step {task : Task} {rest : List Task} (hagenda : r.agenda = task :: rest) :
    r.step.session.deframer = r.session.deframer.afterTask task := by
  unfold step
  rw [hagenda]
  rcases task with _ | chunk | size | message
  · exact deframer_drain { r with agenda := rest }
  · -- What is not received leaves the deframer as it is.
    dsimp only [perform, Deframer.afterTask]
    split
    · rename_i hnothing
      rw [Deframer.receive, if_pos hnothing]
    · rfl
  · rfl
  · rfl

/-- Reading on is a poll, and the announcement of what it finds. -/
theorem step_of_drain {rest : List Task} (hagenda : r.agenda = .drain :: rest) :
    let (found, d) := r.session.deframer.poll
    let polled : Run := { r with session := { r.session with deframer := d }, agenda := rest }
    r.step =
      match found with
      | .waiting => polled
      | .frame f => polled.announceFrame f
      | .failure fault => polled.announceFailure fault := by
  rw [step, hagenda]
  rfl

/-! ## A log of tasks -/

/-- What is noted of so many tasks, one after the other. -/
def logged {α : Type} (note : Run → List α) (r : Run) : Nat → List α
  | 0 => []
  | n + 1 => note r ++ r.step.logged note n

/-- The bytes that are entered are a log of the feeds. -/
theorem logged_entering (r : Run) (n : Nat) : r.logged entering n = r.entered n := by
  induction n generalizing r with
  | zero => rfl
  | succ n ih => rw [logged, entered, ih]

/-! ## Calls inside calls -/

/-- A call in the midst of another, whose tasks wait for it to return. If
it throws nobody waits for it any more. -/
def within (r outer : Run) : Run :=
  { r with
    agenda := r.agenda ++ if r.thrown.isSome then [] else outer.agenda
    events := outer.events ++ r.events }

theorem drain_within (r outer : Run) : (r.within outer).drain = r.drain.within outer := by
  unfold drain
  rcases hpoll : r.session.deframer.poll with ⟨found, d⟩
  have hsession : (r.within outer).session = r.session := rfl
  rw [hsession, hpoll]
  cases found with
  | waiting => rfl
  | frame f => simp [within, announceFrame]
  | failure fault =>
    unfold announceFailure
    cases honFailure : r.session.onFailure with
    | none => simp [within, honFailure]
    | some actions => simp [within, honFailure]

theorem perform_within (r outer : Run) (action : Action) :
    (r.within outer).perform action = (r.perform action).within outer := by
  cases action with
  | feed chunk =>
    have hsession : (r.within outer).session = r.session := rfl
    unfold perform
    dsimp only
    rw [hsession]
    split <;> rfl
  | setMaximum size => rfl
  | throw message => simp [perform, within]

/-- **The tasks of an inner call are done as if it were alone.** -/
theorem step_within (hleft : r.agenda ≠ []) (outer : Run) :
    (r.within outer).step = r.step.within outer := by
  obtain ⟨task, rest, hagenda⟩ := List.exists_cons_of_ne_nil hleft
  have hwithin : (r.within outer).agenda =
      task :: (rest ++ if r.thrown.isSome then [] else outer.agenda) := by
    rw [within, hagenda, List.cons_append]
  unfold step
  rw [hagenda, hwithin]
  cases task with
  | drain => exact drain_within { r with agenda := rest } outer
  | perform action => exact perform_within { r with agenda := rest } outer action

/-- **An inner call comes to its end** in some moment of the outer one. -/
theorem exists_steps_within (r outer : Run) :
    ∃ m, (r.within outer).steps m = r.finish.within outer := by
  fun_induction finish r with
  | case1 r hdone => exact ⟨0, rfl⟩
  | case2 r hleft ih =>
    obtain ⟨m, hsteps⟩ := ih
    exact ⟨m + 1, by rw [steps, step_within hleft, hsteps]⟩

end Run

namespace Session

/-! ## Calls one after the other -/

variable {s : Session}

/-- A call from outside, at its beginning. -/
def start (s : Session) (action : Action) : Run := { session := s, agenda := [.perform action] }

/-- The bytes of all feeds that are entered in the course of some feeds
from outside. -/
def entered (s : Session) : List Bytes → Bytes
  | [] => []
  | chunk :: later =>
    (s.start (.feed chunk)).entered (s.start (.feed chunk)).weight ++
      (s.call (.feed chunk)).session.entered later

/-- A call is all the tasks that it starts. -/
theorem call_eq_steps (s : Session) (action : Action) :
    s.call action = (s.start action).steps (s.start action).weight :=
  (Run.steps_of_weight_le (Nat.le_refl _)).symm

theorem after_append (s : Session) (history later : List Action) :
    s.after (history ++ later) = (s.after history).after later := by
  induction history generalizing s with
  | nil => rfl
  | cons action rest ih => exact ih _

/-- An empty feed does nothing. -/
theorem call_feed_nil (s : Session) : s.call (.feed []) = { session := s, agenda := [] } := by
  have hleft : (s.start (.feed [])).agenda ≠ [] := by simp [start]
  have hstep : (s.start (.feed [])).step = { session := s, agenda := [] } := by
    simp [start, Run.step, Run.perform]
  rw [call]
  exact (Run.finish_of_left hleft).trans (by rw [hstep, Run.finish_of_done rfl])

theorem after_of_forall_nil {chunks : List Bytes} (h : ∀ chunk ∈ chunks, chunk = []) :
    s.after (chunks.map .feed) = s := by
  induction chunks with
  | nil => rfl
  | cons chunk later ih =>
    obtain ⟨rfl, hlater⟩ := List.forall_mem_cons.1 h
    rw [List.map_cons, after, call_feed_nil, ih hlater]

/-! ## A log of calls -/

variable {α : Type} {note : Run → List α}

/-- What is noted of all tasks in the course of a history. -/
def logged (note : Run → List α) (s : Session) : List Action → List α
  | [] => []
  | action :: later =>
    (s.start action).logged note (s.start action).weight ++
      (s.call action).session.logged note later

theorem logged_feeds (s : Session) (chunks : List Bytes) :
    s.logged Run.entering (chunks.map .feed) = s.entered chunks := by
  induction chunks generalizing s with
  | nil => rfl
  | cons chunk later ih => rw [List.map_cons, logged, entered, Run.logged_entering, ih]

/-- Something said of a session, a log and the events, which every task
keeps, whatever was announced before its call. -/
def IsKept (note : Run → List α) (Q : Session → List α → List Event → Prop) : Prop :=
  ∀ (r : Run) (log : List α) (before : List Event),
    Q r.session log (before ++ r.events.toList) →
      Q r.step.session (log ++ note r) (before ++ r.step.events.toList)

variable {Q : Session → List α → List Event → Prop}

theorem IsKept.steps (hQ : IsKept note Q) {r : Run} {log : List α} {before : List Event}
    (h : Q r.session log (before ++ r.events.toList)) (n : Nat) :
    Q (r.steps n).session (log ++ r.logged note n) (before ++ (r.steps n).events.toList) := by
  induction n generalizing r log with
  | zero =>
    rw [Run.logged, List.append_nil]
    exact h
  | succ n ih =>
    rw [Run.logged, ← List.append_assoc]
    exact ih (hQ r log before h)

/-- It is so at every moment of a call. -/
theorem IsKept.start (hQ : IsKept note Q) {log : List α} {events : List Event} (h : Q s log events)
    (action : Action) (n : Nat) :
    Q ((s.start action).steps n).session (log ++ (s.start action).logged note n)
      (events ++ ((s.start action).steps n).events.toList) := by
  rw [← List.append_nil events] at h
  exact hQ.steps (r := s.start action) h n

/-- It is so after a history. -/
theorem IsKept.after (hQ : IsKept note Q) {log : List α} {events : List Event} (h : Q s log events)
    (history : List Action) :
    Q (s.after history) (log ++ s.logged note history) (events ++ s.events history) := by
  induction history generalizing s log events with
  | nil =>
    have hevents : s.events [] = [] := rfl
    rw [logged, hevents, List.append_nil, List.append_nil]
    exact h
  | cons action later ih =>
    have hcall := hQ.start h action (s.start action).weight
    rw [← call_eq_steps] at hcall
    rw [logged, events_cons, ← List.append_assoc, ← List.append_assoc]
    exact ih hcall

/-- **What every task keeps is so at every moment** of every call. -/
theorem IsKept.moment (hQ : IsKept note Q) (h : Q s [] []) (history : List Action)
    (action : Action) (n : Nat) :
    let r := (s.after history).start action
    Q (r.steps n).session (s.logged note history ++ r.logged note n)
      (s.events history ++ (r.steps n).events.toList) :=
  hQ.start (hQ.after h history) action n

/-! ## Calls that listeners make -/

/-- **Where a call is made in the midst of another**, the outer one comes
to a moment where all that has happened is the inner one. -/
theorem exists_steps_call {r : Run} {action : Action} {rest : List Task}
    (hagenda : r.agenda = .perform action :: rest) (hreturns : r.thrown = none) :
    ∃ m, r.steps m = (r.session.call action).within { r with agenda := rest } := by
  have hwithin : (r.session.start action).within { r with agenda := rest } = r := by
    obtain ⟨session, agenda, events, thrown⟩ := r
    obtain rfl : agenda = .perform action :: rest := hagenda
    obtain rfl : thrown = none := hreturns
    simp [start, Run.within]
  obtain ⟨m, hsteps⟩ := (r.session.start action).exists_steps_within { r with agenda := rest }
  rw [hwithin] at hsteps
  exact ⟨m, hsteps⟩

end Session

end StreamWire
