import StreamWire.Proofs.Inbound.Announcement
import StreamWire.Proofs.Inbound.Moment
/-!
# Reentrancy — listeners that feed and throw

A listener may feed the session that calls it, and its feed is read before
the call it interrupts goes on; it may also throw, and leave what came
with the call unread. Neither loses, doubles or misplaces a frame. At
every moment what the listeners have been told, and what the inlet would
still be drained to, make up what the bytes say that have been entered
(`Session.Reads`): a poll moves the next announcement from the one to the
other, and a feed puts its bytes behind both. And what can be read is
attended to (`Run.Attends`): there is a task left that reads, unless the
call has thrown. `Session.reentrancy_harmless` puts the two together.
-/

namespace StreamWire

/-- What a listener is told by an event. A notice tells nobody
anything. -/
def Event.announcement? : Event → Option Announcement
  | .frame f _ => some (.frame f)
  | .failure fault _ => some (.failure fault)
  | .notice _ => none

/-- What the listeners have been told. -/
def told (events : List Event) : List Announcement := events.filterMap Event.announcement?

theorem told_append (events later : List Event) :
    told (events ++ later) = told events ++ told later :=
  List.filterMap_append

/-- An event tells the listeners last what it tells them. -/
theorem told_push (events : Array Event) (event : Event) :
    told (events.push event).toList = told events.toList ++ event.announcement?.toList := by
  rw [Array.toList_push, told_append]
  cases event <;> rfl

theorem told_push_notice (events : Array Event) (notice : Notice) :
    told (events.push (.notice notice)).toList = told events.toList := by
  rw [told_push]
  exact List.append_nil _

/-- What a poll has found, as it is announced. -/
def Poll.told : Poll → List Announcement
  | .waiting => []
  | .frame f => [.frame f]
  | .failure fault => [.failure fault]

/-- An action that leaves the maximum as it is. -/
def Action.Keeps (maximum : Number) (action : Action) : Prop :=
  ∀ size, action = .setMaximum size → size = maximum

/-- A task that does. -/
def Task.Keeps (maximum : Number) : Task → Prop
  | .drain => True
  | .perform action => action.Keeps maximum

namespace Inlet

variable {i j : Inlet}

/-- Polling is the beginning of draining. -/
theorem drain_of_poll {found : Poll} (h : i.poll = (found, j)) :
    i.drain = both (found.told, j) j.drain := by
  cases found with
  | waiting =>
    rw [drain_of_waiting h, drain_of_isDrained (isDrained_of_waiting h)]
    rfl
  | frame f =>
    rw [drain_of_frame h]
    rfl
  | failure fault =>
    obtain rfl := leaves_of_poll h
    rw [drain_of_failure h, drain_of_isDrained i.isDrained_fail]
    rfl

theorem maximum_of_poll {found : Poll} (h : i.poll = (found, j)) : j.maximum = i.maximum := by
  have hleaves := leaves_of_poll h
  cases found with
  | waiting => exact hleaves.2
  | frame f => exact hleaves.2.1
  | failure fault =>
    obtain rfl := hleaves
    rfl

/-- A chunk is received behind what is drained before it. -/
theorem drain_receive (i : Inlet) (chunk : Bytes) :
    (i.receive chunk).drain = both i.drain (i.drain.2.receive chunk).drain := by
  have happend := i.drain_receive_append [] chunk
  rwa [List.nil_append, receive_nil] at happend

end Inlet

namespace Session

/-- With this maximum throughout, `told` has been announced of the bytes
`fed`, and the rest of what they say is still to be read. -/
structure Reads (s : Session) (maximum : Number) (fed : Bytes) (told : List Announcement) :
    Prop where
  isSound : s.deframer.queue.IsSound
  maximum_eq : s.deframer.maximum = maximum
  drain_eq : (Inlet.start maximum fed).drain =
    Inlet.both (told, s.deframer.inlet) s.deframer.inlet.drain
  onFrame_keeps : ∀ actions ∈ s.onFrame, ∀ action ∈ actions, action.Keeps maximum
  onFailure_keeps : ∃ actions, s.onFailure = some actions ∧ ∀ action ∈ actions, action.Keeps maximum

variable {s : Session} {maximum : Number} {fed : Bytes} {said : List Announcement}

/-! ## What has been announced, and what has not -/

/-- A chunk is put behind all that is still to be read. -/
theorem Reads.receive (h : s.Reads maximum fed said) (chunk : Bytes) :
    Reads { s with deframer := s.deframer.receive chunk } maximum (fed ++ chunk) said := by
  refine ⟨Deframer.isSound_receive h.isSound chunk, ?_, ?_, h.onFrame_keeps, h.onFailure_keeps⟩
  · exact (Deframer.maximum_receive _ chunk).trans h.maximum_eq
  · have hfed : Inlet.start maximum (fed ++ chunk) =
        (Inlet.start maximum fed).receive chunk := rfl
    rw [hfed, Inlet.drain_receive, h.drain_eq, Deframer.inlet_receive,
      Inlet.drain_receive s.deframer.inlet]
    exact Inlet.both_assoc (said, _) _ _

/-- A poll announces what it finds, and the rest is still to be read. -/
theorem Reads.poll (h : s.Reads maximum fed said) {found : Poll} {d : Deframer}
    (hpoll : s.deframer.poll = (found, d)) :
    Reads { s with deframer := d } maximum fed (said ++ found.told) := by
  obtain ⟨hinlet, hsound⟩ := Deframer.inlet_poll h.isSound hpoll
  refine ⟨hsound, ?_, ?_, h.onFrame_keeps, h.onFailure_keeps⟩
  · exact (Inlet.maximum_of_poll hinlet).trans h.maximum_eq
  · rw [h.drain_eq, Inlet.drain_of_poll hinlet, ← Inlet.both_assoc]
    rfl

/-- What has been announced is the beginning of what the bytes say. -/
theorem Reads.isPrefix (h : s.Reads maximum fed said) : said <+: announced maximum fed := by
  rw [← Inlet.drain_start, h.drain_eq]
  exact List.prefix_append _ _

/-- Where nothing more can be read it is all of it. -/
theorem Reads.eq_announced (h : s.Reads maximum fed said) (hdrained : s.deframer.inlet.IsDrained) :
    said = announced maximum fed := by
  rw [← Inlet.drain_start, h.drain_eq, Inlet.drain_of_isDrained hdrained]
  exact (List.append_nil _).symm

end Session

namespace Run

/-! ## Task by task -/

variable {r : Run} {maximum : Number} {fed : Bytes} {said : List Announcement}

/-- A call of a session that reads, `said` having been announced before
the call. What is left to do leaves the maximum as it is. -/
structure Reads (r : Run) (maximum : Number) (fed : Bytes) (said : List Announcement) : Prop where
  session : r.session.Reads maximum fed (said ++ told r.events.toList)
  agenda_keeps : ∀ task ∈ r.agenda, task.Keeps maximum

theorem Reads.perform (h : r.Reads maximum fed said) {action : Action}
    (hkeeps : action.Keeps maximum) :
    (r.perform action).Reads maximum (fed ++ action.bytes) said := by
  cases action with
  | feed chunk =>
    have hreceive := h.session.receive chunk
    unfold Run.perform
    dsimp only
    split
    · rename_i hnothing
      have hsame : r.session.deframer.receive chunk = r.session.deframer := by
        rw [Deframer.receive, if_pos hnothing]
      rw [hsame] at hreceive
      exact ⟨hreceive, h.agenda_keeps⟩
    · exact ⟨hreceive, List.forall_mem_cons.2 ⟨trivial, h.agenda_keeps⟩⟩
  | setMaximum size =>
    have hsame : { r.session.deframer with maximum := size } = r.session.deframer := by
      rw [hkeeps size rfl, ← h.session.maximum_eq]
    unfold Run.perform
    have hnothing : Action.bytes (.setMaximum size) = [] := rfl
    dsimp only
    rw [hsame, hnothing, List.append_nil]
    exact h
  | throw message =>
    have hnothing : Action.bytes (.throw message) = [] := rfl
    rw [hnothing, List.append_nil]
    exact ⟨h.session, fun _ hmem => absurd hmem List.not_mem_nil⟩

/-- Announcing a frame that was found. -/
theorem Reads.announceFrame {f : Frame}
    (hsession : r.session.Reads maximum fed (said ++ told r.events.toList ++ [.frame f]))
    (hagenda : ∀ task ∈ r.agenda, task.Keeps maximum) :
    (r.announceFrame f).Reads maximum fed said := by
  have htold : told (r.announceFrame f).events.toList = told r.events.toList ++ [.frame f] :=
    told_push _ _
  refine ⟨⟨hsession.isSound, hsession.maximum_eq, ?_, ?_, hsession.onFailure_keeps⟩, ?_⟩
  · rw [htold, ← List.append_assoc]
    exact hsession.drain_eq
  · exact fun actions hmem => hsession.onFrame_keeps actions (List.mem_of_mem_tail hmem)
  · have hlistener : ∀ action ∈ r.session.onFrame.headD [], action.Keeps maximum :=
      headD_of_forall_mem (fun _ hmem => absurd hmem List.not_mem_nil) hsession.onFrame_keeps
    rw [Run.announceFrame, List.forall_mem_append, List.forall_mem_map, List.forall_mem_cons]
    exact ⟨hlistener, trivial, hagenda⟩

/-- Announcing a failure to its listener. -/
theorem Reads.announceFailure {fault : Fault}
    (hsession : r.session.Reads maximum fed (said ++ told r.events.toList ++ [.failure fault]))
    (hagenda : ∀ task ∈ r.agenda, task.Keeps maximum) :
    (r.announceFailure fault).Reads maximum fed said := by
  obtain ⟨actions, honFailure, hkeeps⟩ := hsession.onFailure_keeps
  unfold Run.announceFailure
  rw [honFailure]
  dsimp only
  refine ⟨?_, ?_⟩
  · rw [told_push, told_push_notice, ← List.append_assoc]
    exact hsession
  · rw [List.forall_mem_append, List.forall_mem_map]
    exact ⟨hkeeps, hagenda⟩

theorem Reads.drain (h : r.Reads maximum fed said) : r.drain.Reads maximum fed said := by
  rcases hpoll : r.session.deframer.poll with ⟨found, d⟩
  have hsession := h.session.poll hpoll
  unfold Run.drain
  rw [hpoll]
  cases found with
  | waiting => exact ⟨by simpa [Poll.told] using hsession, h.agenda_keeps⟩
  | frame f => exact announceFrame hsession h.agenda_keeps
  | failure fault => exact announceFailure hsession h.agenda_keeps

/-- **A task keeps it so.** -/
theorem Reads.step (h : r.Reads maximum fed said) :
    r.step.Reads maximum (fed ++ r.entering) said := by
  unfold Run.step Run.entering
  cases hagenda : r.agenda with
  | nil =>
    rw [List.append_nil]
    exact h
  | cons task rest =>
    have hkeeps := h.agenda_keeps
    rw [hagenda, List.forall_mem_cons] at hkeeps
    have hrest : Reads { r with agenda := rest } maximum fed said := ⟨h.session, hkeeps.2⟩
    cases task with
    | drain =>
      rw [List.append_nil]
      exact hrest.drain
    | perform action => exact hrest.perform hkeeps.1

/-- **It is so at every moment of a call.** -/
theorem Reads.steps (h : r.Reads maximum fed said) (n : Nat) :
    (r.steps n).Reads maximum (fed ++ r.entered n) said := by
  induction n generalizing r fed with
  | zero =>
    rw [entered, List.append_nil]
    exact h
  | succ n ih =>
    rw [entered, ← List.append_assoc]
    exact ih h.step

end Run

/-! ## What can be read is attended to -/

/-- A task that reads on, or receives something to be read. -/
def Task.IsReading : Task → Prop
  | .drain => True
  | .perform action => action.bytes ≠ []

namespace Run

variable {r : Run}

/-- There is a task left that reads, unless there is nothing to be read or
the call has thrown. -/
def Attends (r : Run) : Prop :=
  r.thrown.isSome = true ∨ r.session.deframer.inlet.IsDrained ∨
    ∃ task ∈ r.agenda, task.IsReading

/-- Every task leaves the queue sound. -/
theorem isSound_step (hsound : r.session.deframer.queue.IsSound) :
    r.step.session.deframer.queue.IsSound := by
  rcases hagenda : r.agenda with _ | ⟨task, rest⟩
  · rwa [step_of_done hagenda]
  rw [deframer_step hagenda]
  rcases task with _ | chunk | size | message
  · exact (Deframer.pollsAs_poll hsound).isSound
  · exact Deframer.isSound_receive hsound chunk
  · exact hsound
  · exact hsound

/-- And leaves nothing to go on with if reading has failed. -/
theorem isTidy_step (htidy : r.session.deframer.IsTidy) : r.step.session.deframer.IsTidy := by
  rcases hagenda : r.agenda with _ | ⟨task, rest⟩
  · rwa [step_of_done hagenda]
  rw [deframer_step hagenda]
  rcases task with _ | chunk | size | message
  · exact htidy.poll
  · exact htidy.receive chunk
  · exact htidy.withMaximum size
  · exact htidy

/-- Reading goes on until there is nothing to be read. -/
theorem attends_drain (hsound : r.session.deframer.queue.IsSound) : r.drain.Attends := by
  rcases hpoll : r.session.deframer.poll with ⟨found, d⟩
  obtain ⟨hinlet, -⟩ := Deframer.inlet_poll hsound hpoll
  unfold Run.drain
  rw [hpoll]
  cases found with
  | waiting => exact .inr (.inl (Inlet.isDrained_of_waiting hinlet))
  | frame f => exact .inr (.inr ⟨.drain, List.mem_append_right _ List.mem_cons_self, trivial⟩)
  | failure fault =>
    -- After a failure nothing is left, and without a listener it is thrown.
    have hfail : d.inlet = r.session.deframer.inlet.fail := Inlet.leaves_of_poll hinlet
    have hdrained : d.inlet.IsDrained := by
      rw [hfail]
      exact Inlet.isDrained_fail _
    unfold announceFailure
    dsimp only
    cases r.session.onFailure with
    | none => exact .inl rfl
    | some actions => exact .inr (.inl hdrained)

/-- What is received is read, unless nothing is received any more. -/
theorem attends_feed (hsound : r.session.deframer.queue.IsSound)
    (htidy : r.session.deframer.IsTidy) {chunk : Bytes} (hne : chunk ≠ []) :
    (r.perform (.feed chunk)).Attends := by
  unfold Run.perform
  dsimp only
  cases hfailed : r.session.deframer.failed with
  | true => exact .inr (.inl ((htidy hfailed).isDrained hsound))
  | false =>
    have hopen : ¬ (false || chunk.isEmpty) = true := by simpa using hne
    rw [if_neg hopen]
    exact .inr (.inr ⟨.drain, List.mem_cons_self, trivial⟩)

/-- **A task keeps it so.** -/
theorem Attends.step (h : r.Attends) (hsound : r.session.deframer.queue.IsSound)
    (htidy : r.session.deframer.IsTidy) : r.step.Attends := by
  unfold Run.step
  cases hagenda : r.agenda with
  | nil => exact h
  | cons task rest =>
    -- A task that reads nothing leaves to the others what there is to be read.
    have hrest (hnot : ¬ task.IsReading) : Attends { r with agenda := rest } := by
      obtain hthrown | hdrained | ⟨other, hmem, hreading⟩ := h
      · exact .inl hthrown
      · exact .inr (.inl hdrained)
      · rw [hagenda] at hmem
        rcases List.mem_cons.1 hmem with rfl | hmem
        · exact absurd hreading hnot
        · exact .inr (.inr ⟨other, hmem, hreading⟩)
    cases task with
    | drain => exact @attends_drain { r with agenda := rest } hsound
    | perform action =>
      cases action with
      | feed chunk =>
        by_cases hempty : chunk = []
        · have hsame : Run.perform { r with agenda := rest } (.feed chunk) =
              { r with agenda := rest } := by
            simp [Run.perform, hempty]
          dsimp only
          rw [hsame]
          exact hrest fun hreading => hreading hempty
        · exact @attends_feed { r with agenda := rest } hsound htidy _ hempty
      | setMaximum size => exact hrest fun hreading => hreading rfl
      | throw message => exact .inl rfl

/-- **It is so at every moment of a call.** -/
theorem Attends.steps (h : r.Attends) (hsound : r.session.deframer.queue.IsSound)
    (htidy : r.session.deframer.IsTidy) (n : Nat) : (r.steps n).Attends := by
  induction n generalizing r with
  | zero => exact h
  | succ n ih => exact ih (h.step hsound htidy) (isSound_step hsound) (isTidy_step htidy)

end Run

/-- **A call that returns leaves nothing to be read**, whatever the
listeners make of the maximum. -/
theorem Session.isDrained_call {s : Session} (hsound : s.deframer.queue.IsSound)
    (htidy : s.deframer.IsTidy) {chunk : Bytes} (hne : chunk ≠ [])
    (hreturns : (s.call (.feed chunk)).thrown = none) :
    (s.call (.feed chunk)).session.deframer.inlet.IsDrained := by
  have hstart : (s.start (.feed chunk)).Attends :=
    .inr (.inr ⟨.perform (.feed chunk), List.mem_singleton_self _, hne⟩)
  have hattends := hstart.steps hsound htidy (s.start (.feed chunk)).weight
  rw [← call_eq_steps] at hattends
  obtain hthrown | hdrained | ⟨task, hmem, -⟩ := hattends
  · rw [hreturns] at hthrown
    cases hthrown
  · exact hdrained
  · have hdone : (s.call (.feed chunk)).agenda = [] := Run.agenda_finish _
    rw [hdone] at hmem
    cases hmem

namespace Session

variable {s : Session} {maximum : Number} {fed : Bytes} {said : List Announcement}

/-! ## Call by call -/

theorem Reads.start (h : s.Reads maximum fed said) (chunk : Bytes) :
    (s.start (.feed chunk)).Reads maximum fed said := by
  refine ⟨?_, ?_⟩
  · rwa [← List.append_nil said] at h
  · refine List.forall_mem_singleton.2 ?_
    rintro size ⟨⟩

/-- A call announces more of what the bytes say, and its feeds add to
them. -/
theorem Reads.call (h : s.Reads maximum fed said) (chunk : Bytes) :
    (s.call (.feed chunk)).session.Reads maximum
      (fed ++ (s.start (.feed chunk)).entered (s.start (.feed chunk)).weight)
      (said ++ told (s.call (.feed chunk)).events.toList) := by
  rw [call_eq_steps]
  exact ((h.start chunk).steps _).session

/-- **So do calls one after the other.** -/
theorem Reads.after (h : s.Reads maximum fed said) (chunks : List Bytes) :
    (s.after (chunks.map .feed)).Reads maximum (fed ++ s.entered chunks)
      (said ++ told (s.events (chunks.map .feed))) := by
  induction chunks generalizing s fed said with
  | nil =>
    have hnothing : told (s.events []) = [] := rfl
    rw [List.map_nil, hnothing, entered, List.append_nil, List.append_nil]
    exact h
  | cons chunk later ih =>
    have hlater := ih (h.call chunk)
    rw [List.append_assoc, List.append_assoc] at hlater
    rw [List.map_cons, events_cons, told_append]
    exact hlater

/-- At every moment of every call a failure has left nothing. -/
theorem isKept_isTidy :
    IsKept (fun _ => ([] : List Unit)) fun s _ _ => s.deframer.IsTidy :=
  fun _ _ _ h => Run.isTidy_step h

theorem isTidy_after (h : s.deframer.IsTidy) (history : List Action) :
    (s.after history).deframer.IsTidy :=
  @IsKept.after s _ _ _ isKept_isTidy [] [] h history

/-- A session at its beginning, with a listener for the failure. -/
theorem reads_start {onFrame : List (List Action)} {onFailure : List Action}
    (h : ∀ actions ∈ onFailure :: onFrame, ∀ action ∈ actions, action.Keeps maximum) :
    Reads { deframer := { maximum }, onFrame, onFailure := some onFailure } maximum [] [] := by
  obtain ⟨hfailure, hframe⟩ := List.forall_mem_cons.1 h
  have hdrained : (Inlet.start maximum []).IsDrained := Nat.succ_pos _
  refine ⟨ChunkQueue.isSound_empty, rfl, ?_, hframe, ⟨onFailure, rfl, hfailure⟩⟩
  rw [Inlet.drain_of_isDrained hdrained]
  exact (Inlet.drain_of_isDrained hdrained).symm

/-- **Listeners that feed and throw do no harm.** With a listener for the
failure, and one maximum throughout: whatever the listeners feed in the
midst of a call, and wherever they throw, what they have been told is at
every moment the beginning of what the bytes say that have been entered.
And once a feed that is not empty has returned, it is all of it. -/
theorem reentrancy_harmless {maximum : Number} {onFrame : List (List Action)}
    {onFailure : List Action}
    (hkeeps : ∀ actions ∈ onFailure :: onFrame, ∀ action ∈ actions, action.Keeps maximum) :
    let s : Session := { deframer := { maximum }, onFrame, onFailure := some onFailure }
    (∀ (chunks : List Bytes) (chunk : Bytes) (n : Nat),
      let r := (s.after (chunks.map .feed)).start (.feed chunk)
      told (s.events (chunks.map .feed) ++ (r.steps n).events.toList) <+:
        announced maximum (s.entered chunks ++ r.entered n)) ∧
    ∀ (chunks : List Bytes) (chunk : Bytes) (idle : List Bytes), chunk ≠ [] →
      (∀ empty ∈ idle, empty = []) →
      ((s.after (chunks.map .feed)).call (.feed chunk)).thrown = none →
      told (s.events ((chunks ++ chunk :: idle).map .feed)) =
        announced maximum (s.entered (chunks ++ chunk :: idle)) := by
  intro s
  have hstart : s.Reads maximum [] [] := reads_start hkeeps
  refine ⟨?_, ?_⟩
  · intro chunks chunk n r
    have hmoment := ((hstart.after chunks).start chunk).steps n
    have hprefix := hmoment.session.isPrefix
    rw [told, List.filterMap_append]
    exact hprefix
  · intro chunks chunk idle hne hidle hreturns
    refine (hstart.after (chunks ++ chunk :: idle)).eq_announced ?_
    have hafter : s.after ((chunks ++ chunk :: idle).map .feed) =
        ((s.after (chunks.map .feed)).call (.feed chunk)).session := by
      rw [List.map_append, List.map_cons, after_append, after, after_of_forall_nil hidle]
    have htidy : s.deframer.IsTidy := Deframer.isTidy_start maximum
    rw [hafter]
    exact isDrained_call (hstart.after chunks).isSound (isTidy_after htidy _) hne hreturns

/-- Two cancellations come in, and the first is answered with a throw. The
feed that follows brings in the front of a third, whose rest is fed while
the second is announced. -/
theorem reentrancy_harmless_cancel :
    let cancel (streamId : Nat) : Frame := ⟨.ofNat streamId, .ofFlags 0, .cancel⟩
    let s : Session :=
      { deframer := { maximum := .ofNat 64 }
        onFrame := [[.throw "busy"], [.feed [0, 5, 36, 0]]] }
    let first : Bytes := [0, 0, 6, 0, 0, 0, 1, 36, 0, 0, 0, 6, 0, 0, 0, 3, 36, 0]
    (s.call (.feed first)).thrown = some (.plain "busy") ∧
      told (s.events [.feed first]) = [.frame (cancel 1)] ∧
      told (s.events [.feed first, .feed [0, 0, 6, 0, 0], .feed []]) =
        [.frame (cancel 1), .frame (cancel 3), .frame (cancel 5)] := by
  intro cancel s first
  have hkeeps : ∀ actions ∈ ([] : List Action) :: s.onFrame, ∀ action ∈ actions,
      action.Keeps (.ofNat 64) := by
    simp [s, Action.Keeps]
  have hreturns : ((s.after [.feed first]).call (.feed [0, 0, 6, 0, 0])).thrown = none := by
    decide +kernel
  have hwhole := (reentrancy_harmless hkeeps).2 [first] [0, 0, 6, 0, 0] [[]] (by simp) (by simp)
    hreturns
  refine ⟨by decide +kernel, by decide +kernel, hwhole.trans ?_⟩
  decide +kernel

end Session

end StreamWire
