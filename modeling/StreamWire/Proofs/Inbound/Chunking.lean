import StreamWire.Proofs.Inbound.Announcement
import StreamWire.Proofs.Inbound.History
/-!
# Chunking — where a byte stream is cut

As long as its listeners do nothing, a session is a function of the bytes
it is fed and of the maximums it is given: `Inlet.replay` computes what is
announced and where reading stops, and `Session.Tells` says that calls do
just that. A history may be recut (`Recut`): a feed split in two, two
joined, an empty feed put in or left out. `chunking_unseen` says that
recutting changes nothing that is seen, and that with one maximum
throughout what is seen is what the whole stream says.
-/

namespace StreamWire

/-- What is observed of an announcement, but for the bytes that waited. -/
def Announcement.events : Announcement → List Event
  | .frame f => [.frame f 0]
  | .failure fault => [.notice (.unreadable fault), .failure fault 0]

/-- Frames have a listener each. -/
def Announcement.isFrame : Announcement → Bool
  | .frame _ => true
  | .failure _ => false

/-- An event without the number of bytes that waited at that moment. That
number alone tells one chunk from two: a frame is announced before what
comes behind it has arrived, or after. -/
def Event.unmeasured : Event → Event
  | .frame f _ => .frame f 0
  | .failure fault _ => .failure fault 0
  | .notice told => .notice told

/-- Two histories that feed the same bytes between the same changes of the
maximum, cut into chunks in different ways. -/
inductive Recut : List Action → List Action → Prop
  | cut (first more : Bytes) (later : List Action) :
      Recut (.feed (first ++ more) :: later) (.feed first :: .feed more :: later)
  | skip (later : List Action) : Recut (.feed [] :: later) later
  | cons (action : Action) {history recut : List Action} :
      Recut history recut → Recut (action :: history) (action :: recut)
  | refl (history : List Action) : Recut history history
  | symm {history recut : List Action} : Recut history recut → Recut recut history
  | trans {history recut recut' : List Action} :
      Recut history recut → Recut recut recut' → Recut history recut'

/-- The bytes that are fed in a history. -/
def fed : List Action → Bytes
  | [] => []
  | .feed chunk :: later => chunk ++ fed later
  | _ :: later => fed later

/-- Chunks are fed as the bytes they hold. -/
theorem fed_map_feed (chunks : List Bytes) : fed (chunks.map .feed) = chunks.flatten := by
  induction chunks with
  | nil => rfl
  | cons chunk rest ih => rw [List.map_cons, fed, ih, List.flatten_cons]

/-! ## Replaying a history -/

namespace Inlet

variable {i : Inlet}

/-- What an action makes a drained inlet announce. -/
def act (i : Inlet) : Action → List Announcement × Inlet
  | .feed chunk => (i.receive chunk).drain
  | .setMaximum size => ([], { i with maximum := size })
  | .throw _ => ([], i)

/-- What a history makes it announce. -/
def replay (i : Inlet) : List Action → List Announcement × Inlet
  | [] => ([], i)
  | action :: later => both (i.act action) ((i.act action).2.replay later)

/-- Between two calls there is nothing to be read. -/
theorem isDrained_act (h : i.IsDrained) (action : Action) : (i.act action).2.IsDrained := by
  cases action with
  | feed chunk => exact isDrained_drain _
  | setMaximum size => exact h
  | throw message => exact h

/-- **Recut histories are replayed to the same end.** -/
theorem replay_recut {history recut : List Action} (h : Recut history recut)
    (hdrained : i.IsDrained) : i.replay history = i.replay recut := by
  induction h generalizing i with
  | cut first more later =>
    simp only [replay, act]
    rw [drain_receive_append, both_assoc]
    rfl
  | skip later =>
    have hnothing := drain_of_isDrained hdrained
    simp only [replay, act, receive_nil, hnothing, both, List.nil_append]
  | cons action _ ih =>
    have hrest := ih (isDrained_act hdrained action)
    rw [replay, replay, hrest]
  | refl history => rfl
  | symm _ ih => exact (ih hdrained).symm
  | trans _ _ ih ih' => exact (ih hdrained).trans (ih' hdrained)

/-- **With one maximum throughout, a history is drained as if all its
bytes had come at once.** -/
theorem replay_fed {history : List Action} (hdrained : i.IsDrained)
    (hmaximum : ∀ size, .setMaximum size ∈ history → size = i.maximum) :
    i.replay history = (i.receive (fed history)).drain := by
  induction history generalizing i with
  | nil => rw [replay, fed, receive_nil, drain_of_isDrained hdrained]
  | cons action later ih =>
    have hlater : ∀ size, .setMaximum size ∈ later → size = i.maximum :=
      fun size hmem => hmaximum size (List.mem_cons_of_mem _ hmem)
    cases action with
    | feed chunk =>
      have hkeeps : (i.receive chunk).drain.2.maximum = i.maximum := by
        rw [maximum_drain]
        unfold receive
        split <;> rfl
      have hrest := @ih (i.receive chunk).drain.2 (isDrained_drain _) (by rwa [hkeeps])
      rw [fed, drain_receive_append, replay, act, hrest]
    | setMaximum size =>
      have hsame : ({ i with maximum := size } : Inlet) = i := by
        rw [hmaximum size List.mem_cons_self]
      rw [replay, act, hsame, ih hdrained hlater]
      rfl
    | throw message =>
      rw [replay, act, ih hdrained hlater]
      rfl

end Inlet

/-! ## A session whose listeners do nothing -/

/-- The listeners do nothing, there is one for the failure, the bytes
that wait are counted, and there is nothing more to read. -/
structure Session.IsIdle (s : Session) : Prop where
  isSound : s.deframer.queue.IsSound
  isDrained : s.deframer.inlet.IsDrained
  onFrame_eq_nil : ∀ actions ∈ s.onFrame, actions = []
  onFailure_eq : s.onFailure = some []

namespace Run

/-- Between two moments of a call, announcements were made and nothing
else: what was found, and the inlet it left. -/
structure Tells (r q : Run) (found : List Announcement × Inlet) : Prop where
  events_eq : q.events.toList.map Event.unmeasured =
    r.events.toList.map Event.unmeasured ++ found.1.flatMap Announcement.events
  inlet_eq : q.session.deframer.inlet = found.2
  isSound : q.session.deframer.queue.IsSound
  onFrame_eq : q.session.onFrame = r.session.onFrame.drop (found.1.countP Announcement.isFrame)
  onFailure_eq : q.session.onFailure = r.session.onFailure

variable {r q p : Run}

theorem Tells.trans {first second : List Announcement × Inlet} (h : r.Tells q first)
    (h' : q.Tells p second) : r.Tells p (Inlet.both first second) := by
  refine ⟨?_, h'.inlet_eq, h'.isSound, ?_, h'.onFailure_eq.trans h.onFailure_eq⟩
  · rw [h'.events_eq, h.events_eq, Inlet.both, List.flatMap_append, List.append_assoc]
  · rw [h'.onFrame_eq, h.onFrame_eq, List.drop_drop, Inlet.both, List.countP_append]

/-- Nothing was announced, whatever else was done. -/
theorem tells_nothing (hsound : q.session.deframer.queue.IsSound) (hevents : q.events = r.events)
    (honFrame : q.session.onFrame = r.session.onFrame)
    (honFailure : q.session.onFailure = r.session.onFailure) :
    r.Tells q ([], q.session.deframer.inlet) := by
  refine ⟨?_, rfl, hsound, ?_, honFailure⟩
  · rw [hevents, List.flatMap_nil, List.append_nil]
  · rw [honFrame, List.countP_nil, List.drop_zero]

/-- The run once its deframer has been polled, with nothing left to do. -/
def polled (r : Run) : Run :=
  { r with session := { r.session with deframer := r.session.deframer.poll.2 }, agenda := [] }

/-- A poll on its own is not seen. -/
theorem tells_polled (hsound : r.session.deframer.queue.IsSound) :
    r.Tells r.polled ([], r.session.deframer.inlet.poll.2) := by
  obtain ⟨-, hinlet, hsound'⟩ := Deframer.pollsAs_poll hsound
  rw [← hinlet]
  exact @tells_nothing r r.polled hsound' rfl rfl rfl

/-- The last task of an agenda, if it is to read on. -/
theorem step_drain (hagenda : r.agenda = [.drain]) :
    r.step =
      match r.session.deframer.poll.1 with
      | .waiting => r.polled
      | .frame f => r.polled.announceFrame f
      | .failure fault => r.polled.announceFailure fault := by
  rw [step, hagenda]
  rfl

/-- Announcing a frame to a listener that does nothing. -/
theorem tells_announceFrame (hsound : q.session.deframer.queue.IsSound) (f : Frame) :
    q.Tells (q.announceFrame f) ([.frame f], q.session.deframer.inlet) := by
  refine ⟨?_, rfl, hsound, ?_, rfl⟩
  · simp only [announceFrame, Array.toList_push, List.map_append, List.map_cons, List.map_nil,
      Event.unmeasured, List.flatMap_cons, List.flatMap_nil, Announcement.events, List.append_nil]
  · exact List.drop_one.symm

/-- Announcing the failure to a listener that does nothing. -/
theorem tells_announceFailure (hsound : q.session.deframer.queue.IsSound)
    (hlistener : q.session.onFailure = some []) (fault : Fault) :
    q.Tells (q.announceFailure fault) ([.failure fault], q.session.deframer.inlet) := by
  unfold announceFailure
  rw [hlistener]
  refine ⟨?_, rfl, hsound, rfl, rfl⟩
  simp only [Array.toList_push, List.map_append, List.map_cons, List.map_nil, Event.unmeasured,
    List.flatMap_cons, List.flatMap_nil, Announcement.events, List.append_nil, List.append_assoc,
    List.cons_append, List.nil_append]

/-- **Reading on announces what the inlet drains to.** -/
theorem tells_finish (hagenda : r.agenda = [.drain]) (hsound : r.session.deframer.queue.IsSound)
    (honFrame : ∀ actions ∈ r.session.onFrame, actions = [])
    (honFailure : r.session.onFailure = some []) :
    r.Tells r.finish r.session.deframer.inlet.drain ∧ r.finish.thrown = r.thrown := by
  -- Every frame takes bytes, so the induction is on how many are unread.
  induction hn : r.session.deframer.inlet.unread.length using Nat.strongRecOn generalizing r with
  | ind n ih =>
  have hleft : r.agenda ≠ [] := by simp [hagenda]
  have hpolled := tells_polled hsound
  rw [finish_of_left hleft, step_drain hagenda, (Deframer.pollsAs_poll hsound).found_eq]
  rcases hpoll : r.session.deframer.inlet.poll with ⟨_ | f | fault, j⟩
  all_goals
    rw [hpoll] at hpolled
    have hinlet : r.polled.session.deframer.inlet = j := hpolled.inlet_eq
  · have hdone : r.polled.agenda = [] := rfl
    rw [Inlet.drain_of_waiting hpoll]
    dsimp only
    rw [finish_of_done hdone]
    exact ⟨hpolled, rfl⟩
  · -- The listener does nothing, so the next task is to read on.
    have hannounce := tells_announceFrame hpolled.isSound f
    have hhead : r.polled.session.onFrame.headD [] = [] :=
      @headD_of_forall_mem _ (· = []) rfl honFrame
    have hnext : (r.polled.announceFrame f).agenda = [.drain] := by
      rw [announceFrame, hhead]
      rfl
    have hquiet : ∀ actions ∈ (r.polled.announceFrame f).session.onFrame, actions = [] :=
      fun actions hmem => honFrame actions (List.mem_of_mem_tail hmem)
    have hlt : (r.polled.announceFrame f).session.deframer.inlet.unread.length < n := by
      rw [hannounce.inlet_eq, hinlet, ← hn]
      exact (Inlet.leaves_of_poll hpoll).2.2
    obtain ⟨hrest, hthrown⟩ := ih _ hlt hnext hpolled.isSound hquiet honFailure rfl
    rw [hannounce.inlet_eq, hinlet] at hrest
    rw [Inlet.drain_of_frame hpoll]
    exact ⟨(hpolled.trans hannounce).trans hrest, hthrown⟩
  · -- The failure is told, and leaves nothing to do.
    have hlistener : r.polled.session.onFailure = some [] := honFailure
    have htold := hpolled.trans (tells_announceFailure hpolled.isSound hlistener fault)
    rw [hinlet] at htold
    have hdone : (r.polled.announceFailure fault).agenda = [] := by
      rw [announceFailure, hlistener]
      rfl
    have hthrown : (r.polled.announceFailure fault).thrown = r.thrown := by
      rw [announceFailure, hlistener]
      rfl
    rw [Inlet.drain_of_failure hpoll]
    dsimp only
    rw [finish_of_done hdone]
    exact ⟨htold, hthrown⟩

end Run

/-! ## Idle sessions -/

/-- What an action ends in, other than returning, if nothing goes wrong. -/
def Action.thrown? : Action → Option Thrown
  | .throw message => some (.plain message)
  | _ => none

theorem Recut.throws_eq {history recut : List Action} (h : Recut history recut) :
    history.filterMap Action.thrown? = recut.filterMap Action.thrown? := by
  induction h with
  | cut first more later => rfl
  | skip later => rfl
  | cons action _ ih => rw [List.filterMap_cons, List.filterMap_cons, ih]
  | refl history => rfl
  | symm _ ih => exact ih.symm
  | trans _ _ ih ih' => exact ih.trans ih'

namespace Session

variable {s : Session}

/-- **A call of an idle session announces what its inlet drains to**, and
throws nothing of its own. -/
theorem tells_call (h : s.IsIdle) (action : Action) :
    Run.Tells { session := s, agenda := [] } (s.call action) (s.deframer.inlet.act action) ∧
      (s.call action).thrown = action.thrown? := by
  rw [call, Run.finish_of_left (by simp)]
  cases action with
  | feed chunk =>
    simp only [Run.step, Run.perform]
    split
    · -- Nothing is received, and there was nothing to read.
      rename_i hnothing
      have hsame : s.deframer.inlet.receive chunk = s.deframer.inlet := by
        rw [← Deframer.inlet_receive, Deframer.receive, if_pos hnothing]
      rw [Run.finish_of_done rfl, Inlet.act, hsame, Inlet.drain_of_isDrained h.isDrained]
      exact ⟨Run.tells_nothing h.isSound rfl rfl rfl, rfl⟩
    · -- The chunk is received, and what is left to do is to read on.
      have hsound := Deframer.isSound_receive h.isSound chunk
      have htold := @Run.tells_finish
        { session := { s with deframer := s.deframer.receive chunk }, agenda := [.drain] } rfl
        hsound h.onFrame_eq_nil h.onFailure_eq
      rw [Inlet.act, ← Deframer.inlet_receive]
      exact ⟨⟨htold.1.events_eq, htold.1.inlet_eq, htold.1.isSound, htold.1.onFrame_eq,
        htold.1.onFailure_eq⟩, htold.2⟩
  | setMaximum size =>
    simp only [Run.step, Run.perform]
    rw [Run.finish_of_done rfl]
    exact ⟨Run.tells_nothing h.isSound rfl rfl rfl, rfl⟩
  | throw message =>
    simp only [Run.step, Run.perform]
    rw [Run.finish_of_done rfl]
    exact ⟨Run.tells_nothing h.isSound rfl rfl rfl, rfl⟩

/-- A call leaves an idle session idle. -/
theorem IsIdle.call (h : s.IsIdle) (action : Action) : (s.call action).session.IsIdle := by
  obtain ⟨htold, -⟩ := tells_call h action
  refine ⟨htold.isSound, ?_, ?_, htold.onFailure_eq.trans h.onFailure_eq⟩
  · rw [htold.inlet_eq]
    exact Inlet.isDrained_act h.isDrained action
  · rw [htold.onFrame_eq]
    exact fun actions hmem => h.onFrame_eq_nil actions (List.mem_of_mem_drop hmem)

/-- **A history of an idle session announces what its inlet replays.** -/
theorem tells_after (h : s.IsIdle) (history : List Action) :
    (s.events history).map Event.unmeasured =
        (s.deframer.inlet.replay history).1.flatMap Announcement.events ∧
      s.throws history = history.filterMap Action.thrown? ∧
      (s.after history).deframer.inlet = (s.deframer.inlet.replay history).2 ∧
      (s.after history).onFrame =
        s.onFrame.drop ((s.deframer.inlet.replay history).1.countP Announcement.isFrame) ∧
      (s.after history).IsIdle := by
  induction history generalizing s with
  | nil => exact ⟨rfl, rfl, rfl, rfl, h⟩
  | cons action later ih =>
    obtain ⟨htold, hthrown⟩ := tells_call h action
    obtain ⟨hevents, hthrows, hinlet, honFrame, hidle⟩ := ih (h.call action)
    rw [htold.inlet_eq] at hevents hinlet honFrame
    refine ⟨?_, ?_, hinlet, ?_, hidle⟩
    · rw [events_cons, List.map_append, Inlet.replay, Inlet.both, List.flatMap_append, ← hevents]
      congr 1
      exact htold.events_eq
    · rw [throws, records, List.filterMap_cons, List.filterMap_cons, ← hthrows, throws]
      dsimp only
      rw [hthrown]
    · rw [after, honFrame, htold.onFrame_eq, List.drop_drop, Inlet.replay, Inlet.both,
        List.countP_append]

/-- A session at its beginning: nothing has arrived. -/
theorem isIdle_start {maximum : Number} {onFrame : List (List Action)}
    (h : ∀ actions ∈ onFrame, actions = []) :
    ({ deframer := { maximum }, onFrame } : Session).IsIdle := by
  exact ⟨ChunkQueue.isSound_empty, Nat.succ_pos _, h, rfl⟩

/-! ## What chunking changes -/

/-- Recutting leaves idle sessions alike. -/
theorem alike_after_recut (h : s.IsIdle) {history recut : List Action}
    (hrecut : Recut history recut) : (s.after history).Alike (s.after recut) := by
  obtain ⟨-, -, hinlet, honFrame, hidle⟩ := tells_after h history
  obtain ⟨-, -, hinlet', honFrame', hidle'⟩ := tells_after h recut
  rw [Inlet.replay_recut hrecut h.isDrained] at hinlet honFrame
  exact ⟨hinlet.trans hinlet'.symm, hidle.isSound, hidle'.isSound, honFrame.trans honFrame'.symm,
    hidle.onFailure_eq.trans hidle'.onFailure_eq.symm⟩

/-- **Where a byte stream is cut is not seen.** For every maximum at the
beginning, and listeners that do nothing, recut histories announce the
same, end their calls in the same way, leave as many bytes waiting, and
nothing that happens later tells them apart. With one maximum throughout,
what is announced is what the bytes say that were fed. -/
theorem chunking_unseen (maximum : Number) (onFrame : List (List Action))
    (hpassive : ∀ actions ∈ onFrame, actions = []) :
    let s : Session := { deframer := { maximum }, onFrame, onFailure := some [] }
    (∀ history recut, Recut history recut →
      (s.events history).map Event.unmeasured = (s.events recut).map Event.unmeasured ∧
        s.throws history = s.throws recut ∧
        (s.after history).deframer.buffered = (s.after recut).deframer.buffered ∧
        ∀ later, (s.after history).records later = (s.after recut).records later) ∧
    ∀ history, (∀ size, .setMaximum size ∈ history → size = maximum) →
      (s.events history).map Event.unmeasured =
        (announced maximum (fed history)).flatMap Announcement.events := by
  intro s
  have hidle : s.IsIdle := isIdle_start hpassive
  refine ⟨?_, ?_⟩
  · intro history recut hrecut
    obtain ⟨hevents, hthrows, -, -, -⟩ := tells_after hidle history
    obtain ⟨hevents', hthrows', -, -, -⟩ := tells_after hidle recut
    have halike := alike_after_recut hidle hrecut
    refine ⟨?_, ?_, halike.buffered_eq, halike.records_eq⟩
    · rw [hevents, hevents', Inlet.replay_recut hrecut hidle.isDrained]
    · rw [hthrows, hthrows', hrecut.throws_eq]
  · intro history hmaximum
    obtain ⟨hevents, -, -, -, -⟩ := tells_after hidle history
    have hstart : s.deframer.inlet.receive (fed history) = Inlet.start maximum (fed history) := rfl
    rw [hevents, Inlet.replay_fed hidle.isDrained hmaximum, hstart, Inlet.drain_start]

/-- A cancellation cut within its length, and the first byte of what
comes next. -/
theorem chunking_unseen_cancel :
    let s : Session := { deframer := { maximum := .ofNat 64 }, onFrame := [[]] }
    (s.events [.feed [0], .feed [0, 6, 0, 0], .feed [0, 1, 36, 0, 9]]).map Event.unmeasured =
        [.frame ⟨.ofNat 1, .ofFlags 0, .cancel⟩ 0] ∧
      (s.after [.feed [0, 0, 6, 0, 0, 0, 1, 36, 0, 9]]).deframer.buffered =
        (s.after [.feed [0], .feed [0, 6, 0, 0, 0, 1, 36, 0, 9]]).deframer.buffered := by
  have hpassive : ∀ actions ∈ ([[]] : List (List Action)), actions = [] := by simp
  obtain ⟨hrecut, hwhole⟩ := chunking_unseen (.ofNat 64) [[]] hpassive
  refine ⟨?_, (hrecut _ _ (.cut [0] [0, 6, 0, 0, 0, 1, 36, 0, 9] [])).2.2.1⟩
  refine (hwhole _ (by simp)).trans ?_
  decide +kernel

end Session

end StreamWire
