import StreamWire.Proofs.Frame.Readers
import StreamWire.Proofs.Inbound.Accounting
import StreamWire.Proofs.Inbound.Finality
/-!
# Judgements — every length is judged once

A length is judged when its three bytes are read, against the maximum that
is in force then, and what becomes of the maximum afterwards makes no
difference to it. A log of the judgements, and one of the maxima that were
set, say so at every moment of every call: `Session.Docket` pairs the
judgements off with the frames that were announced, one for one and in
order. One more may be open, of the frame that is waited for, or be the
last, of a length that was refused or of bytes that are no frame.
`Deframer.settles_poll` is what a poll makes of its judgement, and
`Session.lengths_judged_once` puts it together.
-/

namespace StreamWire

/-! ## Judgements -/

/-- A length that was read, and the maximum that was in force. -/
structure Judgement where
  length : Nat
  maximum : Number
deriving DecidableEq, Repr

namespace Judgement

/-- The length is above the maximum. -/
def IsRefusal (j : Judgement) : Prop := j.maximum.isBelow j.length = true

/-- A frame behind its length: the length was not above the maximum, and
the frame encodes to as many bytes. -/
structure Admits (j : Judgement) (f : Frame) : Prop where
  admitted : ¬ j.IsRefusal
  exists_encode : ∃ bytes, f.encode = .ok bytes ∧ bytes.length = j.length

/-- A failure behind its length: the length was above the maximum, or as
many bytes as it says are no frame. -/
inductive Ends (j : Judgement) : Fault → Prop
  | refused (h : j.IsRefusal) : j.Ends (.frameTooLarge j.length j.maximum)
  | undecodable (h : ¬ j.IsRefusal) (body : Bytes) (hlength : body.length = j.length)
      (fault : Fault) (hdecode : Frame.decode body = .error fault) : j.Ends fault

/-- What has admitted frames was no refusal. -/
theorem not_isRefusal_of_mem {passed : List Judgement} {frames : List Frame}
    (h : List.Forall₂ Admits passed frames) : ∀ j ∈ passed, ¬ j.IsRefusal := by
  have hboth := h.imp fun j f hadmits => And.intro hadmits.admitted hadmits.exists_encode
  exact ((List.forall₂_and_left passed frames).1 hboth).1

/-- The lengths that admitted frames are those of the bytes that they were
read from. -/
theorem map_length_eq {passed : List Judgement} {frames : List Frame} {bodies : List Bytes}
    (hpassed : List.Forall₂ Admits passed frames)
    (hread : List.Forall₂ Frame.IsRead frames bodies) :
    passed.map Judgement.length = bodies.map List.length := by
  induction hpassed generalizing bodies with
  | nil =>
    cases hread
    rfl
  | cons hadmits _ ih =>
    cases hread with
    | cons hbody hbodies =>
      obtain ⟨bytes, hencode, hlength⟩ := hadmits.exists_encode
      have hbytes := hencode.symm.trans (Frame.encode_of_decode hbody.decode_eq).1
      rw [Except.ok.inj hbytes, length_clearReserved] at hlength
      rw [List.map_cons, List.map_cons, ih hbodies, hlength]

end Judgement

/-! ## Only a deframer refuses a length -/

/-- A failure of the bytes of a frame, and not of the length in front of
them. -/
def Fault.IsOfBytes (fault : Fault) : Prop :=
  ∀ size maximum, fault ≠ .frameTooLarge size maximum

theorem Header.isOfBytes_of_decode {frame : Bytes} {fault : Fault}
    (h : Header.decode frame = .error fault) : fault.IsOfBytes := by
  unfold Header.decode at h
  split at h
  · cases h
    rintro size maximum ⟨⟩
  · dsimp only at h
    split at h
    · rename_i cause hkind
      obtain rfl : cause = fault := Except.error.inj h
      unfold resolveKind at hkind
      split at hkind
      · cases hkind
      · cases hkind
        rintro size maximum ⟨⟩
    · cases h

namespace Layout

variable {header : Header} {fault : Fault}

theorem isOfBytes_of_dataSection {metadata : Option Section} {offset length : Nat}
    (h : dataSection header metadata offset length = .error fault) : fault.IsOfBytes := by
  unfold dataSection at h
  split at h
  · cases h
    rintro size maximum ⟨⟩
  · cases h

theorem isOfBytes_of_afterFixedFields {frame : Bytes} {offset : Nat}
    (h : afterFixedFields header frame offset = .error fault) : fault.IsOfBytes := by
  unfold afterFixedFields at h
  dsimp only at h
  split at h
  · exact isOfBytes_of_dataSection h
  split at h
  · cases h
    rintro size maximum ⟨⟩
  split at h
  · cases h
    rintro size maximum ⟨⟩
  split at h
  · cases h
    rintro size maximum ⟨⟩
  · exact isOfBytes_of_dataSection h

theorem isOfBytes_of_error {frame : Bytes} (h : Layout.of frame = .error fault) :
    fault.IsOfBytes := by
  unfold Layout.of at h
  rcases hheader : Header.decode frame with cause | header
  · rw [hheader] at h
    obtain rfl : cause = fault := Except.error.inj h
    exact Header.isOfBytes_of_decode hheader
  rw [hheader] at h
  dsimp only at h
  split at h
  · cases h
    rintro size maximum ⟨⟩
  split at h
  · cases h
  split at h
  · cases h
    rintro size maximum ⟨⟩
  · exact isOfBytes_of_afterFixedFields h

end Layout

/-- **Bytes are never refused for the length in front of them.** -/
theorem Frame.isOfBytes_of_decode {body : Bytes} {fault : Fault}
    (h : Frame.decode body = .error fault) : fault.IsOfBytes := by
  rcases hlayout : Layout.of body with cause | l
  · obtain rfl := Except.error.inj ((Frame.decode_of_layout_error hlayout).symm.trans h)
    exact Layout.isOfBytes_of_error hlayout
  · rcases (Frame.decode_eq_error_iff_of_layout hlayout).1 h with
      ⟨-, -, rfl⟩ | ⟨-, -, rfl⟩ <;> rintro size maximum ⟨⟩

/-- The failure is that of a refused length exactly if the length was
refused. -/
theorem Judgement.Ends.eq_frameTooLarge_iff {j : Judgement} {fault : Fault} (h : j.Ends fault)
    {size : Nat} {maximum : Number} :
    fault = .frameTooLarge size maximum ↔ j = ⟨size, maximum⟩ ∧ j.IsRefusal := by
  obtain ⟨length, limit⟩ := j
  cases h with
  | refused h => simp [h]
  | undecodable h body hlength _ hdecode =>
    constructor
    · intro hlarge
      exact absurd hlarge (Frame.isOfBytes_of_decode hdecode size maximum)
    · rintro ⟨-, hrefusal⟩
      exact absurd hrefusal h

/-! ## What a poll makes of a judgement -/

namespace Deframer

variable {d : Deframer}

/-- The judgement that a poll passes, if it comes to read a length. -/
def judging (d : Deframer) : List Judgement :=
  if d.awaiting.isSome then []
  else
    match d.queue.take? Wire.lengthSize with
    | none => []
    | some (bytes, _) => [⟨BigEndian.decode bytes, d.maximum⟩]

/-- Where nothing is left there is nothing to judge. -/
theorem judging_of_isSpent (h : d.IsSpent) : d.judging = [] := by
  rw [judging, h.take?_eq, ite_self]

/-- **What is judged is the length that stands next in the bytes**, against
the maximum in force, and nothing is judged while a frame is waited for, or
once reading has failed. -/
theorem eq_of_mem_judging (hsound : d.queue.IsSound) (htidy : d.IsTidy) {j : Judgement}
    (h : j ∈ d.judging) :
    d.failed = false ∧ d.awaiting = none ∧
      j = ⟨BigEndian.decode (d.inlet.unread.take Wire.lengthSize), d.maximum⟩ := by
  have hopen : d.failed = false := by
    rw [← Bool.not_eq_true]
    intro hfailed
    rw [judging_of_isSpent (htidy hfailed)] at h
    cases h
  unfold judging at h
  split at h
  · cases h
  rename_i hidle
  rw [Option.not_isSome_iff_eq_none] at hidle
  split at h
  · cases h
  rename_i bytes queue htake
  have hle : Wire.lengthSize ≤ d.queue.size := by
    have hsize := ChunkQueue.size_of_take? htake
    omega
  obtain ⟨left, htake', -, -⟩ := ChunkQueue.take?_of_le hsound hle
  obtain ⟨rfl, -⟩ := Prod.mk.inj (Option.some.inj (htake.symm.trans htake'))
  exact ⟨hopen, hidle, List.mem_singleton.1 h⟩

/-- What a poll makes of the judgements at hand, of which there is one at
most: it stays open while the frame is waited for, and otherwise it admits
the frame or ends with the failure. -/
def Settles (atHand : List Judgement) : Poll × Deframer → Prop
  | (.waiting, d) =>
    d.failed = false ∧ atHand.map Judgement.length = d.awaiting.toList ∧
      ∀ j ∈ atHand, ¬ j.IsRefusal
  | (.frame f, d) =>
    d.failed = false ∧ d.awaiting = none ∧ ∃ j, atHand = [j] ∧ j.Admits f
  | (.failure fault, d) => d.IsSpent ∧ ∃ j, atHand = [j] ∧ j.Ends fault

/-- A length that was admitted is judged no further. -/
theorem settles_pollFrame (hopen : d.failed = false) {j : Judgement} (hadmitted : ¬ j.IsRefusal) :
    Settles [j] (d.pollFrame j.length) := by
  unfold pollFrame
  rcases htake : d.queue.take? j.length with _ | ⟨body, queue⟩
  · exact ⟨hopen, rfl, List.forall_mem_singleton.2 hadmitted⟩
  have hlength := ChunkQueue.length_of_take? htake
  dsimp only
  rcases hdecode : Frame.decode body with fault | f
  · exact ⟨d.isSpent_fail, j, rfl, .undecodable hadmitted body hlength fault hdecode⟩
  · refine ⟨hopen, rfl, j, rfl, hadmitted, clearReserved body, ?_, ?_⟩
    · exact (Frame.encode_of_decode hdecode).1
    · rw [length_clearReserved, hlength]

/-- A length is judged as it is read. -/
theorem settles_pollLength (hopen : d.failed = false) (hidle : d.awaiting = none) :
    Settles d.judging d.pollLength := by
  unfold judging pollLength
  rw [hidle]
  rcases d.queue.take? Wire.lengthSize with _ | ⟨bytes, queue⟩
  · exact ⟨hopen, by rw [hidle]; rfl, fun _ hmem => absurd hmem List.not_mem_nil⟩
  let j : Judgement := ⟨BigEndian.decode bytes, d.maximum⟩
  show Settles [j] _
  dsimp only
  split
  · rename_i hrefusal
    exact ⟨d.isSpent_fail, j, rfl, .refused hrefusal⟩
  · rename_i hadmitted
    exact settles_pollFrame (d := { queue, maximum := d.maximum, failed := d.failed }) (j := j)
      hopen hadmitted

/-- **A poll judges a length or has one that was admitted before**, and
settles it. -/
theorem settles_poll (hopen : d.failed = false) {pending : List Judgement}
    (hpending : pending.map Judgement.length = d.awaiting.toList)
    (hadmitted : ∀ j ∈ pending, ¬ j.IsRefusal) : Settles (pending ++ d.judging) d.poll := by
  unfold poll
  rcases hawaiting : d.awaiting with _ | length
  · rw [hawaiting, Option.toList_none, List.map_eq_nil_iff] at hpending
    rw [hpending, List.nil_append]
    exact settles_pollLength hopen hawaiting
  · have hjudging : d.judging = [] := by
      rw [judging, hawaiting, Option.isSome_some, if_pos rfl]
    rw [hawaiting, Option.toList_some, List.map_eq_singleton_iff] at hpending
    obtain ⟨j, rfl, rfl⟩ := hpending
    rw [hjudging, List.append_nil]
    exact settles_pollFrame hopen (hadmitted j (List.mem_singleton_self j))

/-- A poll leaves the maximum as it is. -/
theorem maximum_poll (d : Deframer) : d.poll.2.maximum = d.maximum := by
  have hframe (d : Deframer) (length : Nat) : (d.pollFrame length).2.maximum = d.maximum := by
    unfold pollFrame
    split
    · rfl
    · split <;> rfl
  unfold poll
  split
  · exact hframe d _
  · unfold pollLength
    split
    · rfl
    · dsimp only
      split
      · rfl
      · exact hframe _ _

/-- **While a frame is waited for, the maximum does not matter.** -/
theorem poll_withMaximum (hawaiting : d.awaiting.isSome = true) (size : Number) :
    ({ d with maximum := size }.poll).1 = d.poll.1 := by
  obtain ⟨length, hlength⟩ := Option.isSome_iff_exists.1 hawaiting
  unfold poll
  dsimp only
  rw [hlength]
  unfold pollFrame
  dsimp only
  split
  · rfl
  · split <;> rfl

/-- **And the frame is not refused for its length.** -/
theorem poll_ne_frameTooLarge (hawaiting : d.awaiting.isSome = true) (size : Nat)
    (maximum : Number) : d.poll.1 ≠ .failure (.frameTooLarge size maximum) := by
  obtain ⟨length, hlength⟩ := Option.isSome_iff_exists.1 hawaiting
  unfold poll
  rw [hlength]
  unfold pollFrame
  dsimp only
  split
  · rintro ⟨⟩
  · split
    · rintro ⟨⟩
    · rename_i fault hdecode
      intro hlarge
      exact Frame.isOfBytes_of_decode hdecode size maximum (Poll.failure.inj hlarge)

end Deframer

/-! ## What is noted of a task -/

namespace Run

variable {r : Run}

/-- The judgement of a task, if it reads a length. -/
def judging (r : Run) : List Judgement :=
  match r.agenda with
  | .drain :: _ => r.session.deframer.judging
  | _ => []

/-- The maximum that a task sets, if it sets one. -/
def setting (r : Run) : List Number :=
  match r.agenda with
  | .perform (.setMaximum size) :: _ => [size]
  | _ => []

/-- **The maximum in force is the last that was set.** -/
theorem maximum_step (r : Run) :
    r.step.session.deframer.maximum = r.setting.getLastD r.session.deframer.maximum := by
  unfold setting
  rcases hagenda : r.agenda with _ | ⟨task, rest⟩
  · rw [step_of_done hagenda]
    rfl
  rw [deframer_step hagenda]
  rcases task with _ | chunk | size | message
  · exact r.session.deframer.maximum_poll
  · exact Deframer.maximum_receive _ chunk
  · rfl
  · rfl

/-- A task judges what a poll of the deframer judges. -/
theorem mem_judging {j : Judgement} (h : j ∈ r.judging) : j ∈ r.session.deframer.judging := by
  unfold judging at h
  split at h
  · exact h
  · cases h

/-- **A maximum that is set at a frame is in force behind it.** -/
theorem steps_of_setMaximum {f : Frame} {d : Deframer} {size : Number} {others : List Action}
    {rest : List Task} (hagenda : r.agenda = .drain :: rest)
    (hpoll : r.session.deframer.poll = (.frame f, d))
    (hlistener : r.session.onFrame.headD [] = .setMaximum size :: others) :
    (r.steps 2).session.deframer = { d with maximum := size } ∧
      (r.steps 2).agenda = others.map .perform ++ .drain :: rest := by
  have hstep := step_of_drain hagenda
  rw [hpoll] at hstep
  dsimp only at hstep
  have hactions : r.step.agenda = .perform (.setMaximum size) ::
      (others.map .perform ++ .drain :: rest) := by
    rw [hstep, announceFrame]
    dsimp only
    rw [hlistener, List.map_cons, List.cons_append]
  have hdeframer : r.step.session.deframer = d := by
    rw [hstep, announceFrame]
  rw [steps, steps, steps, step, hactions]
  exact ⟨congrArg (fun d : Deframer => { d with maximum := size }) hdeframer, rfl⟩

end Run

/-! ## The docket -/

/-- The frame of an announcement. -/
def Announcement.frame? : Announcement → Option Frame
  | .frame f => some f
  | .failure _ => none

/-- The frames that were announced. -/
def framesOf (events : List Event) : List Frame := (told events).filterMap Announcement.frame?

/-- The notices that were logged. -/
def noticesOf (events : List Event) : List Notice := events.filterMap Event.notice?

theorem framesOf_append (events later : List Event) :
    framesOf (events ++ later) = framesOf events ++ framesOf later := by
  rw [framesOf, told_append, List.filterMap_append]
  rfl

theorem noticesOf_append (events later : List Event) :
    noticesOf (events ++ later) = noticesOf events ++ noticesOf later :=
  List.filterMap_append

namespace Session

variable {s t : Session} {judged : List Judgement} {events : List Event}

/-- How the judgements of a session and what it has told belong together.
As long as it reads, each has admitted the next frame, and one is open if
a frame is waited for. Once it has failed, the last is that of the
failure, and nothing is left to read. -/
inductive Docket (s : Session) (judged : List Judgement) (events : List Event) : Prop
  | reading (hopen : s.deframer.failed = false) (passed pending : List Judgement)
      (hjudged : judged = passed ++ pending)
      (hpassed : List.Forall₂ Judgement.Admits passed (framesOf events))
      (hpending : pending.map Judgement.length = s.deframer.awaiting.toList)
      (hadmitted : ∀ j ∈ pending, ¬ j.IsRefusal)
      (hnotices : noticesOf events = [])
  | ended (hspent : s.deframer.IsSpent) (passed : List Judgement) (last : Judgement)
      (fault : Fault)
      (hjudged : judged = passed ++ [last])
      (hpassed : List.Forall₂ Judgement.Admits passed (framesOf events))
      (hlast : last.Ends fault)
      (hnotices : noticesOf events = [.unreadable fault])

/-- Only the failure, what it has left, and the length that was read ahead
of its frame matter. -/
theorem Docket.congr (h : s.Docket judged events)
    (hfailed : t.deframer.failed = s.deframer.failed)
    (hspent : s.deframer.IsSpent → t.deframer.IsSpent)
    (hawaiting : t.deframer.awaiting = s.deframer.awaiting) : t.Docket judged events := by
  cases h with
  | reading hopen passed pending hjudged hpassed hpending hadmitted hnotices =>
    rw [← hawaiting] at hpending
    exact .reading (hfailed.trans hopen) passed pending hjudged hpassed hpending hadmitted hnotices
  | ended hended passed last fault hjudged hpassed hlast hnotices =>
    exact .ended (hspent hended) passed last fault hjudged hpassed hlast hnotices

end Session

namespace Run

variable {r : Run} {judged : List Judgement} {before : List Event}

theorem docket_perform (h : r.session.Docket judged (before ++ r.events.toList))
    (action : Action) :
    (r.perform action).session.Docket judged (before ++ (r.perform action).events.toList) := by
  cases action with
  | feed chunk =>
    unfold perform
    dsimp only
    split
    · exact h
    · exact h.congr (Deframer.failed_receive _ chunk) (·.receive chunk)
        (Deframer.awaiting_receive _ chunk)
  | setMaximum size => exact h.congr rfl (·.withMaximum size) rfl
  | throw message => exact h

/-- Whether or not somebody listens for the failure, no frame is announced
with it, and one notice is logged. -/
theorem announceFailure_eq (r : Run) (fault : Fault) :
    (r.announceFailure fault).session = r.session ∧
      ∃ later, (r.announceFailure fault).events.toList = r.events.toList ++ later ∧
        framesOf later = [] ∧ noticesOf later = [.unreadable fault] := by
  unfold announceFailure
  split
  · exact ⟨rfl, [_], Array.toList_push, rfl, rfl⟩
  · refine ⟨rfl, [.notice (.unreadable fault), .failure fault r.session.deframer.buffered], ?_, rfl,
      rfl⟩
    rw [Array.toList_push, Array.toList_push, List.append_assoc]
    rfl

/-- **The judgement of a poll goes on the docket** with what it comes
to. -/
theorem docket_drain (h : r.session.Docket judged (before ++ r.events.toList)) :
    r.drain.session.Docket (judged ++ r.session.deframer.judging)
      (before ++ r.drain.events.toList) := by
  cases h with
  | ended hspent passed last fault hjudged hpassed hlast hnotices =>
    rw [drain_of_isSpent hspent, Deframer.judging_of_isSpent hspent, List.append_nil]
    exact .ended hspent passed last fault hjudged hpassed hlast hnotices
  | reading hopen passed pending hjudged hpassed hpending hadmitted hnotices =>
    have hsettles := Deframer.settles_poll hopen hpending hadmitted
    rw [hjudged, List.append_assoc]
    unfold drain
    rcases hpoll : r.session.deframer.poll with ⟨_ | f | fault, d⟩
    all_goals
      rw [hpoll] at hsettles
      dsimp only
    · obtain ⟨hopen', hatHand, hadmitted'⟩ := hsettles
      exact .reading hopen' passed _ rfl hpassed hatHand hadmitted' hnotices
    · obtain ⟨hopen', hidle, j, hatHand, hadmits⟩ := hsettles
      rw [hatHand, announceFrame, Array.toList_push, ← List.append_assoc before]
      refine .reading hopen' (passed ++ [j]) [] (List.append_nil _).symm ?_ ?_ ?_ ?_
      · rw [framesOf_append]
        exact List.rel_append hpassed (.cons hadmits .nil)
      · rw [hidle]
        rfl
      · exact fun _ hmem => absurd hmem List.not_mem_nil
      · rw [noticesOf_append, hnotices]
        rfl
    · obtain ⟨hspent, j, hatHand, hends⟩ := hsettles
      let q : Run := { r with session := { r.session with deframer := d } }
      obtain ⟨hsession, later, hevents, hframes, hlogged⟩ := announceFailure_eq q fault
      rw [hatHand, hsession, hevents, ← List.append_assoc before]
      refine .ended hspent passed j fault rfl ?_ hends ?_
      · rwa [framesOf_append, hframes, List.append_nil]
      · rw [noticesOf_append, hlogged, hnotices, List.nil_append]

end Run

namespace Session

variable {s : Session} {judged : List Judgement} {events : List Event}

/-- **Every task keeps the docket.** -/
theorem isKept_docket : IsKept Run.judging Docket := by
  intro r judged before h
  unfold Run.step Run.judging
  rcases r.agenda with _ | ⟨_ | action, rest⟩
  · rw [List.append_nil]
    exact h
  · exact Run.docket_drain (r := { r with agenda := rest }) h
  · rw [List.append_nil]
    exact Run.docket_perform (r := { r with agenda := rest }) h action

/-- So is the maximum the last that was set. -/
theorem isKept_maximum (maximum : Number) :
    IsKept Run.setting fun s settings _ =>
      s.deframer.maximum = settings.getLastD maximum := by
  intro r settings before h
  rw [Run.maximum_step, h, List.getLastD_eq_getLast?, List.getLastD_eq_getLast?,
    List.getLastD_eq_getLast?, List.getLast?_append]
  cases r.setting.getLast? <;> rfl

/-- At every moment there is a docket. -/
theorem docket_moment (maximum : Number) (onFrame : List (List Action))
    (onFailure : Option (List Action)) (history : List Action) (action : Action) (n : Nat) :
    let s : Session := { deframer := { maximum }, onFrame, onFailure }
    let r := (s.after history).start action
    (r.steps n).session.Docket (s.logged Run.judging history ++ r.logged Run.judging n)
      (s.events history ++ (r.steps n).events.toList) := by
  refine isKept_docket.moment ?_ history action n
  exact .reading rfl [] [] rfl .nil rfl (fun _ hmem => absurd hmem List.not_mem_nil) rfl

/-- The notice is of the failure that was told or thrown. -/
theorem Course.noticesOf_eq {listened : Bool} {thrown : List Fault}
    (h : s.Course listened events thrown) :
    noticesOf events = (events.filterMap Event.failure? ++ thrown).map .unreadable := by
  rcases h with ⟨-, -, hframes, rfl⟩ | ⟨-, -, frames, fault, hframes, rfl, rfl⟩
  · obtain ⟨hfailures, hnotices⟩ := filterMap_frames hframes
    rw [noticesOf, hfailures, hnotices]
    rfl
  · obtain ⟨hfailures, hnotices⟩ := filterMap_frames hframes
    rw [noticesOf, List.filterMap_append, List.filterMap_append, hfailures, hnotices]
    cases listened <;> rfl

/-- **A failure is that of a refused length exactly if a length was
refused**, and it says which, and against which maximum. -/
theorem Docket.frameTooLarge_mem_iff {failures : List Fault} (h : s.Docket judged events)
    (hnoticed : noticesOf events = failures.map .unreadable) (size : Nat) (maximum : Number) :
    .frameTooLarge size maximum ∈ failures ↔
      ⟨size, maximum⟩ ∈ judged ∧ maximum.isBelow size = true := by
  cases h with
  | reading hopen passed pending hjudged hpassed hpending hadmitted hnotices =>
    rw [hnotices, eq_comm, List.map_eq_nil_iff] at hnoticed
    rw [hnoticed, hjudged]
    refine ⟨fun hmem => absurd hmem List.not_mem_nil, fun ⟨hmem, hrefusal⟩ => ?_⟩
    rcases List.mem_append.1 hmem with hmem | hmem
    · exact absurd hrefusal (Judgement.not_isRefusal_of_mem hpassed _ hmem)
    · exact absurd hrefusal (hadmitted _ hmem)
  | ended _ passed last fault hjudged hpassed hlast hnotices =>
    rw [hnotices, eq_comm, List.map_eq_singleton_iff] at hnoticed
    obtain ⟨cause, rfl, hcause⟩ := hnoticed
    obtain rfl : cause = fault := Notice.unreadable.inj hcause
    rw [List.mem_singleton, eq_comm, hlast.eq_frameTooLarge_iff, hjudged, List.mem_append,
      List.mem_singleton]
    constructor
    · rintro ⟨rfl, hrefusal⟩
      exact ⟨.inr rfl, hrefusal⟩
    · rintro ⟨hmem | rfl, hrefusal⟩
      · exact absurd hrefusal (Judgement.not_isRefusal_of_mem hpassed _ hmem)
      · exact ⟨rfl, hrefusal⟩

/-- What has told of frames alone has told of these. -/
theorem framesOf_of_told {frames : List Frame} (h : told events = frames.map .frame) :
    framesOf events = frames := by
  rw [framesOf, h, List.filterMap_map]
  exact List.filterMap_some

/-- **Every length is judged once, against the maximum that is in force
when it is read.** Whoever listens and whatever they do, at every moment of
every call: the maximum in force is the last that was set, and what is
judged now is the length that stands next in the bytes, against it. The
judgements so far have admitted the frames so far, one for one and in
order, each the length of its frame; another is open if a frame is waited
for, or the last is that of the failure. As long as nothing has failed,
the lengths that were judged are those that stand in the stream. A failure
is that of a refused length exactly if a length was refused, and it says
which, and against which maximum. While a frame is waited for, a change of
the maximum makes no difference to it; and one that the listener for a
frame makes is in force before anything behind the frame is read. -/
theorem lengths_judged_once (maximum : Number) (onFrame : List (List Action))
    (onFailure : Option (List Action)) (history : List Action) (action : Action) (n : Nat) :
    let s : Session := { deframer := { maximum }, onFrame, onFailure }
    let r := (s.after history).start action
    let d := (r.steps n).session.deframer
    let events := s.events history ++ (r.steps n).events.toList
    let thrown := s.faults history ++ (r.steps n).thrown.toList.filterMap Thrown.fault?
    let judged := s.logged Run.judging history ++ r.logged Run.judging n
    (d.maximum = (s.logged Run.setting history ++ r.logged Run.setting n).getLastD maximum ∧
      ∀ j ∈ (r.steps n).judging, d.failed = false ∧ d.awaiting = none ∧
        j = ⟨BigEndian.decode (d.inlet.unread.take Wire.lengthSize), d.maximum⟩) ∧
    (r.steps n).session.Docket judged events ∧
    (d.failed = false → ∃ bodies : List Bytes,
      judged.map Judgement.length = bodies.map List.length ++ d.awaiting.toList ∧
      s.logged Run.entering history ++ r.logged Run.entering n =
        (bodies.map Link.delimited).flatten ++ d.inlet.rest) ∧
    (∀ size limit,
      (Fault.frameTooLarge size limit ∈ events.filterMap Event.failure? ++ thrown ↔
        ⟨size, limit⟩ ∈ judged ∧ limit.isBelow size = true) ∧
      (Fault.frameTooLarge size limit).message =
        s!"Frame size {size} exceeds maximum {limit.decimal}") ∧
    (d.awaiting.isSome = true → ∀ other,
      ({ d with maximum := other }.poll).1 = d.poll.1 ∧
        ∀ size limit, d.poll.1 ≠ .failure (.frameTooLarge size limit)) ∧
    ∀ f d' size others rest, (r.steps n).agenda = .drain :: rest → d.poll = (.frame f, d') →
      (r.steps n).session.onFrame.headD [] = .setMaximum size :: others →
      (r.steps (n + 2)).session.deframer = { d' with maximum := size } ∧
        (r.steps (n + 2)).agenda = others.map .perform ++ .drain :: rest := by
  intro s r d events thrown judged
  have hdocket : (r.steps n).session.Docket judged events :=
    docket_moment maximum onFrame onFailure history action n
  have hcourse : (r.steps n).session.Course onFailure.isSome events thrown :=
    ((((course_start maximum onFrame onFailure).after history).start action).steps n).course
  have haccounts := (Deframer.isInvariant_accounts.isKept [] []).moment (s := s)
    (Deframer.accounts_start maximum) history action n
  refine ⟨⟨?_, ?_⟩, hdocket, ?_, fun size limit => ⟨?_, rfl⟩, fun hawaiting other => ⟨?_, ?_⟩, ?_⟩
  · exact (isKept_maximum maximum).moment (s := s) rfl history action n
  · exact fun j hmem => Deframer.eq_of_mem_judging haccounts.isSound hcourse.isTidy
      (Run.mem_judging hmem)
  · intro hopen
    obtain ⟨frames, bodies, hsaid, hread, hfed⟩ := haccounts.fed_eq hopen
    refine ⟨bodies, ?_, hfed⟩
    rcases hdocket with ⟨-, passed, pending, hjudged, hpassed, hpending, -, -⟩ | ⟨hspent, -⟩
    · rw [framesOf_of_told hsaid] at hpassed
      rw [hjudged, List.map_append, Judgement.map_length_eq hpassed hread, hpending]
    · cases hopen.symm.trans hspent.failed_eq
  · exact hdocket.frameTooLarge_mem_iff hcourse.noticesOf_eq size limit
  · exact Deframer.poll_withMaximum hawaiting other
  · exact Deframer.poll_ne_frameTooLarge hawaiting
  · intro f d' size others rest hagenda hpoll hlistener
    rw [Run.steps_add]
    exact Run.steps_of_setMaximum hagenda hpoll hlistener

/-- The listener for a cancellation lowers the maximum to its size, and a
longer frame behind it in the same chunk is refused. A frame whose length
was read before the maximum was lowered is announced, longer though it
is. -/
theorem lengths_judged_once_lowered :
    let cancel : Frame := ⟨.ofNat 1, .ofFlags 0, .cancel⟩
    let body : Bytes := [0, 0, 0, 1, 36, 0]
    let s : Session :=
      { deframer := { maximum := .ofNat 64 }, onFrame := [[.setMaximum (.ofNat 6)]] }
    let r := (s.after []).start (.feed ([0, 0, 6] ++ body ++ [0, 0, 14]))
    let q := (s.after [.feed [0, 0, 6], .setMaximum (.ofNat 5)]).start (.feed body)
    ((r.steps (1 + 2)).session.deframer.maximum = .ofNat 6 ∧
      (r.steps (1 + 2)).agenda = [.drain] ∧
      (r.steps 3).session.deframer.awaiting = none ∧
      Fault.frameTooLarge 14 (.ofNat 6) ∈
        (s.events [] ++ (r.steps 4).events.toList).filterMap Event.failure? ∧
      r.logged Run.judging 4 = [⟨6, .ofNat 64⟩, ⟨14, .ofNat 6⟩]) ∧
    ((q.steps 1).session.deframer.poll.1 = .frame cancel ∧
      ({ (q.steps 1).session.deframer with maximum := .ofNat 0 }.poll).1 = .frame cancel ∧
      told (q.steps 2).events.toList = [.frame cancel]) ∧
    ∃ bodies : List Bytes, [6] = bodies.map List.length ++ [] ∧
      [0, 0, 6] ++ body = (bodies.map Link.delimited).flatten ++ [] := by
  intro cancel body s r q
  have hfirst (n : Nat) := lengths_judged_once (.ofNat 64) s.onFrame (some []) []
    (.feed ([0, 0, 6] ++ body ++ [0, 0, 14])) n
  have hsecond (n : Nat) := lengths_judged_once (.ofNat 64) s.onFrame (some [])
    [.feed [0, 0, 6], .setMaximum (.ofNat 5)] (.feed body) n
  have hjudged : r.logged Run.judging 4 = [⟨6, .ofNat 64⟩, ⟨14, .ofNat 6⟩] := by decide +kernel
  have hpoll : (q.steps 1).session.deframer.poll.1 = .frame cancel := by decide +kernel
  obtain ⟨hdeframer, hagenda⟩ := (hfirst 1).2.2.2.2.2 cancel
    { queue := ⟨[[0, 0, 14]], [], 3⟩, maximum := .ofNat 64 } (.ofNat 6) [] []
    (by decide +kernel) (by decide +kernel) (by decide +kernel)
  have hidle := ((hfirst 3).1.2 ⟨14, .ofNat 6⟩ (by decide +kernel)).2.1
  refine ⟨⟨by rw [hdeframer], hagenda, hidle, ?_, hjudged⟩, ⟨hpoll, ?_, by decide +kernel⟩, ?_⟩
  · have hmem := ((hfirst 4).2.2.2.1 14 (.ofNat 6)).1.2 ⟨by decide +kernel, by decide +kernel⟩
    have hthrown : s.faults [] ++ (r.steps 4).thrown.toList.filterMap Thrown.fault? = [] := by
      decide +kernel
    rwa [hthrown, List.append_nil] at hmem
  · exact ((hsecond 1).2.2.2.2.1 (by decide +kernel) (.ofNat 0)).1.trans hpoll
  · obtain ⟨bodies, hlengths, hfed⟩ := (hsecond 2).2.2.1 (by decide +kernel)
    have hsix : (s.logged Run.judging [.feed [0, 0, 6], .setMaximum (.ofNat 5)] ++
        q.logged Run.judging 2).map Judgement.length = [6] := by decide +kernel
    have hawaiting : (q.steps 2).session.deframer.awaiting = none := by decide +kernel
    have hentered : s.logged Run.entering [.feed [0, 0, 6], .setMaximum (.ofNat 5)] ++
        q.logged Run.entering 2 = [0, 0, 6] ++ body := by decide +kernel
    have hrest : (q.steps 2).session.deframer.inlet.rest = [] := by decide +kernel
    rw [hsix, hawaiting] at hlengths
    rw [hentered, hrest] at hfed
    exact ⟨bodies, hlengths, hfed⟩

end Session

end StreamWire
