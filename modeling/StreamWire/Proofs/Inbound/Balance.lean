import StreamWire.Proofs.Inbound.Judgement
import StreamWire.Proofs.Number
/-!
# Balance — how many bytes wait

The books of a deframer (`Deframer.Accounts`) are kept in bytes; here they
are read in numbers, at every moment at which the bytes that wait can be
counted. What was fed is what the frames took, each behind its length, and
what waits, and the three bytes of a length that was read ahead of its
frame (`Deframer.Accounts.length_eq`). A feed that returns has left less
than what would be read next (`Session.isDrained_call`), and that holds of
the feeds of listeners as of those from outside, each being a call of its
own (`Session.exists_steps_call`). With one maximum throughout no length
above it is waited for (`Session.isKept_admitted`), so no feed leaves as
many bytes as the maximum. `Session.bytes_balance` is the whole.
-/

namespace StreamWire

/-! ## The books in numbers -/

/-- How many bytes frames of some sizes take on a stream, each behind its
length. -/
def Link.streamLength : List Nat → Nat
  | [] => 0
  | size :: sizes => (Wire.lengthSize + size) + streamLength sizes

theorem Link.length_flatten_delimited (bodies : List Bytes) :
    (bodies.map Link.delimited).flatten.length = Link.streamLength (bodies.map List.length) := by
  induction bodies with
  | nil => rfl
  | cons body bodies ih =>
    rw [List.map_cons, List.flatten_cons, List.length_append, ih, Link.delimited,
      List.length_append, BigEndian.length_encode]
    rfl

namespace Deframer

variable {d : Deframer} {fed : Bytes} {said : List Announcement}

/-- The three bytes of a length that was read ahead of its frame. -/
def readAhead (d : Deframer) : Nat := if d.awaiting.isSome then Wire.lengthSize else 0

/-- What belongs to no frame yet waits, or was read ahead. -/
theorem length_rest (h : d.queue.IsSound) : d.inlet.rest.length = d.buffered + d.readAhead := by
  have hawaiting : d.inlet.awaiting = d.awaiting := rfl
  rw [buffered_eq h, Inlet.rest, hawaiting, readAhead]
  rcases d.awaiting with _ | length
  · rfl
  · dsimp only
    rw [List.length_append, BigEndian.length_encode, Nat.add_comm]
    rfl

/-- **The books balance in numbers.** -/
theorem Accounts.length_eq (h : d.Accounts fed said) (hopen : d.failed = false) :
    ∃ frames sizes, said = frames.map .frame ∧
      List.Forall₂ (fun f size => Frame.size f = .ok size) frames sizes ∧
      fed.length = Link.streamLength sizes + d.buffered + d.readAhead := by
  obtain ⟨frames, bodies, hsaid, hread, hfed⟩ := h.fed_eq hopen
  refine ⟨frames, bodies.map List.length, hsaid, ?_, ?_⟩
  · rw [List.forall₂_map_right_iff]
    exact hread.imp fun f body hbody => Frame.size_of_decode hbody.decode_eq
  · rw [hfed, List.length_append, Link.length_flatten_delimited, length_rest h.isSound,
      Nat.add_assoc]

/-! ## One maximum throughout -/

/-- A length that was admitted is waited for, or its frame has been read. -/
theorem admitted_pollFrame {length : Nat} (hadmitted : ¬ d.maximum.isBelow length = true) :
    ∀ awaited ∈ (d.pollFrame length).2.awaiting, ¬ d.maximum.isBelow awaited = true := by
  unfold pollFrame
  split
  · rintro _ ⟨⟩
    exact hadmitted
  · split <;> rintro _ ⟨⟩

/-- A length that is waited for after a poll was admitted, then or
before. -/
theorem admitted_poll
    (hadmitted : ∀ length ∈ d.awaiting, ¬ d.maximum.isBelow length = true) :
    ∀ length ∈ d.poll.2.awaiting, ¬ d.maximum.isBelow length = true := by
  unfold poll
  rcases hawaiting : d.awaiting with _ | length
  · -- No length was waited for, so one that is now has been judged in between.
    dsimp only [pollLength]
    split
    · rw [hawaiting]
      rintro _ ⟨⟩
    · split
      · rintro _ ⟨⟩
      · rename_i queue _ hsmall
        exact admitted_pollFrame (d := { d with queue }) hsmall
  · exact admitted_pollFrame (hadmitted length hawaiting)

/-- Where less waits than comes next, and that was admitted, less waits
than the maximum. -/
theorem buffered_lt_of_admitted {M : Nat} (hM : Wire.lengthSize ≤ M)
    (hadmitted : ∀ length ∈ d.awaiting, ¬ (Number.ofNat M).isBelow length = true)
    (hshort : d.buffered < d.awaiting.getD Wire.lengthSize) : d.buffered < M := by
  refine Nat.lt_of_lt_of_le hshort ?_
  rcases hawaiting : d.awaiting with _ | length
  · exact hM
  · have hle := hadmitted length hawaiting
    rw [Number.isBelow_ofNat_iff] at hle
    exact Nat.not_lt.1 hle

end Deframer

namespace Session

/-- **With one maximum throughout, no length above it is waited for.** -/
theorem isKept_admitted (maximum : Number) :
    IsKept Run.setting fun s settings _ => (∀ size ∈ settings, size = maximum) →
      s.deframer.maximum = maximum ∧
        ∀ length ∈ s.deframer.awaiting, ¬ maximum.isBelow length = true := by
  intro r settings before h hsettings
  rw [List.forall_mem_append] at hsettings
  obtain ⟨hbefore, hnow⟩ := hsettings
  obtain ⟨hmaximum, hadmitted⟩ := h hbefore
  refine ⟨?_, ?_⟩
  · rw [Run.maximum_step, hmaximum, List.getLastD_eq_getLast?]
    rcases hlast : r.setting.getLast? with _ | size
    · rfl
    · exact hnow size (List.mem_of_getLast? hlast)
  · rcases hagenda : r.agenda with _ | ⟨task, rest⟩
    · rwa [Run.step_of_done hagenda]
    rw [Run.deframer_step hagenda]
    rcases task with _ | chunk | size | message
    · rw [← hmaximum] at hadmitted ⊢
      exact Deframer.admitted_poll hadmitted
    · rw [Deframer.afterTask, Deframer.awaiting_receive]
      exact hadmitted
    · exact hadmitted
    · exact hadmitted

end Session

/-! ## What is told of the bytes that wait -/

namespace Run

variable {r : Run}

/-- Actions announce nothing themselves. -/
theorem events_perform (r : Run) (action : Action) : (r.perform action).events = r.events := by
  cases action with
  | feed chunk =>
    unfold perform
    dsimp only
    split <;> rfl
  | setMaximum size => rfl
  | throw message => rfl

/-- A frame is announced with as many bytes as wait then. -/
theorem buffered_of_announced {f : Frame} {buffered : Nat}
    (h : r.step.events.toList = r.events.toList ++ [.frame f buffered]) :
    buffered = r.step.session.deframer.buffered := by
  -- Any other task announces no frame.
  have hsilent {later : List Event} (hevents : r.step.events.toList = r.events.toList ++ later)
      (hnone : framesOf later = []) : False := by
    obtain rfl := List.append_cancel_left (h.symm.trans hevents)
    cases hnone
  have hsame (hevents : r.step.events = r.events) : False :=
    @hsilent [] (by rw [hevents, List.append_nil]) rfl
  rcases hagenda : r.agenda with _ | ⟨_ | action, rest⟩
  · exact (hsame (by rw [step_of_done hagenda])).elim
  · rcases hpoll : r.session.deframer.poll with ⟨_ | g | fault, d⟩
    all_goals
      have hstep := step_of_drain hagenda
      rw [hpoll] at hstep
      dsimp only at hstep
    · exact (hsame (by rw [hstep])).elim
    · rw [hstep, announceFrame, Array.toList_push] at h
      have hlast := List.append_cancel_left h
      rw [hstep, announceFrame]
      cases hlast
      rfl
    · let polled : Run := { r with session := { r.session with deframer := d }, agenda := rest }
      obtain ⟨-, later, hevents, hnone, -⟩ := polled.announceFailure_eq fault
      rw [← hstep] at hevents
      exact (hsilent hevents hnone).elim
  · exact (hsame (by rw [step, hagenda]; exact events_perform _ action)).elim

end Run

namespace Session

/-! ## Every moment, and every feed -/

/-- **The bytes balance.** Whoever listens and whatever they do, at every
moment of every call, as long as nothing has failed: all that was fed, by
callers or by listeners, is in the frames that were announced, each behind
its length, or waits, or is a length that was read ahead of its frame. A
frame is announced with the number of bytes that wait. And a feed that is
not empty, a caller's or a listener's, comes to its end as a call of its
own; if it returns, fewer bytes wait than the length or the frame that
comes next has, unless reading has failed, and with one maximum throughout
fewer than the maximum. -/
theorem bytes_balance (maximum : Number) (onFrame : List (List Action))
    (onFailure : Option (List Action)) (history : List Action) (action : Action) (n : Nat) :
    let s : Session := { deframer := { maximum }, onFrame, onFailure }
    let r := (s.after history).start action
    let q := r.steps n
    let fed := s.logged Run.entering history ++ r.logged Run.entering n
    let settings := s.logged Run.setting history ++ r.logged Run.setting n
    (q.session.deframer.failed = false → ∃ frames sizes,
      told (s.events history ++ q.events.toList) = frames.map .frame ∧
      List.Forall₂ (fun f size => Frame.size f = .ok size) frames sizes ∧
      fed.length = Link.streamLength sizes + q.session.deframer.buffered +
        q.session.deframer.readAhead) ∧
    (∀ f buffered, q.step.events.toList = q.events.toList ++ [.frame f buffered] →
      buffered = q.step.session.deframer.buffered) ∧
    ∀ chunk rest, q.agenda = .perform (.feed chunk) :: rest → chunk ≠ [] →
      let c := q.session.call (.feed chunk)
      (∃ m, r.steps (n + m) = c.within { q with agenda := rest }) ∧
      (c.thrown = none →
        (c.session.deframer.failed = false →
          c.session.deframer.buffered < c.session.deframer.awaiting.getD Wire.lengthSize) ∧
        ∀ M, 3 ≤ M →
          (∀ size ∈ maximum :: (settings ++ q.session.logged Run.setting [.feed chunk]),
            size = .ofNat M) →
          c.session.deframer.buffered < M) := by
  intro s r q fed settings
  have haccounts := Deframer.isInvariant_accounts.isKept [] []
  have hmoment := haccounts.moment (s := s) (Deframer.accounts_start maximum) history action n
  have hcourse := (((course_start maximum onFrame onFailure).after history).start action).steps n
  refine ⟨hmoment.length_eq, fun f buffered => Run.buffered_of_announced, ?_⟩
  intro chunk rest hagenda hne c
  have hreturns : q.thrown = none := by
    rw [← Option.not_isSome_iff_eq_none]
    intro hthrown
    rw [hcourse.agenda_eq_nil hthrown] at hagenda
    cases hagenda
  refine ⟨?_, fun hcall => ?_⟩
  · obtain ⟨m, hsteps⟩ := exists_steps_call hagenda hreturns
    exact ⟨m, by rw [Run.steps_add, hsteps]⟩
  have hshort : c.session.deframer.buffered < c.session.deframer.awaiting.getD Wire.lengthSize := by
    have hsound : c.session.deframer.queue.IsSound :=
      (haccounts.after hmoment [.feed chunk]).isSound
    rw [Deframer.buffered_eq hsound]
    exact isDrained_call hmoment.isSound hcourse.course.isTidy hne hcall
  refine ⟨fun _ => hshort, fun M hM hconstant => ?_⟩
  obtain ⟨hmaximum, hsettings⟩ := List.forall_mem_cons.1 hconstant
  have hkept := isKept_admitted (.ofNat M)
  have hstart := hkept.moment (s := s) (fun _ => ⟨hmaximum, fun _ hmem => by cases hmem⟩)
    history action n
  have hadmitted : ∀ length ∈ c.session.deframer.awaiting, _ :=
    (@IsKept.after _ _ _ _ hkept _ [] hstart [.feed chunk] hsettings).2
  exact Deframer.buffered_lt_of_admitted hM hadmitted hshort

/-- The listener for one cancellation throws, with two bytes behind it,
and the listener for the next feeds a length and a byte. The bytes that
were fed are the two cancellations, the length and the byte; the feed of
the listener has returned, and the byte waits. -/
theorem bytes_balance_nested :
    let cancel : Frame := ⟨.ofNat 1, .ofFlags 0, .cancel⟩
    let body : Bytes := [0, 0, 0, 1, 36, 0]
    let s : Session :=
      { deframer := { maximum := .ofNat 64 }
        onFrame := [[.throw "busy"], [.feed [0, 0, 6, 0]]] }
    let history : List Action := [.feed ([0, 0, 6] ++ body ++ [0, 0])]
    let r := (s.after history).start (.feed ([6] ++ body))
    let c := (r.steps 2).session.call (.feed [0, 0, 6, 0])
    s.throws history = [.plain "busy"] ∧
      (∃ frames sizes,
        [.frame cancel, .frame cancel] = frames.map Announcement.frame ∧
        List.Forall₂ (fun f size => Frame.size f = .ok size) frames sizes ∧
        22 = Link.streamLength sizes + 1 + 3) ∧
      0 = (r.steps 1).step.session.deframer.buffered ∧
      (∃ m, r.steps (2 + m) = c.within { r.steps 2 with agenda := [.drain] }) ∧
      c.session.deframer.buffered < 6 ∧ c.session.deframer.buffered < 64 := by
  intro cancel body s history r c
  have hbalance (n : Nat) := bytes_balance (.ofNat 64) s.onFrame (some []) history
    (.feed ([6] ++ body)) n
  refine ⟨by decide +kernel, ?_, ?_, ?_⟩
  · obtain ⟨frames, sizes, htold, hsizes, hlength⟩ := (hbalance 4).1 (by decide +kernel)
    have hcancels : told (s.events history ++ (r.steps 4).events.toList) =
        [.frame cancel, .frame cancel] := by decide +kernel
    have hfed : (s.logged Run.entering history ++ r.logged Run.entering 4).length = 22 := by
      decide +kernel
    have hbuffered : (r.steps 4).session.deframer.buffered = 1 := by decide +kernel
    have hahead : (r.steps 4).session.deframer.readAhead = 3 := by decide +kernel
    rw [hcancels] at htold
    rw [hfed, hbuffered, hahead] at hlength
    exact ⟨frames, sizes, htold, hsizes, hlength⟩
  · exact (hbalance 1).2.1 cancel 0 (by decide +kernel)
  · obtain ⟨hreturned, hleft⟩ := (hbalance 2).2.2 [0, 0, 6, 0] [.drain] (by decide +kernel)
      (List.cons_ne_nil _ _)
    obtain ⟨hshort, hfew⟩ := hleft (by decide +kernel)
    have hawaiting : c.session.deframer.awaiting = some 6 := by decide +kernel
    have hsix := hshort (by decide +kernel)
    rw [hawaiting] at hsix
    exact ⟨hreturned, hsix, hfew 64 (by decide) (by decide +kernel)⟩

end Session

end StreamWire
