import StreamWire.Proofs.Inbound.Accounting
import StreamWire.Proofs.Link.Delimited
/-!
# Streams — a byte stream is the frames it carries

Frames sent one behind the other make a byte stream, and a session that
receives it, in whatever chunks, announces them and nothing else. Of any
stream that a session has read to its end the reverse holds too: it is
the frames that were announced, sent again, up to their reserved bits.
`Session.stream_eq_frames` says both. For the second half the books of the
deframer are closed (`Deframer.Accounts`): nothing waits and no length is
left without its frame, so all that was entered is in the frames.
-/

namespace StreamWire

/-! ## Frames behind their length -/

namespace Frame

/-- A frame that has a size is judged by it, and then as it is without a
length. -/
theorem encodeWithLength_of_size {f : Frame} {size : Nat} (hsize : f.size = .ok size) :
    f.encodeWithLength =
      if Wire.maxFrameLength < size then .error (.frameTooLong size)
      else f.encode.map fun bytes => BigEndian.encode Wire.lengthSize size ++ bytes := by
  rw [encodeWithLength, hsize]
  simp only [bind, Except.bind]
  by_cases hlong : Wire.maxFrameLength < size
  · rw [if_pos hlong, if_pos hlong]
    rfl
  · rw [if_neg hlong, if_neg hlong]
    rcases f.encode with _ | _ <;> rfl

/-- A frame is sent on a stream as its bytes behind their length, if they
are not too many for it. -/
theorem encodeWithLength_eq_ok_iff {f : Frame} {out : Bytes} :
    f.encodeWithLength = .ok out ↔
      ∃ bytes, f.encode = .ok bytes ∧ bytes.length ≤ Wire.maxFrameLength ∧
        out = Link.delimited bytes := by
  constructor
  · intro h
    obtain ⟨size, hsize, -⟩ := bind_eq_ok_iff.1 h
    rw [encodeWithLength_of_size hsize] at h
    split at h
    · cases h
    rename_i hle
    obtain ⟨bytes, hencode, rfl⟩ := map_eq_ok_iff.1 h
    obtain rfl : bytes.length = size := Except.ok.inj ((size_of_encode hencode).symm.trans hsize)
    exact ⟨bytes, hencode, Nat.not_lt.1 hle, rfl⟩
  · rintro ⟨bytes, hencode, hle, rfl⟩
    rw [encodeWithLength_of_size (size_of_encode hencode), if_neg (Nat.not_lt.2 hle), hencode]
    rfl

/-- What is read as a frame can be sent on as it came, but for the
reserved bit. -/
theorem IsRead.encodeWithLength_eq {f : Frame} {body : Bytes} (h : IsRead f body) :
    f.encodeWithLength = .ok (Link.delimited (clearReserved body)) := by
  have hencode := (encode_of_decode h.decode_eq).1
  refine encodeWithLength_eq_ok_iff.2 ⟨clearReserved body, hencode, ?_, rfl⟩
  rw [length_clearReserved]
  exact h.length_le

/-- Frames that are sent one behind the other are read in their normal
form. -/
theorem exists_bodies {frames : List Frame} {outs : List Bytes}
    (h : List.Forall₂ (fun f out => f.encodeWithLength = .ok out) frames outs) :
    ∃ bodies, outs = bodies.map Link.delimited ∧
      List.Forall₂ IsRead (frames.map normal) bodies := by
  induction h with
  | nil => exact ⟨[], rfl, .nil⟩
  | cons hsent _ ih =>
    obtain ⟨bytes, hencode, hle, rfl⟩ := encodeWithLength_eq_ok_iff.1 hsent
    obtain ⟨bodies, rfl, hread⟩ := ih
    have hfirst := isRead_of_encode hencode (size_of_encode hencode) hle
    exact ⟨bytes :: bodies, rfl, .cons hfirst hread⟩

/-- The normal form of a frame that can be sent: the flags it is sent
with, and no sign on a zero. -/
theorem exists_normal_eq {f : Frame} {out : Bytes} (h : f.encodeWithLength = .ok out) :
    ∃ flags, f.wireFlags = .ok flags ∧
      f.normal = ⟨f.streamId.key, .ofFlags flags, f.body.normal⟩ := by
  obtain ⟨bytes, hencode, -, -⟩ := encodeWithLength_eq_ok_iff.1 h
  obtain ⟨p, hp, -⟩ := parts_of_encode hencode
  obtain ⟨-, -, -, -, -, hflags, -, -⟩ := parts_eq_ok_iff.1 hp
  exact ⟨p.header.flags, hflags, normal_of_wireFlags hflags⟩

end Frame

/-! ## Listeners that feed nothing -/

namespace Run

variable {r : Run}

/-- The listeners do nothing, and all that is left is to read. -/
structure OnlyReads (r : Run) : Prop where
  onFrame_eq_nil : ∀ actions ∈ r.session.onFrame, actions = []
  onFailure_eq_nil : ∀ actions ∈ r.session.onFailure, actions = []
  agenda_drains : ∀ task ∈ r.agenda, task = .drain

theorem OnlyReads.entering_eq (h : r.OnlyReads) : r.entering = [] := by
  unfold entering
  split
  · rename_i action rest hagenda
    have hdrain := h.agenda_drains (.perform action) (by rw [hagenda]; exact List.mem_cons_self)
    cases hdrain
  · rfl

theorem OnlyReads.drain (h : r.OnlyReads) : r.drain.OnlyReads := by
  rcases hpoll : r.session.deframer.poll with ⟨_ | f | fault, d⟩
  all_goals
    unfold Run.drain
    rw [hpoll]
  · exact ⟨h.onFrame_eq_nil, h.onFailure_eq_nil, h.agenda_drains⟩
  · have hhead : r.session.onFrame.headD [] = [] :=
      headD_of_forall_mem (P := fun actions => actions = []) rfl h.onFrame_eq_nil
    refine ⟨fun actions hmem => h.onFrame_eq_nil actions (List.mem_of_mem_tail hmem),
      h.onFailure_eq_nil, ?_⟩
    dsimp only [announceFrame]
    rw [hhead, List.map_nil, List.nil_append, List.forall_mem_cons]
    exact ⟨rfl, h.agenda_drains⟩
  · dsimp only [announceFailure]
    split
    · exact ⟨h.onFrame_eq_nil, h.onFailure_eq_nil, fun _ hmem => absurd hmem List.not_mem_nil⟩
    · rename_i actions hlistener
      refine ⟨h.onFrame_eq_nil, h.onFailure_eq_nil, ?_⟩
      rw [h.onFailure_eq_nil actions hlistener]
      exact h.agenda_drains

/-- Reading goes on to read. -/
theorem OnlyReads.step (h : r.OnlyReads) : r.step.OnlyReads := by
  unfold Run.step
  rcases hagenda : r.agenda with _ | ⟨task, rest⟩
  · exact h
  have hdrains := h.agenda_drains
  rw [hagenda, List.forall_mem_cons] at hdrains
  rw [hdrains.1]
  exact drain (r := { r with agenda := rest }) ⟨h.onFrame_eq_nil, h.onFailure_eq_nil, hdrains.2⟩

theorem OnlyReads.entered_eq (h : r.OnlyReads) (n : Nat) : r.entered n = [] := by
  induction n generalizing r with
  | zero => rfl
  | succ n ih => rw [entered, h.entering_eq, ih h.step, List.nil_append]

end Run

namespace Session

variable {s : Session}

/-- A call of an idle session enters its own chunk. -/
theorem IsIdle.entered_start (h : s.IsIdle) (chunk : Bytes) :
    (s.start (.feed chunk)).entered (s.start (.feed chunk)).weight = chunk := by
  have hleft : (s.start (.feed chunk)).agenda ≠ [] := List.cons_ne_nil _ _
  have hweight := Run.weight_step_lt _ hleft
  have hreads : (s.start (.feed chunk)).step.OnlyReads := by
    have hnone : ∀ actions ∈ s.onFailure, actions = [] := by
      rw [h.onFailure_eq]
      rintro _ ⟨⟩
      rfl
    have hperform : (s.start (.feed chunk)).step =
        Run.perform { session := s, agenda := [] } (.feed chunk) := rfl
    rw [hperform, Run.perform]
    dsimp only
    split
    · exact ⟨h.onFrame_eq_nil, hnone, fun _ hmem => absurd hmem List.not_mem_nil⟩
    · exact ⟨h.onFrame_eq_nil, hnone, List.forall_mem_singleton.2 rfl⟩
  obtain ⟨n, hn⟩ := Nat.exists_eq_succ_of_ne_zero (Nat.ne_zero_of_lt hweight)
  rw [hn, Run.entered, hreads.entered_eq, List.append_nil]
  rfl

/-- **An idle session enters what it is fed**, and nothing besides. -/
theorem IsIdle.entered_eq (h : s.IsIdle) (chunks : List Bytes) :
    s.entered chunks = chunks.flatten := by
  induction chunks generalizing s with
  | nil => rfl
  | cons chunk later ih =>
    rw [entered, h.entered_start, ih (h.call (.feed chunk)), List.flatten_cons]

/-! ## Both ways -/

/-- **A byte stream is the frames it carries.** However the bytes of
frames that are sent one behind the other are cut, a session whose
listeners do nothing announces just these frames, in their normal form,
and nothing is left of them. And whatever a session is fed, and whatever
its listeners do: if it has not failed, no bytes wait and no length is
left without its frame, then the bytes that were entered are those of the
frames it has announced, sent again, but for the reserved bit of each.
Where the listeners do nothing, those bytes are the chunks. -/
theorem stream_eq_frames :
    (∀ (onFrame : List (List Action)) (frames : List Frame) (outs chunks : List Bytes),
      (∀ actions ∈ onFrame, actions = []) →
      List.Forall₂ (fun f out => f.encodeWithLength = .ok out) frames outs →
      chunks.flatten = outs.flatten →
      let s : Session := { onFrame }
      let t := s.after (chunks.map .feed)
      (s.events (chunks.map .feed)).map Event.unmeasured = frames.map (fun f => .frame f.normal 0) ∧
        s.throws (chunks.map .feed) = [] ∧
        t.deframer.failed = false ∧ t.deframer.buffered = 0 ∧ t.deframer.awaiting = none ∧
        ∀ f ∈ frames, ∃ flags, f.wireFlags = .ok flags ∧
          f.normal = ⟨f.streamId.key, .ofFlags flags, f.body.normal⟩) ∧
    (∀ (onFrame : List (List Action)) (onFailure : Option (List Action)) (chunks : List Bytes),
      let s : Session := { onFrame, onFailure }
      let t := s.after (chunks.map .feed)
      t.deframer.failed = false → t.deframer.buffered = 0 → t.deframer.awaiting = none →
      ∃ frames bodies, told (s.events (chunks.map .feed)) = frames.map .frame ∧
        s.entered chunks = (bodies.map Link.delimited).flatten ∧
        List.Forall₂ (fun f body => f.encodeWithLength = .ok (Link.delimited (clearReserved body)))
          frames bodies) ∧
    ∀ (onFrame : List (List Action)) (chunks : List Bytes), (∀ actions ∈ onFrame, actions = []) →
      Session.entered { onFrame } chunks = chunks.flatten := by
  refine ⟨?_, ?_, ?_⟩
  · intro onFrame frames outs chunks hpassive hsent hcut s t
    obtain ⟨bodies, rfl, hread⟩ := Frame.exists_bodies hsent
    obtain ⟨hevents, hthrows, hinlet, hbuffered⟩ := tells_delimited hpassive hread hcut
    refine ⟨?_, hthrows, congrArg Inlet.failed hinlet, hbuffered, congrArg Inlet.awaiting hinlet,
      ?_⟩
    · rw [hevents, List.map_map, List.flatMap_map]
      exact List.map_eq_flatMap.symm
    · have hboth := hsent.imp fun f out h => And.intro (Frame.exists_normal_eq h) h
      exact ((List.forall₂_and_left _ _).1 hboth).1
  · intro onFrame onFailure chunks s t hopen hempty hidle
    have hstart : s.deframer.Accounts [] [] := Deframer.accounts_start _
    have haccounts := Deframer.isInvariant_accounts.after hstart chunks
    obtain ⟨frames, bodies, hsaid, hread, hfed⟩ := haccounts.closed hopen hempty hidle
    exact ⟨frames, bodies, hsaid, hfed, hread.imp fun _ _ => Frame.IsRead.encodeWithLength_eq⟩
  · intro onFrame chunks hpassive
    exact IsIdle.entered_eq (isIdle_start hpassive) chunks

/-- A cancellation and a sign of life at negative zero, cut within the
second length; and a stream whose first frame has its reserved bit set and
whose listener feeds the second. -/
theorem stream_eq_frames_cancel :
    let cancel : Frame := ⟨.ofNat 1, .ofFlags 0, .cancel⟩
    let alive : Frame := ⟨.negZero, .ofWord Flag.respond, .keepAlive .negZero []⟩
    let first : Bytes := [0, 0, 6, 0, 0, 0, 1, 36, 0]
    let second : Bytes := [0, 0, 14, 0, 0, 0, 0, 0x0C, 0x80, 0, 0, 0, 0, 0, 0, 0, 0]
    let reserved : Bytes := [0, 0, 6, 0x80, 0, 0, 3, 36, 0]
    let nested : Session := { onFrame := [[.feed first]] }
    (cancel.encodeWithLength = .ok first ∧ alive.encodeWithLength = .ok second ∧
      (Session.events {} [.feed (first ++ [0, 0]), .feed (second.drop 2)]).map Event.unmeasured =
        [.frame cancel 0, .frame ⟨.ofNat 0, .ofFlags 0x80, .keepAlive (.ofNat 0) []⟩ 0]) ∧
    ((nested.after [.feed reserved]).deframer.buffered = 0 ∧
      ∃ frames bodies, told (nested.events [.feed reserved]) = frames.map .frame ∧
        nested.entered [reserved] = (bodies.map Link.delimited).flatten ∧
        List.Forall₂ (fun f body => f.encodeWithLength = .ok (Link.delimited (clearReserved body)))
          frames bodies) ∧
    Session.entered { onFrame := [[]] } [reserved, first] = reserved ++ first := by
  intro cancel alive first second reserved nested
  have hcancel : cancel.encodeWithLength = .ok first := by decide +kernel
  have halive : alive.encodeWithLength = .ok second := by decide +kernel
  have hempty : (nested.after [.feed reserved]).deframer.buffered = 0 := by decide +kernel
  have hsent := (stream_eq_frames.1 [] [cancel, alive] [first, second]
    [first ++ [0, 0], second.drop 2] (by simp) (.cons hcancel (.cons halive .nil)) rfl).1
  refine ⟨⟨hcancel, halive, hsent.trans (by decide +kernel)⟩, ⟨hempty, ?_⟩, ?_⟩
  · exact stream_eq_frames.2.1 [[.feed first]] (some []) [reserved] (by decide +kernel) hempty
      (by decide +kernel)
  · exact stream_eq_frames.2.2 [[]] [reserved, first] (by simp)

end Session

end StreamWire
