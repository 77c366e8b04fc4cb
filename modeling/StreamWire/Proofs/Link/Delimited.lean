import StreamWire.Link
import StreamWire.Proofs.BigEndian
import StreamWire.Proofs.Frame.RoundTrip
import StreamWire.Proofs.Inbound.Chunking
/-!
# Delimited frames — a byte stream of frames behind their lengths

A byte stream that consists of frames, each behind its length, is drained
to just these frames and nothing is left of it (`Inlet.drain_delimited`).
However it is cut into chunks, a session announces the frames
(`Session.tells_delimited`), and a receiver hands them to its assembler
one after the other (`Link.Receiver.feed_delimited`).
-/

namespace StreamWire

namespace Inlet

/-- In front of a frame behind its length. -/
theorem poll_delimited {f : Frame} {bytes : Bytes} (h : Frame.IsRead f bytes) (rest : Bytes) :
    (start (.ofNat Wire.defaultMaxFrameSize) (Link.delimited bytes ++ rest)).poll =
      (.frame f, start (.ofNat Wire.defaultMaxFrameSize) rest) := by
  obtain ⟨hdecode, hle⟩ := h
  have hstream : Link.delimited bytes ++ rest =
      BigEndian.encode Wire.lengthSize bytes.length ++ (bytes ++ rest) := by
    rw [Link.delimited, List.append_assoc]
  have hwidth := BigEndian.length_encode Wire.lengthSize bytes.length
  have htake : (Link.delimited bytes ++ rest).take Wire.lengthSize =
      BigEndian.encode Wire.lengthSize bytes.length := by
    rw [hstream, List.take_left' hwidth]
  have hdrop : (Link.delimited bytes ++ rest).drop Wire.lengthSize = bytes ++ rest := by
    rw [hstream, List.drop_left' hwidth]
  have hlength : BigEndian.decode (BigEndian.encode Wire.lengthSize bytes.length) =
      bytes.length := by
    apply BigEndian.decode_encode_of_lt
    simp only [Wire.maxFrameLength] at hle
    simp only [Wire.lengthSize]
    omega
  have hlong : ¬ (Link.delimited bytes ++ rest).length < Wire.lengthSize := by
    rw [hstream, List.length_append, hwidth]
    omega
  have hsmall : ¬ (Number.ofNat Wire.defaultMaxFrameSize).isBelow bytes.length = true := by
    simp only [Number.isBelow, Number.ofNat, decide_eq_true_eq, Wire.defaultMaxFrameSize]
    omega
  rw [poll_start, pollLength_start hlong (by rwa [htake, hlength]), htake, hdrop, hlength,
    pollFrame]
  have hroom : ¬ (bytes ++ rest).length < bytes.length := by
    rw [List.length_append]
    omega
  refine (if_neg hroom).trans ?_
  simp only [start, List.take_left' rfl, List.drop_left' rfl, hdecode]

/-- **A stream of delimited frames is drained to the frames**, and
nothing is left of it. -/
theorem drain_delimited {frames : List Frame} {fragments : List Bytes}
    (h : List.Forall₂ Frame.IsRead frames fragments) :
    (start (.ofNat Wire.defaultMaxFrameSize) (fragments.map Link.delimited).flatten).drain =
      (frames.map .frame, start (.ofNat Wire.defaultMaxFrameSize) []) := by
  induction h with
  | nil => exact drain_of_isDrained (Nat.succ_pos _)
  | cons hread _ ih =>
    rw [List.map_cons, List.flatten_cons, drain_of_frame (poll_delimited hread _), ih]
    rfl

end Inlet

/-- **However a stream of delimited frames is cut**, a session whose
listeners do nothing announces the frames and is left as it began. -/
theorem Session.tells_delimited {onFrame : List (List Action)}
    (hpassive : ∀ actions ∈ onFrame, actions = []) {frames : List Frame}
    {fragments chunks : List Bytes} (h : List.Forall₂ Frame.IsRead frames fragments)
    (hcut : chunks.flatten = (fragments.map Link.delimited).flatten) :
    let s : Session := { onFrame }
    (s.events (chunks.map .feed)).map Event.unmeasured =
        (frames.map Announcement.frame).flatMap Announcement.events ∧
      s.throws (chunks.map .feed) = [] ∧
      (s.after (chunks.map .feed)).deframer.inlet =
        Inlet.start (.ofNat Wire.defaultMaxFrameSize) [] ∧
      (s.after (chunks.map .feed)).deframer.buffered = 0 := by
  intro s
  have hidle : s.IsIdle := isIdle_start hpassive
  have hmaximum : ∀ size, .setMaximum size ∈ chunks.map Action.feed →
      size = .ofNat Wire.defaultMaxFrameSize := by simp
  -- The session replays its inlet, and that is drained of what was fed.
  obtain ⟨hevents, hthrows, hinlet, -, hafter⟩ := tells_after hidle (chunks.map .feed)
  have hreplay := Inlet.replay_fed hidle.isDrained hmaximum
  have hstart : s.deframer.inlet.receive (fed (chunks.map .feed)) =
      Inlet.start (.ofNat Wire.defaultMaxFrameSize) (fragments.map Link.delimited).flatten := by
    rw [fed_map_feed, hcut]
    rfl
  have hquiet : (chunks.map Action.feed).filterMap Action.thrown? = [] := by
    simp [List.filterMap_eq_nil_iff, Action.thrown?]
  rw [hreplay, hstart, Inlet.drain_delimited h] at hevents hinlet
  refine ⟨hevents, hthrows.trans hquiet, hinlet, ?_⟩
  rw [Deframer.buffered_eq hafter.isSound, hinlet]
  rfl

namespace Link.Receiver

/-! ## Chunk by chunk -/

/-- What is announced decides nothing about the session. -/
theorem foldl_observe_session (events : List Event) (r : Receiver) (s : Session) :
    events.foldl observe { r with session := s } =
      { events.foldl observe r with session := s } := by
  induction events generalizing r with
  | nil => rfl
  | cons event rest ih =>
    have hstep : observe { r with session := s } event = { r.observe event with session := s } := by
      cases event <;> rfl
    rw [List.foldl_cons, List.foldl_cons, hstep, ih]

/-- How many bytes waited makes no difference. -/
theorem foldl_observe_unmeasured (events : List Event) (r : Receiver) :
    (events.map Event.unmeasured).foldl observe r = events.foldl observe r := by
  induction events generalizing r with
  | nil => rfl
  | cons event rest ih =>
    have hstep : r.observe event.unmeasured = r.observe event := by
      cases event <;> rfl
    rw [List.map_cons, List.foldl_cons, List.foldl_cons, hstep, ih]

/-- Announced frames are handed to the assembler. -/
theorem foldl_observe_frames (frames : List Frame) (r : Receiver) :
    ((frames.map Announcement.frame).flatMap Announcement.events).foldl observe r =
      frames.foldl accept r := by
  induction frames generalizing r with
  | nil => rfl
  | cons f rest ih =>
    rw [List.map_cons, List.flatMap_cons, List.foldl_append, ih]
    rfl

/-- Receiving chunks is observing all that their session announces. -/
theorem foldl_feed (chunks : List Bytes) (r : Receiver) :
    chunks.foldl feed r =
      { (r.session.events (chunks.map .feed)).foldl observe r with
        session := r.session.after (chunks.map .feed) } := by
  induction chunks generalizing r with
  | nil => rfl
  | cons chunk rest ih =>
    have hfeed : r.feed chunk =
        { (r.session.call (.feed chunk)).events.toList.foldl observe r with
          session := (r.session.call (.feed chunk)).session } := by
      rw [feed, ← foldl_observe_session, Array.foldl_toList]
    rw [List.foldl_cons, ih, hfeed, List.map_cons, Session.after, Session.events_cons,
      List.foldl_append]
    dsimp only
    rw [foldl_observe_session]

/-- **However a stream of delimited frames is cut**, its frames are handed
to the assembler one after the other, and no bytes are left waiting. -/
theorem feed_delimited {frames : List Frame} {fragments chunks : List Bytes}
    (h : List.Forall₂ Frame.IsRead frames fragments)
    (hcut : chunks.flatten = (fragments.map delimited).flatten) :
    ∃ s : Session, chunks.foldl feed {} = { frames.foldl accept {} with session := s } ∧
      s.deframer.failed = false ∧ s.deframer.buffered = 0 := by
  obtain ⟨hevents, -, hinlet, hbuffered⟩ :=
    @Session.tells_delimited [] (by simp) frames fragments chunks h hcut
  refine ⟨Session.after {} (chunks.map .feed), ?_, congrArg Inlet.failed hinlet, hbuffered⟩
  rw [foldl_feed, ← foldl_observe_unmeasured, hevents, foldl_observe_frames]

end Link.Receiver

end StreamWire
