import StreamWire.Proofs.Frame.RoundTrip
import StreamWire.Proofs.Message.Pieces
import StreamWire.Proofs.Message.Turn
/-!
# Reassembly — a message from its fragments

The fragments of a message, received one after the other on its stream,
complete it with the last of them (`Completes`), and what comes out is
the message in normal form. `Frame.completes_split` says so of the frames
a message is split into, and `Frame.fragments_complete` of the bytes that
are sent for it, whether it was split or not.
-/

namespace StreamWire

/-- Frames that complete a message: each but the last adds to the chain of
their stream, and the last ends it. -/
inductive Completes (message : Frame) : Option Chain → List Frame → Prop
  | last {chain? : Option Chain} {f : Frame} :
      Chain.turn {} none chain? f = { chain? := none, result := .ok (some message) } →
      Completes message chain? [f]
  | more {chain? : Option Chain} {chain : Chain} {f : Frame} {later : List Frame} :
      Chain.turn {} none chain? f = { chain? := some chain, result := .ok none } →
      Completes message (some chain) later → Completes message chain? (f :: later)

/-! ## Message frames as they are read -/

/-- The head of a message as it is read. -/
def Head.normal : Head → Head
  | .requestStream initialN => .requestStream initialN.key
  | .requestChannel initialN => .requestChannel initialN.key
  | head => head

theorem Body.normal_message (head : Head) (payload : Payload) :
    (Body.message head payload).normal = .message head.normal payload := by
  cases head <;> rfl

namespace Frame

variable {f : Frame} {head : Head} {payload : Payload} {limit : FragmentLimit}

/-- A message is read with the flags it was given, but for the metadata
bit. -/
theorem normal_message (h : f.body = .message head payload) :
    ∃ flags : BitVec 10,
      f.normal = ⟨f.streamId.key, .ofFlags flags, .message head.normal payload⟩ ∧
      ∀ i < 10, flags.getLsbD i =
        if i = 8 then payload.metadata.isSome else f.flags.word.getLsbD i := by
  have hkind := kind_of_message h
  have hmetadata := metadata_of_message h
  have hraw : head.kind.traits.raw = false := by cases head <;> rfl
  obtain ⟨flags, hflags⟩ := exists_wireFlags hkind
  refine ⟨flags, ?_, ?_⟩
  · rw [normal_of_wireFlags hflags, h, Body.normal_message]
  · intro i hi
    rw [getLsbD_wireFlags hkind hflags, hraw, hmetadata, Number.wireFlags, BitVec.getLsbD_setWidth]
    simp [hi]

/-- A flag of a message, other than the metadata bit, is read as it was
given. -/
theorem getLsbD_normal (h : f.body = .message head payload) {i : Nat} (hi : i < 10)
    (hne : i ≠ 8) : f.normal.flags.word.getLsbD i = f.flags.word.getLsbD i := by
  obtain ⟨flags, hnormal, hbits⟩ := normal_message h
  rw [hnormal, Number.word_ofFlags, BitVec.getLsbD_setWidth, hbits i hi, if_neg hne]
  simp [show i < 32 by omega]

/-! ## The flags of fragments -/

theorem getLsbD_fragmentFlags (flags : BitVec 32) (last complete : Bool) (i : Nat) :
    (fragmentFlags flags last complete).word.getLsbD i =
      (flags.getLsbD i || (!last && decide (i = 7)) || (last && complete && decide (i = 6))) := by
  rw [fragmentFlags, Number.word_ofWord, Flag.follows_eq, Flag.complete_eq]
  cases last <;> cases complete <;> simp [BitVec.getLsbD_twoPow, eq_comm]

/-- The first fragment of a message. -/
def opening (f : Frame) (head : Head) (piece : Piece) : Frame where
  streamId := f.streamId
  flags := fragmentFlags (f.flags.word &&& ~~~(Flag.follows ||| Flag.complete)) piece.last
    (f.flags.hasFlag Flag.complete)
  body := .message head piece.payload

/-- A later fragment of a message. -/
def continuation (f : Frame) (piece : Piece) : Frame where
  streamId := f.streamId
  flags := fragmentFlags Flag.next piece.last (f.flags.hasFlag Flag.complete)
  body := .message .payload piece.payload

/-- A message is split into its first fragment and the later ones. -/
theorem split_eq (f : Frame) (head : Head) (payload : Payload) (limit : FragmentLimit) :
    f.split head payload limit =
      f.opening head (payload.pieces limit head.kind.traits.fixedSize).1 ::
        (payload.pieces limit head.kind.traits.fixedSize).2.map f.continuation :=
  rfl

/-- The last fragment, and no other, is without the `follows` bit. -/
theorem follows_opening (f : Frame) (head : Head) (piece : Piece) :
    (f.opening head piece).normal.flags.hasFlag Flag.follows = !piece.last := by
  rw [Number.hasFlag_follows, getLsbD_normal rfl (by decide) (by decide), opening,
    getLsbD_fragmentFlags, Flag.follows_eq]
  simp

theorem follows_continuation (f : Frame) (piece : Piece) :
    (f.continuation piece).normal.flags.hasFlag Flag.follows = !piece.last := by
  rw [Number.hasFlag_follows, getLsbD_normal rfl (by decide) (by decide), continuation,
    getLsbD_fragmentFlags]
  simp [Flag.next]

/-- The last fragment has the `complete` bit of the message. -/
theorem complete_continuation (f : Frame) {piece : Piece} (hlast : piece.last = true) :
    (f.continuation piece).normal.flags.hasFlag Flag.complete = f.flags.hasFlag Flag.complete := by
  rw [Number.hasFlag_complete, getLsbD_normal rfl (by decide) (by decide), continuation,
    getLsbD_fragmentFlags, hlast]
  simp [Flag.next]

end Frame

namespace Chain

/-! ## Turns with the default options -/

/-- A frame that starts a chain. -/
theorem turn_start {f : Frame} {head : Head} {payload : Payload}
    (h : f.body = .message head payload) (hfollows : f.flags.hasFlag Flag.follows = true) :
    turn {} none none f =
      { chain? := some (append ⟨f.streamId, f.flags, head, [], 0⟩ payload)
        result := .ok none } := by
  rw [turn, idleTurn, h]
  dsimp only
  rw [if_pos hfollows]
  rfl

/-- A payload on an open chain. -/
theorem turn_append (chain : Chain) {f : Frame} {payload : Payload}
    (h : f.body = .message .payload payload) :
    turn {} none (some chain) f =
      if f.flags.hasFlag Flag.follows then
        { chain? := some (chain.append payload), result := .ok none }
      else
        { chain? := none, result := .ok (some ((chain.append payload).message f.flags)) } := by
  rw [turn, openTurn, h]
  rfl

/-- A chain with more payloads. -/
def extend (chain : Chain) (pieces : List Piece) : Chain :=
  pieces.foldl (fun grown piece => grown.append piece.payload) chain

theorem extend_eq (chain : Chain) (pieces : List Piece) :
    (chain.extend pieces).streamId = chain.streamId ∧ (chain.extend pieces).flags = chain.flags ∧
      (chain.extend pieces).head = chain.head ∧
      (chain.extend pieces).pieces = chain.pieces ++ pieces.map Piece.payload := by
  induction pieces generalizing chain with
  | nil => exact ⟨rfl, rfl, rfl, (List.append_nil _).symm⟩
  | cons piece rest ih =>
    obtain ⟨hstreamId, hflags, hhead, hpieces⟩ := ih (chain.append piece.payload)
    refine ⟨hstreamId, hflags, hhead, hpieces.trans ?_⟩
    rw [append, List.map_cons, List.append_assoc]
    rfl

/-- Of the last flags a message has the `complete` bit only. -/
theorem message_congr (chain : Chain) {last last' : Number}
    (h : last.hasFlag Flag.complete = last'.hasFlag Flag.complete) :
    chain.message last = chain.message last' := by
  have hword (x : Number) : x.word &&& Flag.complete =
      if x.hasFlag Flag.complete then Flag.complete else 0 := by
    rw [Number.hasFlag_complete, Flag.complete_eq, BitVec.and_twoPow]
    rfl
  rw [message, message, hword, hword, h]

end Chain

namespace Frame

variable {f : Frame} {head : Head} {payload : Payload} {limit : FragmentLimit}

/-! ## A chain completes its message -/

/-- The fixed fields of a message are a request count, or nothing. -/
theorem fixedSize_le (head : Head) : head.kind.traits.fixedSize ≤ Wire.requestNSize := by
  cases head <;> exact Nat.le_of_ble_eq_true rfl

/-- The first fragment has room for a metadata length. -/
theorem room_of_head (limit : FragmentLimit) (head : Head) :
    (Wire.metadataLengthSize : Int) ≤ limit.room head.kind.traits.fixedSize := by
  have := limit.atLeast
  have hfixed := fixedSize_le head
  simp only [FragmentLimit.room, Wire.metadataLengthSize, Wire.minFragmentSize,
    Wire.headerSize, Wire.requestNSize] at this hfixed ⊢
  omega

/-- **The later fragments complete the message of the chain they are
added to.** -/
theorem completes_continuations (f : Frame) (chain : Chain) {left : Payload}
    (hleft : ¬ left.isSpent = true) :
    Completes ((chain.extend (left.continuations limit)).message f.flags) (some chain)
      ((left.continuations limit).map fun piece => (f.continuation piece).normal) := by
  fun_induction Payload.continuations limit left generalizing chain with
  | case1 left hspent => exact absurd hspent hleft
  | case2 left _ share =>
    rename_i ih
    let piece : Piece := ⟨share.piece, share.rest.isSpent⟩
    have hbody : (f.continuation piece).normal.body = .message .payload piece.payload := rfl
    have hturn := chain.turn_append hbody
    rw [follows_continuation] at hturn
    by_cases hspent : share.rest.isSpent = true
    · -- Nothing is left: this is the last fragment.
      have hlast : piece.last = true := hspent
      rw [hlast, Bool.not_true, if_neg Bool.false_ne_true] at hturn
      rw [Payload.continuations_of_isSpent hspent]
      refine .last (hturn.trans ?_)
      rw [Chain.message_congr _ (complete_continuation f hlast)]
      rfl
    · have hlast : piece.last = false := by simpa [piece] using hspent
      rw [hlast, Bool.not_false, if_pos rfl] at hturn
      exact .more hturn (ih (chain.append piece.payload) hspent)

/-- The flags of a message, put together from those of its first fragment
and its own `complete` bit. -/
theorem word_message (hfollows : f.flags.hasFlag Flag.follows = false) {first sent : BitVec 10}
    {described : Bool}
    (hfirst : ∀ i < 10, i ≠ 6 → i ≠ 7 → i ≠ 8 → first.getLsbD i = f.flags.word.getLsbD i)
    (hsent : ∀ i < 10, sent.getLsbD i = if i = 8 then described else f.flags.word.getLsbD i) :
    (first.setWidth 32 &&& ~~~(Flag.follows ||| Flag.complete ||| Flag.metadata)) |||
        (f.flags.word &&& Flag.complete) ||| (if described then Flag.metadata else 0) =
      sent.setWidth 32 := by
  rw [Number.hasFlag_follows] at hfollows
  rw [Flag.follows_eq, Flag.complete_eq, Flag.metadata_eq]
  apply BitVec.eq_of_getLsbD_eq
  intro i hi
  have hdescribed := Flag.getLsbD_ite described (show 8 < 32 by decide) i
  simp only [BitVec.getLsbD_or, BitVec.getLsbD_and, BitVec.getLsbD_not, BitVec.getLsbD_setWidth,
    BitVec.getLsbD_twoPow, hdescribed, hi, decide_true, Bool.true_and]
  by_cases hi10 : i < 10
  · -- Of the first flags three are replaced: `complete`, `follows` and metadata.
    rw [hsent i hi10]
    by_cases h6 : i = 6
    · subst h6
      simp
    by_cases h7 : i = 7
    · subst h7
      simpa using hfollows
    by_cases h8 : i = 8
    · subst h8
      simp
    · rw [hfirst i hi10 h6 h7 h8]
      simp [h8, Ne.symm h6, Ne.symm h7, Ne.symm h8]
  · -- No flag lies above the lowest ten bits.
    have hge : 10 ≤ i := by omega
    rw [BitVec.getLsbD_of_ge first i hge, BitVec.getLsbD_of_ge sent i hge]
    simp [show 6 ≠ i by omega, show i ≠ 8 by omega]

/-- **A chain that was sent in full is the message**, in normal form. -/
theorem message_extend (hbody : f.body = .message head payload) {pieces : List Piece}
    {first : Payload} {flags : BitVec 10}
    (hfollows : f.flags.hasFlag Flag.follows = false)
    (hflags : ∀ i < 10, i ≠ 6 → i ≠ 7 → i ≠ 8 → flags.getLsbD i = f.flags.word.getLsbD i)
    (hconcat : Payload.concat (first :: pieces.map Piece.payload) = payload) :
    ((Chain.append ⟨f.streamId.key, .ofFlags flags, head.normal, [], 0⟩ first).extend
      pieces).message f.flags = f.normal := by
  obtain ⟨hstreamId, hkept, hhead, hpieces⟩ :=
    (Chain.append ⟨f.streamId.key, .ofFlags flags, head.normal, [], 0⟩ first).extend_eq pieces
  obtain ⟨sent, hnormal, hsent⟩ := normal_message hbody
  have hpayload : Payload.concat ((Chain.append ⟨f.streamId.key, .ofFlags flags, head.normal, [],
      0⟩ first).extend pieces).pieces = payload := by
    rw [hpieces]
    exact hconcat
  rw [Chain.message, hpayload, hstreamId, hkept, hhead, hnormal]
  dsimp only [Chain.append]
  rw [Number.word_ofFlags, word_message hfollows hflags hsent, Number.ofWord_setWidth]

/-- **The fragments a message is split into complete it.** -/
theorem completes_split (hbody : f.body = .message head payload)
    (hfollows : f.flags.hasFlag Flag.follows = false)
    (hlong : (limit.room head.kind.traits.fixedSize : Int) <
      metadataSize payload.metadata + payload.data.length) :
    Completes f.normal none ((f.split head payload limit).map normal) := by
  have hroom := room_of_head limit head
  let share := payload.cut true (limit.room head.kind.traits.fixedSize)
  -- The first fragment cannot hold it all, so a chain is started.
  have hleft : ¬ share.rest.isSpent = true := by
    intro hspent
    have := Payload.size_le_of_isSpent_rest hroom hspent
    omega
  let piece : Piece := ⟨share.piece, share.rest.isSpent⟩
  have hlast : piece.last = false := by simpa [piece] using hleft
  have hstarts : (f.opening head piece).normal.flags.hasFlag Flag.follows = true := by
    rw [follows_opening, hlast, Bool.not_false]
  obtain ⟨flags, hnormal, hbits⟩ := @normal_message (f.opening head piece) head share.piece rfl
  have hflags : ∀ i < 10, i ≠ 6 → i ≠ 7 → i ≠ 8 → flags.getLsbD i = f.flags.word.getLsbD i := by
    intro i hi h6 h7 h8
    rw [hbits i hi, if_neg h8, opening, getLsbD_fragmentFlags, Flag.follows_eq, Flag.complete_eq]
    simp [h6, h7, show i < 32 by omega]
  have hconcat := Payload.concat_pieces limit head.kind.traits.fixedSize payload
  have hturn := @Chain.turn_start (f.opening head piece).normal head.normal share.piece
    (by rw [hnormal]) hstarts
  rw [split_eq, List.map_cons, List.map_map]
  refine .more hturn ?_
  rw [hnormal, ← message_extend hbody hfollows hflags hconcat]
  exact completes_continuations f _ hleft

/-! ## The fragments that are sent -/

/-- A message that is not itself a fragment with more to follow. Bodies
of other kinds use the bit as they like. -/
def IsWhole (f : Frame) : Prop :=
  ∀ head payload, f.body = .message head payload → f.flags.hasFlag Flag.follows = false

theorem forall₂_of_mapM {frames : List Frame} {chain : List Bytes}
    (h : frames.mapM encode = .ok chain)
    (hsize : ∀ g ∈ frames, ∃ size, g.size = .ok size ∧ size ≤ limit.bytes) :
    List.Forall₂ IsRead (frames.map normal) chain := by
  induction frames generalizing chain with
  | nil =>
    cases h
    exact .nil
  | cons g rest ih =>
    rw [List.mapM_cons, bind_eq_ok_iff] at h
    obtain ⟨bytes, hg, h⟩ := h
    obtain ⟨later, hrest, h⟩ := bind_eq_ok_iff.1 h
    cases h
    obtain ⟨size, hgsize, hle⟩ := hsize g List.mem_cons_self
    exact .cons (isRead_of_encode hg hgsize (hle.trans limit.atMost))
      (ih hrest fun other hmem => hsize other (List.mem_cons_of_mem _ hmem))

theorem size_of_message (h : f.body = .message head payload) :
    f.size = .ok (Wire.headerSize + head.kind.traits.fixedSize + metadataSize payload.metadata +
      payload.data.length) := by
  rw [size_of_kind (kind_of_message h), metadata, data, h]
  rfl

/-- Every fragment has the size asked for, or less. -/
theorem size_of_mem_split {g : Frame} (h : g ∈ f.split head payload limit) :
    ∃ size, g.size = .ok size ∧ size ≤ limit.bytes := by
  rw [split_eq] at h
  rcases List.mem_cons.1 h with rfl | hlater
  · refine ⟨_, size_of_message rfl, ?_⟩
    have hroom := @Payload.size_piece_le payload true _ (room_of_head limit head)
    simp only [FragmentLimit.room] at hroom
    simp only [Payload.pieces, FragmentLimit.room]
    omega
  · obtain ⟨piece, hpiece, rfl⟩ := List.mem_map.1 hlater
    refine ⟨_, size_of_message rfl, ?_⟩
    have hroom := Payload.size_le_of_mem_continuations hpiece
    have hfixed : Head.payload.kind.traits.fixedSize = 0 := rfl
    simp only [FragmentLimit.room] at hroom
    rw [hfixed]
    omega

/-- A frame that passes on an idle stream. -/
theorem turn_whole {kind : FrameKind} (hkind : f.kind = .ok kind) (hwhole : f.IsWhole) :
    Chain.turn {} none none f = { chain? := none, result := .ok (some f) } := by
  rw [Frame.kind] at hkind
  rw [Chain.turn, Chain.idleTurn]
  cases hbody : f.body with
  | message head payload => simp [hwhole head payload hbody]
  | unassigned code unused =>
    rw [hbody] at hkind
    cases hkind
  | _ => rfl

/-- A frame that is read whole from what it is sent as. -/
theorem turn_normal {total : Nat} (hsize : f.size = .ok total) (hwhole : f.IsWhole) :
    Chain.turn {} none none f.normal = { chain? := none, result := .ok (some f.normal) } := by
  obtain ⟨kind, hkind⟩ := exists_kind_of_size hsize
  have hnormal : f.normal.kind = .ok kind := (Body.kind_normal _).trans hkind
  refine turn_whole hnormal ?_
  intro head payload hbody
  have hnormalbody : f.body.normal = .message head payload := hbody
  cases hf : f.body with
  | message given carried =>
    rw [Number.hasFlag_follows, getLsbD_normal hf (by decide) (by decide),
      ← Number.hasFlag_follows]
    exact hwhole given carried hf
  | _ =>
    -- A body that is not a message is not read as one.
    rw [hf] at hnormalbody
    cases hnormalbody

/-- What is sent for a frame is the frame, where it fits, or a chain. -/
theorem fragments_cases {size : Number} {chain : List Bytes} (h : f.fragments size = .ok chain) :
    ∃ limit total, f.size = .ok total ∧
      ((total ≤ limit.bytes ∧ ∃ bytes, f.encode = .ok bytes ∧ chain = [bytes]) ∨
        (limit.bytes < total ∧ ∃ head payload, f.body = .message head payload ∧
          (f.split head payload limit).mapM encode = .ok chain)) := by
  rw [fragments, bind_eq_ok_iff] at h
  obtain ⟨limit, -, h⟩ := h
  obtain ⟨total, hsize, h⟩ := bind_eq_ok_iff.1 h
  refine ⟨limit, total, hsize, ?_⟩
  split at h
  · rename_i hfits
    obtain ⟨bytes, hencode, h⟩ := bind_eq_ok_iff.1 h
    cases h
    exact .inl ⟨hfits, bytes, hencode, rfl⟩
  · rename_i hlong
    refine .inr ⟨Nat.not_le.1 hlong, ?_⟩
    split at h
    · rename_i head payload hbody
      exact ⟨head, payload, hbody, h⟩
    · obtain ⟨kind, -, h⟩ := bind_eq_ok_iff.1 h
      cases h

/-- **What is sent for a message completes it.** Its fragments are read
as frames of its stream, none longer than a frame may be, and the last of
them brings the message out, in normal form. -/
theorem fragments_complete {size : Number} {chain : List Bytes}
    (h : f.fragments size = .ok chain) (hwhole : f.IsWhole) :
    ∃ frames, Completes f.normal none frames ∧ List.Forall₂ IsRead frames chain ∧
      ∀ g ∈ frames, g.streamId = f.streamId.key := by
  obtain ⟨limit, total, hsize, hcases⟩ := fragments_cases h
  rcases hcases with ⟨hfits, bytes, hencode, rfl⟩ | ⟨hlong, head, payload, hbody, hchain⟩
  · refine ⟨[f.normal], .last (turn_normal hsize hwhole),
      .cons (isRead_of_encode hencode hsize (hfits.trans limit.atMost)) .nil, ?_⟩
    intro g hg
    rw [List.mem_singleton.1 hg]
    rfl
  · -- The message did not fit, so it was split.
    rw [size_of_message hbody] at hsize
    injection hsize with hsize
    have hroom : limit.room head.kind.traits.fixedSize <
        metadataSize payload.metadata + payload.data.length := by
      rw [FragmentLimit.room]
      omega
    refine ⟨_, completes_split hbody (hwhole head payload hbody) hroom,
      forall₂_of_mapM hchain fun g hg => size_of_mem_split hg, ?_⟩
    intro g hg
    obtain ⟨fragment, hfragment, rfl⟩ := List.mem_map.1 hg
    rw [split_eq] at hfragment
    rcases List.mem_cons.1 hfragment with rfl | hlater
    · rfl
    · obtain ⟨piece, -, rfl⟩ := List.mem_map.1 hlater
      rfl

end Frame

end StreamWire
