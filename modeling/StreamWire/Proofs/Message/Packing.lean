import StreamWire.Proofs.Message.Delivery
/-!
# Packing — how a message fills its fragments

A message that does not fit one frame is split so that no room is wasted:
every fragment but the last is as long as was asked for, and metadata goes
out before data. What one frame takes of a payload fills it unless nothing
is left (`Payload.size_piece_eq`), and what it takes of the data it takes
after the last of the metadata (`Payload.metadata_rest_of_data`). From
these two the chain of a message is described fragment by fragment
(`Frame.fragments_packed`): the first has the kind, fields and flags of
the message, the later ones are payloads that carry something each.
-/

namespace StreamWire

namespace Payload

variable {p : Payload} {limit : FragmentLimit} {piece : Piece}

/-! ## All the shares -/

/-- **The last share is the one that leaves nothing.** -/
theorem exists_continuations_eq (hleft : ¬ p.isSpent = true) :
    ∃ more last, p.continuations limit = more ++ [last] ∧ last.last = true ∧
      ∀ piece ∈ more, piece.last = false := by
  fun_induction continuations limit p with
  | case1 p hspent => exact absurd hspent hleft
  | case2 p _ share =>
    rename_i ih
    by_cases hspent : share.rest.isSpent = true
    · refine ⟨[], ⟨share.piece, share.rest.isSpent⟩, ?_, hspent, fun _ hmem => ?_⟩
      · rw [continuations_of_isSpent hspent, List.nil_append]
      · exact absurd hmem List.not_mem_nil
    · obtain ⟨more, last, hlater, hlast, hmore⟩ := ih hspent
      refine ⟨⟨share.piece, share.rest.isSpent⟩ :: more, last, ?_, hlast, ?_⟩
      · rw [hlater, List.cons_append]
      · rw [List.forall_mem_cons]
        exact ⟨by simpa using hspent, hmore⟩

/-- Where no metadata is left, no later share carries any. -/
theorem metadata_of_mem_continuations (hnone : p.metadata.getD [] = [])
    (h : piece ∈ p.continuations limit) : piece.payload.metadata.getD [] = [] := by
  fun_induction continuations limit p with
  | case1 p hspent => cases h
  | case2 p hleft share =>
    rename_i ih
    have hshare := getD_metadata_join share.piece share.rest
    rw [cut_join, hnone, eq_comm, List.append_eq_nil_iff] at hshare
    rcases List.mem_cons.1 h with rfl | hlater
    · exact hshare.1
    · exact ih hshare.2 hlater

/-- No later share carries metadata after one that carries data. -/
theorem pairwise_continuations (limit : FragmentLimit) (p : Payload) :
    (p.continuations limit).Pairwise fun piece later =>
      piece.payload.data ≠ [] → later.payload.metadata.getD [] = [] := by
  have hroom := Int.le_of_lt limit.metadataLengthSize_lt_room
  fun_induction continuations limit p with
  | case1 p hspent => exact List.Pairwise.nil
  | case2 p hleft share =>
    rename_i ih
    refine List.Pairwise.cons (fun later hlater hdata => ?_) ih
    exact metadata_of_mem_continuations (metadata_rest_of_data hroom hdata) hlater

theorem pairwise_pieces {fixedSize : Nat}
    (hroom : (Wire.metadataLengthSize : Int) ≤ limit.room fixedSize) (p : Payload) :
    ((p.pieces limit fixedSize).1.payload ::
      (p.pieces limit fixedSize).2.map Piece.payload).Pairwise fun piece later =>
        piece.data ≠ [] → later.metadata.getD [] = [] := by
  refine List.Pairwise.cons ?_ (List.pairwise_map.2 (pairwise_continuations limit _))
  intro later hlater hdata
  obtain ⟨piece, hpiece, rfl⟩ := List.mem_map.1 hlater
  exact metadata_of_mem_continuations (metadata_rest_of_data hroom hdata) hpiece

end Payload

namespace Frame

variable {f g : Frame} {head : Head} {payload : Payload} {limit : FragmentLimit} {piece : Piece}

/-! ## The flags of fragments -/

/-- The flags of the first of several fragments: those of the message,
without `complete` and with `follows`, and the metadata bit as told. -/
def openingFlags (f : Frame) (described : Bool) : BitVec 10 :=
  ((f.flags.word &&& ~~~(Flag.complete ||| Flag.metadata)) ||| Flag.follows |||
    (if described then Flag.metadata else 0)).setWidth 10

/-- The flags of a later fragment: `next`, the metadata bit as told, and
`follows` unless it is the last, which has `complete` as told. -/
def continuationFlags (described last done : Bool) : BitVec 10 :=
  (Flag.next ||| (if described then Flag.metadata else 0) |||
    (if last then (if done then Flag.complete else 0) else Flag.follows)).setWidth 10

theorem wireFlags_opening (f : Frame) (head : Head) (hmore : piece.last = false) :
    (f.opening head piece).wireFlags = .ok (f.openingFlags piece.payload.metadata.isSome) := by
  have hkind : (f.opening head piece).kind = .ok head.kind := kind_of_message rfl
  have hmetadata : (f.opening head piece).metadata = piece.payload.metadata :=
    metadata_of_message rfl
  have hraw : head.kind.traits.raw = false := by cases head <;> rfl
  obtain ⟨flags, hflags⟩ := exists_wireFlags hkind
  rw [hflags, openingFlags]
  congr 1
  apply BitVec.eq_of_getLsbD_eq
  intro i hi
  have hdescribed :=
    Flag.getLsbD_ite piece.payload.metadata.isSome (show 8 < 32 by decide) i
  rw [getLsbD_wireFlags hkind hflags, hraw, hmetadata, Number.wireFlags, BitVec.getLsbD_setWidth,
    BitVec.getLsbD_setWidth, opening, getLsbD_fragmentFlags, hmore, Flag.follows_eq,
    Flag.complete_eq, Flag.metadata_eq]
  simp only [BitVec.getLsbD_or, BitVec.getLsbD_and, BitVec.getLsbD_not, BitVec.getLsbD_twoPow,
    hdescribed, hi, show i < 32 by omega, decide_true, Bool.true_and]
  -- Three bits are not those of the message: `complete`, `follows` and metadata.
  by_cases h6 : i = 6
  · subst h6
    simp
  by_cases h7 : i = 7
  · subst h7
    simp
  by_cases h8 : i = 8
  · subst h8
    simp
  · simp [h6, h7, h8, Ne.symm h6, Ne.symm h7, Ne.symm h8]

theorem wireFlags_continuation (f : Frame) (piece : Piece) :
    (f.continuation piece).wireFlags =
      .ok (continuationFlags piece.payload.metadata.isSome piece.last
        (f.flags.hasFlag Flag.complete)) := by
  have hmetadata : (f.continuation piece).metadata = piece.payload.metadata :=
    metadata_of_message rfl
  have hraw : ¬ Head.payload.kind.traits.raw = true := Bool.false_ne_true
  rw [wireFlags_of_kind rfl, hmetadata, if_neg hraw, continuation, fragmentFlags,
    Number.wireFlags, Number.word_ofWord]
  congr 1
  cases piece.last <;> cases f.flags.hasFlag Flag.complete <;>
    cases piece.payload.metadata.isSome <;> decide

/-! ## What each fragment is -/

/-- A frame is the first of several fragments of a message: it has the
kind and fields of the message, and says whether there is metadata. -/
structure Opens (g f : Frame) (head : Head) : Prop where
  streamId_eq : g.streamId = f.streamId
  body_eq : g.body = .message head.normal g.payload
  isSome_metadata_eq : g.metadata.isSome = f.metadata.isSome
  flags_eq : g.flags = .ofFlags (f.openingFlags f.metadata.isSome)

/-- A frame is a later fragment of a message: a payload that is not empty,
with the metadata bit where it carries metadata. -/
structure Continues (g f : Frame) (last : Bool) : Prop where
  streamId_eq : g.streamId = f.streamId
  body_eq : g.body = .message .payload g.payload
  size_pos : 0 < g.payload.size
  flags_eq : g.flags = .ofFlags (continuationFlags (!(g.metadata.getD []).isEmpty) last
    (f.flags.hasFlag Flag.complete))

theorem payload_normal (h : g.body = .message head payload) : g.normal.payload = payload := by
  have hbody : g.normal.body = .message head.normal payload := by
    rw [← Body.normal_message, ← h]
    rfl
  rw [Frame.payload, metadata, data, hbody]
  rfl

theorem IsSendable.opens (h : f.IsSendable head payload) (hmore : piece.last = false)
    (hsome : piece.payload.metadata.isSome = payload.metadata.isSome) :
    (f.opening head piece).normal.Opens f head := by
  have hmetadata := metadata_of_message h.body_eq
  have hnormal := normal_of_wireFlags (wireFlags_opening f head hmore)
  have hbody : (f.opening head piece).normal.body = .message head.normal piece.payload :=
    Body.normal_message head piece.payload
  constructor
  · exact h.key_eq
  · rw [hbody, payload_normal rfl]
  · rw [metadata_of_message hbody, hsome, hmetadata]
  · rw [hnormal, hmetadata, hsome]

theorem IsSendable.continues (h : f.IsSendable head payload) {left : Payload}
    (hpiece : piece ∈ left.continuations limit) :
    (f.continuation piece).normal.Continues f piece.last := by
  have hroom := limit.metadataLengthSize_lt_room
  obtain ⟨rest, hleft, rfl⟩ := Payload.exists_cut_of_mem_continuations hpiece
  have hsome := @Payload.isSome_metadata_later rest _ hroom
  have hnormal := normal_of_wireFlags (wireFlags_continuation f
    ⟨(rest.cut false (limit.room 0)).piece, (rest.cut false (limit.room 0)).rest.isSpent⟩)
  constructor
  · exact h.key_eq
  · rw [payload_normal rfl]
    rfl
  · rw [payload_normal rfl]
    exact Payload.size_piece_pos hroom hleft
  · have hdescribed : (rest.cut false (limit.room 0)).piece.metadata.isSome =
        !((rest.cut false (limit.room 0)).piece.metadata.getD []).isEmpty := by
      rw [Bool.eq_iff_iff, hsome, Bool.not_eq_true', ← Bool.not_eq_true, List.isEmpty_iff]
    rw [hnormal, hdescribed]
    rfl

/-! ## How long each fragment is -/

/-- A message that does not fit one frame is not sent in one. -/
theorem not_isSpent_rest (hbody : f.body = .message head payload) {size : Nat}
    (hsize : f.size = .ok size) (hlong : limit.bytes < size) :
    ¬ (payload.cut true (limit.room head.kind.traits.fixedSize)).rest.isSpent = true := by
  intro hspent
  have hfits := Payload.size_le_of_isSpent_rest (room_of_head limit head) hspent
  have htotal := hsize.symm.trans (size_of_message hbody)
  injection htotal with htotal
  rw [FragmentLimit.room] at hfits
  omega

/-- The first fragment of a message that does not fit one is full. -/
theorem size_opening
    (hleft : ¬ (payload.cut true (limit.room head.kind.traits.fixedSize)).rest.isSpent = true) :
    (f.opening head (payload.pieces limit head.kind.traits.fixedSize).1).size =
      .ok limit.bytes := by
  have hfull := Payload.size_piece_eq (room_of_head limit head) hleft
  rw [size_of_message rfl]
  congr 1
  simp only [FragmentLimit.room] at hfull
  simp only [Payload.pieces, FragmentLimit.room]
  omega

/-- A later fragment that is not the last is full. -/
theorem size_continuation {left : Payload} (hpiece : piece ∈ left.continuations limit)
    (hmore : piece.last = false) : (f.continuation piece).size = .ok limit.bytes := by
  obtain ⟨rest, -, rfl⟩ := Payload.exists_cut_of_mem_continuations hpiece
  have hroom := Int.le_of_lt limit.metadataLengthSize_lt_room
  have hfull := Payload.size_piece_eq hroom (Bool.not_eq_true _ |>.mpr hmore)
  have hfixed : Head.payload.kind.traits.fixedSize = 0 := rfl
  rw [size_of_message rfl, hfixed]
  congr 1
  simp only [FragmentLimit.room] at hfull ⊢
  omega

theorem IsSendable.encode_full (h : f.IsSendable head payload)
    (hg : g ∈ f.split head payload limit) (hsize : g.size = .ok limit.bytes) :
    ∃ bytes, g.encode = .ok bytes ∧ bytes.length = limit.bytes := by
  obtain ⟨bytes, hencode, -⟩ := h.encode_split hg
  have hlength := (size_of_encode hencode).symm.trans hsize
  injection hlength with hlength
  exact ⟨bytes, hencode, hlength⟩

/-! ## The whole chain -/

/-- What the fragments carry are the shares of the payload. -/
theorem map_payload_split (f : Frame) (head : Head) (payload : Payload) (limit : FragmentLimit) :
    ((f.split head payload limit).map normal).map Frame.payload =
      (payload.pieces limit head.kind.traits.fixedSize).1.payload ::
        (payload.pieces limit head.kind.traits.fixedSize).2.map Piece.payload := by
  have hlater (piece : Piece) : (f.continuation piece).normal.payload = piece.payload :=
    payload_normal rfl
  rw [split_eq, List.map_cons, List.map_cons, payload_normal rfl, List.map_map, List.map_map]
  simp only [Function.comp_def, hlater]

/-- A message that is not sent in one fragment is split into a first one,
some that follow, and a last. -/
theorem exists_split_eq (f : Frame) (head : Head)
    (hleft : ¬ (payload.cut true (limit.room head.kind.traits.fixedSize)).rest.isSpent = true) :
    ∃ more final,
      (payload.pieces limit head.kind.traits.fixedSize).2 = more ++ [final] ∧
      final.last = true ∧ (∀ piece ∈ more, piece.last = false) ∧
      f.split head payload limit =
        (f.opening head (payload.pieces limit head.kind.traits.fixedSize).1 ::
          more.map f.continuation) ++ [f.continuation final] := by
  obtain ⟨more, final, hlater, hfinal, hmore⟩ := Payload.exists_continuations_eq hleft
  refine ⟨more, final, hlater, hfinal, hmore, ?_⟩
  have hpieces : (payload.pieces limit head.kind.traits.fixedSize).2 = more ++ [final] := hlater
  rw [split_eq, hpieces, List.map_append]
  rfl

/-- **A message is split into full fragments and a last one.** -/
theorem IsSendable.exists_full (h : f.IsSendable head payload)
    (hleft : ¬ (payload.cut true (limit.room head.kind.traits.fixedSize)).rest.isSpent = true) :
    ∃ (full : List Bytes) (last : Bytes),
      (f.split head payload limit).mapM encode = .ok (full ++ [last]) ∧ full ≠ [] ∧
      (∀ bytes ∈ full, bytes.length = limit.bytes) ∧ last.length ≤ limit.bytes := by
  obtain ⟨more, final, hpieces, -, hmore, hsplit⟩ := exists_split_eq f head hleft
  have hfull : ∀ g ∈ f.opening head (payload.pieces limit head.kind.traits.fixedSize).1 ::
      more.map f.continuation, ∃ bytes, g.encode = .ok bytes ∧ bytes.length = limit.bytes := by
    intro g hg
    have hmem : g ∈ f.split head payload limit := by
      rw [hsplit]
      exact List.mem_append_left _ hg
    refine h.encode_full hmem ?_
    rcases List.mem_cons.1 hg with rfl | hlater
    · exact size_opening hleft
    · obtain ⟨piece, hpiece, rfl⟩ := List.mem_map.1 hlater
      have hcontinues : piece ∈ (payload.pieces limit head.kind.traits.fixedSize).2 := by
        rw [hpieces]
        exact List.mem_append_left _ hpiece
      exact size_continuation hcontinues (hmore piece hpiece)
  have hfinal : f.continuation final ∈ f.split head payload limit := by
    rw [hsplit]
    exact List.mem_append_right _ (List.mem_singleton_self _)
  obtain ⟨full, hencode, hlength⟩ := exists_mapM_encode hfull
  obtain ⟨last, hlast, hle⟩ := h.encode_split hfinal
  refine ⟨full, last, ?_, ?_, hlength, hle⟩
  · rw [hsplit, List.mapM_append, hencode, List.mapM_cons, hlast]
    rfl
  · rintro rfl
    rw [List.mapM_cons, bind_eq_ok_iff] at hencode
    obtain ⟨_, -, hencode⟩ := hencode
    obtain ⟨_, -, hencode⟩ := bind_eq_ok_iff.1 hencode
    cases hencode

/-- **A message is split into its opening and the frames that continue
it.** -/
theorem IsSendable.exists_frames (h : f.IsSendable head payload)
    (hleft : ¬ (payload.cut true (limit.room head.kind.traits.fixedSize)).rest.isSpent = true) :
    ∃ opening more final, (f.split head payload limit).map normal = opening :: (more ++ [final]) ∧
      opening.Opens f head ∧ (∀ g ∈ more, g.Continues f false) ∧ final.Continues f true := by
  obtain ⟨more, final, hpieces, hfinal, hmore, hsplit⟩ := exists_split_eq f head hleft
  have hcontinues (piece : Piece) (hpiece : piece ∈ more ++ [final]) :
      (f.continuation piece).normal.Continues f piece.last := by
    rw [← hpieces] at hpiece
    exact h.continues hpiece
  refine ⟨(f.opening head (payload.pieces limit head.kind.traits.fixedSize).1).normal,
    more.map fun piece => (f.continuation piece).normal, (f.continuation final).normal, ?_, ?_,
    ?_, ?_⟩
  · rw [hsplit, List.map_append, List.map_cons, List.map_map]
    rfl
  · exact h.opens (Bool.not_eq_true _ |>.mp hleft) Payload.isSome_metadata_opening
  · intro g hg
    obtain ⟨piece, hpiece, rfl⟩ := List.mem_map.1 hg
    rw [← hmore piece hpiece]
    exact hcontinues piece (List.mem_append_left _ hpiece)
  · rw [← hfinal]
    exact hcontinues final (List.mem_append_right _ (List.mem_singleton_self _))

/-- **The fragments of a message are packed.** A message that does not fit
one frame is sent in at least two: all but the last have just the size
asked for, and the last no more. The first is read as the opening of the
message and the others as payloads on its stream that carry something.
Metadata does not come after data, and together they carry what the
message does. -/
theorem fragments_packed (h : f.IsSendable head payload) {maximum : Nat}
    (hmin : Wire.minFragmentSize ≤ maximum) (hmax : maximum ≤ Wire.maxFrameLength) {size : Nat}
    (hsize : f.size = .ok size) (hlong : maximum < size) :
    ∃ (full : List Bytes) (last : Bytes) (opening : Frame) (more : List Frame) (final : Frame),
      f.fragments (.ofNat maximum) = .ok (full ++ [last]) ∧
      full ≠ [] ∧ (∀ bytes ∈ full, bytes.length = maximum) ∧ last.length ≤ maximum ∧
      (full ++ [last]).mapM decode = .ok (opening :: (more ++ [final])) ∧
      opening.Opens f head ∧ (∀ g ∈ more, g.Continues f false) ∧ final.Continues f true ∧
      (opening :: (more ++ [final])).Pairwise (fun g later =>
        g.data ≠ [] → later.metadata.getD [] = []) ∧
      Payload.concat ((opening :: (more ++ [final])).map Frame.payload) = payload := by
  let limit : FragmentLimit := ⟨maximum, hmin, hmax⟩
  have hlimit : FragmentLimit.ofNumber (.ofNat maximum) = .ok limit :=
    FragmentLimit.ofNumber_eq_ok_iff.2 (Number.key_ofNat maximum)
  have hleft := @not_isSpent_rest f head payload limit h.body_eq size hsize hlong
  obtain ⟨full, last, hchain, hne, hlength, hle⟩ := h.exists_full hleft
  obtain ⟨opening, more, final, hframes, hopens, hmore, hfinal⟩ := h.exists_frames hleft
  have hread := mapM_decode (forall₂_of_mapM hchain fun g hg => size_of_mem_split hg)
  have hpayload := map_payload_split f head payload limit
  have hpairwise := Payload.pairwise_pieces (room_of_head limit head) payload
  rw [hframes] at hread hpayload
  rw [← hpayload] at hpairwise
  refine ⟨full, last, opening, more, final, ?_, hne, hlength, hle, hread, hopens, hmore, hfinal,
    List.pairwise_map.1 hpairwise, ?_⟩
  · rw [fragments_of_message h.body_eq hlimit hsize, if_neg (Nat.not_le.2 hlong)]
    exact hchain
  · rw [hpayload]
    exact Payload.concat_pieces _ _ payload

/-- A request with metadata for more than one frame: the second fragment
ends the metadata and begins the data, and the third is not full. -/
theorem fragments_packed_requestStream :
    let payload : Payload := ⟨some (List.replicate 60 1), List.replicate 70 2⟩
    let head : Head := .requestStream (.ofNat 3)
    let request : Frame := ⟨.ofNat 5, .ofWord Flag.complete, .message head payload⟩
    let first : Bytes := [0, 0, 0, 5, 25, 128, 0, 0, 0, 3, 0, 0, 51] ++ List.replicate 51 1
    let second : Bytes :=
      [0, 0, 0, 5, 41, 160, 0, 0, 9] ++ List.replicate 9 1 ++ List.replicate 46 2
    let third : Bytes := [0, 0, 0, 5, 40, 96] ++ List.replicate 24 2
    let chain := [first, second, third]
    request.fragments (.ofNat 64) = .ok chain ∧
      (∀ bytes ∈ [first, second], bytes.length = 64) ∧ third.length ≤ 64 ∧
      ∃ opening more final, chain.mapM decode = .ok (opening :: (more ++ [final])) ∧
        opening.Opens request head ∧ (∀ g ∈ more, g.Continues request false) ∧
        final.Continues request true ∧
        Payload.concat ((opening :: (more ++ [final])).map Frame.payload) = payload := by
  intro payload head request first second third chain
  have hsendable : request.IsSendable head payload := by
    refine ⟨rfl, ⟨5, rfl, by decide⟩, ?_⟩
    rintro _ ⟨⟩
    exact ⟨3, rfl⟩
  have hsent : request.fragments (.ofNat 64) = .ok ([first, second] ++ [third]) := by
    decide +kernel
  obtain ⟨full, last, opening, more, final, hchain, -, hlength, hle, hread, hopens, hmore, hfinal,
    -, hconcat⟩ := @fragments_packed _ _ _ hsendable 64 (by decide) (by decide) 143 rfl (by decide)
  have hsame := hsent.symm.trans hchain
  injection hsame with hsame
  obtain ⟨rfl, hlast⟩ := List.append_inj' hsame rfl
  cases hlast
  exact ⟨hsent, hlength, hle, opening, more, final, hread, hopens, hmore, hfinal, hconcat⟩

end Frame

end StreamWire
