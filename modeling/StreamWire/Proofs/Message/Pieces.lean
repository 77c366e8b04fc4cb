import StreamWire.Message.Assembler
import StreamWire.Message.Fragments
/-!
# Pieces — a payload cut up and joined again

What one frame takes of a payload and what it leaves make the payload
again (`Payload.cut_join`), and so do all the shares it is sent in
(`Payload.concat_pieces`). A share fits the room it is given and fills it
unless nothing is left (`Payload.size_piece_eq`), and where a payload is
sent in one share it was short enough for it. All of this is read off the
two ways in which a share is taken (`Payload.cut_cases`).
-/

namespace StreamWire

namespace Payload

/-! ## One payload behind another -/

/-- Two payloads as one. Metadata is present if either has some. -/
def join (p q : Payload) : Payload where
  metadata :=
    if p.metadata.isSome || q.metadata.isSome then
      some (p.metadata.getD [] ++ q.metadata.getD [])
    else none
  data := p.data ++ q.data

/-- The metadata of several payloads, absent metadata as none at all. -/
theorem flatten_metadata (pieces : List Payload) :
    (pieces.filterMap (·.metadata)).flatten =
      (pieces.map fun piece => piece.metadata.getD []).flatten := by
  induction pieces with
  | nil => rfl
  | cons piece rest ih =>
    rw [List.filterMap_cons, List.map_cons, List.flatten_cons, ← ih]
    cases piece.metadata <;> rfl

theorem getD_metadata_concat (pieces : List Payload) :
    (concat pieces).metadata.getD [] = (pieces.filterMap (·.metadata)).flatten := by
  rw [concat]
  dsimp only
  split
  · rfl
  · rename_i hnone
    rw [flatten_metadata]
    simp only [List.any_eq_true, not_exists, not_and, Bool.not_eq_true, Option.isSome_eq_false_iff,
      Option.isNone_iff_eq_none] at hnone
    symm
    simp only [Option.getD_none, List.flatten_eq_nil_iff, List.mem_map, forall_exists_index,
      and_imp]
    rintro _ piece hpiece rfl
    rw [hnone piece hpiece, Option.getD_none]

theorem isSome_metadata_concat (pieces : List Payload) :
    (concat pieces).metadata.isSome = pieces.any (·.metadata.isSome) := by
  rw [concat]
  dsimp only
  split <;> simp_all

/-- **Payloads are put one behind the other in any grouping.** -/
theorem concat_append (before after : List Payload) :
    concat (before ++ after) = (concat before).join (concat after) := by
  rw [join, isSome_metadata_concat, isSome_metadata_concat, getD_metadata_concat,
    getD_metadata_concat]
  rw [concat, List.any_append, List.filterMap_append, List.flatten_append, List.map_append,
    List.flatten_append]
  rfl

@[simp] theorem concat_singleton (piece : Payload) : concat [piece] = piece := by
  obtain ⟨metadata, data⟩ := piece
  cases metadata <;> simp [concat]

theorem join_assoc (p q r : Payload) : (p.join q).join r = p.join (q.join r) := by
  obtain ⟨first, _⟩ := p
  obtain ⟨second, _⟩ := q
  obtain ⟨third, _⟩ := r
  cases first <;> cases second <;> cases third <;> simp [join]

theorem size_join (p q : Payload) : (p.join q).size = p.size + q.size := by
  obtain ⟨metadata, data⟩ := p
  obtain ⟨metadata', data'⟩ := q
  cases metadata <;> cases metadata' <;> simp [join, size] <;> omega

theorem getD_metadata_join (p q : Payload) :
    (p.join q).metadata.getD [] = p.metadata.getD [] ++ q.metadata.getD [] := by
  obtain ⟨metadata, data⟩ := p
  obtain ⟨metadata', data'⟩ := q
  cases metadata <;> cases metadata' <;> rfl

/-- Of a spent payload nothing is missed. -/
theorem join_of_isSpent {p rest : Payload} (hspent : rest.isSpent = true)
    (hsome : rest.metadata.isSome = true → p.metadata.isSome = true) : p.join rest = p := by
  obtain ⟨metadata, data⟩ := p
  obtain ⟨rest, more⟩ := rest
  simp only [isSpent, Bool.and_eq_true, List.isEmpty_iff] at hspent
  obtain ⟨hmetadata, rfl⟩ := hspent
  cases metadata with
  | none =>
    cases rest with
    | none => simp [join]
    | some block => cases hsome rfl
  | some block => simp [join, hmetadata]

/-! ## One frame's share -/

variable {p : Payload} {opening : Bool} {room : Int} {limit : FragmentLimit}

/-- **A frame takes metadata first, where it takes any.** It does not where
there is none left, unless it is the first and there was some. -/
theorem cut_cases (p : Payload) (opening : Bool) (room : Int) :
    (∃ block, p.metadata = some block ∧ (opening = true ∨ block ≠ []) ∧
      let taken := block.take (room - Wire.metadataLengthSize).toNat
      let forData := (room - Wire.metadataLengthSize - taken.length).toNat
      p.cut opening room =
        ⟨⟨some taken, p.data.take forData⟩,
          ⟨some (block.drop taken.length), p.data.drop forData⟩⟩) ∨
    (p.metadata.getD [] = [] ∧ (opening = true → p.metadata = none) ∧
      p.cut opening room =
        ⟨⟨none, p.data.take room.toNat⟩, ⟨p.metadata, p.data.drop room.toNat⟩⟩) := by
  rw [cut]
  rcases hmetadata : p.metadata with _ | block
  · exact .inr ⟨rfl, fun _ => rfl, rfl⟩
  by_cases hblock : (opening || !block.isEmpty) = true
  · refine .inl ⟨block, rfl, ?_, if_pos hblock⟩
    simpa using hblock
  · refine .inr ⟨?_, fun hopening => ?_, if_neg hblock⟩
    · simp only [Bool.or_eq_true, Bool.not_eq_true', not_or, Bool.not_eq_false] at hblock
      exact List.isEmpty_iff.1 hblock.2
    · rw [hopening, Bool.true_or] at hblock
      exact absurd rfl hblock

/-- **A share and what it leaves make the payload again.** -/
theorem cut_join (p : Payload) (opening : Bool) (room : Int) :
    (p.cut opening room).piece.join (p.cut opening room).rest = p := by
  rcases p.cut_cases opening room with ⟨block, hblock, -, hcut⟩ | ⟨-, -, hcut⟩
  · rw [hcut]
    simp only [join, Option.isSome_some, Bool.or_self, if_true, Option.getD_some,
      List.take_append_drop]
    rw [List.length_take, List.take_eq_take_min, List.take_append_drop, ← hblock]
  · obtain ⟨metadata, data⟩ := p
    rw [hcut]
    cases metadata <;> simp [join]

/-- What is left has metadata, if only an empty block, where there was
some. -/
theorem isSome_metadata_rest :
    (p.cut opening room).rest.metadata.isSome = p.metadata.isSome := by
  rcases p.cut_cases opening room with ⟨block, hblock, -, hcut⟩ | ⟨-, -, hcut⟩
  · rw [hcut, hblock]
    rfl
  · rw [hcut]

/-- The first share has metadata where there is some. -/
theorem isSome_metadata_opening :
    (p.cut true room).piece.metadata.isSome = p.metadata.isSome := by
  rcases p.cut_cases true room with ⟨block, hblock, -, hcut⟩ | ⟨-, hnone, hcut⟩
  · rw [hcut, hblock]
    rfl
  · rw [hcut, hnone rfl]

/-- A share fits its room. -/
theorem size_piece_le (hroom : (Wire.metadataLengthSize : Int) ≤ room) :
    (Frame.metadataSize (p.cut opening room).piece.metadata : Int) +
      (p.cut opening room).piece.data.length ≤ room := by
  simp only [Wire.metadataLengthSize] at hroom
  rcases p.cut_cases opening room with ⟨block, -, -, hcut⟩ | ⟨-, -, hcut⟩
  · rw [hcut]
    simp only [Frame.metadataSize, Wire.metadataLengthSize, List.length_take]
    omega
  · rw [hcut]
    simp only [Frame.metadataSize, List.length_take]
    omega

/-- **A share that leaves something fills its room.** -/
theorem size_piece_eq (hroom : (Wire.metadataLengthSize : Int) ≤ room)
    (hleft : ¬ (p.cut opening room).rest.isSpent = true) :
    (Frame.metadataSize (p.cut opening room).piece.metadata : Int) +
      (p.cut opening room).piece.data.length = room := by
  simp only [Wire.metadataLengthSize] at hroom
  rcases p.cut_cases opening room with ⟨block, -, -, hcut⟩ | ⟨hnone, -, hcut⟩
  · rw [hcut] at hleft ⊢
    simp only [isSpent, Option.getD_some, Bool.and_eq_true, List.isEmpty_iff,
      List.drop_eq_nil_iff, List.length_take, Wire.metadataLengthSize] at hleft
    simp only [Frame.metadataSize, Wire.metadataLengthSize, List.length_take]
    omega
  · rw [hcut] at hleft ⊢
    simp only [isSpent, hnone, List.isEmpty_nil, Bool.true_and, List.isEmpty_iff,
      List.drop_eq_nil_iff] at hleft
    simp only [Frame.metadataSize, List.length_take]
    omega

/-- **Data is taken after the last of the metadata.** -/
theorem metadata_rest_of_data (hroom : (Wire.metadataLengthSize : Int) ≤ room)
    (hdata : (p.cut opening room).piece.data ≠ []) :
    (p.cut opening room).rest.metadata.getD [] = [] := by
  simp only [Wire.metadataLengthSize] at hroom
  rcases p.cut_cases opening room with ⟨block, -, -, hcut⟩ | ⟨hnone, -, hcut⟩
  · rw [hcut] at hdata ⊢
    simp only [ne_eq, List.take_eq_nil_iff, not_or, List.length_take,
      Wire.metadataLengthSize] at hdata
    simp only [Option.getD_some, List.drop_eq_nil_iff, List.length_take,
      Wire.metadataLengthSize]
    omega
  · rw [hcut]
    exact hnone

/-- A later share announces metadata exactly where it carries some. -/
theorem isSome_metadata_later (hroom : (Wire.metadataLengthSize : Int) < room) :
    (p.cut false room).piece.metadata.isSome = true ↔
      (p.cut false room).piece.metadata.getD [] ≠ [] := by
  simp only [Wire.metadataLengthSize] at hroom
  rcases p.cut_cases false room with ⟨block, -, hblock, hcut⟩ | ⟨-, -, hcut⟩
  · have hne : block ≠ [] := hblock.resolve_left Bool.false_ne_true
    rw [hcut]
    simp only [Option.isSome_some, Option.getD_some, ne_eq, List.take_eq_nil_iff, true_iff,
      not_or, Wire.metadataLengthSize]
    exact ⟨by omega, hne⟩
  · rw [hcut]
    simp

/-- A share of what is not spent carries something. -/
theorem size_piece_pos (hroom : (Wire.metadataLengthSize : Int) < room)
    (hleft : ¬ p.isSpent = true) : 0 < (p.cut opening room).piece.size := by
  have hless := @size_rest_lt p opening room hroom hleft
  have htotal := congrArg size (cut_join p opening room)
  rw [size_join] at htotal
  omega

/-- What the first share does not leave was short enough for it. -/
theorem size_le_of_isSpent_rest (hroom : (Wire.metadataLengthSize : Int) ≤ room)
    (hspent : (p.cut true room).rest.isSpent = true) :
    (Frame.metadataSize p.metadata : Int) + p.data.length ≤ room := by
  simp only [Wire.metadataLengthSize] at hroom
  rcases p.cut_cases true room with ⟨block, hblock, -, hcut⟩ | ⟨-, hnone, hcut⟩
  · rw [hcut] at hspent
    simp only [isSpent, Option.getD_some, Bool.and_eq_true, List.isEmpty_iff,
      List.drop_eq_nil_iff, List.length_take, Wire.metadataLengthSize] at hspent
    simp only [hblock, Frame.metadataSize, Wire.metadataLengthSize]
    omega
  · rw [hcut] at hspent
    simp only [isSpent, hnone rfl, Option.getD_none, List.isEmpty_nil, Bool.true_and,
      List.isEmpty_iff, List.drop_eq_nil_iff] at hspent
    simp only [hnone rfl, Frame.metadataSize]
    omega

/-! ## All the shares -/

theorem continuations_of_isSpent (h : p.isSpent = true) : p.continuations limit = [] := by
  rw [continuations, if_pos h]

/-- **The shares of a payload make it again**, behind those that were
sent before. -/
theorem concat_continuations {before : List Payload}
    (hsome : p.metadata.isSome = true → (concat before).metadata.isSome = true) :
    concat (before ++ (p.continuations limit).map Piece.payload) = (concat before).join p := by
  fun_induction continuations limit p generalizing before with
  | case1 p hspent =>
    rw [List.map_nil, List.append_nil, join_of_isSpent hspent hsome]
  | case2 p hleft share =>
    rename_i ih
    -- What was sent before already tells that there is metadata.
    have hrest : share.rest.metadata.isSome = true →
        (concat (before ++ [share.piece])).metadata.isSome = true := by
      intro hsome'
      rw [isSome_metadata_rest] at hsome'
      have hbefore := hsome hsome'
      rw [isSome_metadata_concat] at hbefore ⊢
      rw [List.any_append, hbefore, Bool.true_or]
    have hshare : (concat before).join (share.piece.join share.rest) = (concat before).join p := by
      rw [cut_join]
    rw [List.map_cons, List.append_cons, ih hrest, concat_append, concat_singleton, join_assoc,
      hshare]

/-- **All the shares of a payload make it again.** -/
theorem concat_pieces (limit : FragmentLimit) (fixedSize : Nat) (p : Payload) :
    concat ((p.pieces limit fixedSize).1.payload ::
      (p.pieces limit fixedSize).2.map Piece.payload) = p := by
  let share := p.cut true (limit.room fixedSize)
  have hsome : share.rest.metadata.isSome = true →
      (concat [share.piece]).metadata.isSome = true := by
    rw [isSome_metadata_rest, concat_singleton, isSome_metadata_opening]
    exact id
  have hall := @concat_continuations _ limit _ hsome
  rwa [concat_singleton, cut_join] at hall

/-- Every later share was taken of something that was left. -/
theorem exists_cut_of_mem_continuations {piece : Piece}
    (h : piece ∈ p.continuations limit) :
    ∃ left : Payload, ¬ left.isSpent = true ∧
      piece = ⟨(left.cut false (limit.room 0)).piece,
        (left.cut false (limit.room 0)).rest.isSpent⟩ := by
  fun_induction continuations limit p with
  | case1 p hspent => cases h
  | case2 p hleft share =>
    rename_i ih
    rcases List.mem_cons.1 h with rfl | hlater
    · exact ⟨p, hleft, rfl⟩
    · exact ih hlater

/-- Every share fits the room of its frame. -/
theorem size_le_of_mem_continuations {piece : Piece} (h : piece ∈ p.continuations limit) :
    (Frame.metadataSize piece.payload.metadata : Int) + piece.payload.data.length ≤
      limit.room 0 := by
  obtain ⟨left, -, rfl⟩ := exists_cut_of_mem_continuations h
  exact size_piece_le (Int.le_of_lt limit.metadataLengthSize_lt_room)

end Payload

end StreamWire
