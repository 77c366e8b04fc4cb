import StreamWire.Proofs.Message.Refusals
/-!
# Splitting — a message cut up round by round

A message that does not fit one frame is split in rounds, one for each
frame. `Splitting` is a message before a round, and every number that a
round works with has a name there: the room for metadata, the room that is
left for data. Both are integers, and a cut at a place below zero would be
made from the wrong end (`upTo`). No round makes such a cut
(`Splitting.inBudget`), so a round takes the share that `Payload.cut` takes
(`Splitting.cut_eq`). Whether a round is the last it finds out by itself,
and whether there is another one is asked before that one; the two agree
(`Splitting.goesOn_next`). The rounds of a message come to an end
(`Splitting.exists_rounds`), and the frames of its chain are what they send
(`Frame.splitting_ends`).
-/

namespace StreamWire

/-- The bytes before a place. A place below zero is counted from the end. -/
def upTo (bytes : Bytes) (place : Int) : Bytes :=
  bytes.take (if place < 0 then bytes.length + place else place).toNat

/-- As many bytes as there are, and no more than a number that is not below
zero. -/
theorem upTo_min (bytes : Bytes) {n : Int} (hn : 0 ≤ n) :
    upTo bytes (min bytes.length n) = bytes.take n.toNat := by
  rw [upTo, if_neg (by omega), List.take_eq_take_iff]
  omega

/-- A message that is being split, before a round: whether its first frame
is still to be sent, and what is left to send. -/
structure Splitting where
  limit : FragmentLimit
  head : Head
  opening : Bool
  left : Payload
deriving DecidableEq, Repr

namespace Splitting

/-- A message of which nothing has been sent. -/
def start (limit : FragmentLimit) (head : Head) (payload : Payload) : Splitting :=
  ⟨limit, head, true, payload⟩

/-- Whether there is another round: for the first frame, and as long as
metadata or data is left. -/
def goesOn (s : Splitting) : Bool :=
  s.opening || s.left.metadata.any (!·.isEmpty) || !s.left.data.isEmpty

/-! ## One round -/

/-- The room for metadata and data in the next frame. The first frame holds
the fixed fields too. -/
def room (s : Splitting) : Int :=
  s.limit.room (if s.opening then s.head.kind.traits.fixedSize else 0)

/-- The metadata that the next frame tells the length of. The first frame
does so even where there is none but an empty block. -/
def announced? (s : Splitting) : Option Bytes :=
  s.left.metadata.filter fun block => s.opening || !block.isEmpty

/-- The room for metadata, behind its length if that is told. -/
def forMetadata (s : Splitting) : Int :=
  if s.announced?.isSome then s.room - Wire.metadataLengthSize else s.room

/-- The metadata in the next frame. -/
def block? (s : Splitting) : Option Bytes :=
  s.announced?.map fun block => upTo block (min block.length s.forMetadata)

/-- The room for data, which the metadata has left. -/
def forData (s : Splitting) : Int := s.forMetadata - (s.block?.getD []).length

/-- The data in the next frame. -/
def data (s : Splitting) : Bytes := upTo s.left.data (min s.left.data.length s.forData)

/-- What is left behind the next frame. -/
def rest (s : Splitting) : Payload where
  metadata := s.left.metadata.map fun block => block.drop (s.block?.getD []).length
  data := s.left.data.drop s.data.length

/-- Whether the next frame is the last. -/
def last (s : Splitting) : Bool := s.rest.metadata.all (·.isEmpty) && s.rest.data.isEmpty

/-- What the next frame carries. -/
def piece (s : Splitting) : Piece := ⟨⟨s.block?, s.data⟩, s.last⟩

/-- The next frame of a message. -/
def frame (s : Splitting) (f : Frame) : Frame :=
  if s.opening then f.opening s.head s.piece else f.continuation s.piece

/-- The message behind the round. -/
def next (s : Splitting) : Splitting := { s with opening := false, left := s.rest }

/-- The rounds from here on, until there is none. -/
inductive Rounds : Splitting → List Splitting → Prop
  | done {s : Splitting} : s.goesOn = false → Rounds s []
  | round {s : Splitting} {later : List Splitting} :
      s.goesOn = true → Rounds s.next later → Rounds s (s :: later)

/-- The numbers a round works with stay within their bounds: there is room
for fifty-one bytes of metadata at least, its length has a place for as
many as are taken, and what they leave for the data is not below zero. -/
structure InBudget (s : Splitting) : Prop where
  forMetadata_ge : 51 ≤ s.forMetadata
  length_block_le : ∀ block ∈ s.block?, block.length ≤ Wire.maxMetadataLength
  forData_nonneg : 0 ≤ s.forData

variable {s : Splitting} {rounds : List Splitting}

/-! ## What a round takes -/

/-- The first frame has four bytes of fixed fields at most, and no other
frame has any. -/
theorem room_bounds (s : Splitting) : 54 ≤ s.room ∧ s.room ≤ Wire.maxMetadataLength := by
  have hmin := s.limit.atLeast
  have hmax := s.limit.atMost
  have hfixed := Frame.fixedSize_le s.head
  rw [Wire.minFragmentSize] at hmin
  rw [Wire.maxFrameLength] at hmax
  rw [Wire.requestNSize] at hfixed
  rw [room, FragmentLimit.room, Wire.headerSize, Wire.maxMetadataLength]
  split <;> omega

theorem forMetadata_bounds (s : Splitting) :
    51 ≤ s.forMetadata ∧ s.forMetadata ≤ Wire.maxMetadataLength := by
  have hroom := s.room_bounds
  rw [forMetadata, Wire.metadataLengthSize]
  split <;> omega

/-- Of the metadata as much is taken as there is room for. -/
theorem block?_eq (s : Splitting) :
    s.block? = s.announced?.map (·.take s.forMetadata.toNat) := by
  have hroom := s.forMetadata_bounds
  rw [block?]
  congr 1
  funext block
  exact upTo_min block (by omega)

theorem length_block_le (s : Splitting) : ((s.block?.getD []).length : Int) ≤ s.forMetadata := by
  have hroom := s.forMetadata_bounds
  rw [s.block?_eq]
  cases s.announced? with
  | none =>
    rw [Option.map_none, Option.getD_none, List.length_nil]
    omega
  | some block =>
    rw [Option.map_some, Option.getD_some, List.length_take]
    omega

/-- **No budget falls short.** -/
theorem inBudget (s : Splitting) : s.InBudget := by
  have hroom := s.forMetadata_bounds
  have hle := s.length_block_le
  refine ⟨hroom.1, fun block hblock => ?_, ?_⟩
  · rw [Option.mem_def.1 hblock, Option.getD_some] at hle
    omega
  · rw [forData]
    omega

/-- Of the data as much is taken as the metadata has left room for. -/
theorem data_eq (s : Splitting) : s.data = s.left.data.take s.forData.toNat :=
  upTo_min s.left.data s.inBudget.forData_nonneg

theorem data_rest (s : Splitting) : s.rest.data = s.left.data.drop s.forData.toNat := by
  rw [rest, s.data_eq, List.drop_eq_drop_iff, List.length_take]
  omega

/-- **A round takes the share that its room allows**, and leaves the rest. -/
theorem cut_eq (s : Splitting) : s.left.cut s.opening s.room = ⟨⟨s.block?, s.data⟩, s.rest⟩ := by
  have hrest : s.rest = ⟨s.left.metadata.map fun block => block.drop (s.block?.getD []).length,
      s.left.data.drop s.forData.toNat⟩ := by
    rw [← s.data_rest]
    rfl
  rcases s.left.cut_cases s.opening s.room with
    ⟨block, hblock, htold, hcut⟩ | ⟨hnone, hopening, hcut⟩
  -- A length is told, and takes its place before any metadata does.
  · have hannounced : s.announced? = some block := by
      rw [announced?, hblock, Option.filter_some, if_pos]
      simpa using htold
    have hroom : s.forMetadata = s.room - Wire.metadataLengthSize := by
      rw [forMetadata, hannounced]
      rfl
    have htaken : s.block? = some (block.take (s.room - Wire.metadataLengthSize).toNat) := by
      rw [s.block?_eq, hannounced, hroom]
      rfl
    have hleft : s.forData = s.room - Wire.metadataLengthSize -
        (block.take (s.room - Wire.metadataLengthSize).toNat).length := by
      rw [forData, htaken, hroom]
      rfl
    rw [hcut, hrest, s.data_eq, hleft, htaken, hblock]
    rfl
  -- None is told, and all the room is for data.
  · have hannounced : s.announced? = none := by
      rw [announced?, Option.filter_eq_none_iff]
      intro block hblock
      rw [Option.mem_def.1 hblock] at hnone hopening
      rw [Option.getD_some] at hnone
      simp only [hnone, List.isEmpty_nil, Bool.not_true, Bool.or_false]
      exact fun h => nomatch hopening h
    have htaken : s.block? = none := by
      rw [block?, hannounced]
      rfl
    have hleft : s.forData = s.room := by
      rw [forData, forMetadata, hannounced, htaken]
      exact Int.sub_zero _
    rw [hcut, hrest, s.data_eq, hleft, htaken]
    simp

/-! ## When there is another round -/

theorem last_eq (s : Splitting) : s.last = s.rest.isSpent := by
  rw [last, Payload.isSpent]
  cases s.rest.metadata <;> rfl

theorem goesOn_of_later (h : s.opening = false) : s.goesOn = !s.left.isSpent := by
  rw [goesOn, h, Payload.isSpent]
  cases s.left.metadata <;> simp

/-- **The last round is the one behind which there is none.** -/
theorem goesOn_next (s : Splitting) : s.next.goesOn = !s.last := by
  rw [goesOn_of_later rfl, last_eq]
  rfl

/-- **Every round is progress**, as long as something is left. -/
theorem size_next_lt (h : ¬ s.left.isSpent = true) : s.next.left.size < s.left.size := by
  have hroom : (Wire.metadataLengthSize : Int) < s.room :=
    lt_of_lt_of_le (by decide) s.room_bounds.1
  have hless := @Payload.size_rest_lt s.left s.opening s.room hroom h
  rw [s.cut_eq] at hless
  exact hless

/-! ## All the rounds -/

/-- Behind the first frame the rounds come to an end. -/
theorem exists_rounds_of_later (h : s.opening = false) : ∃ rounds, s.Rounds rounds := by
  -- The induction is on what is left, which every round makes less.
  induction hsize : s.left.size using Nat.strongRecOn generalizing s with
  | ind size ih =>
    have hmore := goesOn_of_later h
    cases hspent : s.left.isSpent with
    | true =>
      rw [hspent] at hmore
      exact ⟨[], .done hmore⟩
    | false =>
      rw [hspent] at hmore
      have hless := size_next_lt (Bool.not_eq_true _ |>.mpr hspent)
      obtain ⟨later, hlater⟩ := ih s.next.left.size (hsize ▸ hless) rfl rfl
      exact ⟨s :: later, .round hmore hlater⟩

/-- **The rounds of a message come to an end.** -/
theorem exists_rounds (limit : FragmentLimit) (head : Head) (payload : Payload) :
    ∃ rounds, (start limit head payload).Rounds rounds := by
  obtain ⟨later, hlater⟩ := @exists_rounds_of_later (start limit head payload).next rfl
  exact ⟨_, .round rfl hlater⟩

/-- A round that is run has something to send, if the first one has. -/
theorem not_isSpent_of_goesOn (h : s.goesOn = true)
    (hopening : s.opening = true → ¬ s.left.isSpent = true) : ¬ s.left.isSpent = true := by
  cases hfirst : s.opening with
  | true => exact hopening hfirst
  | false =>
    rw [goesOn_of_later hfirst, Bool.not_eq_true'] at h
    exact Bool.not_eq_true _ |>.mpr h

/-- Every round of a message with something to send makes what is left
less, so there are no more rounds than bytes. -/
theorem Rounds.progress (h : s.Rounds rounds)
    (hopening : s.opening = true → ¬ s.left.isSpent = true) :
    (∀ r ∈ rounds, r.next.left.size < r.left.size) ∧ rounds.length ≤ s.left.size := by
  induction h with
  | done _ => exact ⟨fun _ hmem => absurd hmem List.not_mem_nil, Nat.zero_le _⟩
  | @round s later hmore _ ih =>
    have hless := size_next_lt (not_isSpent_of_goesOn hmore hopening)
    obtain ⟨hlater, hlength⟩ := ih fun hfirst => nomatch hfirst
    rw [List.forall_mem_cons, List.length_cons]
    exact ⟨⟨hless, hlater⟩, by omega⟩

/-- **The rounds end with one that is the last**, and none before it is. -/
theorem Rounds.exists_last (h : s.Rounds rounds) (hmore : s.goesOn = true) :
    ∃ more final, rounds = more ++ [final] ∧ final.last = true ∧
      ∀ r ∈ more, r.last = false := by
  induction h with
  | done hnone => exact nomatch hnone.symm.trans hmore
  | @round s later _ hlater ih =>
    have hagree := s.goesOn_next
    cases hlast : s.last with
    | true =>
      rw [hlast] at hagree
      cases hlater with
      | done _ => exact ⟨[], s, rfl, hlast, fun _ hmem => absurd hmem List.not_mem_nil⟩
      | round hnext _ => exact nomatch hagree.symm.trans hnext
    | false =>
      rw [hlast] at hagree
      obtain ⟨more, final, rfl, hfinal, hbefore⟩ := ih hagree
      refine ⟨s :: more, final, rfl, hfinal, ?_⟩
      rw [List.forall_mem_cons]
      exact ⟨hlast, hbefore⟩

/-- What the later rounds send are the frames that continue a message. -/
theorem Rounds.map_frame_of_later (h : s.Rounds rounds) (hlater : s.opening = false) (f : Frame) :
    rounds.map (·.frame f) = (s.left.continuations s.limit).map f.continuation := by
  induction h with
  | @done s hnone =>
    rw [goesOn_of_later hlater, Bool.not_eq_false'] at hnone
    rw [Payload.continuations_of_isSpent hnone]
    rfl
  | @round s later hmore _ ih =>
    have hcut := s.cut_eq
    have hleft := not_isSpent_of_goesOn hmore fun hfirst => nomatch hlater.symm.trans hfirst
    rw [room, hlater, if_neg Bool.false_ne_true] at hcut
    rw [Payload.continuations, if_neg hleft, List.map_cons, List.map_cons, ih rfl, hcut, frame,
      hlater, if_neg Bool.false_ne_true, piece, s.last_eq]
    rfl

end Splitting

namespace Frame

variable {f : Frame} {head : Head} {payload : Payload} {limit : FragmentLimit}

/-- **What the rounds send are the frames a message is split into.** -/
theorem split_eq_of_rounds {rounds : List Splitting}
    (h : (Splitting.start limit head payload).Rounds rounds) (f : Frame) :
    f.split head payload limit = rounds.map (·.frame f) := by
  let s := Splitting.start limit head payload
  have hcut : payload.cut true (limit.room head.kind.traits.fixedSize) =
      ⟨⟨s.block?, s.data⟩, s.rest⟩ := s.cut_eq
  have hpieces : payload.pieces limit head.kind.traits.fixedSize =
      (s.piece, s.rest.continuations limit) := by
    rw [Payload.pieces, hcut, Splitting.piece, s.last_eq]
  cases h with
  | done hnone => cases hnone
  | round _ hlater =>
    rw [split_eq, hpieces, List.map_cons, hlater.map_frame_of_later rfl f]
    rfl

/-- A message with nothing to send fits every frame. -/
theorem not_isSpent_of_size_lt (hbody : f.body = .message head payload) {size : Nat}
    (hsize : f.size = .ok size) (hlong : limit.bytes < size) : ¬ payload.isSpent = true := by
  have hmin := limit.atLeast
  have hfixed := fixedSize_le head
  have htotal := hsize.symm.trans (size_of_message hbody)
  injection htotal with htotal
  intro hspent
  obtain ⟨metadata, data⟩ := payload
  simp only [Payload.isSpent, Bool.and_eq_true, List.isEmpty_iff] at hspent
  obtain ⟨hnone, rfl⟩ := hspent
  have hmetadata : metadataSize metadata ≤ Wire.metadataLengthSize := by
    cases metadata with
    | none => exact Nat.zero_le _
    | some block =>
      rw [Option.getD_some] at hnone
      rw [hnone]
      exact Nat.le_refl _
  simp only [Wire.minFragmentSize, Wire.headerSize, Wire.requestNSize, Wire.metadataLengthSize,
    List.length_nil] at hmin hfixed htotal hmetadata
  omega

/-- The first round sends the first fragment, and a message that is refused
is refused for that one. -/
theorem exists_refused_round {rounds : List Splitting}
    (h : (Splitting.start limit head payload).Rounds rounds)
    (hbody : f.body = .message head payload) {fault : Fault}
    (hrefused : f.fragments (.ofNat limit.bytes) = .error fault) :
    ∃ first later, rounds = first :: later ∧ (first.frame f).encode = .error fault := by
  have hfault := (fragments_eq_error_iff hbody limit.ofNumber_bytes).1 hrefused
  cases h with
  | done hnone => cases hnone
  | round _ _ => exact ⟨_, _, rfl, (hfault.opening hbody _).encode_eq rfl⟩

/-- **Splitting ends, and never out of budget.** Whatever the message and
the size asked for, its rounds come to an end. In every one of them there is
room for fifty-one bytes of metadata before any are taken, what is taken is
no longer than its length field can tell, and the room left for data is not
below zero, so no cut is made from the wrong end. There is another round
just where the last one did not find that it was the last, so the rounds
end with the first that does.

Where a message does not fit one frame, these rounds are what sends it, and
every one of them makes less of the metadata and data that are left; there
are no more rounds than bytes. A message that is refused is refused in the
first. -/
theorem splitting_ends (h : f.body = .message head payload) (limit : FragmentLimit) :
    (∃ rounds, (Splitting.start limit head payload).Rounds rounds) ∧
    ∀ rounds, (Splitting.start limit head payload).Rounds rounds →
      (∀ s ∈ rounds, s.InBudget ∧ s.next.goesOn = !s.last) ∧
      (∃ more final, rounds = more ++ [final] ∧ final.last = true ∧
        ∀ s ∈ more, s.last = false) ∧
      ∀ size, f.size = .ok size → limit.bytes < size →
        f.fragments (.ofNat limit.bytes) = (rounds.map (·.frame f)).mapM encode ∧
        (∀ fault, f.fragments (.ofNat limit.bytes) = .error fault →
          ∃ first later, rounds = first :: later ∧ (first.frame f).encode = .error fault) ∧
        (∀ s ∈ rounds, s.next.left.size < s.left.size) ∧ rounds.length ≤ payload.size := by
  refine ⟨Splitting.exists_rounds limit head payload, fun rounds hrounds => ?_⟩
  refine ⟨fun s _ => ⟨s.inBudget, s.goesOn_next⟩, hrounds.exists_last rfl,
    fun size hsize hlong => ⟨?_, fun _ => exists_refused_round hrounds h,
      hrounds.progress fun _ => not_isSpent_of_size_lt h hsize hlong⟩⟩
  rw [fragments_of_message h limit.ofNumber_bytes hsize, if_neg (Nat.not_le.2 hlong),
    split_eq_of_rounds hrounds f]

/-- A request with metadata for more than one frame. The first round has the
least room there can be and none left for data, the second ends the metadata
and begins the data, and the third tells no length. -/
theorem splitting_ends_requestStream :
    let payload : Payload := ⟨some (List.replicate 60 1), List.replicate 70 2⟩
    let head : Head := .requestStream (.ofNat 3)
    let f : Frame := ⟨.ofNat 5, .ofWord Flag.complete, .message head payload⟩
    let limit : FragmentLimit := ⟨64, by decide, by decide⟩
    let first := Splitting.start limit head payload
    let rounds := [first, first.next, first.next.next]
    first.Rounds rounds ∧
      rounds.map (·.forMetadata) = [51, 55, 58] ∧ rounds.map (·.forData) = [0, 46, 58] ∧
      rounds.map (·.last) = [false, false, true] ∧
      (∀ s ∈ rounds, s.InBudget ∧ s.next.goesOn = !s.last) ∧
      f.fragments (.ofNat 64) = (rounds.map (·.frame f)).mapM encode ∧
      (∀ s ∈ rounds, s.next.left.size < s.left.size) ∧ rounds.length ≤ 130 := by
  intro payload head f limit first rounds
  have hrounds : first.Rounds rounds :=
    .round rfl (.round (by decide +kernel) (.round (by decide +kernel) (.done (by decide +kernel))))
  obtain ⟨hbudget, -, hsplit⟩ := (@splitting_ends f head payload rfl limit).2 rounds hrounds
  obtain ⟨hsent, -, hless, hlength⟩ := hsplit 143 rfl (by decide)
  exact ⟨hrounds, by decide +kernel, by decide +kernel, by decide +kernel, hbudget, hsent, hless,
    hlength⟩

end Frame

end StreamWire
