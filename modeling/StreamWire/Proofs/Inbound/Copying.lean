import StreamWire.Proofs.Inbound.Reentrancy
/-!
# Copying — a read across chunks, turn by turn

A read that one chunk cannot serve alone copies from one chunk after
another. `Copying` is such a read between two turns, and `Copying.turn?` a
turn: there is none without a chunk. As long as the chunks hold what is
wanted there is always one, it copies at least a byte, and nothing is lost
(`Copying.Holds.exists_turn`); so there are no more turns than chunks, and
what is copied in the end are the first bytes (`Copying.Holds.exists_ends`).

A queue may be read in three ways, and `ChunkQueue.paths_agree` says that it
does not matter in which: the bytes are the same and so are the chunks that
are left. What all of that rests on, that the count of the waiting bytes is
right and no chunk is empty, holds in every moment of every session.
-/

namespace StreamWire

/-- A read that copies: the bytes that have been copied, and the chunks
that are left. -/
structure Copying where
  copied : Bytes
  chunks : List Bytes
deriving DecidableEq, Repr

namespace Copying

/-- One turn of a read of `size` bytes. As much of the first chunk as is
still wanted is copied, and the chunk goes when it is used up. -/
def turn? (c : Copying) (size : Nat) : Option Copying :=
  match c.chunks with
  | [] => none
  | chunk :: rest =>
    let length := min chunk.length (size - c.copied.length)
    some ⟨c.copied ++ chunk.take length,
      if length = chunk.length then rest else chunk.drop length :: rest⟩

/-- Turns are taken as long as bytes are wanted, and so many lead to where
none are wanted any more. -/
inductive Ends (size : Nat) : Copying → Nat → Copying → Prop
  | done {c : Copying} : size ≤ c.copied.length → Ends size c 0 c
  | turn {c next last : Copying} {turns : Nat} : c.copied.length < size →
      c.turn? size = some next → Ends size next turns last → Ends size c (turns + 1) last

variable {c next last : Copying} {size turns : Nat} {whole : Bytes}

/-! ## What a turn keeps -/

/-- What has been copied and what is left are together what there was, and
no chunk is empty. -/
structure Holds (c : Copying) (whole : Bytes) : Prop where
  append_eq : c.copied ++ c.chunks.flatten = whole
  chunk_ne_nil : ∀ chunk ∈ c.chunks, chunk ≠ []

/-- **While bytes are wanted there is a chunk to copy from.** A turn copies
some of it and no more than is wanted, and either uses the chunk up or
copies all that was wanted. -/
theorem Holds.exists_turn (h : c.Holds whole) (hwanted : c.copied.length < size)
    (hsize : size ≤ whole.length) :
    ∃ next, c.turn? size = some next ∧ next.Holds whole ∧
      c.copied.length < next.copied.length ∧ next.copied.length ≤ size ∧
      (next.chunks.length < c.chunks.length ∨ next.copied.length = size) := by
  obtain ⟨copied, chunks⟩ := c
  obtain ⟨happend, hne⟩ := h
  dsimp only at happend hne hwanted ⊢
  cases chunks with
  | nil =>
    -- What has been copied is all there is, which is not enough.
    rw [List.flatten_nil, List.append_nil] at happend
    rw [happend] at hwanted
    omega
  | cons chunk rest =>
  have hrest : ∀ other ∈ rest, other ≠ [] := fun other hother => hne other (.tail _ hother)
  have hpos := List.length_pos_iff.2 (hne chunk List.mem_cons_self)
  rw [List.flatten_cons] at happend
  by_cases hle : chunk.length ≤ size - copied.length
  · refine ⟨⟨copied ++ chunk, rest⟩, ?_, ⟨?_, hrest⟩, ?_, ?_, .inl (Nat.lt_succ_self _)⟩
    · simp only [turn?, Nat.min_eq_left hle, List.take_length, if_true]
    · rw [List.append_assoc, happend]
    · rw [List.length_append]
      omega
    · rw [List.length_append]
      omega
  · have hmin : min chunk.length (size - copied.length) = size - copied.length :=
      Nat.min_eq_right (by omega)
    have hlength : (copied ++ chunk.take (size - copied.length)).length = size := by
      rw [List.length_append, List.length_take, Nat.min_eq_left (by omega)]
      omega
    refine ⟨⟨copied ++ chunk.take (size - copied.length),
      chunk.drop (size - copied.length) :: rest⟩, ?_, ⟨?_, ?_⟩, ?_, Nat.le_of_eq hlength,
      .inr hlength⟩
    · simp only [turn?, hmin, if_neg (show ¬ size - copied.length = chunk.length by omega)]
    · rw [List.append_assoc, List.flatten_cons, ← List.append_assoc (chunk.take _),
        List.take_append_drop, happend]
    · exact ChunkQueue.ne_nil_of_mem_drop_cons (by omega) hrest
    · rwa [hlength]

/-! ## What all turns come to -/

/-- **A read ends**, after no more turns than there are chunks. What it has
copied then is what was wanted. -/
theorem Holds.exists_ends (h : c.Holds whole) (hcopied : c.copied.length ≤ size)
    (hsize : size ≤ whole.length) :
    ∃ turns ≤ c.chunks.length, ∃ last, Ends size c turns last ∧ last.Holds whole ∧
      last.copied.length = size := by
  -- The induction is on the number of chunks; a turn that uses none up is the last.
  induction hchunks : c.chunks.length using Nat.strongRecOn generalizing c with
  | ind chunks ih =>
    rcases Nat.eq_or_lt_of_le hcopied with heq | hwanted
    · exact ⟨0, Nat.zero_le _, c, .done (Nat.le_of_eq heq.symm), h, heq⟩
    obtain ⟨next, hturn, hnext, -, hle, hfewer | hall⟩ := h.exists_turn hwanted hsize
    · obtain ⟨turns, hturns, last, hends, hholds, hlast⟩ :=
        ih next.chunks.length (hchunks ▸ hfewer) hnext hle rfl
      exact ⟨turns + 1, by omega, last, .turn hwanted hturn hends, hholds, hlast⟩
    · refine ⟨1, ?_, next, .turn hwanted hturn (.done (Nat.le_of_eq hall.symm)), hnext, hall⟩
      rcases hnone : c.chunks with _ | ⟨chunk, rest⟩
      · rw [turn?, hnone] at hturn
        cases hturn
      · rw [← hchunks, hnone, List.length_cons]
        omega

/-- **Gathering is taking turns.** -/
theorem Ends.gather_eq (h : Ends size c turns last) (hcopied : c.copied.length ≤ size)
    (parts : List Bytes) (hparts : parts.reverse.flatten = c.copied) :
    ChunkQueue.gather parts c.chunks (size - c.copied.length) =
      some (last.copied, last.chunks) := by
  induction h generalizing parts with
  | @done c hle =>
    rw [Nat.sub_eq_zero_of_le hle, ChunkQueue.gather, hparts]
  | @turn c next last turns hwanted hturn hends ih =>
    obtain ⟨copied, chunks⟩ := c
    cases chunks with
    | nil => cases hturn
    | cons chunk rest =>
    dsimp only at hwanted hparts ⊢
    obtain ⟨n, hn⟩ := Nat.exists_eq_add_of_lt hwanted
    have hwant : size - copied.length = n + 1 := by omega
    simp only [turn?, hwant, Option.some.injEq] at hturn
    rw [hwant, ChunkQueue.gather]
    by_cases hle : chunk.length ≤ n + 1
    · -- The chunk is copied whole, and the next turn begins behind it.
      rw [Nat.min_eq_left hle, if_pos rfl, List.take_length] at hturn
      subst hturn
      have hlength : (copied ++ chunk).length = copied.length + chunk.length :=
        List.length_append
      have hgather := ih (by rw [hlength]; omega) (chunk :: parts) (by
        rw [List.reverse_cons, List.flatten_append, List.flatten_singleton, hparts])
      have hleft : size - (copied ++ chunk).length = n + 1 - chunk.length := by
        rw [hlength]
        omega
      rw [if_pos hle, ← hgather, hleft]
    · -- The chunk has more than is wanted, so there is no further turn.
      rw [Nat.min_eq_right (by omega), if_neg (by omega)] at hturn
      subst hturn
      have hlength : (copied ++ chunk.take (n + 1)).length = size := by
        rw [List.length_append, List.length_take, Nat.min_eq_left (by omega)]
        omega
      have hgather := ih (Nat.le_of_eq hlength) (chunk.take (n + 1) :: parts) (by
        rw [List.reverse_cons, List.flatten_append, List.flatten_singleton, hparts])
      rw [hlength, Nat.sub_self, ChunkQueue.gather] at hgather
      rw [if_neg hle, hgather]

end Copying

namespace ChunkQueue

variable {q : ChunkQueue} {n : Nat}

/-! ## Three ways to read -/

/-- What came of a read: the bytes, the chunks that are left, and their
count. -/
def outcome (read : Bytes × ChunkQueue) : Bytes × List Bytes × Nat :=
  (read.1, read.2.chunks, read.2.size)

/-- **Reading off the first chunk is reading across chunks.** Only the order
in which chunks are kept can differ. -/
theorem map_outcome_take? (hn : n ≤ q.size) :
    (q.take? n).map outcome = (q.takeAcross? n).map outcome := by
  rw [take?, if_neg (Nat.not_lt.2 hn)]
  rcases n with _ | n
  · rw [if_pos rfl, takeAcross?, gather]
    rfl
  rw [if_neg (Nat.succ_ne_zero n)]
  cases hchunks : q.chunks with
  | nil => rfl
  | cons chunk rest =>
  dsimp only
  have hacross : q.takeAcross? (n + 1) =
      (gather [] (chunk :: rest) (n + 1)).map fun gathered =>
        (gathered.1, ⟨gathered.2, [], q.size - (n + 1)⟩) := by
    rw [takeAcross?, hchunks]
  rcases Nat.lt_trichotomy (n + 1) chunk.length with hlt | heq | hgt
  · rw [if_pos hlt, hacross, gather, if_neg (Nat.not_le.2 hlt)]
    simp
  · rw [if_neg (by omega), if_pos heq, hacross, gather, if_pos (Nat.le_of_eq heq.symm), heq,
      Nat.sub_self, gather]
    simp
  · rw [if_neg (by omega), if_neg (by omega)]

/-- Every task leaves the queue sound. -/
theorem isKept_isSound :
    Session.IsKept (fun _ => ([] : List Unit)) fun s _ _ => s.deframer.queue.IsSound :=
  fun _ _ _ h => Run.isSound_step h

/-- Taking turns copies the bytes that are read across chunks, and leaves
the same chunks. -/
theorem IsSound.exists_ends (h : q.IsSound) (hn : n ≤ q.size) {across : ChunkQueue}
    (hacross : q.takeAcross? n = some (q.bytes.take n, across)) :
    ∃ turns ≤ q.chunks.length,
      Copying.Ends n ⟨[], q.chunks⟩ turns ⟨q.bytes.take n, across.chunks⟩ := by
  have hholds : Copying.Holds ⟨[], q.chunks⟩ q.bytes := ⟨rfl, h.chunk_ne_nil⟩
  obtain ⟨turns, hturns, last, hends, hlast, hlength⟩ :=
    hholds.exists_ends (Nat.zero_le n) (h.size_eq ▸ hn)
  have hgather := hends.gather_eq (Nat.zero_le n) [] rfl
  have hleft : some (last.copied, (⟨last.chunks, [], q.size - n⟩ : ChunkQueue)) =
      some (q.bytes.take n, across) := by
    rw [← hacross, takeAcross?]
    dsimp only [List.length_nil, Nat.sub_zero] at hgather
    rw [hgather]
    rfl
  obtain ⟨copied, chunks⟩ := last
  cases hleft
  exact ⟨turns, hturns, hends⟩

/-- **It does not matter in which way a queue is read.** Of a queue whose
count is right and whose chunks are not empty any number of bytes can be
read that the count allows. The bytes are the first that wait and leave the
others, the count goes down by as many, and no chunk that is left is empty.
A read across chunks does the same where the first chunk alone would have
served; it takes turns as long as bytes are wanted, no more of them than
there are chunks, and finds a chunk at every turn.

The count is right and no chunk is empty at first, after a chunk has been
received, and after a failure, whatever was before; and so in every moment
of every call, whatever the listeners do. -/
theorem paths_agree :
    (∀ (q : ChunkQueue) (n : Nat), q.IsSound → n ≤ q.size →
      ∃ left across : ChunkQueue,
        q.take? n = some (q.bytes.take n, left) ∧ left.bytes = q.bytes.drop n ∧
        left.size + n = q.size ∧ left.IsSound ∧
        q.takeAcross? n = some (q.bytes.take n, across) ∧ across.chunks = left.chunks ∧
        across.size = left.size ∧
        ∃ turns ≤ q.chunks.length,
          Copying.Ends n ⟨[], q.chunks⟩ turns ⟨q.bytes.take n, left.chunks⟩) ∧
    (∀ maximum : Number, ({ maximum } : Deframer).queue.IsSound) ∧
    (∀ (d : Deframer) (chunk : Bytes), d.queue.IsSound → (d.receive chunk).queue.IsSound) ∧
    (∀ d : Deframer, d.fail.queue.IsSound) ∧
    ∀ s : Session, s.deframer.queue.IsSound → ∀ (history : List Action) (action : Action)
      (n : Nat), (((s.after history).start action).steps n).session.deframer.queue.IsSound := by
  refine ⟨fun q n h hn => ?_, fun _ => isSound_empty,
    fun d chunk h => Deframer.isSound_receive h chunk, fun _ => isSound_empty,
    fun s h history action n => isKept_isSound.moment h history action n⟩
  obtain ⟨left, htake, hsound, hbytes⟩ := take?_of_le h hn
  obtain ⟨across, hacross, -⟩ := takeAcross?_of_le h hn
  have hsame := map_outcome_take? hn
  rw [htake, hacross, Option.map_some, Option.map_some, Option.some.injEq] at hsame
  obtain ⟨hchunks, hsize⟩ : left.chunks = across.chunks ∧ left.size = across.size := by
    simpa [outcome] using hsame
  refine ⟨left, across, htake, hbytes, size_of_take? htake, hsound, hacross, hchunks.symm,
    hsize.symm, ?_⟩
  rw [hchunks]
  exact h.exists_ends hn hacross

/-- Four bytes are read of three chunks, the last of them in part. Two are
read of the first chunk alone, which is used up, and a read across chunks
leaves the same. A session into which a length and a byte have been fed
holds the byte, and nothing empty, in every moment of the next call. -/
theorem paths_agree_threeChunks :
    let q : ChunkQueue := ⟨[[1, 2], [3], [4, 5, 6]], [], 6⟩
    let s : Session := ({} : Session).after [.feed [0, 0, 7, 1], .feed []]
    q.IsSound ∧
      q.take? 4 = some ([1, 2, 3, 4], ⟨[[5, 6]], [], 2⟩) ∧
      (∃ turns ≤ 3, Copying.Ends 4 ⟨[], q.chunks⟩ turns ⟨[1, 2, 3, 4], [[5, 6]]⟩) ∧
      q.take? 2 = some ([1, 2], ⟨[[3], [4, 5, 6]], [], 4⟩) ∧
      (∃ across, q.takeAcross? 2 = some ([1, 2], across) ∧
        across.chunks = [[3], [4, 5, 6]]) ∧
      ∀ n, ((s.start (.feed [2])).steps n).session.deframer.queue.IsSound := by
  intro q s
  have hsound : q.IsSound := ⟨by decide, by decide⟩
  obtain ⟨hreads, hnew, -, -, hkept⟩ := paths_agree
  have hfour : q.take? 4 = some ([1, 2, 3, 4], ⟨[[5, 6]], [], 2⟩) := by decide
  have htwo : q.take? 2 = some ([1, 2], ⟨[[3], [4, 5, 6]], [], 4⟩) := by decide
  obtain ⟨left, across, hleft, -, -, -, -, -, -, hends⟩ := hreads q 4 hsound (by decide)
  obtain ⟨left', across', hleft', -, -, -, hacross', hchunks', -⟩ :=
    hreads q 2 hsound (by decide)
  rw [hfour] at hleft
  rw [htwo] at hleft'
  cases hleft
  cases hleft'
  exact ⟨hsound, hfour, hends, htwo, ⟨across', hacross', hchunks'⟩,
    hkept {} (hnew _) [.feed [0, 0, 7, 1], .feed []] (.feed [2])⟩

end ChunkQueue

end StreamWire
