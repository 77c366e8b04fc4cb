import StreamWire.Inbound.ChunkQueue
/-!
# Chunk queues — one byte string

A sound queue is its bytes: a chunk that arrives is appended
(`bytes_push`), and a read takes bytes off the front, in whichever way
the chunks hold them (`take?_of_le`). Every operation leaves the queue
sound.
-/

namespace StreamWire

namespace ChunkQueue

variable {q : ChunkQueue} {chunk : Bytes}

/-- An empty queue is sound. -/
theorem isSound_empty : IsSound {} := by
  constructor
  · rfl
  · intro chunk hchunk
    cases hchunk

@[simp] theorem bytes_push : (q.push chunk).bytes = q.bytes ++ chunk := by
  rw [bytes, chunks_push, List.flatten_append, List.flatten_singleton, bytes]

theorem IsSound.push (h : q.IsSound) (hne : chunk ≠ []) : (q.push chunk).IsSound := by
  constructor
  · rw [bytes_push, List.length_append, ← h.size_eq]
    rfl
  · intro other hother
    rw [chunks_push, List.mem_append, List.mem_singleton] at hother
    rcases hother with hold | rfl
    · exact h.chunk_ne_nil other hold
    · exact hne

/-! ## Reading -/

/-- The chunks hold the bytes that are left of a queue, and none is
empty. -/
structure Remain (chunks : List Bytes) (left : Bytes) : Prop where
  flatten_eq : chunks.flatten = left
  ne_nil : ∀ chunk ∈ chunks, chunk ≠ []

theorem Remain.isSound {chunks : List Bytes} {left : Bytes} {size : Nat} (h : Remain chunks left)
    (hsize : size = left.length) :
    IsSound ⟨chunks, [], size⟩ ∧ bytes ⟨chunks, [], size⟩ = left := by
  have hbytes : bytes ⟨chunks, [], size⟩ = left := h.flatten_eq
  refine ⟨⟨?_, h.ne_nil⟩, hbytes⟩
  rw [hbytes, hsize]

/-- Part of a chunk may be taken, as long as some of it is left. -/
theorem ne_nil_of_mem_drop_cons {rest : List Bytes} {n : Nat} (hlt : n < chunk.length)
    (hne : ∀ other ∈ rest, other ≠ []) : ∀ other ∈ chunk.drop n :: rest, other ≠ [] := by
  intro other hother
  rcases List.mem_cons.1 hother with rfl | hrest
  · intro hnil
    have := List.drop_eq_nil_iff.1 hnil
    omega
  · exact hne other hrest

/-- Gathering copies the next bytes behind the parts that were copied
before, and leaves the rest. -/
theorem gather_of_le {parts chunks : List Bytes} {n : Nat} (hn : n ≤ chunks.flatten.length)
    (hne : ∀ chunk ∈ chunks, chunk ≠ []) :
    ∃ left, gather parts chunks n = some (parts.reverse.flatten ++ chunks.flatten.take n, left) ∧
      Remain left (chunks.flatten.drop n) := by
  fun_induction gather parts chunks n with
  | case1 parts chunks =>
    refine ⟨chunks, ?_, ?_, hne⟩
    · rw [List.take_zero, List.append_nil]
    · rw [List.drop_zero]
  | case2 parts n => simp at hn
  | case3 parts chunk rest n hle ih =>
    -- The first chunk is copied whole, and more from those behind it.
    rw [List.flatten_cons, List.length_append] at hn
    obtain ⟨left, hgather, hremain⟩ := ih (by omega) fun other h => hne other (.tail _ h)
    refine ⟨left, ?_, ?_⟩
    · rw [hgather, List.flatten_cons, List.take_append, List.take_of_length_le hle,
        List.reverse_cons, List.flatten_append, List.flatten_singleton, List.append_assoc]
    · rwa [List.flatten_cons, List.drop_append, List.drop_eq_nil_of_le hle, List.nil_append]
  | case4 parts chunk rest n hlt =>
    -- The first chunk has enough, and keeps what is left of it.
    have hshort : n + 1 ≤ chunk.length := by omega
    refine ⟨chunk.drop (n + 1) :: rest, ?_, ?_, ?_⟩
    · rw [List.flatten_cons, List.take_append_of_le_length hshort, List.reverse_cons,
        List.flatten_append, List.flatten_singleton]
    · rw [List.flatten_cons, List.flatten_cons, List.drop_append_of_le_length hshort]
    · exact ne_nil_of_mem_drop_cons (Nat.not_le.1 hlt) fun other h => hne other (.tail _ h)

/-- A read that several chunks serve. -/
theorem takeAcross?_of_le (h : q.IsSound) {n : Nat} (hn : n ≤ q.size) :
    ∃ left, q.takeAcross? n = some (q.bytes.take n, left) ∧ left.IsSound ∧
      left.bytes = q.bytes.drop n := by
  have hsize := h.size_eq
  obtain ⟨chunks, hgather, hremain⟩ := @gather_of_le [] q.chunks n (by rwa [hsize] at hn)
    h.chunk_ne_nil
  have hleft : q.size - n = (q.bytes.drop n).length := by rw [List.length_drop, hsize]
  refine ⟨⟨chunks, [], q.size - n⟩, ?_, hremain.isSound hleft⟩
  rw [takeAcross?, hgather]
  rfl

/-- **A read takes bytes off the front**, whichever path it takes and
however the chunks hold them. -/
theorem take?_of_le (h : q.IsSound) {n : Nat} (hn : n ≤ q.size) :
    ∃ left, q.take? n = some (q.bytes.take n, left) ∧ left.IsSound ∧
      left.bytes = q.bytes.drop n := by
  have hsize := h.size_eq
  rw [take?, if_neg (Nat.not_lt.2 hn)]
  by_cases hzero : n = 0
  · subst hzero
    exact ⟨q, by rw [if_pos rfl, List.take_zero], h, List.drop_zero.symm⟩
  rw [if_neg hzero]
  cases hchunks : q.chunks with
  | nil => exact takeAcross?_of_le h hn
  | cons chunk rest =>
  have hbytes : q.bytes = chunk ++ rest.flatten := by rw [bytes, hchunks, List.flatten_cons]
  have hne := h.chunk_ne_nil
  rw [hchunks] at hne
  have hleft : q.size - n = (q.bytes.drop n).length := by rw [List.length_drop, hsize]
  -- Three ways to read: part of the first chunk, all of it, or across chunks.
  by_cases hlt : n < chunk.length
  · refine ⟨⟨chunk.drop n :: rest, [], q.size - n⟩, ?_, Remain.isSound ⟨?_, ?_⟩ hleft⟩
    · dsimp only
      rw [if_pos hlt, hbytes, List.take_append_of_le_length (Nat.le_of_lt hlt)]
    · rw [List.flatten_cons, hbytes, List.drop_append_of_le_length (Nat.le_of_lt hlt)]
    · exact ne_nil_of_mem_drop_cons hlt fun other h => hne other (.tail _ h)
  by_cases heq : n = chunk.length
  · refine ⟨⟨rest, [], q.size - n⟩, ?_, Remain.isSound ⟨?_, ?_⟩ hleft⟩
    · dsimp only
      rw [if_neg hlt, if_pos heq, hbytes, List.take_left' heq.symm]
    · rw [hbytes, List.drop_left' heq.symm]
    · intro other hother
      exact hne other (.tail _ hother)
  · dsimp only
    rw [if_neg hlt, if_neg heq]
    exact takeAcross?_of_le h hn

theorem take?_of_lt {n : Nat} (hn : q.size < n) : q.take? n = none := by
  rw [take?, if_pos hn]

end ChunkQueue

end StreamWire
