import StreamWire.Bytes
/-!
# Chunk queues — received bytes that wait to be read

Bytes arrive in chunks of any size and are read in pieces of any size. A
`ChunkQueue` keeps the chunks as they came, with a count of the bytes in
them; what came since the last read is kept latest first, so that a chunk
is added at no cost however many wait. A read that the first chunk can
serve alone takes it from there; any other gathers whole chunks and the
front of the last one. Whichever way it goes, a read of `n` bytes yields
`n` bytes (`length_of_take?`) and lowers the count by `n`
(`size_of_take?`).
-/

namespace StreamWire

/-- Chunks in the order of arrival, those since the last read latest
first, and the number of bytes they all hold. -/
structure ChunkQueue where
  front : List Bytes := []
  recent : List Bytes := []
  size : Nat := 0
deriving DecidableEq, Repr

namespace ChunkQueue

/-- The chunks in the order of arrival. -/
def chunks (q : ChunkQueue) : List Bytes :=
  if q.recent.isEmpty then q.front else q.front ++ q.recent.reverse

/-- The bytes that wait, in order. -/
def bytes (q : ChunkQueue) : Bytes := q.chunks.flatten

/-- The count is right, and no chunk is empty. -/
structure IsSound (q : ChunkQueue) : Prop where
  size_eq : q.size = q.bytes.length
  chunk_ne_nil : ∀ chunk ∈ q.chunks, chunk ≠ []

/-- Adds a chunk behind all others. -/
def push (q : ChunkQueue) (chunk : Bytes) : ChunkQueue :=
  { q with recent := chunk :: q.recent, size := q.size + chunk.length }

/-- The front is followed by what came since, turned around. -/
theorem chunks_eq (q : ChunkQueue) : q.chunks = q.front ++ q.recent.reverse := by
  unfold chunks
  split
  · next h => rw [List.isEmpty_iff.1 h, List.reverse_nil, List.append_nil]
  · rfl

/-- **A chunk is added behind all others.** -/
@[simp] theorem chunks_push (q : ChunkQueue) (chunk : Bytes) :
    (q.push chunk).chunks = q.chunks ++ [chunk] := by
  rw [chunks_eq, chunks_eq, push, List.reverse_cons, List.append_assoc]

/-! ## Reading -/

/-- Copies `n` bytes off the front of the chunks, behind the parts copied
so far, latest first. There is no result where the chunks run out. -/
def gather (parts : List Bytes) : (chunks : List Bytes) → (n : Nat) → Option (Bytes × List Bytes)
  | chunks, 0 => some (parts.reverse.flatten, chunks)
  | [], _ + 1 => none
  | chunk :: rest, n + 1 =>
    if chunk.length ≤ n + 1 then
      gather (chunk :: parts) rest (n + 1 - chunk.length)
    else
      some ((chunk.take (n + 1) :: parts).reverse.flatten, chunk.drop (n + 1) :: rest)

/-- Reads `n` bytes that several chunks hold between them. -/
def takeAcross? (q : ChunkQueue) (n : Nat) : Option (Bytes × ChunkQueue) :=
  (gather [] q.chunks n).map fun (read, chunks) => (read, ⟨chunks, [], q.size - n⟩)

/-- Reads `n` bytes, once that many wait. -/
def take? (q : ChunkQueue) (n : Nat) : Option (Bytes × ChunkQueue) :=
  if q.size < n then none
  else if n = 0 then some ([], q)
  else
    match q.chunks with
    | [] => q.takeAcross? n
    | chunk :: rest =>
      if n < chunk.length then some (chunk.take n, ⟨chunk.drop n :: rest, [], q.size - n⟩)
      else if n = chunk.length then some (chunk, ⟨rest, [], q.size - n⟩)
      else q.takeAcross? n

/-! ## What a read amounts to -/

theorem length_of_gather {parts chunks chunks' : List Bytes} {n : Nat} {read : Bytes}
    (h : gather parts chunks n = some (read, chunks')) :
    read.length = parts.flatten.length + n := by
  fun_induction gather parts chunks n with
  | case1 parts chunks =>
    simp only [Option.some.injEq, Prod.mk.injEq] at h
    simp [← h.1, List.length_flatten, List.sum_reverse]
  | case2 => simp at h
  | case3 parts chunk rest n hle ih =>
    rw [ih h]
    simp only [List.flatten_cons, List.length_append]
    omega
  | case4 parts chunk rest n hlt =>
    simp only [Option.some.injEq, Prod.mk.injEq] at h
    rw [← h.1]
    simp only [List.length_flatten, List.map_reverse, List.sum_reverse, List.map_cons,
      List.sum_cons, List.length_take]
    omega

/-- **A read of `n` bytes yields `n` bytes.** -/
theorem length_of_take? {q q' : ChunkQueue} {n : Nat} {read : Bytes}
    (h : q.take? n = some (read, q')) : read.length = n := by
  have across : q.takeAcross? n = some (read, q') → read.length = n := by
    intro h
    simp only [takeAcross?, Option.map_eq_some_iff, Prod.exists] at h
    obtain ⟨read', chunks, hg, heq⟩ := h
    cases heq
    simpa using length_of_gather hg
  unfold take? at h
  split at h
  · simp at h
  split at h
  · simp_all
  split at h
  · exact across h
  split at h
  · simp only [Option.some.injEq, Prod.mk.injEq] at h
    rw [← h.1, List.length_take]
    omega
  split at h
  · simp_all
  · exact across h

/-- **A read of `n` bytes lowers the count by `n`.** -/
theorem size_of_take? {q q' : ChunkQueue} {n : Nat} {read : Bytes}
    (h : q.take? n = some (read, q')) : q'.size + n = q.size := by
  have across : q.takeAcross? n = some (read, q') → q'.size = q.size - n := by
    intro h
    simp only [takeAcross?, Option.map_eq_some_iff, Prod.exists] at h
    obtain ⟨read', chunks, -, heq⟩ := h
    cases heq
    rfl
  unfold take? at h
  split at h
  · simp at h
  split at h
  · simp_all
  split at h
  · have := across h
    omega
  split at h
  · simp only [Option.some.injEq, Prod.mk.injEq] at h
    rw [← h.2]
    simp only
    omega
  split at h
  · simp only [Option.some.injEq, Prod.mk.injEq] at h
    rw [← h.2]
    simp only
    omega
  · have := across h
    omega

end ChunkQueue

end StreamWire
