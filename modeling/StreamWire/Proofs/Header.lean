import StreamWire.Header
import StreamWire.Proofs.BigEndian
/-!
# Headers — the six bytes and what they say

A header and its six bytes determine each other, but for the reserved
bit: `Header.decode_bytes_append` reads back what `Header.bytes` writes,
and `Header.clearReserved_of_decode` says that the first six bytes of
whatever is read are those bytes, once `clearReserved` has cleared the
bit that no header sets.
-/

namespace StreamWire

/-- The bytes of a frame with its reserved bit, the top bit of the first
byte, cleared. -/
def clearReserved : Bytes → Bytes
  | [] => []
  | byte :: rest => (byte &&& 0x7F) :: rest

@[simp] theorem length_clearReserved (frame : Bytes) :
    (clearReserved frame).length = frame.length := by
  cases frame <;> rfl

/-- Nothing past the first byte is touched. -/
theorem clearReserved_append {first : Bytes} (h : first ≠ []) (rest : Bytes) :
    clearReserved (first ++ rest) = clearReserved first ++ rest := by
  cases first with
  | nil => exact absurd rfl h
  | cons byte first => rfl

theorem drop_clearReserved {n : Nat} (h : 0 < n) (frame : Bytes) :
    (clearReserved frame).drop n = frame.drop n := by
  obtain ⟨n, rfl⟩ := Nat.exists_eq_add_of_lt h
  cases frame <;> simp [clearReserved]

theorem slice_clearReserved {offset : Nat} (h : 0 < offset) (frame : Bytes) (length : Nat) :
    slice (clearReserved frame) offset length = slice frame offset length := by
  rw [slice_eq, slice_eq, drop_clearReserved h]

theorem toNat_and_127 (byte : UInt8) : (byte &&& 0x7F).toNat = byte.toNat % 128 := by
  rw [UInt8.toNat_and]
  exact Nat.and_two_pow_sub_one_eq_mod byte.toNat 7

/-- The stream id field with the reserved bit cleared spells the number
below it. -/
theorem decode_clearReserved {field : Bytes} (h : field.length = 4) :
    BigEndian.decode (clearReserved field) =
      BigEndian.decode field % (Wire.maxStreamId + 1) := by
  cases field with
  | nil => simp at h
  | cons byte rest =>
    have hlength : rest.length = 3 := by simpa using h
    have hrest := BigEndian.decode_lt rest
    have hbyte := byte.toNat_lt
    simp only [clearReserved, BigEndian.decode_cons, toNat_and_127, hlength,
      Wire.maxStreamId] at hrest ⊢
    omega

namespace Header

@[simp] theorem length_bytes (streamId : Nat) (kind : FrameKind) (flags : BitVec 10) :
    (bytes streamId kind flags).length = Wire.headerSize := by
  simp [bytes, Wire.headerSize]

/-! ## The second word -/

theorem code_lt (kind : FrameKind) : kind.code < 64 := by
  cases kind <;> decide

/-- The type code stands above the flags, and can be read off there. -/
theorem tag_shiftRight (kind : FrameKind) (flags : BitVec 10) :
    ((kind.code <<< Wire.typeShift) + flags.toNat) >>> Wire.typeShift = kind.code := by
  have hflags := flags.isLt
  simp only [Wire.typeShift, Nat.shiftLeft_eq, Nat.shiftRight_eq_div_pow]
  omega

theorem ofNat_tag (kind : FrameKind) (flags : BitVec 10) :
    BitVec.ofNat 10 ((kind.code <<< Wire.typeShift) + flags.toNat) = flags := by
  have hflags := flags.isLt
  apply BitVec.eq_of_toNat_eq
  simp only [Wire.typeShift, Nat.shiftLeft_eq, BitVec.toNat_ofNat]
  omega

/-- **A word is its type code above its flags.** -/
theorem tag_eq {tag : Nat} {kind : FrameKind} (h : tag >>> Wire.typeShift = kind.code) :
    (kind.code <<< Wire.typeShift) + (BitVec.ofNat 10 tag).toNat = tag := by
  rw [← h]
  simp only [Wire.typeShift, Nat.shiftLeft_eq, Nat.shiftRight_eq_div_pow, BitVec.toNat_ofNat]
  omega

theorem resolveKind_ofNat_eq_ok_iff {n : Nat} {kind : FrameKind} :
    resolveKind (.ofNat n) = .ok kind ↔ n = kind.code := by
  rw [resolveKind_eq_ok_iff, FrameKind.ofCode?, Number.toNat?_ofNat, Option.bind_some,
    FrameKind.ofNat?_eq_some_iff]

/-! ## Reading and writing -/

/-- A frame that is long enough for a header is judged by its type code
alone. -/
theorem decode_of_length {frame : Bytes} (h : ¬ frame.length < Wire.headerSize) :
    decode frame =
      match resolveKind (.ofNat (BigEndian.decode (slice frame 4 2) >>> Wire.typeShift)) with
      | .error fault => .error fault
      | .ok kind =>
        .ok { streamId := BigEndian.decode (slice frame 0 4) % (Wire.maxStreamId + 1)
              kind
              flags := BitVec.ofNat 10 (BigEndian.decode (slice frame 4 2)) } := by
  rw [decode]
  exact if_neg h

theorem headerSize_le_of_decode {frame : Bytes} {h : Header} (hread : decode frame = .ok h) :
    Wire.headerSize ≤ frame.length := by
  by_contra hshort
  rw [decode, if_pos (Nat.not_le.1 hshort)] at hread
  cases hread

/-- **A header is read back**, whatever follows it. -/
theorem decode_bytes_append {streamId : Nat} (h : streamId ≤ Wire.maxStreamId) (kind : FrameKind)
    (flags : BitVec 10) (rest : Bytes) :
    decode (bytes streamId kind flags ++ rest) = .ok ⟨streamId, kind, flags⟩ := by
  have hcode := code_lt kind
  have hflags := flags.isLt
  have htag : (kind.code <<< Wire.typeShift) + flags.toNat < 256 ^ 2 := by
    simp only [Wire.typeShift, Nat.shiftLeft_eq]
    omega
  have hid : streamId < 256 ^ 4 := by
    simp only [Wire.maxStreamId] at h
    omega
  have hword : slice (bytes streamId kind flags ++ rest) 4 2 =
      BigEndian.encode 2 ((kind.code <<< Wire.typeShift) + flags.toNat) := by
    rw [bytes, List.append_assoc]
    exact slice_append (BigEndian.length_encode _ _) (BigEndian.length_encode _ _)
  have hstream : slice (bytes streamId kind flags ++ rest) 0 4 = BigEndian.encode 4 streamId := by
    rw [bytes, List.append_assoc, slice_eq, List.drop_zero]
    exact List.take_left' (BigEndian.length_encode _ _)
  have hlong : ¬ (bytes streamId kind flags ++ rest).length < Wire.headerSize := by
    rw [List.length_append, length_bytes]
    omega
  have hkind : resolveKind (.ofNat kind.code) = .ok kind :=
    resolveKind_ofNat_eq_ok_iff.2 rfl
  rw [decode_of_length hlong, hword, hstream, BigEndian.decode_encode_of_lt htag,
    BigEndian.decode_encode_of_lt hid, tag_shiftRight, hkind, ofNat_tag,
    Nat.mod_eq_of_lt (by omega)]

/-- **What is read was written**, but for the reserved bit: the first six
bytes are those of the header. -/
theorem clearReserved_of_decode {frame : Bytes} {h : Header} (hread : decode frame = .ok h) :
    h.streamId ≤ Wire.maxStreamId ∧
      clearReserved frame = bytes h.streamId h.kind h.flags ++ frame.drop Wire.headerSize := by
  have hlong := Nat.not_lt.2 (headerSize_le_of_decode hread)
  rw [decode_of_length hlong] at hread
  simp only [Wire.headerSize] at hlong
  cases hkind : resolveKind (.ofNat (BigEndian.decode (slice frame 4 2) >>> Wire.typeShift)) with
  | error fault =>
    rw [hkind] at hread
    cases hread
  | ok kind =>
    rw [hkind] at hread
    cases hread
    have hid : (slice frame 0 4).length = 4 := length_slice (by omega)
    have hword : (slice frame 4 2).length = 2 := length_slice (by omega)
    have hstream : BigEndian.encode 4
        (BigEndian.decode (slice frame 0 4) % (Wire.maxStreamId + 1)) =
          clearReserved (slice frame 0 4) := by
      rw [← decode_clearReserved hid]
      exact BigEndian.encode_decode_of_length (by rw [length_clearReserved, hid])
    have htag := tag_eq (resolveKind_ofNat_eq_ok_iff.1 hkind)
    refine ⟨Nat.le_of_lt_succ (Nat.mod_lt _ (Nat.succ_pos _)), ?_⟩
    rw [bytes, hstream, htag, BigEndian.encode_decode_of_length hword]
    -- The three pieces are the frame, cut after four bytes and after six.
    have hcut : frame = slice frame 0 4 ++ (slice frame 4 2 ++ frame.drop Wire.headerSize) := by
      have hdrop : frame.drop Wire.headerSize = (frame.drop 4).drop 2 := by
        rw [List.drop_drop, Wire.headerSize]
      rw [slice_eq, slice_eq, List.drop_zero, hdrop, List.take_append_drop, List.take_append_drop]
    have hne : slice frame 0 4 ≠ [] := by
      intro hnil
      simp [hnil] at hid
    rw [List.append_assoc, ← clearReserved_append hne, ← hcut]

end Header

end StreamWire
