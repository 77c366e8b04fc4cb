import StreamWire.Proofs.Frame.Parts
/-!
# Header round trips — six bytes and the values they are made of

A header is written from three values that a caller gives, and any values
at all may be given. `Header.encode_eq_ok_iff` says which are taken and
what becomes of them, down to the flags, of which a word of thirty-two bits
is made before its low ten are kept. `Header.decode_encode_round` puts that
together with reading: what is written is read back whatever follows it,
and what is read was written, but for the reserved bit.
-/

namespace StreamWire

namespace Number

/-- A value without its fraction, and zero where it is not finite. -/
def integerPart : Number → Int
  | .whole n => n
  | .fraction numerator places _ => numerator.tdiv (1 <<< (places + 1) : Nat)
  | _ => 0

/-- The word of a value is what its integer part is modulo the width. -/
theorem word_eq_ofInt (x : Number) : x.word = BitVec.ofInt 32 x.integerPart := by
  cases x <;> rfl

/-- The flags of a value are the low ten bits of its word. -/
theorem ofFlags_wireFlags (x : Number) : ofFlags x.wireFlags = ofWord (x.word &&& 0x3FF) := by
  have hmask : x.word &&& 0x3FF = x.wireFlags.setWidth 32 := by
    apply BitVec.eq_of_getLsbD_eq
    intro i hi
    have hlow : (0x3FF : BitVec 32).getLsbD i = decide (i < 10) := by
      revert i
      decide
    rw [BitVec.getLsbD_and, hlow, wireFlags, BitVec.getLsbD_setWidth, BitVec.getLsbD_setWidth]
    simp [hi, Bool.and_comm]
  rw [hmask, ofWord_setWidth]

/-- And so its integer part modulo so many. -/
theorem toNat_wireFlags (x : Number) : (x.wireFlags.toNat : Int) = x.integerPart % 1024 := by
  rw [wireFlags, word_eq_ofInt, BitVec.toNat_setWidth, BitVec.toNat_ofInt]
  omega

end Number

/-- A value is the type code of a kind exactly if it is the code of that
kind. Negative zero is no type code, since no kind has code zero. -/
theorem FrameKind.ofCode?_eq_some_iff {code : Number} {kind : FrameKind} :
    ofCode? code = some kind ↔ code = .ofNat kind.code := by
  constructor
  · intro h
    obtain ⟨n, hn, hkind⟩ := Option.bind_eq_some_iff.1 h
    rw [ofNat?_eq_some_iff] at hkind
    subst hkind
    have hne : kind.code ≠ 0 := by cases kind <;> decide
    exact Number.eq_ofNat_of_key (Number.toNat?_eq_some_iff.1 hn) hne
  · rintro rfl
    exact ofCode?_code kind

namespace Header

variable {streamId type flags : Number} {out frame other : Bytes} {h : Header}

/-! ## What is written -/

/-- **A header is written of a stream id and a type code**, and of whatever
flags there are. -/
theorem encode_eq_ok_iff :
    encode streamId type flags = .ok out ↔
      ∃ id kind, streamId.key = .ofNat id ∧ id ≤ Wire.maxStreamId ∧ type = .ofNat kind.code ∧
        out = bytes id kind flags.wireFlags := by
  have hwritten (id : Nat) (kind : FrameKind) :
      ((Write.bytes (bytes id kind flags.wireFlags)).filled (.blank Wire.headerSize)).map
        Writer.bytes = .ok (bytes id kind flags.wireFlags) := by
    have hfilled := (Write.appends_bytes (bytes id kind flags.wireFlags)).filled_blank
    rwa [length_bytes] at hfilled
  unfold encode Write.header
  constructor
  · intro hencode
    cases hid : StreamId.ofNumber? streamId with
    | none =>
      rw [hid] at hencode
      cases hencode
    | some id =>
    cases hkind : resolveKind type with
    | error fault =>
      rw [hid, hkind] at hencode
      cases hencode
    | ok kind =>
    simp only [hid, hkind, hwritten] at hencode
    obtain ⟨hkey, hle⟩ := StreamId.ofNumber?_eq_some_iff.1 hid
    rw [resolveKind_eq_ok_iff, FrameKind.ofCode?_eq_some_iff] at hkind
    exact ⟨id, kind, hkey, hle, hkind, (Except.ok.inj hencode).symm⟩
  · rintro ⟨id, kind, hkey, hle, htype, rfl⟩
    have hkind : resolveKind type = .ok kind := by
      rw [resolveKind_eq_ok_iff, FrameKind.ofCode?_eq_some_iff, htype]
    simp only [StreamId.ofNumber?_eq_some_iff.2 ⟨hkey, hle⟩, hkind, hwritten]

/-! ## What is read -/

/-- A header is read of the first six bytes. -/
theorem decode_take (hlong : 6 ≤ frame.length) : decode (frame.take 6) = decode frame := by
  have hshort : (frame.take 6).length = 6 := by
    rw [List.length_take]
    omega
  rw [decode_of_length (by rw [hshort]; decide), decode_of_length (Nat.not_lt.2 hlong),
    slice_take (by decide), slice_take (by decide)]

theorem take_clearReserved (frame : Bytes) (n : Nat) :
    (clearReserved frame).take n = clearReserved (frame.take n) := by
  cases frame with
  | nil => rw [clearReserved, List.take_nil, clearReserved]
  | cons byte rest =>
    cases n with
    | zero => rfl
    | succ n => rfl

/-- **The reserved bit says nothing**, neither of a header nor of why there
is none. -/
theorem decode_of_clearReserved (frame : Bytes) :
    decode (clearReserved frame) = decode frame := by
  by_cases hshort : frame.length < Wire.headerSize
  · rw [decode, decode, length_clearReserved, if_pos hshort, if_pos hshort]
  · have hid : (slice frame 0 4).length = 4 := by
      apply length_slice
      rw [Wire.headerSize] at hshort
      omega
    have hfield : slice (clearReserved frame) 0 4 = clearReserved (slice frame 0 4) := by
      rw [slice_eq, slice_eq, List.drop_zero, List.drop_zero, take_clearReserved]
    rw [decode_of_length hshort, decode_of_length (by rwa [length_clearReserved]),
      slice_clearReserved (by decide), hfield, decode_clearReserved hid, Nat.mod_mod]

/-- What is read is written again as it was, but for the reserved bit. -/
theorem encode_of_decode (hread : decode frame = .ok h) :
    encode (.ofNat h.streamId) (.ofNat h.kind.code) (.ofFlags h.flags) =
      .ok (clearReserved (frame.take 6)) := by
  obtain ⟨hle, hbytes⟩ := clearReserved_of_decode hread
  refine encode_eq_ok_iff.2 ⟨h.streamId, h.kind, rfl, hle, rfl, ?_⟩
  rw [Number.wireFlags_ofFlags, ← take_clearReserved, hbytes]
  exact List.take_left' (length_bytes _ _ _)

/-- **Two frames have one header exactly if they begin with the same six
bytes**, but for the reserved bit. -/
theorem decode_eq_iff (hread : decode frame = .ok h) :
    decode other = .ok h ↔
      6 ≤ other.length ∧ clearReserved (other.take 6) = clearReserved (frame.take 6) := by
  constructor
  · intro hother
    have hsame := (encode_of_decode hother).symm.trans (encode_of_decode hread)
    exact ⟨headerSize_le_of_decode hother, Except.ok.inj hsame⟩
  · rintro ⟨hlong, hsame⟩
    rw [← decode_take hlong, ← decode_of_clearReserved, hsame, decode_of_clearReserved,
      decode_take (headerSize_le_of_decode hread), hread]

/-! ## Both ways -/

/-- **A header is what it is written of.** A stream id and a type code make
a header with any flags, and nothing else does. Whatever follows it, it is
read back: the stream id without a sign on zero, the kind, and of the flags
the low ten bits of their word, which is their integer part modulo 1024.
And what is read is written again as the six bytes that it was read of, but
for the reserved bit, which says nothing; so no two headers are written
alike. -/
theorem decode_encode_round :
    (∀ streamId type flags : Number,
      ((∃ out, encode streamId type flags = .ok out) ↔
        (∃ id ≤ 0x7FFFFFFF, streamId.key = .ofNat id) ∧
          ∃ kind : FrameKind, type = .ofNat kind.code) ∧
      ∀ out, encode streamId type flags = .ok out →
        ∃ (id : Nat) (kind : FrameKind) (low : BitVec 10),
          streamId.key = .ofNat id ∧ type = .ofNat kind.code ∧
          Number.ofFlags low = .ofWord (flags.word &&& 0x3FF) ∧
          (low.toNat : Int) = flags.integerPart % 1024 ∧
          ∀ rest, decode (out ++ rest) = .ok ⟨id, kind, low⟩) ∧
    (∀ (frame : Bytes) (h : Header), decode frame = .ok h →
      encode (.ofNat h.streamId) (.ofNat h.kind.code) (.ofFlags h.flags) =
        .ok (clearReserved (frame.take 6)) ∧
      ∀ other, decode other = .ok h ↔
        6 ≤ other.length ∧ clearReserved (other.take 6) = clearReserved (frame.take 6)) ∧
    ∀ frame : Bytes, decode (clearReserved frame) = decode frame := by
  refine ⟨fun streamId type flags => ⟨⟨?_, ?_⟩, ?_⟩,
    fun frame h hread => ⟨encode_of_decode hread, fun other => decode_eq_iff hread⟩,
    decode_of_clearReserved⟩
  · rintro ⟨out, hencode⟩
    obtain ⟨id, kind, hkey, hle, htype, -⟩ := encode_eq_ok_iff.1 hencode
    exact ⟨⟨id, hle, hkey⟩, kind, htype⟩
  · rintro ⟨⟨id, hle, hkey⟩, kind, htype⟩
    exact ⟨_, encode_eq_ok_iff.2 ⟨id, kind, hkey, hle, htype, rfl⟩⟩
  · intro out hencode
    obtain ⟨id, kind, hkey, hle, htype, rfl⟩ := encode_eq_ok_iff.1 hencode
    exact ⟨id, kind, flags.wireFlags, hkey, htype, flags.ofFlags_wireFlags,
      flags.toNat_wireFlags, decode_bytes_append hle kind flags.wireFlags⟩

/-- A header with the largest type code there is, and minus one and a half
for flags: all ten are set, and none of them is read as part of the code.
With the reserved bit it is read alike, and written without it. No header
is of type zero, with or without a sign. -/
theorem decode_encode_round_ext :
    let flags : Number := .fraction (-3) 0 (by decide)
    encode (.ofNat 5) (.ofNat 63) flags = .ok [0, 0, 0, 5, 0xFF, 0xFF] ∧
      (∃ low : BitVec 10, (low.toNat : Int) = -1 % 1024 ∧
        decode [0, 0, 0, 5, 0xFF, 0xFF, 1, 2] = .ok ⟨5, .ext, low⟩) ∧
      decode [0x80, 0, 0, 5, 0xFF, 0xFF] = .ok ⟨5, .ext, 0x3FF⟩ ∧
      encode (.ofNat 5) (.ofNat 63) (.ofFlags 0x3FF) = .ok [0, 0, 0, 5, 0xFF, 0xFF] ∧
      ¬ ∃ out, encode (.ofNat 5) .negZero flags = .ok out := by
  intro flags
  obtain ⟨hwrite, hread, -⟩ := decode_encode_round
  have hencode : encode (.ofNat 5) (.ofNat 63) flags = .ok [0, 0, 0, 5, 0xFF, 0xFF] := by
    decide +kernel
  have hreserved : decode [0x80, 0, 0, 5, 0xFF, 0xFF] = .ok ⟨5, .ext, 0x3FF⟩ := by
    decide +kernel
  obtain ⟨id, kind, low, hid, hkind, -, hlow, hback⟩ := (hwrite _ _ _).2 _ hencode
  obtain rfl : 5 = id := Number.ofNat_injective hid
  obtain rfl : FrameKind.ext = kind := by
    cases kind <;> first | rfl | cases Number.ofNat_injective hkind
  refine ⟨hencode, ⟨low, hlow, hback [1, 2]⟩, hreserved, (hread _ _ hreserved).1, ?_⟩
  rw [(hwrite _ _ _).1]
  rintro ⟨-, kind, hkind⟩
  cases hkind

end Header

end StreamWire
