import StreamWire.Proofs.Text.Sequence
/-!
# Reading UTF-8 — every byte string has one reading

How a byte string is read is a relation over the table of sequences
(`Utf8.Reads`): a character where one stands, and otherwise one
replacement character for a **maximal subpart**, the longest stretch that
a row begins with, or a single byte where no row begins. Every byte string
has one reading, and `Utf8.decode` finds it (`Utf8.decodeChars_eq_iff`).

What is encoded is its own reading, so decoding undoes encoding
(`Utf8.decode_encode`). Encoding undoes decoding exactly for well-formed
bytes (`Utf8.encode_decode_iff`).
-/

namespace StreamWire

namespace Utf8

/-! ## How bytes are read -/

/-- A maximal subpart of an ill-formed sequence, before what follows it. -/
structure IsSubpart (part rest : Bytes) : Prop where
  ne_nil : part ≠ []
  not_isSequence : ¬ IsSequence part
  /-- Only a single byte may be one that no row begins with. -/
  begins : part.length = 1 ∨ Begins part
  /-- No longer stretch could still become a character. -/
  maximal : ∀ byte ∈ rest.head?, ¬ Begins (part ++ [byte])

/-- What stands at the front of a byte string, before what follows, and
the character it is read as. -/
inductive Front : (first rest : Bytes) → Char → Prop where
  | character (c : Char) (rest : Bytes) : Front (String.utf8EncodeChar c) rest c
  | subpart {part rest : Bytes} : IsSubpart part rest → Front part rest replacement

/-- The characters a byte string is read as. -/
inductive Reads : Bytes → List Char → Prop where
  | nil : Reads [] []
  | cons {first rest : Bytes} {c : Char} {chars : List Char} :
      Front first rest c → Reads rest chars → Reads (first ++ rest) (c :: chars)

/-! ## Decoding reads -/

variable {byte : UInt8} {lead : Lead} {taken rest : Bytes}

/-- Bytes that match the beginning of a row, with a next byte out of range
or none at all. -/
def Breaks (row : List Range) (taken rest : Bytes) : Prop :=
  ∃ before next more, row = before ++ next :: more ∧ Matches before taken ∧
    ∀ byte ∈ rest.head?, ¬ next.Holds byte

theorem Breaks.cons {row : List Range} {range : Range} (h : Breaks row taken rest)
    (hbyte : range.Holds byte) : Breaks (range :: row) (byte :: taken) rest := by
  obtain ⟨before, next, more, rfl, htaken, hnext⟩ := h
  exact ⟨range :: before, next, more, rfl, .cons hbyte htaken, hnext⟩

/-- **What is collected is a character or the beginning of one.** -/
theorem collect_cases (bits owed : Nat) (low high : UInt8) (bytes : Bytes) :
    ∃ taken rest, bytes = taken ++ rest ∧
      (Matches (owedRanges owed low high) taken ∧
          collect bits owed low high bytes = (Char.ofNat (value bits taken), rest) ∨
        Breaks (owedRanges owed low high) taken rest ∧
          collect bits owed low high bytes = (replacement, rest)) := by
  induction owed generalizing bits low high bytes with
  | zero => exact ⟨[], bytes, rfl, .inl ⟨.nil, rfl⟩⟩
  | succ owed ih =>
    cases bytes with
    | nil => exact ⟨[], [], rfl, .inr ⟨⟨[], _, _, rfl, .nil, nofun⟩, rfl⟩⟩
    | cons byte bytes =>
      have hholds : low ≤ byte ∧ byte ≤ high ↔ Range.Holds ⟨low.toNat, high.toNat⟩ byte :=
        and_congr UInt8.le_iff_toNat_le UInt8.le_iff_toNat_le
      by_cases hbyte : low ≤ byte ∧ byte ≤ high
      · obtain ⟨taken, rest, rfl, hcases⟩ := ih (bits * 64 + byte.toNat % 64) 0x80 0xBF bytes
        rw [owedRanges_trail] at hcases
        refine ⟨byte :: taken, rest, rfl, ?_⟩
        rw [collect, if_pos hbyte, owedRanges]
        rcases hcases with ⟨htaken, hcollect⟩ | ⟨hbreaks, hcollect⟩
        · exact .inl ⟨.cons (hholds.1 hbyte) htaken, hcollect⟩
        · exact .inr ⟨hbreaks.cons (hholds.1 hbyte), hcollect⟩
      · refine ⟨[], byte :: bytes, rfl, .inr ⟨⟨[], _, _, rfl, .nil, ?_⟩, ?_⟩⟩
        · rintro _ ⟨⟩
          exact mt hholds.2 hbyte
        · rw [collect, if_neg hbyte]

/-- A byte that no row begins with is a subpart by itself. -/
theorem isSubpart_of_none (h : lead? byte = none) : IsSubpart [byte] rest := by
  have hbegins : ∀ taken, ¬ Begins (byte :: taken) := by
    intro taken hbegins
    obtain ⟨lead, hlead, -⟩ := begins_cons_iff.1 hbegins
    rw [h] at hlead
    cases hlead
  exact ⟨nofun, fun hsequence => hbegins _ hsequence.begins, .inl rfl, fun _ _ => hbegins _⟩

/-- Bytes that break off a row after its first byte are a subpart. -/
theorem isSubpart_of_breaks (hlead : lead? byte = some lead)
    (h : Breaks lead.ranges taken rest) : IsSubpart (byte :: taken) rest := by
  obtain ⟨before, next, more, hrow, htaken, hnext⟩ := h
  have hlength : before.length = taken.length := htaken.length_eq
  constructor
  case ne_nil => nofun
  case not_isSequence =>
    intro hsequence
    have hwhole := length_of_isSequence hlead hsequence
    rw [hrow, List.length_append, List.length_cons] at hwhole
    omega
  case begins => exact .inr (begins_cons_iff.2 ⟨lead, hlead, before, _, hrow, htaken⟩)
  case maximal =>
    intro following hfollowing hlonger
    obtain ⟨longer, others, hrow', hlonger⟩ := exists_before_of_begins hlead hlonger
    -- What lies behind the bytes taken is the next range, so the byte would lie in it.
    have hbehind : longer.drop taken.length ++ others = next :: more := by
      have hlength' : longer.length = (taken ++ [following]).length := hlonger.length_eq
      rw [List.length_append, List.length_singleton] at hlength'
      rw [← List.drop_append_of_le_length (by omega), ← hrow', hrow, ← hlength, List.drop_left]
    have hdrop : Matches (longer.drop taken.length) [following] :=
      List.forall₂_drop_append _ _ _ hlonger
    generalize longer.drop taken.length = ranges at hbehind hdrop
    rcases hdrop with _ | ⟨hholds, _ | _⟩
    obtain ⟨rfl, -⟩ := List.cons.inj hbehind
    exact hnext following hfollowing hholds

/-- What decoding takes off the front of a byte string stands there. -/
theorem decodeChar_front (byte : UInt8) (bytes : Bytes) :
    ∃ first, byte :: bytes = first ++ (decodeChar byte bytes).2 ∧
      Front first (decodeChar byte bytes).2 (decodeChar byte bytes).1 := by
  cases hlead : lead? byte with
  | none =>
    rw [decodeChar, hlead]
    exact ⟨[byte], rfl, .subpart (isSubpart_of_none hlead)⟩
  | some lead =>
    rw [decodeChar, hlead]
    obtain ⟨taken, rest, rfl, hcases⟩ := collect_cases lead.bits lead.owed lead.low lead.high bytes
    refine ⟨byte :: taken, ?_⟩
    rcases hcases with ⟨htaken, hcollect⟩ | ⟨hbreaks, hcollect⟩
    · have hchar := encodeChar_value (announces_of_lead? lead hlead) htaken
      simp only [hcollect]
      exact ⟨rfl, hchar ▸ .character _ rest⟩
    · simp only [hcollect]
      exact ⟨rfl, .subpart (isSubpart_of_breaks hlead hbreaks)⟩

/-- **Decoding reads a byte string.** -/
theorem reads_decodeChars (bytes : Bytes) : Reads bytes (decodeChars bytes) := by
  fun_induction decodeChars bytes with
  | case1 => exact .nil
  | case2 byte rest ih =>
    obtain ⟨first, hfirst, hfront⟩ := decodeChar_front byte rest
    rw [hfirst]
    exact .cons hfront ih

/-! ## There is one reading -/

namespace Front

variable {first first' rest rest' : Bytes} {c c' : Char}

theorem ne_nil (h : Front first rest c) : first ≠ [] := by
  cases h with
  | character => exact String.utf8EncodeChar_ne_nil
  | subpart h => exact h.ne_nil

theorem begins (h : Front first rest c) : first.length = 1 ∨ Begins first := by
  cases h with
  | character => exact .inr (isSequence_encodeChar c).begins
  | subpart h => exact h.begins

/-- What stands at the front goes no further. -/
theorem maximal (h : Front first rest c) : ∀ byte ∈ rest.head?, ¬ Begins (first ++ [byte]) := by
  cases h with
  | character => exact fun byte _ => (isSequence_encodeChar c).not_begins byte
  | subpart h => exact h.maximal

/-- Of two stretches at one front neither goes on behind the other. -/
theorem eq_nil_of_append {more : Bytes} (h : Front first (more ++ rest) c)
    (h' : Front (first ++ more) rest c') : more = [] := by
  cases more with
  | nil => rfl
  | cons byte more =>
    rcases h'.begins with hlength | hbegins
    · have := List.length_pos_iff.2 h.ne_nil
      rw [List.length_append, List.length_cons] at hlength
      omega
    · have hlonger : Begins (first ++ [byte]) := by
        rw [List.append_cons] at hbegins
        exact hbegins.of_append
      exact absurd hlonger (h.maximal byte rfl)

/-- One thing stands at a front. -/
theorem eq_of_append_eq (h : Front first rest c) (h' : Front first' rest' c')
    (heq : first ++ rest = first' ++ rest') : first = first' ∧ rest = rest' ∧ c = c' := by
  have hfirst : first = first' ∧ rest = rest' := by
    rcases List.append_eq_append_iff.1 heq with ⟨more, rfl, rfl⟩ | ⟨more, rfl, rfl⟩
    · obtain rfl := h.eq_nil_of_append h'
      exact ⟨(List.append_nil _).symm, rfl⟩
    · obtain rfl := h'.eq_nil_of_append h
      exact ⟨List.append_nil _, rfl⟩
  obtain ⟨rfl, rfl⟩ := hfirst
  refine ⟨rfl, rfl, ?_⟩
  generalize hsame : first = other at h'
  cases h with
  | character =>
    cases h' with
    | character => exact encodeChar_injective hsame
    | subpart h' => exact absurd (hsame ▸ isSequence_encodeChar c) h'.not_isSequence
  | subpart h =>
    cases h' with
    | character => exact absurd (hsame ▸ isSequence_encodeChar c') h.not_isSequence
    | subpart => rfl

end Front

theorem Reads.unique {bytes : Bytes} {chars chars' : List Char} (h : Reads bytes chars)
    (h' : Reads bytes chars') : chars = chars' := by
  induction h generalizing chars' with
  | nil =>
    generalize hbytes : ([] : Bytes) = bytes at h'
    cases h' with
    | nil => rfl
    | cons hfront => exact absurd (List.nil_eq_append_iff.1 hbytes).1 hfront.ne_nil
  | @cons first rest c chars hfront _ ih =>
    generalize hbytes : first ++ rest = bytes at h'
    cases h' with
    | nil => exact absurd (List.append_eq_nil_iff.1 hbytes).1 hfront.ne_nil
    | cons hfront' hrest' =>
      obtain ⟨rfl, rfl, rfl⟩ := hfront.eq_of_append_eq hfront' hbytes
      rw [ih hrest']

/-- **Every byte string has one reading, and decoding finds it.** -/
theorem decodeChars_eq_iff {bytes : Bytes} {chars : List Char} :
    decodeChars bytes = chars ↔ Reads bytes chars := by
  constructor
  · rintro rfl
    exact reads_decodeChars bytes
  · exact (reads_decodeChars bytes).unique

/-- Three bytes that could still become a character are replaced together,
two that could not one by one. -/
example : decode [0xF0, 0x9F, 0x98, 0x41, 0xC0, 0x80] = "\uFFFDA\uFFFD\uFFFD" := by decide +kernel

/-! ## Texts and their bytes -/

/-- One sequence after the other. -/
inductive WellFormed : Bytes → Prop where
  | nil : WellFormed []
  | append {first rest : Bytes} : IsSequence first → WellFormed rest → WellFormed (first ++ rest)

theorem reads_encode (chars : List Char) : Reads (chars.flatMap String.utf8EncodeChar) chars := by
  induction chars with
  | nil => exact .nil
  | cons c chars ih => exact .cons (.character c _) ih

/-- **Decoding undoes encoding.** -/
theorem decode_encode (text : String) : decode (encode text) = text := by
  rw [decode, encode, decodeChars_eq_iff.2 (reads_encode _), String.ofList_toList]

/-- **The well-formed byte strings are the encodings of texts.** -/
theorem wellFormed_iff {bytes : Bytes} : WellFormed bytes ↔ ∃ text, encode text = bytes := by
  constructor
  · intro h
    induction h with
    | nil => exact ⟨"", rfl⟩
    | @append first rest hfirst hrest ih =>
      obtain ⟨c, rfl⟩ := exists_char_of_isSequence hfirst
      obtain ⟨text, rfl⟩ := ih
      refine ⟨String.ofList (c :: text.toList), ?_⟩
      rw [encode, String.toList_ofList, List.flatMap_cons, encode]
  · rintro ⟨text, rfl⟩
    unfold encode
    induction text.toList with
    | nil => exact .nil
    | cons c chars ih => exact .append (isSequence_encodeChar c) ih

/-- **Encoding undoes decoding exactly for well-formed bytes.** -/
theorem encode_decode_iff {bytes : Bytes} : encode (decode bytes) = bytes ↔ WellFormed bytes := by
  rw [wellFormed_iff]
  constructor
  · intro h
    exact ⟨_, h⟩
  · rintro ⟨text, rfl⟩
    rw [decode_encode]

end Utf8

end StreamWire
