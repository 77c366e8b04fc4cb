import Mathlib.Data.List.Forall2
import StreamWire.Text.Utf8
/-!
# UTF-8 sequences — the bytes of one character

The well-formed sequences are a table, nine rows of ranges that the bytes
of a character lie in (`Utf8.table`). It is set beside the two things that
are run: what a first byte announces is the rest of the row it begins
(`Utf8.isSequence_cons_iff`), and the bytes that match a row are those that
a character is encoded as (`Utf8.isSequence_encodeChar`,
`Utf8.exists_char_of_isSequence`). No sequence is part of a longer one.
-/

namespace StreamWire

namespace Utf8

/-! ## The table -/

/-- A range that a byte may lie in. -/
structure Range where
  low : Nat
  high : Nat
deriving DecidableEq, Repr

namespace Range

/-- A byte lies in the range. -/
def Holds (range : Range) (byte : UInt8) : Prop :=
  range.low ≤ byte.toNat ∧ byte.toNat ≤ range.high

instance (range : Range) (byte : UInt8) : Decidable (range.Holds byte) :=
  inferInstanceAs (Decidable (_ ∧ _))

/-- Where the bytes after the first lie, unless a row says otherwise. -/
def trail : Range := ⟨0x80, 0xBF⟩

end Range

/-- Where the bytes of a character lie, one row after the other by the
first byte. No row holds overlong forms, surrogates, or what lies beyond
the last character. -/
def table : List (List Range) :=
  [ [⟨0x00, 0x7F⟩],
    [⟨0xC2, 0xDF⟩, .trail],
    [⟨0xE0, 0xE0⟩, ⟨0xA0, 0xBF⟩, .trail],
    [⟨0xE1, 0xEC⟩, .trail, .trail],
    [⟨0xED, 0xED⟩, ⟨0x80, 0x9F⟩, .trail],
    [⟨0xEE, 0xEF⟩, .trail, .trail],
    [⟨0xF0, 0xF0⟩, ⟨0x90, 0xBF⟩, .trail, .trail],
    [⟨0xF1, 0xF3⟩, .trail, .trail, .trail],
    [⟨0xF4, 0xF4⟩, ⟨0x80, 0x8F⟩, .trail, .trail] ]

/-- Byte for byte, bytes lie in the ranges of a row. -/
def Matches (row : List Range) (bytes : Bytes) : Prop := List.Forall₂ Range.Holds row bytes

/-- Bytes that match a row. -/
def IsSequence (bytes : Bytes) : Prop := ∃ row ∈ table, Matches row bytes

/-- Bytes that a row begins with, so that more could make a sequence of
them. -/
def Begins (part : Bytes) : Prop :=
  ∃ before more, before ++ more ∈ table ∧ Matches before part

/-! ## What the first byte tells -/

variable {byte : UInt8} {lead : Lead} {taken : Bytes}

/-- Where owed bytes lie, the next of them between two bounds. -/
def owedRanges : (owed : Nat) → (low high : UInt8) → List Range
  | 0, _, _ => []
  | owed + 1, low, high => ⟨low.toNat, high.toNat⟩ :: List.replicate owed .trail

theorem owedRanges_trail (owed : Nat) : owedRanges owed 0x80 0xBF = List.replicate owed .trail := by
  cases owed <;> rfl

/-- Where the bytes lie that a first byte announces. -/
def Lead.ranges (lead : Lead) : List Range := owedRanges lead.owed lead.low lead.high

/-- What a row says of the bytes after a first byte that it holds. -/
def continuation? (byte : UInt8) : List Range → Option (List Range)
  | [] => none
  | first :: more => if first.Holds byte then some more else none

/-- The rows of a byte are what it announces: one at most. -/
theorem rows_of_byte (byte : UInt8) :
    table.filterMap (continuation? byte) = ((lead? byte).map Lead.ranges).toList := by
  have hall : ∀ n < 256, table.filterMap (continuation? (UInt8.ofNat n)) =
      ((lead? (UInt8.ofNat n)).map Lead.ranges).toList := by decide +kernel
  simpa using hall byte.toNat byte.toNat_lt

/-- **A row goes on behind a byte as the byte announces.** -/
theorem exists_row_iff {more : List Range} :
    (∃ first, first.Holds byte ∧ first :: more ∈ table) ↔
      ∃ lead, lead? byte = some lead ∧ lead.ranges = more := by
  have hrows : more ∈ table.filterMap (continuation? byte) ↔
      more ∈ ((lead? byte).map Lead.ranges).toList := by rw [rows_of_byte]
  rw [List.mem_filterMap, Option.mem_toList, Option.map_eq_some_iff] at hrows
  rw [← hrows]
  constructor
  · rintro ⟨first, hfirst, hmem⟩
    exact ⟨_, hmem, if_pos hfirst⟩
  · rintro ⟨row, hmem, hrow⟩
    cases row with
    | nil => cases hrow
    | cons first rest =>
      rw [continuation?, Option.ite_none_right_eq_some] at hrow
      obtain ⟨hfirst, hmore⟩ := hrow
      obtain rfl := Option.some.inj hmore
      exact ⟨first, hfirst, hmem⟩

theorem isSequence_cons_iff :
    IsSequence (byte :: taken) ↔ ∃ lead, lead? byte = some lead ∧ Matches lead.ranges taken := by
  constructor
  · rintro ⟨row, hmem, hrow⟩
    cases hrow with | cons hfirst hmore =>
    obtain ⟨lead, hlead, rfl⟩ := exists_row_iff.1 ⟨_, hfirst, hmem⟩
    exact ⟨lead, hlead, hmore⟩
  · rintro ⟨lead, hlead, hmore⟩
    obtain ⟨first, hfirst, hmem⟩ := exists_row_iff.2 ⟨lead, hlead, rfl⟩
    exact ⟨_, hmem, .cons hfirst hmore⟩

theorem begins_cons_iff :
    Begins (byte :: taken) ↔ ∃ lead, lead? byte = some lead ∧
      ∃ before more, lead.ranges = before ++ more ∧ Matches before taken := by
  constructor
  · rintro ⟨before, more, hmem, hbefore⟩
    cases hbefore with | cons hfirst hbefore =>
    obtain ⟨lead, hlead, hranges⟩ := exists_row_iff.1 ⟨_, hfirst, hmem⟩
    exact ⟨lead, hlead, _, more, hranges, hbefore⟩
  · rintro ⟨lead, hlead, before, more, hranges, hbefore⟩
    obtain ⟨first, hfirst, hmem⟩ := exists_row_iff.2 ⟨lead, hlead, hranges⟩
    exact ⟨first :: before, more, hmem, .cons hfirst hbefore⟩

/-- What goes on behind a byte is as long as it announces. -/
theorem length_of_isSequence (hlead : lead? byte = some lead) (h : IsSequence (byte :: taken)) :
    taken.length = lead.ranges.length := by
  obtain ⟨other, hother, hranges⟩ := isSequence_cons_iff.1 h
  obtain rfl := Option.some.inj (hlead.symm.trans hother)
  exact hranges.length_eq.symm

theorem exists_before_of_begins (hlead : lead? byte = some lead) (h : Begins (byte :: taken)) :
    ∃ before more, lead.ranges = before ++ more ∧ Matches before taken := by
  obtain ⟨other, hother, hbefore⟩ := begins_cons_iff.1 h
  obtain rfl := Option.some.inj (hlead.symm.trans hother)
  exact hbefore

theorem not_isSequence_nil : ¬ IsSequence [] := by
  rintro ⟨row, hmem, hrow⟩
  cases hrow
  revert hmem
  decide

theorem IsSequence.begins {bytes : Bytes} (h : IsSequence bytes) : Begins bytes := by
  obtain ⟨row, hmem, hrow⟩ := h
  exact ⟨row, [], by rwa [List.append_nil], hrow⟩

theorem Begins.of_append {first more : Bytes} (h : Begins (first ++ more)) : Begins first := by
  obtain ⟨before, after, hmem, hbefore⟩ := h
  refine ⟨before.take first.length, before.drop first.length ++ after, ?_, ?_⟩
  · rwa [← List.append_assoc, List.take_append_drop]
  · have htake := List.forall₂_take first.length hbefore
    rwa [List.take_left] at htake

/-- A sequence is no part of a longer one. -/
theorem IsSequence.not_begins {bytes : Bytes} (h : IsSequence bytes) (byte : UInt8) :
    ¬ Begins (bytes ++ [byte]) := by
  intro hbegins
  cases bytes with
  | nil => exact not_isSequence_nil h
  | cons first taken =>
    obtain ⟨lead, hlead, -⟩ := isSequence_cons_iff.1 h
    obtain ⟨before, more, hrow, hbefore⟩ := exists_before_of_begins hlead hbegins
    have hlong : before.length = (taken ++ [byte]).length := hbefore.length_eq
    have hshort := length_of_isSequence hlead h
    rw [hrow, List.length_append] at hshort
    rw [List.length_append, List.length_singleton] at hlong
    omega

/-! ## Characters and sequences -/

/-- What the first byte of a sequence announces, by the number of bytes:
its own bits are what it exceeds the least first byte of that number by,
and bounds of their own keep the second byte from overlong forms, from
surrogates and from what lies beyond the last character. -/
inductive Announces (byte : UInt8) : Lead → Prop where
  | one : byte.toNat ≤ 0x7F → Announces byte ⟨byte.toNat, 0, 0x80, 0xBF⟩
  | two {bits : Nat} : byte.toNat = 0xC0 + bits → 2 ≤ bits → bits < 32 →
      Announces byte ⟨bits, 1, 0x80, 0xBF⟩
  | three {bits : Nat} {low high : UInt8} : byte.toNat = 0xE0 + bits → bits < 16 →
      0x80 ≤ low.toNat → (bits = 0 → 0xA0 ≤ low.toNat) →
      high.toNat ≤ 0xBF → (bits = 13 → high.toNat ≤ 0x9F) → Announces byte ⟨bits, 2, low, high⟩
  | four {bits : Nat} {low high : UInt8} : byte.toNat = 0xF0 + bits → bits ≤ 4 →
      0x80 ≤ low.toNat → (bits = 0 → 0x90 ≤ low.toNat) →
      high.toNat ≤ 0xBF → (bits = 4 → high.toNat ≤ 0x8F) → Announces byte ⟨bits, 3, low, high⟩

theorem announces_of_lead? : ∀ lead, lead? byte = some lead → Announces byte lead := by
  -- One case for each line of `lead?`, in the order they stand in.
  fun_cases lead? byte
  case case2 | case10 => nofun
  all_goals
    intro lead hlead
    obtain rfl := Option.some.inj hlead
  case case1 => exact .one ‹_›
  case case3 => exact .two (by omega) (by omega) (by omega)
  case case4 | case5 =>
    exact .three (by omega) (by decide) (by decide) (by decide) (by decide) (by decide)
  case case6 => exact .three (by omega) (by omega) (by decide) (by omega) (by decide) (by omega)
  case case7 | case9 =>
    exact .four (by omega) (by decide) (by decide) (by decide) (by decide) (by decide)
  case case8 => exact .four (by omega) (by omega) (by decide) (by omega) (by decide) (by omega)

/-- The number that own bits and owed bytes spell, six bits to a byte. -/
def value (bits : Nat) (taken : Bytes) : Nat :=
  taken.foldl (fun value byte => value * 64 + byte.toNat % 64) bits

theorem ofNat_eq (byte : UInt8) {n : Nat} (h : n = byte.toNat) : UInt8.ofNat n = byte := by
  rw [h, UInt8.ofNat_toNat]

/-- How a character is encoded, by its number. -/
theorem encodeChar_ofNat {n : Nat} (h : n.isValidChar) :
    String.utf8EncodeChar (Char.ofNat n) =
      if n ≤ 0x7F then [UInt8.ofNat n]
      else if n ≤ 0x7FF then [UInt8.ofNat (n / 64 % 32 + 0xC0), UInt8.ofNat (n % 64 + 0x80)]
      else if n ≤ 0xFFFF then
        [UInt8.ofNat (n / 4096 % 16 + 0xE0), UInt8.ofNat (n / 64 % 64 + 0x80),
          UInt8.ofNat (n % 64 + 0x80)]
      else
        [UInt8.ofNat (n / 262144 % 8 + 0xF0), UInt8.ofNat (n / 4096 % 64 + 0x80),
          UInt8.ofNat (n / 64 % 64 + 0x80), UInt8.ofNat (n % 64 + 0x80)] := by
  have hval : (Char.ofNat n).val.toNat = n := by
    rw [Char.ofNat, dif_pos h]
    rfl
  rw [String.utf8EncodeChar, hval]

section Value

variable {a b c d low high : UInt8} {bits : Nat}

theorem encodeChar_two (ha : a.toNat = 0xC0 + bits) (hleast : 2 ≤ bits) (hbits : bits < 32)
    (hb : Range.trail.Holds b) :
    String.utf8EncodeChar (Char.ofNat (bits * 64 + b.toNat % 64)) = [a, b] := by
  simp only [Range.Holds, Range.trail] at hb
  rw [encodeChar_ofNat (.inl (by omega)), if_neg (by omega), if_pos (by omega),
    ofNat_eq a (by omega), ofNat_eq b (by omega)]

theorem encodeChar_three (ha : a.toNat = 0xE0 + bits) (hbits : bits < 16)
    (hlow : 0x80 ≤ low.toNat) (hlong : bits = 0 → 0xA0 ≤ low.toNat)
    (hhigh : high.toNat ≤ 0xBF) (hscalar : bits = 13 → high.toNat ≤ 0x9F)
    (hb : Range.Holds ⟨low.toNat, high.toNat⟩ b) (hc : Range.trail.Holds c) :
    String.utf8EncodeChar (Char.ofNat ((bits * 64 + b.toNat % 64) * 64 + c.toNat % 64)) =
      [a, b, c] := by
  simp only [Range.Holds, Range.trail] at hb hc
  have hvalid : ((bits * 64 + b.toNat % 64) * 64 + c.toNat % 64).isValidChar := by
    unfold Nat.isValidChar
    omega
  rw [encodeChar_ofNat hvalid, if_neg (by omega), if_neg (by omega), if_pos (by omega),
    ofNat_eq a (by omega), ofNat_eq b (by omega),
    ofNat_eq c (by omega)]

theorem encodeChar_four (ha : a.toNat = 0xF0 + bits) (hbits : bits ≤ 4)
    (hlow : 0x80 ≤ low.toNat) (hlong : bits = 0 → 0x90 ≤ low.toNat)
    (hhigh : high.toNat ≤ 0xBF) (hlast : bits = 4 → high.toNat ≤ 0x8F)
    (hb : Range.Holds ⟨low.toNat, high.toNat⟩ b) (hc : Range.trail.Holds c)
    (hd : Range.trail.Holds d) :
    String.utf8EncodeChar
      (Char.ofNat (((bits * 64 + b.toNat % 64) * 64 + c.toNat % 64) * 64 + d.toNat % 64)) =
      [a, b, c, d] := by
  simp only [Range.Holds, Range.trail] at hb hc hd
  have hvalid :
      (((bits * 64 + b.toNat % 64) * 64 + c.toNat % 64) * 64 + d.toNat % 64).isValidChar := by
    unfold Nat.isValidChar
    omega
  rw [encodeChar_ofNat hvalid, if_neg (by omega), if_neg (by omega), if_neg (by omega),
    ofNat_eq a (by omega), ofNat_eq b (by omega),
    ofNat_eq c (by omega), ofNat_eq d (by omega)]

end Value

/-- **A sequence is how the character is encoded that it spells.** -/
theorem encodeChar_value (hlead : Announces byte lead) (htaken : Matches lead.ranges taken) :
    String.utf8EncodeChar (Char.ofNat (value lead.bits taken)) = byte :: taken := by
  cases hlead with
  | one hbyte =>
    cases htaken
    rw [value, List.foldl_nil, encodeChar_ofNat (.inl (Nat.lt_of_le_of_lt hbyte (by decide))),
      if_pos hbyte, UInt8.ofNat_toNat]
  | two hbyte hleast hbits =>
    rcases htaken with _ | ⟨hb, _ | _⟩
    exact encodeChar_two hbyte hleast hbits hb
  | three hbyte hbits hlow hlong hhigh hscalar =>
    rcases htaken with _ | ⟨hb, _ | ⟨hc, _ | _⟩⟩
    exact encodeChar_three hbyte hbits hlow hlong hhigh hscalar hb hc
  | four hbyte hbits hlow hlong hhigh hlast =>
    rcases htaken with _ | ⟨hb, _ | ⟨hc, _ | ⟨hd, _ | _⟩⟩⟩
    exact encodeChar_four hbyte hbits hlow hlong hhigh hlast hb hc hd

theorem exists_char_of_isSequence {bytes : Bytes} (h : IsSequence bytes) :
    ∃ c, String.utf8EncodeChar c = bytes := by
  cases bytes with
  | nil => exact absurd h not_isSequence_nil
  | cons byte taken =>
    obtain ⟨lead, hlead, htaken⟩ := isSequence_cons_iff.1 h
    exact ⟨_, encodeChar_value (announces_of_lead? lead hlead) htaken⟩

theorem Range.holds_ofNat {low high n : Nat} (hlow : low ≤ n) (hhigh : n ≤ high)
    (hbyte : n < 256) : Range.Holds ⟨low, high⟩ (UInt8.ofNat n) := by
  rw [Holds, UInt8.toNat_ofNat_of_lt' hbyte]
  exact ⟨hlow, hhigh⟩

theorem Range.holds_trail_ofNat (n : Nat) : Range.trail.Holds (UInt8.ofNat (n % 64 + 0x80)) :=
  holds_ofNat (by omega) (by omega) (by omega)

/-- Three bytes match a row, wherever the number of the character lies
that they are the bytes of. -/
theorem isSequence_three {n : Nat} (hlow : 0x7FF < n) (hhigh : n ≤ 0xFFFF)
    (hvalid : n.isValidChar) :
    IsSequence [UInt8.ofNat (n / 4096 % 16 + 0xE0), UInt8.ofNat (n / 64 % 64 + 0x80),
      UInt8.ofNat (n % 64 + 0x80)] := by
  unfold Nat.isValidChar at hvalid
  have hlead : n / 4096 % 16 = 0 ∨ (1 ≤ n / 4096 % 16 ∧ n / 4096 % 16 ≤ 12) ∨
      n / 4096 % 16 = 13 ∨ 14 ≤ n / 4096 % 16 := by omega
  have hsecond := Range.holds_trail_ofNat (n / 64)
  have hthird := Range.holds_trail_ofNat n
  rcases hlead with hlead | hlead | hlead | hlead
  · refine ⟨[⟨0xE0, 0xE0⟩, ⟨0xA0, 0xBF⟩, .trail], by decide,
      .cons ?_ (.cons ?_ (.cons hthird .nil))⟩
    · exact Range.holds_ofNat (by omega) (by omega) (by omega)
    · exact Range.holds_ofNat (by omega) (by omega) (by omega)
  · refine ⟨[⟨0xE1, 0xEC⟩, .trail, .trail], by decide,
      .cons ?_ (.cons hsecond (.cons hthird .nil))⟩
    exact Range.holds_ofNat (by omega) (by omega) (by omega)
  · refine ⟨[⟨0xED, 0xED⟩, ⟨0x80, 0x9F⟩, .trail], by decide,
      .cons ?_ (.cons ?_ (.cons hthird .nil))⟩
    · exact Range.holds_ofNat (by omega) (by omega) (by omega)
    · exact Range.holds_ofNat (by omega) (by omega) (by omega)
  · refine ⟨[⟨0xEE, 0xEF⟩, .trail, .trail], by decide,
      .cons ?_ (.cons hsecond (.cons hthird .nil))⟩
    exact Range.holds_ofNat (by omega) (by omega) (by omega)

/-- Four bytes match a row likewise. -/
theorem isSequence_four {n : Nat} (hlow : 0xFFFF < n) (hvalid : n.isValidChar) :
    IsSequence [UInt8.ofNat (n / 262144 % 8 + 0xF0), UInt8.ofNat (n / 4096 % 64 + 0x80),
      UInt8.ofNat (n / 64 % 64 + 0x80), UInt8.ofNat (n % 64 + 0x80)] := by
  unfold Nat.isValidChar at hvalid
  have hlead : n / 262144 % 8 = 0 ∨ (1 ≤ n / 262144 % 8 ∧ n / 262144 % 8 ≤ 3) ∨
      n / 262144 % 8 = 4 := by omega
  have hsecond := Range.holds_trail_ofNat (n / 4096)
  have hthird := Range.holds_trail_ofNat (n / 64)
  have hfourth := Range.holds_trail_ofNat n
  rcases hlead with hlead | hlead | hlead
  · refine ⟨[⟨0xF0, 0xF0⟩, ⟨0x90, 0xBF⟩, .trail, .trail], by decide,
      .cons ?_ (.cons ?_ (.cons hthird (.cons hfourth .nil)))⟩
    · exact Range.holds_ofNat (by omega) (by omega) (by omega)
    · exact Range.holds_ofNat (by omega) (by omega) (by omega)
  · refine ⟨[⟨0xF1, 0xF3⟩, .trail, .trail, .trail], by decide,
      .cons ?_ (.cons hsecond (.cons hthird (.cons hfourth .nil)))⟩
    exact Range.holds_ofNat (by omega) (by omega) (by omega)
  · refine ⟨[⟨0xF4, 0xF4⟩, ⟨0x80, 0x8F⟩, .trail, .trail], by decide,
      .cons ?_ (.cons ?_ (.cons hthird (.cons hfourth .nil)))⟩
    · exact Range.holds_ofNat (by omega) (by omega) (by omega)
    · exact Range.holds_ofNat (by omega) (by omega) (by omega)

/-- **Every character is encoded as a sequence.** -/
theorem isSequence_encodeChar (c : Char) : IsSequence (String.utf8EncodeChar c) := by
  have hvalid : c.val.toNat.isValidChar := c.valid
  unfold String.utf8EncodeChar
  generalize c.val.toNat = n at hvalid
  simp only
  split
  · exact ⟨[⟨0x00, 0x7F⟩], by decide,
      .cons (Range.holds_ofNat (Nat.zero_le n) (by omega) (by omega)) .nil⟩
  split
  · exact ⟨[⟨0xC2, 0xDF⟩, .trail], by decide,
      .cons (Range.holds_ofNat (by omega) (by omega) (by omega))
        (.cons (Range.holds_trail_ofNat n) .nil)⟩
  split
  · exact isSequence_three (by omega) (by omega) hvalid
  · exact isSequence_four (by omega) hvalid

theorem encodeChar_injective {c c' : Char}
    (h : String.utf8EncodeChar c = String.utf8EncodeChar c') : c = c' := by
  have hc := ByteArray.utf8DecodeChar?_utf8EncodeChar_append (b := .empty) (c := c)
  rw [h, ByteArray.utf8DecodeChar?_utf8EncodeChar_append] at hc
  exact (Option.some.inj hc).symm

end Utf8

end StreamWire
