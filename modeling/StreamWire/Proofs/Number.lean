import StreamWire.Header
/-!
# Numbers — which values a field takes

A value denotes a natural number exactly when it is filed under it:
`Number.key` forgets the sign of zero and nothing else. So a field takes
a value or refuses it by its key alone, and the flags a value is sent
with are those it is read back as.
-/

namespace StreamWire

namespace Number

@[simp] theorem key_ofNat (n : Nat) : (ofNat n).key = ofNat n := rfl

/-- **What denotes a natural number is that number, or negative zero.** -/
theorem toNat?_eq_some_iff {x : Number} {n : Nat} : x.toNat? = some n ↔ x.key = ofNat n := by
  cases x with
  | whole i =>
    simp only [toNat?, key, ofNat, whole.injEq]
    split
    · rw [Option.some_inj]
      omega
    · simp only [reduceCtorEq, false_iff]
      omega
  | negZero =>
    simp only [toNat?, key, ofNat, whole.injEq, Option.some_inj]
    omega
  | nan => simp [toNat?, key, ofNat]
  | infinite negative => simp [toNat?, key, ofNat]
  | fraction numerator places odd => simp [toNat?, key, ofNat]

theorem toNatUpTo?_eq_some_iff {limit : Nat} {x : Number} {n : Nat} :
    x.toNatUpTo? limit = some n ↔ x.key = ofNat n ∧ n ≤ limit := by
  simp [toNatUpTo?, Option.filter_eq_some_iff, toNat?_eq_some_iff]

theorem ofNat_injective {m n : Nat} (h : ofNat m = ofNat n) : m = n := by
  injection h with h
  exact Int.ofNat_inj.1 h

/-- A value that denotes a natural number other than zero is that
number. -/
theorem eq_ofNat_of_key {x : Number} {n : Nat} (h : x.key = ofNat n) (hne : n ≠ 0) :
    x = ofNat n := by
  cases x with
  | negZero => exact absurd (ofNat_injective h).symm hne
  | _ => exact h

/-- The sign of zero decides nothing. -/
theorem isZero_key (x : Number) : x.key.isZero = x.isZero := by
  cases x <;> rfl

theorem isZero_iff {x : Number} : x.isZero = true ↔ x.key = ofNat 0 := by
  rw [← isZero_key]
  cases x <;> simp [key, isZero, ofNat]

theorem toNatUpTo?_eq_none_iff {limit : Nat} {x : Number} :
    x.toNatUpTo? limit = none ↔ ∀ n ≤ limit, x.key ≠ ofNat n := by
  rw [Option.eq_none_iff_forall_ne_some]
  simp only [ne_eq, toNatUpTo?_eq_some_iff, not_and]
  exact forall_congr' fun n => ⟨fun h hle hkey => h hkey hle, fun h hkey hle => h hle hkey⟩

theorem toNatUpTo?_congr {x y : Number} (h : x.key = y.key) (limit : Nat) :
    x.toNatUpTo? limit = y.toNatUpTo? limit := by
  ext n
  rw [toNatUpTo?_eq_some_iff, toNatUpTo?_eq_some_iff, h]

theorem isBelow_ofNat_iff {m n : Nat} : (ofNat m).isBelow n = true ↔ m < n := by
  simp [isBelow, ofNat]

/-! ## Flags as bits -/

/-- Flags are read back as themselves. -/
theorem ofFlags_injective {a b : BitVec 10} (h : ofFlags a = ofFlags b) : a = b :=
  BitVec.eq_of_toNat_eq (ofNat_injective h)

/-- Ten flag bits are the low bits of their word. -/
@[simp] theorem word_ofFlags (flags : BitVec 10) : (ofFlags flags).word = flags.setWidth 32 := by
  rw [ofFlags, ofNat, word, BitVec.ofInt_natCast, BitVec.ofNat_toNat]

/-- A word with ten flag bits only is the value of its flags. -/
theorem ofWord_setWidth (flags : BitVec 10) : ofWord (flags.setWidth 32) = ofFlags flags := by
  have hlt := flags.isLt
  have hword : (flags.setWidth 32).toNat = flags.toNat := by
    rw [BitVec.toNat_setWidth]
    omega
  rw [ofWord, ofFlags, ofNat, BitVec.toInt_eq_toNat_of_lt (by omega), hword]

/-- A flag is set where its bit is. -/
theorem hasFlag_twoPow (x : Number) {i : Nat} (hi : i < 32) :
    x.hasFlag (BitVec.twoPow 32 i) = x.word.getLsbD i := by
  have hne : BitVec.twoPow 32 i ≠ 0 := by
    intro h
    have := congrArg (·.getLsbD i) h
    simp [hi] at this
  rw [hasFlag, BitVec.and_twoPow]
  cases x.word.getLsbD i with
  | false => rfl
  | true => exact bne_iff_ne.2 hne

end Number

namespace Flag

/-- A bit that is set where something holds. -/
theorem getLsbD_ite (described : Bool) {k : Nat} (hk : k < 32) (i : Nat) :
    (if described then BitVec.twoPow 32 k else 0 : BitVec 32).getLsbD i =
      (described && decide (i = k)) := by
  cases described <;> simp [BitVec.getLsbD_twoPow, hk, eq_comm]

theorem complete_eq : complete = BitVec.twoPow 32 6 := by decide

theorem follows_eq : follows = BitVec.twoPow 32 7 := by decide

theorem metadata_eq : metadata = BitVec.twoPow 32 8 := by decide

/-- Of ten flags all but `follows`. -/
theorem getLsbD_not_follows {i : Nat} (hi : i < 10) :
    (~~~follows.setWidth 10).getLsbD i = !decide (i = 7) := by
  rw [follows_eq]
  simp [hi, show i < 32 by omega]

end Flag

namespace Number

theorem hasFlag_complete (x : Number) : x.hasFlag Flag.complete = x.word.getLsbD 6 := by
  rw [Flag.complete_eq, hasFlag_twoPow x (by decide)]

theorem hasFlag_follows (x : Number) : x.hasFlag Flag.follows = x.word.getLsbD 7 := by
  rw [Flag.follows_eq, hasFlag_twoPow x (by decide)]

end Number

/-! ## Stream ids -/

theorem StreamId.ofNumber?_eq_some_iff {x : Number} {id : Nat} :
    StreamId.ofNumber? x = some id ↔ x.key = .ofNat id ∧ id ≤ Wire.maxStreamId :=
  Number.toNatUpTo?_eq_some_iff

theorem StreamId.ofNumber?_congr {x y : Number} (h : x.key = y.key) :
    StreamId.ofNumber? x = StreamId.ofNumber? y :=
  Number.toNatUpTo?_congr h Wire.maxStreamId

theorem Scope.allows_congr {x y : Number} (h : x.key = y.key) (scope : Scope) :
    scope.allows x = scope.allows y := by
  have hzero : x.isZero = y.isZero := by rw [← Number.isZero_key, h, Number.isZero_key]
  cases scope <;> simp [Scope.allows, hzero]

end StreamWire
