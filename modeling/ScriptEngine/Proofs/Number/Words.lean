import ScriptEngine.Proofs.Evaluation.Outcome
import ScriptEngine.Proofs.Number.Natural

/-!
Words. A number becomes a word by operations on numbers, none of which rounds: the word is what the whole part of
the number is modulo a power of two. The operators on words are those on bit vectors, and what they give is a word
again, so that nothing is lost when it becomes a number.
-/

namespace ScriptEngine.Number

variable {x y : Number} {a b : Int}

/-! ## Words from numbers -/

theorem counts_abs (counts : Counts x a) : Counts x.abs a.natAbs := by
  obtain ⟨s, m, e, canonical, rfl, rfl⟩ := counts.finite_form
  rw [natAbs_signed]
  exact counts_finite false canonical

/-- A remainder that is not negative is exact, too. -/
theorem counts_remEuclid (countsX : Counts x a) (countsY : Counts y b) (positive : 0 < b)
    (fits : Fits (a % b).natAbs) : Counts (remEuclid x y) (a % b) := by
  have remainder := counts_rem countsX countsY positive.ne'
  have below := lt_iff remainder (counts_zero false)
  have bounds := Int.emod_nonneg a positive.ne'
  have least := Int.emod_lt_of_pos a positive
  have related := @Int.tmod_eq_emod a b
  unfold remEuclid
  dsimp only
  split
  · next negative =>
    have same : a.tmod b + b.natAbs = a % b := by
      have less := below.1 negative
      split at related <;> omega
    rw [← same] at fits ⊢
    exact counts_add remainder (counts_abs countsY) fits
  · next other =>
    have same : a.tmod b = a % b := by
      have least := mt below.2 other
      split at related <;> omega
    rwa [← same]

theorem units_of_none (x : Number) (none : (!x.isFinite || x.isZero) = true) : x.toUnits = 0 := by
  cases x with
  | nan => rfl
  | infinite negative => cases negative <;> rfl
  | finite s m e canonical =>
    obtain rfl : m = 0 := by simpa [isFinite, isZero] using none
    cases s <;> simp [toUnits, isNegative, magnitudeUnits]

/-- A number in the range of unsigned words is its whole part modulo `2 ^ 32`. -/
theorem counts_wrap (x : Number) : Counts x.wrap (x.truncated % 4294967296 * (2 ^ unitsPerOne : Nat)) := by
  have one : (0 : Int) < (2 ^ unitsPerOne : Nat) := Int.natCast_pos.2 (Nat.two_pow_pos _)
  have low := Int.emod_nonneg x.truncated (by decide : (4294967296 : Int) ≠ 0)
  have high := Int.emod_lt_of_pos x.truncated (by decide : (0 : Int) < 4294967296)
  unfold wrap
  split
  · next none =>
    have zero : x.truncated = 0 := by rw [truncated, units_of_none x none, Int.zero_tdiv]
    rw [zero, Int.zero_emod, Int.zero_mul]
    exact counts_zero false
  · next some =>
    have finite : x.isFinite := by
      rw [Bool.not_eq_true, Bool.or_eq_false_iff, Bool.not_eq_false'] at some
      exact some.1
    have whole : Counts x.trunc (x.truncated * (2 ^ unitsPerOne : Nat)) := counts_trunc ⟨finite, rfl⟩
    have range : Counts wordCount (4294967296 * (2 ^ unitsPerOne : Nat)) := counts_ofNat (by decide)
    have remainder : x.truncated * (2 ^ unitsPerOne : Nat) % (4294967296 * (2 ^ unitsPerOne : Nat)) =
        x.truncated % 4294967296 * (2 ^ unitsPerOne : Nat) := by
      rw [Int.mul_comm, Int.mul_comm 4294967296, Int.mul_emod_mul_of_pos _ _ one, Int.mul_comm]
    rw [← remainder]
    refine counts_remEuclid whole range (Int.mul_pos (by decide) one) ?_
    rw [remainder]
    apply fits_whole
    simp only [mantissaLimit, Nat.one_shiftLeft]
    omega

/-- The unsigned word of a number is its whole part modulo `2 ^ 32`. -/
theorem toUint32_toNat (x : Number) : (x.toUint32.toNat : Int) = x.truncated % 4294967296 := by
  have low := Int.emod_nonneg x.truncated (by decide : (4294967296 : Int) ≠ 0)
  have high := Int.emod_lt_of_pos x.truncated (by decide : (0 : Int) < 4294967296)
  obtain ⟨n, natural⟩ := Int.eq_ofNat_of_zero_le low
  have wrapped := counts_wrap x
  rw [natural] at wrapped high ⊢
  rw [toUint32, clampTo_of_counts wrapped, UInt32.toNat_ofNat']
  have cut : Nat.min n 4294967295 = n := Nat.min_eq_left (by omega)
  rw [cut]
  omega

/-- The signed word of a number is its whole part modulo `2 ^ 32`, taken between `-2 ^ 31` and `2 ^ 31`. -/
theorem toInt32_toInt (x : Number) : x.toInt32.toInt = x.truncated.bmod 4294967296 := by
  have low := Int.emod_nonneg x.truncated (by decide : (4294967296 : Int) ≠ 0)
  have high := Int.emod_lt_of_pos x.truncated (by decide : (0 : Int) < 4294967296)
  have one : (0 : Int) < (2 ^ unitsPerOne : Nat) := Int.natCast_pos.2 (Nat.two_pow_pos _)
  have wrapped := counts_wrap x
  have half : Counts (ofNat 2147483648) (2147483648 * (2 ^ unitsPerOne : Nat)) := counts_ofNat (by decide)
  have range : Counts wordCount (4294967296 * (2 ^ unitsPerOne : Nat)) := counts_ofNat (by decide)
  have upper := le_iff half wrapped
  rw [Int.mul_le_mul_right one] at upper
  have word (n : Int) (least : -2147483648 ≤ n) (most : n ≤ 2147483647) : (Int32.ofIntClamp n).toInt = n :=
    Int32.toInt_ofIntClamp least most
  rw [Int.bmod_def, toInt32]
  split
  · next above =>
    have reaches := upper.1 above
    have less : Counts (sub x.wrap wordCount)
        ((x.truncated % 4294967296 - 4294967296) * (2 ^ unitsPerOne : Nat)) := by
      rw [Int.sub_mul]
      apply counts_sub wrapped range
      rw [← Int.sub_mul]
      apply fits_whole
      simp only [mantissaLimit, Nat.one_shiftLeft]
      omega
    rw [toInt_eq_truncated, truncated_of_whole less, word _ (by omega) (by omega)]
    omega
  · next below =>
    have short := mt upper.2 below
    rw [toInt_eq_truncated, truncated_of_whole wrapped, word _ (by omega) (by omega)]
    omega

theorem toUint16_toNat (x : Number) : (x.toUint16.toNat : Int) = x.truncated % 65536 := by
  have word := toUint32_toNat x
  have low : (x.toUint32 &&& 0xFFFF).toNat = x.toUint32.toNat % 65536 :=
    Nat.and_two_pow_sub_one_eq_mod x.toUint32.toNat 16
  rw [toUint16, UInt32.toNat_toUInt16, low]
  omega

/-! ## The words themselves -/

/-- The bits of the whole part of a number, as many as a word has. -/
def word (x : Number) : BitVec 32 :=
  BitVec.ofInt 32 x.truncated

/-- How far a number shifts a word. -/
def shift (x : Number) : Nat :=
  (x.truncated % 32).toNat

/-- The number that a word stands for, its first bit being that of the sign. -/
def ofSigned (w : BitVec 32) : Number :=
  ofInt w.toInt

/-- The number that a word without a sign stands for. -/
def ofUnsigned (w : BitVec 32) : Number :=
  ofNat w.toNat

theorem toInt32_word (x : Number) : x.toInt32.toBitVec = x.word := by
  apply BitVec.eq_of_toInt_eq
  rw [Int32.toInt_toBitVec, toInt32_toInt, word, BitVec.toInt_ofInt]

theorem toUint32_word (x : Number) : x.toUint32.toBitVec = x.word := by
  have range := toUint32_toNat x
  apply BitVec.eq_of_toNat_eq
  rw [UInt32.toNat_toBitVec, word, BitVec.toNat_ofInt]
  omega

theorem shift_lt (x : Number) : x.shift < 32 := by
  unfold shift
  omega

/-- The count of a shift is the whole part modulo thirty-two. -/
theorem shiftCount_toNat (x : Number) : (shiftCount x.toUint32).toNat = x.shift := by
  have range := toUint32_toNat x
  have low : (shiftCount x.toUint32).toNat = x.toUint32.toNat % 32 :=
    Nat.and_two_pow_sub_one_eq_mod x.toUint32.toNat 5
  rw [low, shift]
  omega

theorem ofInt32_eq (n : Int32) : ofInt32 n = ofSigned n.toBitVec := rfl

theorem ofUint32_eq (n : UInt32) : ofUint32 n = ofUnsigned n.toBitVec := rfl

theorem counts_ofSigned (w : BitVec 32) : Counts (ofSigned w) (w.toInt * (2 ^ unitsPerOne : Nat)) := by
  have low := BitVec.le_toInt w
  have high := BitVec.toInt_lt (x := w)
  apply counts_ofInt
  simp only [mantissaLimit, Nat.one_shiftLeft]
  omega

theorem counts_ofUnsigned (w : BitVec 32) : Counts (ofUnsigned w) (w.toNat * (2 ^ unitsPerOne : Nat)) := by
  have high := w.isLt
  apply counts_ofNat
  simp only [mantissaLimit, Nat.one_shiftLeft]
  omega

/-! ## Shifts of words -/

/-- Words may be shifted by any word, which is why a count is brought below thirty-two by each shift again. -/
theorem smod_of_lt {c : BitVec 32} (small : c.toNat < 32) : c.smod 32 = c := by
  have positive : c.toInt = c.toNat := BitVec.toInt_eq_toNat_of_lt (by omega)
  apply BitVec.eq_of_toInt_eq
  rw [BitVec.toInt_smod, positive]
  exact Int.fmod_eq_of_lt (Int.natCast_nonneg _) (Int.ofNat_lt.2 small)

theorem umod_of_lt {c : BitVec 32} (small : c.toNat < 32) : c % 32 = c := by
  apply BitVec.eq_of_toNat_eq
  rw [BitVec.toNat_umod]
  exact Nat.mod_eq_of_lt small

/-- The count of a shift as the bits that are shifted by. -/
theorem shiftCount_word (x : Number) :
    (shiftCount x.toUint32).toBitVec.toNat = x.shift ∧ (shiftCount x.toUint32).toBitVec.toNat < 32 := by
  rw [UInt32.toNat_toBitVec, shiftCount_toNat]
  exact ⟨rfl, shift_lt x⟩

theorem shiftLeft_word (x y : Number) :
    (x.toInt32 <<< (shiftCount y.toUint32).toInt32).toBitVec = x.word <<< y.shift := by
  obtain ⟨count, small⟩ := shiftCount_word y
  rw [Int32.toBitVec_shiftLeft, UInt32.toBitVec_toInt32, smod_of_lt small, BitVec.shiftLeft_eq', count,
    toInt32_word]

theorem shiftRight_word (x y : Number) :
    (x.toInt32 >>> (shiftCount y.toUint32).toInt32).toBitVec = x.word.sshiftRight y.shift := by
  obtain ⟨count, small⟩ := shiftCount_word y
  rw [Int32.toBitVec_shiftRight, UInt32.toBitVec_toInt32, smod_of_lt small, BitVec.sshiftRight_eq', count,
    toInt32_word]

theorem unsignedShiftRight_word (x y : Number) :
    (x.toUint32 >>> shiftCount y.toUint32).toBitVec = x.word >>> y.shift := by
  obtain ⟨count, small⟩ := shiftCount_word y
  rw [UInt32.toBitVec_shiftRight, umod_of_lt small, BitVec.ushiftRight_eq', count, toUint32_word]

/-! ## The operators -/

/-- A number becomes words by its whole part alone, and only a finite one has a whole part. -/
structure WordsOf (x : Number) : Prop where
  unsigned : x.isFinite → (x.toUint32.toNat : Int) = x.truncated % 2 ^ 32
  signed : x.isFinite → x.toInt32.toInt % 2 ^ 32 = x.truncated % 2 ^ 32
  signedRange : -2 ^ 31 ≤ x.toInt32.toInt ∧ x.toInt32.toInt < 2 ^ 31
  short : x.isFinite → (x.toUint16.toNat : Int) = x.truncated % 2 ^ 16
  notFinite : x.isFinite = false → x.toUint32 = 0 ∧ x.toInt32 = 0 ∧ x.toUint16 = 0

theorem words_of (x : Number) : WordsOf x where
  unsigned _ := toUint32_toNat x
  signed _ := by
    rw [toInt32_toInt]
    exact Int.bmod_emod
  signedRange := ⟨Int32.le_toInt _, Int32.toInt_lt _⟩
  short _ := toUint16_toNat x
  notFinite infinite := by
    cases x with
    | nan => decide
    | infinite negative => cases negative <;> decide
    | finite s m e canonical => cases infinite

end ScriptEngine.Number

namespace ScriptEngine

open Number

/-- The operators on words, as what they do to the bits of two numbers. -/
structure WordOperators (engine : Engine) (m : Machine) (x y : Number) : Prop where
  shiftLeft : m.run (applyBinary engine .shiftLeft (.number x) (.number y)) =
    (.ok (.number (ofSigned (x.word <<< y.shift))), m)
  shiftRight : m.run (applyBinary engine .shiftRight (.number x) (.number y)) =
    (.ok (.number (ofSigned (x.word.sshiftRight y.shift))), m)
  unsignedShiftRight : m.run (applyBinary engine .unsignedShiftRight (.number x) (.number y)) =
    (.ok (.number (ofUnsigned (x.word >>> y.shift))), m)
  bitAnd : m.run (applyBinary engine .bitAnd (.number x) (.number y)) =
    (.ok (.number (ofSigned (x.word &&& y.word))), m)
  bitOr : m.run (applyBinary engine .bitOr (.number x) (.number y)) =
    (.ok (.number (ofSigned (x.word ||| y.word))), m)
  bitXor : m.run (applyBinary engine .bitXor (.number x) (.number y)) =
    (.ok (.number (ofSigned (x.word ^^^ y.word))), m)

theorem word_operators (engine : Engine) (m : Machine) (x y : Number) : WordOperators engine m x y where
  shiftLeft := by
    rw [← shiftLeft_word, ← ofInt32_eq]
    rfl
  shiftRight := by
    rw [← shiftRight_word, ← ofInt32_eq]
    rfl
  unsignedShiftRight := by
    rw [← unsignedShiftRight_word, ← ofUint32_eq]
    rfl
  bitAnd := by
    rw [← toInt32_word, ← toInt32_word, ← Int32.toBitVec_and, ← ofInt32_eq]
    rfl
  bitOr := by
    rw [← toInt32_word, ← toInt32_word, ← Int32.toBitVec_or, ← ofInt32_eq]
    rfl
  bitXor := by
    rw [← toInt32_word, ← toInt32_word, ← Int32.toBitVec_xor, ← ofInt32_eq]
    rfl

/-- Numbers become words by their whole parts, the operators on words are those on thirty-two bits with the count
of a shift below thirty-two, and every word that they give is a number as it is. A shift by zero and a
disjunction with zero only make a word of a number. -/
theorem word_operators_exact (engine : Engine) (m : Machine) :
    (∀ x, WordsOf x) ∧
      (∀ x y, WordOperators engine m x y) ∧
      (∀ x : Number, (shiftCount x.toUint32).toNat = x.shift ∧ x.shift < 32) ∧
      (∀ w, Counts (ofSigned w) (w.toInt * (2 ^ unitsPerOne : Nat)) ∧ -2 ^ 31 ≤ w.toInt ∧ w.toInt < 2 ^ 31) ∧
      (∀ w, Counts (ofUnsigned w) (w.toNat * (2 ^ unitsPerOne : Nat)) ∧ w.toNat < 2 ^ 32) ∧
      ∀ x, m.run (applyBinary engine .unsignedShiftRight (.number x) (.number zero)) =
          (.ok (.number (ofUint32 x.toUint32)), m) ∧
        m.run (applyBinary engine .bitOr (.number x) (.number zero)) =
          (.ok (.number (ofInt32 x.toInt32)), m) := by
  have nothing : zero.truncated = 0 := (toInt_eq_truncated zero).symm
  have noWord : zero.word = 0#32 := by
    rw [word, nothing]
    rfl
  have noShift : zero.shift = 0 := by
    rw [shift, nothing]
    rfl
  refine ⟨words_of, word_operators engine m, fun x => ⟨shiftCount_toNat x, shift_lt x⟩,
    fun w => ⟨counts_ofSigned w, BitVec.le_toInt w, BitVec.toInt_lt⟩,
    fun w => ⟨counts_ofUnsigned w, w.isLt⟩, fun x => ?_⟩
  have operators := word_operators engine m x zero
  have shifted := operators.unsignedShiftRight
  have joined := operators.bitOr
  rw [noShift, BitVec.ushiftRight_zero, ← toUint32_word, ← ofUint32_eq] at shifted
  rw [noWord, BitVec.or_zero, ← toInt32_word, ← ofInt32_eq] at joined
  exact ⟨shifted, joined⟩

end ScriptEngine
