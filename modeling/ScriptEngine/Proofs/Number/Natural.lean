import ScriptEngine.Number.Literal
import ScriptEngine.Number.Words
import ScriptEngine.Proofs.Number.Units

/-!
Whole numbers. An integer of at most fifty-three bits is a number as it is. A larger one is rounded, but never
below `2 ^ 52`, so that what is cut to a smaller limit is cut as an integer.

Digits in a base that is a power of two are taken one by one, with a rounding at each, which is exact until
fifty-three bits are used up. From there on a digit is less than half of the last place, and only moves the others.
-/

namespace ScriptEngine.Number

variable {x : Number} {a : Int}

/-- The whole part of a finite number; of any other it is zero. -/
def truncated (x : Number) : Int :=
  x.toUnits.tdiv (2 ^ unitsPerOne : Nat)

theorem toInt_eq_truncated (x : Number) : x.toInt = x.truncated := by
  cases x with
  | nan => exact (Int.zero_tdiv _).symm
  | infinite negative =>
    have none : (Number.infinite negative).toUnits = 0 := by cases negative <;> rfl
    rw [truncated, none, Int.zero_tdiv]
    cases negative <;> rfl
  | finite s m e canonical =>
    have whole : (Number.finite s m e canonical).wholePart = m <<< e / 2 ^ unitsPerOne := by
      simp only [wholePart, Nat.shiftRight_eq_div_pow, Nat.shiftLeft_eq]
      split
      · next above =>
        rw [← Nat.mul_div_cancel (m * 2 ^ (e - unitsPerOne)) (Nat.two_pow_pos unitsPerOne), Nat.mul_assoc,
          ← Nat.pow_add, Nat.sub_add_cancel above]
      · next below =>
        rw [← Nat.mul_div_mul_right m (2 ^ (unitsPerOne - e)) (Nat.two_pow_pos e), ← Nat.pow_add,
          Nat.sub_add_cancel (Nat.le_of_not_le below)]
    have units := signed_tdiv s (m <<< e) (2 ^ unitsPerOne)
    rw [← whole] at units
    exact units.symm

theorem truncated_of_whole (counts : Counts x (a * (2 ^ unitsPerOne : Nat))) : x.truncated = a := by
  have one : ((2 ^ unitsPerOne : Nat) : Int) ≠ 0 := Int.natCast_ne_zero.2 (Nat.two_pow_pos _).ne'
  rw [truncated, counts.units, Int.mul_tdiv_cancel _ one]

/-- An integer of at most fifty-three bits is a number. -/
theorem fits_whole {n : Int} (small : n.natAbs < mantissaLimit) : Fits (n * (2 ^ unitsPerOne : Nat)).natAbs := by
  rw [Int.natAbs_mul, Int.natAbs_natCast, ← Nat.shiftLeft_eq]
  exact fits_of_small small (by decide)

theorem counts_ofInt {n : Int} (small : n.natAbs < mantissaLimit) :
    Counts (ofInt n) (n * (2 ^ unitsPerOne : Nat)) := by
  by_cases zero : n = 0
  · subst zero
    rw [Int.zero_mul]
    exact counts_zero false
  · have number : ofInt n = scaled (n < 0) n.natAbs unitsPerOne := by simp [ofInt, zero]
    have units : signed (n < 0) (n.natAbs <<< unitsPerOne) = n * (2 ^ unitsPerOne : Nat) := by
      rw [Nat.shiftLeft_eq, signed_mul, signed_of_int]
    rw [number, ← units]
    exact counts_scaled _ (Int.natAbs_ne_zero.2 zero) (fits_of_small small (by decide))

/-- A natural number is cut to a limit as it is. -/
theorem clampTo_of_counts {n : Nat} (counts : Counts x (n * (2 ^ unitsPerOne : Nat))) (limit : Nat) :
    x.clampTo limit = Nat.min n limit := by
  have integer : x.toInt = n := by rw [toInt_eq_truncated, truncated_of_whole counts]
  obtain ⟨s, m, e, canonical, rfl, -⟩ := counts.finite_form
  cases s with
  | false => rw [clampTo, if_neg Bool.false_ne_true, Int.ofNat_inj.1 integer]
  | true =>
    have zero : n = 0 := by
      simp only [toInt, isNegative, if_true] at integer
      omega
    simp [clampTo, zero]

/-- What is packed with a full mantissa at one or above is infinite or at least `2 ^ 52`. -/
theorem le_clampTo_pack {m e limit : Nat} (full : mantissaNormal ≤ m) (above : unitsPerOne ≤ e)
    (below : limit ≤ mantissaNormal) : (pack false m e).clampTo limit = limit := by
  unfold pack
  split
  · have reaches : limit ≤ m <<< (e - unitsPerOne) := by
      rw [Nat.shiftLeft_eq]
      exact Nat.le_trans below (Nat.le_trans full (Nat.le_mul_of_pos_right _ (Nat.two_pow_pos _)))
    simp only [clampTo, wholePart, above, if_true, Bool.false_eq_true, if_false]
    exact Nat.min_eq_right reaches
  · rfl

/-- A natural number cut to a limit below `2 ^ 52` is cut as a natural number. -/
theorem clampTo_ofNat {limit : Nat} (below : limit < mantissaNormal) (n : Nat) :
    (ofNat n).clampTo limit = Nat.min n limit := by
  by_cases small : n < mantissaLimit
  · exact clampTo_of_counts (counts_ofNat small) limit
  · have large : mantissaNormal ≤ n := Nat.le_trans (by decide) (Nat.not_lt.1 small)
    obtain ⟨m, e, full, -, -, moved⟩ := nearest_large false large
    rw [ofNat_eq_nearest, moved, le_clampTo_pack full (Nat.le_add_left ..) below.le]
    exact (Nat.min_eq_right (by omega)).symm

/-! ## Digits in a base -/

/-- The value of digits behind those that `n` stands for. -/
def valueAfter (base n : Nat) : List Char → Nat
  | [] => n
  | c :: rest => valueAfter base (base * n + (digitValue? base c).getD 0) rest

/-- The value of digits behind those that `n` stands for, with zeros for what follows fifty-three bits. -/
def keptAfter (base n : Nat) : List Char → Nat
  | [] => n
  | c :: rest => keptAfter base (base * n + if n < mantissaLimit then (digitValue? base c).getD 0 else 0) rest

theorem le_value_after {base : Nat} (positive : 0 < base) (n : Nat) (digits : List Char) :
    n ≤ valueAfter base n digits := by
  induction digits generalizing n with
  | nil => exact Nat.le_refl n
  | cons c rest ih =>
    have grown : n ≤ base * n := Nat.le_mul_of_pos_left n positive
    exact Nat.le_trans (Nat.le_trans grown (Nat.le_add_right ..)) (ih _)

/-- Every digit is kept if the value has no more than fifty-three bits. -/
theorem kept_after_small {base n : Nat} {digits : List Char} (positive : 0 < base)
    (small : valueAfter base n digits < mantissaLimit) : keptAfter base n digits = valueAfter base n digits := by
  induction digits generalizing n with
  | nil => rfl
  | cons c rest ih =>
    have room : n < mantissaLimit := Nat.lt_of_le_of_lt (le_value_after positive n (c :: rest)) small
    rw [keptAfter, if_pos room]
    exact ih small

/-! ## One digit more -/

variable {bits n d : Nat}

theorem isNegative_ofNat (n : Nat) : (ofNat n).isNegative = false := by
  rw [ofNat_eq_nearest, isNegative_nearest]

theorem natural_not_negative (k : Nat) : decide ((k : Int) < 0) = false :=
  decide_eq_false (Int.not_lt.2 (Int.natCast_nonneg k))

theorem two_pow_small (short : bits ≤ 5) : 2 ^ bits < mantissaLimit := by
  rw [mantissaLimit, Nat.one_shiftLeft]
  exact Nat.pow_lt_pow_right (by decide) (by omega)

/-- Nothing is lost while the digits before have no more than fifty-three bits, or only by one rounding. -/
theorem add_digit_small (room : n < mantissaLimit) (short : bits ≤ 5) (digit : d < 2 ^ bits) :
    add (mul (ofNat n) (ofNat (2 ^ bits))) (ofNat d) = ofNat (2 ^ bits * n + d) := by
  have fits : Fits ((2 ^ bits * n : Nat) * (2 ^ unitsPerOne : Nat) : Int).natAbs := by
    rw [Int.natAbs_mul, Int.natAbs_natCast, Int.natAbs_natCast, Nat.mul_comm (2 ^ bits), Nat.mul_assoc,
      ← Nat.pow_add, ← Nat.shiftLeft_eq]
    exact fits_of_small room (by simp only [unitsPerOne, maxExponent]; omega)
  have product : Counts (mul (ofNat n) (ofNat (2 ^ bits))) ((2 ^ bits * n : Nat) * (2 ^ unitsPerOne : Nat)) := by
    refine counts_mul (counts_ofNat room) (counts_ofNat (two_pow_small short)) ?_ fits
    rw [Int.natCast_mul]
    ring
  have last : Counts (ofNat d) (d * (2 ^ unitsPerOne : Nat)) :=
    counts_ofNat (Nat.lt_trans digit (two_pow_small short))
  have sum : ((2 ^ bits * n : Nat) : Int) * (2 ^ unitsPerOne : Nat) + d * (2 ^ unitsPerOne : Nat) =
      ((2 ^ bits * n + d) * 2 ^ unitsPerOne : Nat) := by
    rw [← Int.add_mul, ← Int.natCast_add, ← Int.natCast_mul]
  by_cases zero : 2 ^ bits * n + d = 0
  · rw [zero, Nat.zero_mul] at sum
    obtain rfl : d = 0 := by omega
    rw [add_opposite product last sum, isNegative_ofNat, Bool.and_false, zero]
    rfl
  · have nonzero : (2 ^ bits * n + d) * 2 ^ unitsPerOne ≠ 0 := Nat.mul_ne_zero zero (Nat.two_pow_pos _).ne'
    rw [← Int.natCast_ne_zero, ← sum] at nonzero
    rw [add_eq_nearest product last nonzero, sum, natural_not_negative,
      Int.natAbs_natCast, ← Nat.shiftLeft_eq, ← ofNat_eq_nearest]

theorem pack_of_large {m e : Nat} (large : ¬ Canonical m e) : pack false m e = .infinite false :=
  dif_neg large

/-- A full mantissa is moved by a power of two. -/
theorem mul_two_pow {m e : Nat} (full : mantissaNormal ≤ m) (small : m < mantissaLimit) (short : bits ≤ 5) :
    mul (pack false m e) (ofNat (2 ^ bits)) = pack false m (e + bits) := by
  have factor := counts_ofNat (two_pow_small short)
  have sign := isNegative_ofNat (2 ^ bits)
  by_cases canonical : Canonical m e
  · have number := counts_finite false canonical
    have product : (signed false (m <<< e) * ((2 ^ bits : Nat) * (2 ^ unitsPerOne : Nat)) : Int).natAbs =
        m <<< (e + bits) * 2 ^ unitsPerOne := by
      rw [Int.natAbs_mul, natAbs_signed, Int.natAbs_mul, Int.natAbs_natCast, Int.natAbs_natCast, ← Nat.mul_assoc,
        ← Nat.shiftLeft_eq (m <<< e), ← Nat.shiftLeft_add]
    have positive : m <<< (e + bits) ≠ 0 :=
      mt shift_eq_zero_iff.1 (Nat.ne_of_gt (Nat.lt_of_lt_of_le (by decide) full))
    have nonzero := Nat.mul_ne_zero positive (Nat.two_pow_pos unitsPerOne).ne'
    rw [← product, Int.natAbs_ne_zero] at nonzero
    have rounded : nearest false (m <<< (e + bits) + 0) 1 = pack false m (e + bits) :=
      nearest_full false full small (Nat.two_pow_pos _)
    rw [pack, dif_pos canonical, mul_eq_nearest number factor nonzero, sign, product,
      nearest_congr _ (Nat.two_pow_pos _) Nat.one_pos (Nat.mul_one _)]
    exact rounded
  · have moved : ¬ Canonical m (e + bits) := by
      rintro ⟨-, bounded, -⟩
      exact canonical ⟨small, Nat.le_trans (Nat.le_add_right ..) bounded, .inl full⟩
    obtain ⟨s, k, f, canonical', form, units⟩ := factor.finite_form
    have some : (k == 0) = false := by
      rw [beq_eq_false_iff_ne]
      rintro rfl
      have nothing : signed s 0 = 0 := by cases s <;> rfl
      rw [Nat.zero_shiftLeft, ← Int.natCast_mul, nothing, Int.natCast_eq_zero] at units
      exact Nat.mul_ne_zero (Nat.two_pow_pos bits).ne' (Nat.two_pow_pos unitsPerOne).ne' units
    rw [form] at sign ⊢
    rw [pack_of_large canonical, pack_of_large moved, mul, if_neg (Bool.eq_false_iff.1 some)]
    cases sign
    rfl

/-- What is below half of the last place of a full mantissa does not change it. -/
theorem add_below_half {m e : Nat} (full : mantissaNormal ≤ m) (small : m < mantissaLimit)
    (less : 2 * (d * 2 ^ unitsPerOne) < 2 ^ e) (short : d < mantissaLimit) :
    add (pack false m e) (ofNat d) = pack false m e := by
  have last := counts_ofNat short
  by_cases canonical : Canonical m e
  · have number := counts_finite false canonical
    have rounded := nearest_full false full small less
    have sum : signed false (m <<< e) + d * (2 ^ unitsPerOne : Nat) =
        (m <<< e + d * 2 ^ unitsPerOne : Nat) := by
      rw [Int.natCast_add, Int.natCast_mul]
      rfl
    have nonzero : m <<< e + d * 2 ^ unitsPerOne ≠ 0 := by
      have positive : m <<< e ≠ 0 :=
        mt shift_eq_zero_iff.1 (Nat.ne_of_gt (Nat.lt_of_lt_of_le (by decide) full))
      exact Nat.ne_of_gt (Nat.add_pos_left (Nat.pos_of_ne_zero positive) _)
    conv => lhs; rw [pack, dif_pos canonical]
    rw [← Int.natCast_ne_zero, ← sum] at nonzero
    rw [add_eq_nearest number last nonzero, sum, natural_not_negative,
      Int.natAbs_natCast, rounded]
  · obtain ⟨s, k, f, canonical', form, -⟩ := last.finite_form
    rw [pack_of_large canonical, form]
    rfl

/-- Behind more than fifty-three bits a digit only moves those before it. -/
theorem add_digit_large (large : mantissaLimit ≤ n) (short : bits ≤ 5) (digit : d < 2 ^ bits) :
    add (mul (ofNat n) (ofNat (2 ^ bits))) (ofNat d) = ofNat (2 ^ bits * n) := by
  have normal : mantissaNormal ≤ n := Nat.le_trans (by decide) large
  obtain ⟨m, e, full, small, top, moved⟩ := nearest_large false normal
  have number : ofNat n = pack false m (e + unitsPerOne) := by rw [ofNat_eq_nearest, moved]
  have result : ofNat (2 ^ bits * n) = pack false m (e + (bits + unitsPerOne)) := by
    rw [ofNat_eq_nearest, Nat.mul_comm, ← Nat.shiftLeft_eq, ← Nat.shiftLeft_add, moved]
  have above : 1 ≤ e := by
    have bits : 53 ≤ n.log2 := by
      rw [Nat.le_log2 (by rintro rfl; exact absurd large (by decide))]
      rwa [mantissaLimit, Nat.one_shiftLeft] at large
    omega
  have less : 2 * (d * 2 ^ unitsPerOne) < 2 ^ (e + unitsPerOne + bits) := by
    calc 2 * (d * 2 ^ unitsPerOne) = d * 2 ^ (1 + unitsPerOne) := by rw [Nat.pow_add]; ring
      _ < 2 ^ bits * 2 ^ (1 + unitsPerOne) := Nat.mul_lt_mul_of_pos_right digit (Nat.two_pow_pos _)
      _ = 2 ^ (1 + unitsPerOne + bits) := by rw [← Nat.pow_add, Nat.add_comm]
      _ ≤ 2 ^ (e + unitsPerOne + bits) := Nat.pow_le_pow_right Nat.two_pos (by omega)
  rw [number, result, mul_two_pow full small short,
    add_below_half full small less (Nat.lt_trans digit (two_pow_small short)), Nat.add_assoc,
    Nat.add_comm unitsPerOne]

theorem digit_value_lt {base : Nat} {c : Char} (digit : digitValue? base c = some d) : d < base := by
  obtain ⟨less, same⟩ := Option.ite_none_right_eq_some.1 digit
  exact Option.some.inj same ▸ less

/-- Digits are taken with zeros for what follows fifty-three bits. -/
theorem of_digits_after (short : bits ≤ 5) {digits : List Char}
    (valid : ∀ c ∈ digits, (digitValue? (2 ^ bits) c).isSome) (n : Nat) :
    ofDigitsAfter (2 ^ bits) (ofNat n) digits = some (ofNat (keptAfter (2 ^ bits) n digits)) := by
  induction digits generalizing n with
  | nil => rfl
  | cons c rest ih =>
    obtain ⟨d, digit⟩ := Option.isSome_iff_exists.1 (valid c (.head _))
    have less := digit_value_lt digit
    have step : add (mul (ofNat n) (ofNat (2 ^ bits))) (ofNat d) =
        ofNat (2 ^ bits * n + if n < mantissaLimit then d else 0) := by
      split
      · next room => exact add_digit_small room short less
      · next full => exact add_digit_large (Nat.not_lt.1 full) short less
    rw [ofDigitsAfter, digit]
    change ofDigitsAfter (2 ^ bits) (add (mul (ofNat n) (ofNat (2 ^ bits))) (ofNat d)) rest = _
    rw [step, ih fun c mem => valid c (.tail _ mem), keptAfter, digit, Option.getD_some]

end ScriptEngine.Number
