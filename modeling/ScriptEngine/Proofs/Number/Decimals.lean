import Mathlib.Algebra.Order.Field.Power
import Mathlib.Algebra.Order.Field.Rat
import ScriptEngine.Number.Decimal
import ScriptEngine.Proofs.Number.Units

/-!
Decimal fractions as numbers. Of a fraction only its value counts when it is read, and the fraction that is written for
a number has a value that is read as this number.
-/

namespace ScriptEngine

open Number

variable {d e : Decimal}

/-! ## Signs -/

theorem Number.nearest_neg (num den : Nat) : nearest true num den = neg (nearest false num den) := by
  have packed (m e : Nat) : pack true m e = neg (pack false m e) := by
    unfold pack
    split <;> rfl
  unfold nearest packRounded
  dsimp only
  split <;> exact packed _ _

theorem Number.nearest_ne_nan (negative : Bool) (num den : Nat) : nearest negative num den ≠ .nan := by
  have packed (m e : Nat) : pack negative m e ≠ .nan := by
    intro same
    unfold pack at same
    split at same <;> cases same
  unfold nearest packRounded
  dsimp only
  split <;> exact packed _ _

/-- A fraction with a minus is the number with the other sign. -/
theorem Decimal.toNumber_neg (d : Decimal) : d.toNumber true = neg (d.toNumber false) := by
  unfold Decimal.toNumber
  split
  · rfl
  · split
    · rfl
    · split
      · rfl
      · split <;> exact nearest_neg ..

theorem Decimal.toNumber_ne_nan (negative : Bool) (d : Decimal) : d.toNumber negative ≠ .nan := by
  intro same
  unfold Decimal.toNumber at same
  split at same
  · cases same
  · split at same
    · cases same
    · split at same
      · cases same
      · split at same <;> exact nearest_ne_nan _ _ _ same

/-! ## Values -/

namespace Decimal

/-- The exact value of a decimal fraction. -/
def value (d : Decimal) : ℚ :=
  d.significand * 10 ^ d.exponent

/-- The numerator and the denominator of a decimal fraction. -/
def num (d : Decimal) : Nat :=
  d.significand * 10 ^ d.exponent.toNat

def den (d : Decimal) : Nat :=
  10 ^ (-d.exponent).toNat

theorem den_pos (d : Decimal) : 0 < d.den :=
  Nat.pow_pos (by decide)

theorem num_ne_zero (positive : d.significand ≠ 0) : d.num ≠ 0 :=
  Nat.mul_ne_zero positive (Nat.pow_pos (by decide)).ne'

theorem value_eq (d : Decimal) : d.value = d.num / d.den := by
  obtain ⟨significand, exponent⟩ := d
  rcases Int.le_total 0 exponent with above | below
  · obtain ⟨up, rfl⟩ := Int.eq_ofNat_of_zero_le above
    simp [value, num, den]
  · obtain ⟨down, same⟩ := Int.eq_ofNat_of_zero_le (Int.neg_nonneg_of_nonpos below)
    obtain rfl : exponent = -down := by omega
    simp [value, num, den, div_eq_mul_inv]

theorem value_eq_iff : d.value = e.value ↔ d.num * e.den = e.num * d.den := by
  have left : (d.den : ℚ) ≠ 0 := Nat.cast_ne_zero.2 d.den_pos.ne'
  have right : (e.den : ℚ) ≠ 0 := Nat.cast_ne_zero.2 e.den_pos.ne'
  rw [value_eq, value_eq, div_eq_div_iff left right]
  exact_mod_cast Iff.rfl

theorem zero_of_value (same : d.value = e.value) : d.significand = 0 ↔ e.significand = 0 := by
  rw [value_eq_iff] at same
  constructor
  · intro zero
    by_contra positive
    have product := Nat.mul_ne_zero (num_ne_zero positive) d.den_pos.ne'
    rw [← same, num, zero, Nat.zero_mul, Nat.zero_mul] at product
    exact product rfl
  · intro zero
    by_contra positive
    have product := Nat.mul_ne_zero (num_ne_zero positive) e.den_pos.ne'
    rw [same, num, zero, Nat.zero_mul, Nat.zero_mul] at product
    exact product rfl

end Decimal

/-! ## Guards -/

/-- What is too large for a number is infinite. -/
theorem Number.nearest_too_large (negative : Bool) {units : Nat} (large : maxExponent + 53 ≤ units.log2) :
    nearest negative units 1 = .infinite negative := by
  have packed (m : Nat) {e : Nat} (above : maxExponent < e) : pack negative m e = .infinite negative :=
    dif_neg fun canonical => absurd canonical.2.1 (Nat.not_le.2 above)
  have above : maxExponent < units.log2 - 52 := by omega
  simp only [nearest, Nat.div_one, packRounded]
  split
  · exact packed _ (Nat.lt_succ_of_lt above)
  · exact packed _ above

/-- What is less than half a unit is zero. -/
theorem Number.nearest_too_small (negative : Bool) {num den : Nat} (small : 2 * num < den) :
    nearest negative num den = signedZero negative := by
  have quotient : num / den = 0 := Nat.div_eq_of_lt (by omega)
  have remainder : num % den = num := Nat.mod_eq_of_lt (by omega)
  have noTie : (2 * num == den) = false := beq_eq_false_iff_ne.2 small.ne
  have below : ((0 : Nat) == mantissaLimit) = false := by decide
  have canonical : Canonical 0 0 := by decide
  simp only [nearest, quotient, Nat.log2_zero, Nat.zero_sub, Nat.shiftLeft_zero, roundDiv, remainder, noTie,
    Nat.not_lt.2 small.le, Bool.false_and, decide_false, Bool.or_self, Bool.false_eq_true, if_false, packRounded,
    below, pack, canonical, dif_pos]
  rfl

theorem two_pow_le_ten_pow (n : Nat) : 2 ^ (3 * n) ≤ 10 ^ n := by
  rw [Nat.pow_mul]
  exact Nat.pow_le_pow_left (by decide) n

/-- A fraction above `10 ^ 400` is too large for a number. -/
theorem Decimal.nearest_above (negative : Bool) (positive : d.significand ≠ 0) (above : 400 < d.exponent) :
    nearest negative (d.num <<< unitsPerOne) d.den = .infinite negative := by
  have whole : d.den = 1 := by
    have none : (-d.exponent).toNat = 0 := by omega
    rw [den, none, Nat.pow_zero]
  have large : 2 ^ (3 * d.exponent.toNat) ≤ d.num :=
    Nat.le_trans (two_pow_le_ten_pow _) (Nat.le_mul_of_pos_left _ (Nat.pos_of_ne_zero positive))
  have bits : 3 * d.exponent.toNat ≤ d.num.log2 := (Nat.le_log2 (num_ne_zero positive)).2 large
  rw [whole]
  apply nearest_too_large
  rw [log2_shiftLeft (num_ne_zero positive)]
  simp only [maxExponent, unitsPerOne]
  omega

/-- A fraction with so small an exponent is below half a unit. -/
theorem Decimal.nearest_below (negative : Bool) (below : d.exponent + d.significand.log2 + 401 < 0) :
    nearest negative (d.num <<< unitsPerOne) d.den = signedZero negative := by
  have whole : d.num = d.significand := by
    have none : d.exponent.toNat = 0 := by omega
    rw [num, none, Nat.pow_zero, Nat.mul_one]
  apply nearest_too_small
  calc 2 * d.num <<< unitsPerOne = d.significand * 2 ^ (unitsPerOne + 1) := by
        rw [whole, Nat.shiftLeft_eq, Nat.pow_succ]
        ring
    _ < 2 ^ (d.significand.log2 + 1) * 2 ^ (unitsPerOne + 1) :=
        Nat.mul_lt_mul_of_pos_right Nat.lt_log2_self (Nat.two_pow_pos _)
    _ = 2 ^ (d.significand.log2 + 1 + (unitsPerOne + 1)) := (Nat.pow_add ..).symm
    _ ≤ 2 ^ (3 * (-d.exponent).toNat) :=
        Nat.pow_le_pow_right Nat.two_pos (by simp only [unitsPerOne]; omega)
    _ ≤ d.den := two_pow_le_ten_pow _

/-- A decimal fraction is rounded from its units. -/
theorem Decimal.toNumber_eq_nearest (negative : Bool) (positive : d.significand ≠ 0) :
    d.toNumber negative = nearest negative (d.num <<< unitsPerOne) d.den := by
  have some : ¬ (d.significand == 0) = true := by simpa using positive
  rw [Decimal.toNumber, if_neg some]
  split
  · next above => exact (nearest_above negative positive above).symm
  · split
    · next below => exact (nearest_below negative below).symm
    · split
      · next up exponent =>
        have none : (-Int.ofNat up).toNat = 0 := Int.toNat_neg_natCast up
        rw [num, den, exponent, none]
        rfl
      · next down exponent =>
        rw [num, den, exponent]
        change _ = nearest negative ((d.significand * 10 ^ 0) <<< unitsPerOne) (10 ^ (down + 1))
        rw [Nat.pow_zero, Nat.mul_one]
        rfl

/-- Reading a decimal fraction depends on its value only. -/
theorem Decimal.toNumber_congr (negative : Bool) (same : d.value = e.value) :
    d.toNumber negative = e.toNumber negative := by
  by_cases zero : d.significand = 0
  · have other := (zero_of_value same).1 zero
    simp [Decimal.toNumber, zero, other]
  · have other := mt (zero_of_value same).2 zero
    rw [toNumber_eq_nearest negative zero, toNumber_eq_nearest negative other]
    refine nearest_congr negative d.den_pos e.den_pos ?_
    rw [value_eq_iff] at same
    rw [Nat.shiftLeft_eq, Nat.shiftLeft_eq, Nat.mul_right_comm, same, Nat.mul_right_comm]

/-! ## The shortest fraction -/

/-- A fraction that has the units of a number is read as this number. -/
theorem Decimal.toNumber_of_units {m k : Nat} (canonical : Canonical m k) (positive : m ≠ 0)
    (units : d.num * 2 ^ unitsPerOne = m <<< k * d.den) : d.toNumber false = .finite false m k canonical := by
  have some : d.significand ≠ 0 := by
    intro zero
    rw [num, zero, Nat.zero_mul, Nat.zero_mul, eq_comm, Nat.mul_eq_zero, shift_eq_zero_iff] at units
    exact units.elim positive d.den_pos.ne'
  rw [toNumber_eq_nearest false some, ← nearest_canonical false canonical]
  refine nearest_congr false d.den_pos Nat.one_pos ?_
  rw [Nat.mul_one, Nat.shiftLeft_eq, units]

/-- Without its last zeros a fraction is the same. -/
theorem Decimal.value_normalize (d : Decimal) : d.normalize.value = d.value := by
  fun_induction Decimal.normalize d with
  | case1 d zero => simp [value, zero]
  | case2 d some tenfold ih =>
    have digits : (d.significand : ℚ) = (d.significand / 10 : Nat) * 10 := by
      exact_mod_cast (Nat.div_mul_cancel (Nat.dvd_of_mod_eq_zero tenfold)).symm
    rw [ih, value, value, digits, mul_assoc, zpow_add_one₀ (by decide), mul_comm ((10 : ℚ) ^ d.exponent)]
  | case3 d some last => rfl

theorem Decimal.last_of_normalize (positive : d.significand ≠ 0) : d.normalize.significand % 10 ≠ 0 := by
  fun_induction Decimal.normalize d with
  | case1 d zero => exact absurd zero positive
  | case2 d some tenfold ih => exact ih (by dsimp only; omega)
  | case3 d some last => exact last

theorem Number.shortest_on_grid {x : Number} {num den : Nat} {place : Int}
    (found : shortestOnGrid x num den place = some d) : d.toNumber false = x := by
  unfold shortestOnGrid at found
  dsimp only at found
  split at found
  · next lower =>
    split at found
    · next upper =>
      cases found
      rw [Bool.and_eq_true, decide_eq_true_eq, decide_eq_true_eq] at upper
      exact upper.2
    · cases found
      exact lower
  · split at found
    · next upper =>
      cases found
      exact upper
    · cases found

theorem Number.exact_decimal_reads {m k : Nat} (canonical : Canonical m k) (positive : m ≠ 0) :
    (exactDecimal m k).toNumber false = .finite false m k canonical := by
  apply Decimal.toNumber_of_units canonical positive
  unfold exactDecimal
  split
  · next above =>
    change m <<< (k - unitsPerOne) * 10 ^ 0 * 2 ^ unitsPerOne = m <<< k * 10 ^ 0
    rw [Nat.pow_zero, Nat.mul_one, Nat.mul_one, ← Nat.shiftLeft_eq, ← Nat.shiftLeft_add, Nat.sub_add_cancel above]
  · next below =>
    have up : (-((unitsPerOne - k : Nat) : Int)).toNat = 0 := Int.toNat_neg_natCast _
    have down : (- -((unitsPerOne - k : Nat) : Int)).toNat = unitsPerOne - k := by
      rw [Int.neg_neg, Int.toNat_natCast]
    dsimp only
    rw [Decimal.num, Decimal.den, up, down, Nat.pow_zero, Nat.mul_one, Nat.shiftLeft_eq]
    calc m * 5 ^ (unitsPerOne - k) * 2 ^ unitsPerOne
        = m * 5 ^ (unitsPerOne - k) * 2 ^ (k + (unitsPerOne - k)) := by
          rw [Nat.add_sub_of_le (Nat.le_of_not_le below)]
      _ = m * 2 ^ k * 10 ^ (unitsPerOne - k) := by
          rw [Nat.pow_add, (by decide : 10 = 5 * 2), Nat.mul_pow]
          ring

/-- A whole number is its whole part. -/
theorem Number.whole_part_reads {m k : Nat} (canonical : Canonical m k) (positive : m ≠ 0)
    (whole : (Number.finite false m k canonical).isWhole = true) :
    Decimal.toNumber false ⟨(Number.finite false m k canonical).wholePart, 0⟩ = .finite false m k canonical := by
  apply Decimal.toNumber_of_units canonical positive
  rw [Decimal.num, Decimal.den, Int.neg_zero, Int.toNat_zero, Nat.pow_zero, Nat.mul_one, Nat.mul_one, wholePart]
  split
  · next above => rw [← Nat.shiftLeft_eq, ← Nat.shiftLeft_add, Nat.sub_add_cancel above]
  · next below =>
    rw [isWhole, decide_eq_false below, Bool.false_or, beq_iff_eq, Nat.one_shiftLeft] at whole
    rw [Nat.shiftRight_eq_div_pow, Nat.shiftLeft_eq]
    calc m / 2 ^ (unitsPerOne - k) * 2 ^ unitsPerOne
        = m / 2 ^ (unitsPerOne - k) * 2 ^ (unitsPerOne - k + k) := by
          rw [Nat.sub_add_cancel (Nat.le_of_not_le below)]
      _ = m / 2 ^ (unitsPerOne - k) * 2 ^ (unitsPerOne - k) * 2 ^ k := by rw [Nat.pow_add, Nat.mul_assoc]
      _ = m * 2 ^ k := by rw [Nat.div_mul_cancel (Nat.dvd_of_mod_eq_zero whole)]

/-- The fraction that is written for a number is read as its magnitude, and does not end in zero. -/
theorem Number.shortest_reads (s : Bool) {m k : Nat} (canonical : Canonical m k) (positive : m ≠ 0) :
    (Number.finite s m k canonical).shortest.toNumber false = .finite false m k canonical ∧
      (Number.finite s m k canonical).shortest.significand % 10 ≠ 0 := by
  have normalized (d : Decimal) (reads : d.toNumber false = .finite false m k canonical) :
      d.normalize.toNumber false = .finite false m k canonical ∧ d.normalize.significand % 10 ≠ 0 := by
    refine ⟨(Decimal.toNumber_congr false d.value_normalize).trans reads, Decimal.last_of_normalize fun zero => ?_⟩
    rw [Decimal.toNumber, if_pos (beq_iff_eq.2 zero)] at reads
    cases reads
    exact positive rfl
  unfold shortest
  dsimp only [abs]
  split
  · next small =>
    rw [Bool.and_eq_true] at small
    exact normalized _ (whole_part_reads canonical positive small.1)
  · apply normalized
    cases found : (grids (pointPlace (toRatio m k).1 (toRatio m k).2)).findSome?
        (shortestOnGrid (.finite false m k canonical) (toRatio m k).1 (toRatio m k).2) with
    | none => exact exact_decimal_reads canonical positive
    | some d =>
      obtain ⟨place, -, read⟩ := List.exists_of_findSome?_eq_some found
      exact shortest_on_grid read

end ScriptEngine
