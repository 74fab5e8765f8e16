import Mathlib.Tactic.Linarith
import ScriptEngine.Proofs.Number.Rounding

/-!
Numbers as the exact values that they stand for. A finite number counts units. Each operation gives the number
that is nearest to its exact result, and the remainder, the whole part and the order are exact.
-/

namespace ScriptEngine.Number

variable {x y : Number} {a b : Int}

/-- The number is finite, and it is so many units. -/
structure Counts (x : Number) (units : Int) : Prop where
  finite : x.isFinite
  units : x.toUnits = units

/-- So many units are a number as they are. -/
def Fits (units : Nat) : Prop :=
  ∃ m e, Canonical m e ∧ m <<< e = units

/-! ## Mantissas with a sign -/

@[simp] theorem natAbs_signed (negative : Bool) (n : Nat) : (signed negative n).natAbs = n := by
  cases negative <;> simp [signed]

theorem signed_mul (negative : Bool) (n k : Nat) : signed negative (n * k) = signed negative n * k := by
  cases negative <;> simp [signed]

theorem signed_shift (negative : Bool) (n : Nat) {low high : Nat} (le : low ≤ high) :
    signed negative (n <<< high) = signed negative (n <<< (high - low)) * (2 ^ low : Nat) := by
  rw [← signed_mul, ← Nat.shiftLeft_eq, ← Nat.shiftLeft_add, Nat.sub_add_cancel le]

theorem signed_tmod (negative other : Bool) (n k : Nat) :
    (signed negative n).tmod (signed other k) = signed negative (n % k) := by
  have naturals : (n : Int).tmod k = (n % k : Nat) := rfl
  cases negative <;> cases other <;> simp [signed, Int.tmod_neg, Int.neg_tmod, naturals]

theorem signed_tdiv (negative : Bool) (n k : Nat) :
    (signed negative n).tdiv k = signed negative (n / k) := by
  have naturals : (n : Int).tdiv k = (n / k : Nat) := rfl
  cases negative <;> simp [signed, Int.neg_tdiv, naturals]

theorem shift_eq_zero_iff {m e : Nat} : m <<< e = 0 ↔ m = 0 := by
  rw [Nat.shiftLeft_eq, Nat.mul_eq_zero]
  exact or_iff_left (Nat.two_pow_pos e).ne'

theorem signed_mul_signed (s t : Bool) (p q : Nat) : signed s p * signed t q = signed (s != t) (p * q) := by
  cases s <;> cases t <;> simp [signed]

/-- An integer is its absolute value with its sign. -/
theorem signed_of_int (n : Int) : signed (n < 0) n.natAbs = n := by
  by_cases below : n < 0
  · simp only [signed, below, decide_true, if_true]
    omega
  · simp only [signed, below, decide_false, Bool.false_eq_true, if_false]
    omega

/-! ## Values -/

theorem counts_finite (negative : Bool) {m e : Nat} (canonical : Canonical m e) :
    Counts (.finite negative m e canonical) (signed negative (m <<< e)) :=
  ⟨rfl, rfl⟩

theorem Counts.finite_form (counts : Counts x a) :
    ∃ negative m e canonical, x = .finite negative m e canonical ∧ a = signed negative (m <<< e) := by
  obtain ⟨finite, rfl⟩ := counts
  cases x with
  | nan => cases finite
  | infinite negative => cases finite
  | finite negative m e canonical => exact ⟨negative, m, e, canonical, rfl, rfl⟩

theorem counts_zero (negative : Bool) : Counts (signedZero negative) 0 := by
  cases negative <;> exact ⟨rfl, rfl⟩

theorem Counts.fits (counts : Counts x a) : Fits a.natAbs := by
  obtain ⟨negative, m, e, canonical, rfl, rfl⟩ := counts.finite_form
  exact ⟨m, e, canonical, (natAbs_signed ..).symm⟩

theorem fits_of_small {k e : Nat} (small : k < mantissaLimit) (bounded : e ≤ maxExponent) : Fits (k <<< e) :=
  exists_canonical small bounded

/-- What needs no rounding is not rounded. -/
theorem counts_nearest (negative : Bool) {units : Nat} (fits : Fits units) :
    Counts (nearest negative units 1) (signed negative units) := by
  obtain ⟨m, e, canonical, rfl⟩ := fits
  rw [nearest_canonical negative canonical]
  exact counts_finite negative canonical

theorem counts_scaled (negative : Bool) {m e : Nat} (positive : m ≠ 0) (fits : Fits (m <<< e)) :
    Counts (scaled negative m e) (signed negative (m <<< e)) := by
  rw [scaled_eq_nearest negative positive]
  exact counts_nearest negative fits

theorem counts_ofNat {n : Nat} (small : n < mantissaLimit) : Counts (ofNat n) (n * (2 ^ unitsPerOne : Nat)) := by
  have counts := counts_nearest false (fits_of_small small (by decide : unitsPerOne ≤ maxExponent))
  rwa [← ofNat_eq_nearest, Nat.shiftLeft_eq, signed_mul] at counts

/-! ## Arithmetic -/

theorem addScaled_eq_nearest (zeroSign : Bool) {p q : Int} (nonzero : p + q ≠ 0) (low : Nat) :
    addScaled zeroSign p q low = nearest (p + q < 0) ((p + q).natAbs <<< low) 1 := by
  have sum : (p + q == 0) = false := beq_eq_false_iff_ne.2 nonzero
  simp only [addScaled, sum, Bool.false_eq_true, if_false]
  exact scaled_eq_nearest _ (Int.natAbs_ne_zero.2 nonzero) low

/-- Two mantissas are added at the smaller of their exponents. -/
theorem sum_at_smaller (s t : Bool) (m e n f : Nat) :
    signed s (m <<< e) + signed t (n <<< f) =
      (signed s (m <<< (e - Min.min e f)) + signed t (n <<< (f - Min.min e f))) * (2 ^ Min.min e f : Nat) := by
  rw [Int.add_mul, ← signed_shift s m (Nat.min_le_left e f), ← signed_shift t n (Nat.min_le_right e f)]

/-- A sum that is not zero is rounded once. -/
theorem add_eq_nearest (countsX : Counts x a) (countsY : Counts y b) (nonzero : a + b ≠ 0) :
    add x y = nearest (a + b < 0) (a + b).natAbs 1 := by
  obtain ⟨s, m, e, canonical, rfl, rfl⟩ := countsX.finite_form
  obtain ⟨t, n, f, canonical', rfl, rfl⟩ := countsY.finite_form
  have power : (0 : Int) < (2 ^ Min.min e f : Nat) := Int.natCast_pos.2 (Nat.two_pow_pos _)
  have sign (n : Int) : decide (n * (2 ^ Min.min e f : Nat) < 0) = decide (n < 0) :=
    decide_eq_decide.2 ⟨fun below => neg_of_mul_neg_left below power.le,
      fun below => Int.mul_neg_of_neg_of_pos below power⟩
  rw [sum_at_smaller] at nonzero ⊢
  rw [Int.natAbs_mul, Int.natAbs_natCast, ← Nat.shiftLeft_eq, sign]
  exact addScaled_eq_nearest (s && t) (left_ne_zero_of_mul nonzero) (Min.min e f)

theorem add_opposite (countsX : Counts x a) (countsY : Counts y b) (zero : a + b = 0) :
    add x y = signedZero (x.isNegative && y.isNegative) := by
  obtain ⟨s, m, e, canonical, rfl, rfl⟩ := countsX.finite_form
  obtain ⟨t, n, f, canonical', rfl, rfl⟩ := countsY.finite_form
  rw [sum_at_smaller, mul_eq_zero, Int.natCast_eq_zero] at zero
  have sum := zero.resolve_right (Nat.two_pow_pos _).ne'
  simp [add, addScaled, sum, isNegative]

theorem counts_add (countsX : Counts x a) (countsY : Counts y b) (fits : Fits (a + b).natAbs) :
    Counts (add x y) (a + b) := by
  by_cases zero : a + b = 0
  · rw [add_opposite countsX countsY zero, zero]
    exact counts_zero _
  · rw [add_eq_nearest countsX countsY zero]
    have counts := counts_nearest (a + b < 0) fits
    rwa [signed_of_int] at counts

theorem counts_neg (counts : Counts x a) : Counts (neg x) (-a) := by
  obtain ⟨s, m, e, canonical, rfl, rfl⟩ := counts.finite_form
  cases s
  · exact counts_finite true canonical
  · rw [signed, if_pos rfl, Int.neg_neg]
    exact counts_finite false canonical

theorem counts_sub (countsX : Counts x a) (countsY : Counts y b) (fits : Fits (a - b).natAbs) :
    Counts (sub x y) (a - b) :=
  counts_add countsX (counts_neg countsY) fits

/-- A product that is not zero is rounded once. -/
theorem mul_eq_nearest (countsX : Counts x a) (countsY : Counts y b) (nonzero : a * b ≠ 0) :
    mul x y = nearest (x.isNegative != y.isNegative) (a * b).natAbs (2 ^ unitsPerOne) := by
  obtain ⟨s, m, e, canonical, rfl, rfl⟩ := countsX.finite_form
  obtain ⟨t, n, f, canonical', rfl, rfl⟩ := countsY.finite_form
  have product : (signed s (m <<< e) * signed t (n <<< f)).natAbs = m * n * 2 ^ (e + f) := by
    rw [Int.natAbs_mul, natAbs_signed, natAbs_signed, Nat.shiftLeft_eq, Nat.shiftLeft_eq, Nat.pow_add]
    ring
  have positive : m * n ≠ 0 := by
    rintro zero
    rw [zero, Nat.zero_mul, Int.natAbs_eq_zero] at product
    exact nonzero product
  have left : (m == 0) = false := beq_eq_false_iff_ne.2 (left_ne_zero_of_mul positive)
  have right : (n == 0) = false := beq_eq_false_iff_ne.2 (right_ne_zero_of_mul positive)
  have one := Nat.two_pow_pos unitsPerOne
  simp only [mul, left, right, Bool.or_false, Bool.false_eq_true, if_false, product, isNegative]
  split
  · next above =>
    rw [scaled_eq_nearest _ positive]
    refine nearest_congr _ Nat.one_pos one ?_
    rw [Nat.mul_one, Nat.shiftLeft_eq, Nat.mul_assoc, ← Nat.pow_add, Nat.sub_add_cancel above]
  · next below =>
    rw [Nat.one_shiftLeft]
    refine nearest_congr _ (Nat.two_pow_pos _) one ?_
    rw [Nat.mul_assoc (m * n), ← Nat.pow_add, Nat.add_sub_of_le (Nat.le_of_not_le below)]

theorem Counts.mul_sign (countsX : Counts x a) (countsY : Counts y b) :
    a * b = signed (x.isNegative != y.isNegative) (a * b).natAbs := by
  obtain ⟨s, m, e, canonical, rfl, rfl⟩ := countsX.finite_form
  obtain ⟨t, n, f, canonical', rfl, rfl⟩ := countsY.finite_form
  rw [signed_mul_signed, natAbs_signed]
  rfl

theorem mul_none (countsX : Counts x a) (countsY : Counts y b) (zero : a * b = 0) :
    mul x y = signedZero (x.isNegative != y.isNegative) := by
  obtain ⟨s, m, e, canonical, rfl, rfl⟩ := countsX.finite_form
  obtain ⟨t, n, f, canonical', rfl, rfl⟩ := countsY.finite_form
  have product : m * n = 0 := by
    have magnitude := congrArg Int.natAbs zero
    rw [signed_mul_signed, natAbs_signed, Int.natAbs_zero, Nat.mul_eq_zero] at magnitude
    rw [Nat.mul_eq_zero]
    exact magnitude.imp shift_eq_zero_iff.1 shift_eq_zero_iff.1
  have none : (m == 0 || n == 0) = true := by simpa using product
  simp only [mul, none, if_true]
  rfl

theorem counts_mul {c : Int} (countsX : Counts x a) (countsY : Counts y b)
    (product : a * b = c * (2 ^ unitsPerOne : Nat)) (fits : Fits c.natAbs) : Counts (mul x y) c := by
  have one : ((2 ^ unitsPerOne : Nat) : Int) ≠ 0 := Int.natCast_ne_zero.2 (Nat.two_pow_pos _).ne'
  by_cases zero : a * b = 0
  · rw [zero, eq_comm, mul_eq_zero, or_iff_left one] at product
    rw [mul_none countsX countsY zero, product]
    exact counts_zero _
  · have sign := countsX.mul_sign countsY
    have magnitude : (a * b).natAbs = c.natAbs * 2 ^ unitsPerOne := by
      rw [product, Int.natAbs_mul, Int.natAbs_natCast]
    rw [magnitude, signed_mul, product] at sign
    have rounded := counts_nearest (x.isNegative != y.isNegative) fits
    rw [← Int.eq_of_mul_eq_mul_right one sign] at rounded
    rw [mul_eq_nearest countsX countsY zero, magnitude,
      nearest_congr _ (Nat.two_pow_pos _) Nat.one_pos (Nat.mul_one _)]
    exact rounded

/-- The remainder is exact, with the sign of the dividend. -/
theorem counts_rem (countsX : Counts x a) (countsY : Counts y b) (nonzero : b ≠ 0) :
    Counts (rem x y) (a.tmod b) := by
  obtain ⟨s, m, e, canonical, rfl, rfl⟩ := countsX.finite_form
  obtain ⟨t, n, f, canonical', rfl, rfl⟩ := countsY.finite_form
  have divisor : (n == 0) = false := by
    rw [beq_eq_false_iff_ne]
    rintro rfl
    cases t <;> simp [signed] at nonzero
  have shifted : (m <<< (e - Min.min e f) % n <<< (f - Min.min e f)) <<< Min.min e f = m <<< e % n <<< f := by
    rw [Nat.shiftLeft_eq, ← Nat.mul_mod_mul_right, ← Nat.shiftLeft_eq, ← Nat.shiftLeft_eq, ← Nat.shiftLeft_add,
      ← Nat.shiftLeft_add, Nat.sub_add_cancel (Nat.min_le_left e f), Nat.sub_add_cancel (Nat.min_le_right e f)]
  rw [signed_tmod, ← shifted]
  simp only [rem, divisor, Bool.false_eq_true, if_false]
  -- The remainder is below the mantissa with the smaller exponent.
  have small : m <<< (e - Min.min e f) % n <<< (f - Min.min e f) < mantissaLimit := by
    rcases Nat.le_total e f with le | le
    · rw [Nat.min_eq_left le, Nat.sub_self, Nat.shiftLeft_zero]
      exact Nat.lt_of_le_of_lt (Nat.mod_le ..) canonical.1
    · rw [Nat.min_eq_right le, Nat.sub_self, Nat.shiftLeft_zero]
      have positive : 0 < n := Nat.pos_of_ne_zero (beq_eq_false_iff_ne.1 divisor)
      exact Nat.lt_trans (Nat.mod_lt _ positive) canonical'.1
  split
  · next zero =>
    rw [beq_iff_eq] at zero
    change (_ % _ = 0) at zero
    rw [zero, Nat.zero_shiftLeft]
    cases s <;> exact ⟨rfl, rfl⟩
  · next rest =>
    rw [beq_iff_eq] at rest
    exact counts_scaled s rest (fits_of_small small (Nat.le_trans (Nat.min_le_left e f) canonical.2.1))

/-- The whole part of a number, in units, is a number. -/
theorem counts_trunc (counts : Counts x a) :
    Counts x.trunc (a.tdiv (2 ^ unitsPerOne : Nat) * (2 ^ unitsPerOne : Nat)) := by
  obtain ⟨s, m, e, canonical, rfl, rfl⟩ := counts.finite_form
  rw [signed_tdiv, ← signed_mul]
  by_cases whole : unitsPerOne ≤ e
  · have divides : m <<< e / 2 ^ unitsPerOne * 2 ^ unitsPerOne = m <<< e := by
      rw [Nat.shiftLeft_eq]
      exact Nat.div_mul_cancel (Nat.dvd_mul_left_of_dvd (Nat.pow_dvd_pow 2 whole) m)
    simp only [trunc, whole, if_true, divides]
    exact counts_finite s canonical
  · have part : m <<< e / 2 ^ unitsPerOne = m >>> (unitsPerOne - e) := by
      rw [Nat.shiftLeft_eq, Nat.shiftRight_eq_div_pow,
        ← Nat.mul_div_mul_right m (2 ^ (unitsPerOne - e)) (Nat.two_pow_pos e), ← Nat.pow_add,
        Nat.sub_add_cancel (Nat.le_of_not_le whole)]
    simp only [trunc, whole, if_false, part, ← Nat.shiftLeft_eq]
    split
    · next zero =>
      rw [beq_iff_eq] at zero
      rw [zero, Nat.zero_shiftLeft]
      cases s <;> exact ⟨rfl, rfl⟩
    · next rest =>
      rw [beq_iff_eq] at rest
      refine counts_scaled s rest (fits_of_small ?_ (by decide))
      exact Nat.lt_of_le_of_lt (Nat.shiftRight_le ..) canonical.1

/-! ## Order -/

/-- A number is found from its magnitude. -/
theorem canonical_unique {m e n f : Nat} (canonical : Canonical m e) (canonical' : Canonical n f)
    (same : m <<< e = n <<< f) : m = n ∧ e = f := by
  have first := nearest_canonical false canonical
  rw [same, nearest_canonical false canonical'] at first
  cases first
  exact ⟨rfl, rfl⟩

theorem shift_lt_shift {m e n f : Nat} (canonical : Canonical m e) (canonical' : Canonical n f) (less : e < f) :
    m <<< e < n <<< f := by
  obtain ⟨small, -, -⟩ := canonical
  obtain ⟨-, -, full | rfl⟩ := canonical'
  · rw [Nat.shiftLeft_eq, Nat.shiftLeft_eq]
    calc m * 2 ^ e < mantissaLimit * 2 ^ e := Nat.mul_lt_mul_of_pos_right small (Nat.two_pow_pos e)
      _ = mantissaNormal * 2 ^ (e + 1) := by rw [Nat.pow_succ', ← Nat.mul_assoc]; rfl
      _ ≤ mantissaNormal * 2 ^ f := Nat.mul_le_mul_left _ (Nat.pow_le_pow_right Nat.two_pos less)
      _ ≤ n * 2 ^ f := Nat.mul_le_mul_right _ full
  · omega

theorem magnitude_lt_iff {m e n f : Nat} (canonical : Canonical m e) (canonical' : Canonical n f) :
    magnitudeLt m e n f = true ↔ m <<< e < n <<< f := by
  simp only [magnitudeLt, Bool.or_eq_true, Bool.and_eq_true, decide_eq_true_eq, beq_iff_eq]
  rcases Nat.lt_trichotomy e f with less | rfl | greater
  · exact ⟨fun _ => shift_lt_shift canonical canonical' less, fun _ => .inl less⟩
  · rw [Nat.shiftLeft_eq, Nat.shiftLeft_eq, Nat.mul_lt_mul_right (Nat.two_pow_pos e)]
    simp
  · have other := shift_lt_shift canonical' canonical greater
    omega

/-- The order of numbers is that of their values. -/
theorem lt_iff (countsX : Counts x a) (countsY : Counts y b) : lt x y = true ↔ a < b := by
  obtain ⟨s, m, e, canonical, rfl, rfl⟩ := countsX.finite_form
  obtain ⟨t, n, f, canonical', rfl, rfl⟩ := countsY.finite_form
  have below := magnitude_lt_iff canonical canonical'
  have above := magnitude_lt_iff canonical' canonical
  have left := @shift_eq_zero_iff m e
  have right := @shift_eq_zero_iff n f
  generalize m <<< e = p at below above left ⊢
  generalize n <<< f = q at below above right ⊢
  cases s <;> cases t
  case false.false => simp [lt, signed, below]
  case true.true => simp [lt, signed, above]
  case false.true => simp [lt, signed]
  case true.false =>
    simp [lt, signed]
    omega

theorem eq_iff (countsX : Counts x a) (countsY : Counts y b) : eq x y = true ↔ a = b := by
  obtain ⟨s, m, e, canonical, rfl, rfl⟩ := countsX.finite_form
  obtain ⟨t, n, f, canonical', rfl, rfl⟩ := countsY.finite_form
  simp only [eq, Bool.and_eq_true, Bool.or_eq_true, beq_iff_eq]
  constructor
  · rintro ⟨⟨rfl, rfl⟩, rfl | rfl⟩
    · rfl
    · simp [signed]
  · intro same
    have magnitudes := congrArg Int.natAbs same
    rw [natAbs_signed, natAbs_signed] at magnitudes
    obtain ⟨rfl, rfl⟩ := canonical_unique canonical canonical' magnitudes
    refine ⟨⟨rfl, rfl⟩, ?_⟩
    have zero := @shift_eq_zero_iff m e
    generalize m <<< e = p at same zero
    cases s <;> cases t <;> (simp [signed] at same ⊢; try omega)

theorem le_iff (countsX : Counts x a) (countsY : Counts y b) : le x y = true ↔ a ≤ b := by
  rw [le, Bool.or_eq_true, lt_iff countsX countsY, eq_iff countsX countsY]
  omega

end ScriptEngine.Number
