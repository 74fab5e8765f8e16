import ScriptEngine.Proofs.Number.Natural

/-!
Numbers as places in a list. A place is the whole part of a number, moved to the nearest end of the list if it lies
outside. As long as the length is a number itself, this is what the operations on numbers come to.
-/

namespace ScriptEngine.Number

variable {x y : Number} {a b : Int} {length n k m e : Nat}

/-! ## Rounding from below -/

/-- What is at most a whole quotient is rounded to at most this quotient. -/
theorem roundDiv_le {num den q : Nat} (positive : 0 < den) (below : num ≤ q * den) : roundDiv num den ≤ q := by
  rcases Nat.lt_or_ge (num / den) q with less | reaches
  · exact Nat.le_trans (roundDiv_bounds num den).2 less
  · have same : num = q * den :=
      Nat.le_antisymm below (Nat.le_trans (Nat.mul_le_mul_right den reaches) (Nat.div_mul_le_self num den))
    rw [same, roundDiv_whole q positive]

/-- What is at most the magnitude of a number is rounded to at most this magnitude. -/
theorem nearest_at_most {num den : Nat} (positive : 0 < den) (canonical : Canonical m e)
    (below : num ≤ m <<< e * den) : ∃ n : Nat, Counts (nearest false num den) n ∧ n ≤ m <<< e := by
  obtain ⟨units, whole⟩ : ∃ units, num / den = units := ⟨_, rfl⟩
  have inside : units ≤ m <<< e := whole ▸ Nat.div_le_of_le_mul (Nat.mul_comm .. ▸ below)
  have bits : units.log2 ≤ (m <<< e).log2 := by
    by_cases zero : units = 0
    · rw [zero, Nat.log2_zero]
      exact Nat.zero_le _
    · exact (Nat.le_log2 (by omega)).2 (Nat.le_trans (Nat.log2_self_le zero) inside)
  have excess : units.log2 - 52 ≤ e := excess_of_canonical canonical ▸ Nat.sub_le_sub_right bits 52
  obtain ⟨k, bits⟩ : ∃ k, units.log2 - 52 = k := ⟨_, rfl⟩
  rw [bits] at excess
  obtain ⟨q, quotient⟩ : ∃ q, roundDiv num (den * 2 ^ k) = q := ⟨_, rfl⟩
  have scaled : 0 < den * 2 ^ k := Nat.mul_pos positive (Nat.two_pow_pos k)
  have floor : num / (den * 2 ^ k) = units / 2 ^ k := by rw [← whole, Nat.div_div_eq_div_mul]
  have moved : m <<< e = m <<< (e - k) * 2 ^ k := by
    rw [← Nat.shiftLeft_eq, ← Nat.shiftLeft_add, Nat.sub_add_cancel excess]
  have least : q <<< k ≤ m <<< e := by
    have bound : num ≤ m <<< (e - k) * (den * 2 ^ k) := by
      rw [Nat.mul_comm den, ← Nat.mul_assoc, ← moved]
      exact below
    rw [moved, Nat.shiftLeft_eq, ← quotient]
    exact Nat.mul_le_mul_right _ (roundDiv_le scaled bound)
  have rounded : nearest false num den = packRounded false q k := by
    simp only [nearest, whole, bits, Nat.shiftLeft_eq, quotient]
  have full : mantissaNormal ≤ q ∨ k = 0 := by
    refine or_iff_not_imp_right.2 fun some => ?_
    have nonzero : units ≠ 0 := by
      rintro rfl
      rw [Nat.log2_zero] at bits
      omega
    rw [← quotient, mantissaNormal, Nat.one_shiftLeft]
    refine Nat.le_trans ?_ (roundDiv_bounds ..).1
    rw [floor, Nat.le_div_iff_mul_le (Nat.two_pow_pos _), ← Nat.pow_add, ← bits, Nat.add_sub_of_le (by omega)]
    exact Nat.log2_self_le nonzero
  have small : q ≤ mantissaLimit := by
    have top : num / (den * 2 ^ k) < mantissaLimit := by
      rw [floor, Nat.div_lt_iff_lt_mul (Nat.two_pow_pos _), mantissaLimit, Nat.one_shiftLeft, ← Nat.pow_add]
      exact Nat.lt_of_lt_of_le Nat.lt_log2_self (Nat.pow_le_pow_right Nat.two_pos (by omega))
    exact quotient ▸ Nat.le_trans (roundDiv_bounds ..).2 top
  rcases Nat.lt_or_eq_of_le small with less | rfl
  · refine ⟨q <<< k, ?_, least⟩
    rw [rounded, packRounded_canonical false ⟨less, Nat.le_trans excess canonical.2.1, full⟩]
    exact counts_finite false _
  · -- Rounding has carried: the mantissa is the smallest one again, with one more power of two.
    have carried : mantissaLimit <<< k = mantissaNormal <<< (k + 1) := by
      rw [Nat.shiftLeft_eq, Nat.shiftLeft_eq, Nat.pow_succ', ← Nat.mul_assoc]
      rfl
    have above : k < e := by
      refine Nat.lt_of_le_of_ne excess ?_
      rintro rfl
      rw [Nat.shiftLeft_eq, Nat.shiftLeft_eq] at least
      exact absurd (Nat.le_of_mul_le_mul_right least (Nat.two_pow_pos k)) (Nat.not_le.2 canonical.1)
    refine ⟨mantissaNormal <<< (k + 1), ?_, carried ▸ least⟩
    have fits : Canonical mantissaNormal (k + 1) :=
      ⟨by decide, Nat.le_trans above canonical.2.1, .inl (Nat.le_refl _)⟩
    rw [rounded, packRounded, if_pos (beq_self_eq_true _), pack, dif_pos fits]
    exact counts_finite false fits

/-- A natural number that is at most a number stays so when it is rounded to one. -/
theorem ofNat_le (counts : Counts x a) (below : n * (2 ^ unitsPerOne : Nat) ≤ a) : le (ofNat n) x = true := by
  by_cases zero : n = 0
  · subst zero
    exact (le_iff (counts_ofNat (by decide)) counts).2 below
  · obtain ⟨s, m, e, canonical, rfl, rfl⟩ := counts.finite_form
    obtain ⟨one, same⟩ : ∃ one, 2 ^ unitsPerOne = one := ⟨_, rfl⟩
    have positive : 0 < n * one := Nat.mul_pos (Nat.pos_of_ne_zero zero) (same ▸ Nat.two_pow_pos _)
    rw [same, ← Int.natCast_mul] at below
    cases s with
    | false =>
      have within : n <<< unitsPerOne ≤ m <<< e := by
        rw [Nat.shiftLeft_eq, same]
        exact Int.ofNat_le.1 below
      obtain ⟨k, rounded, most⟩ := nearest_at_most Nat.one_pos canonical (Nat.le_trans within (Nat.mul_one _).ge)
      rw [← ofNat_eq_nearest] at rounded
      exact (le_iff rounded counts).2 (Int.ofNat_le.2 most)
    | true =>
      simp only [signed, if_true] at below
      generalize n * one = k at below positive
      generalize m <<< e = j at below
      omega

/-! ## Natural numbers from their units -/

theorem magnitude_of_counts {s : Bool} {canonical : Canonical m e}
    (counts : Counts (.finite s m e canonical) (n * (2 ^ unitsPerOne : Nat))) : m * 2 ^ e = n * 2 ^ unitsPerOne := by
  have magnitude := congrArg Int.natAbs counts.units
  rw [(counts_finite s canonical).units] at magnitude
  rwa [Int.natAbs_mul, Int.natAbs_natCast, Int.natAbs_natCast, natAbs_signed, Nat.shiftLeft_eq] at magnitude

/-- Only zero is two numbers. -/
theorem ofNat_of_counts (counts : Counts x (n * (2 ^ unitsPerOne : Nat))) (nonzero : n ≠ 0) : x = ofNat n := by
  obtain ⟨s, m, e, canonical, rfl, units⟩ := counts.finite_form
  have positive : 0 < n * 2 ^ unitsPerOne := Nat.mul_pos (Nat.pos_of_ne_zero nonzero) (Nat.two_pow_pos _)
  have magnitude := magnitude_of_counts counts
  rw [ofNat_eq_nearest, Nat.shiftLeft_eq, ← magnitude, ← Nat.shiftLeft_eq, nearest_canonical false canonical]
  rw [← magnitude] at positive
  cases s with
  | false => rfl
  | true =>
    rw [← Int.natCast_mul, ← magnitude] at units
    simp only [signed, if_true, Nat.shiftLeft_eq] at units
    omega

/-- From `2 ^ 53` on no natural number is rounded to a smaller one. -/
theorem small_of_ofNat_eq (same : ofNat k = ofNat n) (small : n < mantissaLimit) : k < mantissaLimit := by
  by_contra large
  have large : 2 ^ 53 ≤ k := Nat.not_lt.1 large
  obtain ⟨m, e, full, -, bits, moved⟩ := nearest_large false (Nat.le_trans (by decide : mantissaNormal ≤ 2 ^ 53) large)
  have above : 53 ≤ k.log2 := (Nat.le_log2 (by omega)).2 large
  have counts := counts_ofNat small
  rw [← same, ofNat_eq_nearest, moved, pack] at counts
  split at counts
  · have units := magnitude_of_counts counts
    rw [Nat.pow_add, ← Nat.mul_assoc] at units
    have value := Nat.eq_of_mul_eq_mul_right (Nat.two_pow_pos _) units
    have least : mantissaNormal * 2 ^ 1 ≤ m * 2 ^ e :=
      Nat.mul_le_mul full (Nat.pow_le_pow_right Nat.two_pos (by omega))
    rw [value] at least
    exact absurd small (Nat.not_lt.2 least)
  · cases counts.finite

/-- A natural number below `2 ^ 53` is found from the number that it is. -/
theorem ofNat_unique (same : ofNat k = ofNat n) (small : n < mantissaLimit) : k = n := by
  have counts := counts_ofNat (small_of_ofNat_eq same small)
  rw [same] at counts
  have value := counts.units.symm.trans (counts_ofNat small).units
  exact Int.ofNat_inj.1 (Int.eq_of_mul_eq_mul_right (Int.natCast_ne_zero.2 (Nat.two_pow_pos _).ne') value)

/-- What is at most a natural number below `2 ^ 53` is not rounded to a larger one. -/
theorem nearest_ne_of_le {num den : Nat} (positive : 0 < den) (less : k < n) (small : n < mantissaLimit)
    (below : num ≤ k * den) : nearest false (num <<< unitsPerOne) den ≠ ofNat n := by
  intro same
  have counts := counts_ofNat (Nat.lt_trans less small)
  obtain ⟨s, m, e, canonical, form, -⟩ := counts.finite_form
  rw [form] at counts
  have units := magnitude_of_counts counts
  have bound : num <<< unitsPerOne ≤ m <<< e * den := by
    rw [Nat.shiftLeft_eq, Nat.shiftLeft_eq, units, Nat.mul_right_comm]
    exact Nat.mul_le_mul_right _ below
  obtain ⟨most, rounded, least⟩ := nearest_at_most positive canonical bound
  rw [same] at rounded
  have value : n * 2 ^ unitsPerOne = most := by
    have equal := (counts_ofNat small).units.symm.trans rounded.units
    rw [← Int.natCast_mul] at equal
    exact Int.ofNat_inj.1 equal
  rw [← value, Nat.shiftLeft_eq, units] at least
  exact absurd (Nat.le_of_mul_le_mul_right least (Nat.two_pow_pos _)) (Nat.not_le.2 less)

/-! ## Counting -/

/-- Counting goes on with the next natural number, also from the negative zero. -/
theorem add_one (counts : Counts x (n * (2 ^ unitsPerOne : Nat))) (small : n + 1 < mantissaLimit) :
    x.add one = ofNat (n + 1) := by
  have sum : (n * (2 ^ unitsPerOne : Nat) + (1 : Nat) * (2 ^ unitsPerOne : Nat) : Int) =
      (n + 1 : Nat) * (2 ^ unitsPerOne : Nat) := by
    push_cast
    ring
  have single : Counts one ((1 : Nat) * (2 ^ unitsPerOne : Nat)) := counts_ofNat (by decide)
  have fits := fits_whole (n := (n + 1 : Nat)) small
  rw [← sum] at fits
  have counted := counts_add counts single fits
  rw [sum] at counted
  exact ofNat_of_counts counted (Nat.succ_ne_zero n)

theorem ofNat_add_one (small : n + 1 < mantissaLimit) : (ofNat n).add one = ofNat (n + 1) :=
  add_one (counts_ofNat (Nat.lt_of_succ_lt small)) small

theorem ofNat_sub_one (small : n + 1 < mantissaLimit) : (ofNat (n + 1)).sub one = ofNat n := by
  by_cases first : n = 0
  · subst first
    decide
  · have difference : ((n + 1 : Nat) * (2 ^ unitsPerOne : Nat) - (1 : Nat) * (2 ^ unitsPerOne : Nat) : Int) =
        n * (2 ^ unitsPerOne : Nat) := by
      push_cast
      ring
    have single : Counts one ((1 : Nat) * (2 ^ unitsPerOne : Nat)) := counts_ofNat (by decide)
    have fits := fits_whole (n := n) (Nat.lt_of_succ_lt small)
    rw [← difference] at fits
    have counted := counts_sub (counts_ofNat small) single fits
    rw [difference] at counted
    exact ofNat_of_counts counted first

theorem lt_of_counts (countsX : Counts x (n * (2 ^ unitsPerOne : Nat)))
    (countsY : Counts y (k * (2 ^ unitsPerOne : Nat))) : x.lt y = true ↔ n < k := by
  rw [lt_iff countsX countsY, Int.mul_lt_mul_right (Int.natCast_pos.2 (Nat.two_pow_pos _)), Int.ofNat_lt]

theorem isZero_of_counts (counts : Counts x (n * (2 ^ unitsPerOne : Nat))) : x.isZero = (n == 0) := by
  obtain ⟨s, m, e, canonical, rfl, -⟩ := counts.finite_form
  have magnitude := magnitude_of_counts counts
  have mantissa : m * 2 ^ e = 0 ↔ m = 0 := by simp
  have natural : n * 2 ^ unitsPerOne = 0 ↔ n = 0 := by simp
  rw [isZero, Bool.eq_iff_iff, beq_iff_eq, beq_iff_eq, ← mantissa, magnitude, natural]

theorem counts_of_isZero (none : x.isZero = true) : Counts x 0 := by
  cases x with
  | nan => cases none
  | infinite negative => cases none
  | finite negative m e canonical =>
    obtain rfl : m = 0 := beq_iff_eq.1 none
    have counts := counts_finite negative canonical
    rw [Nat.zero_shiftLeft] at counts
    cases negative <;> exact counts

theorem isZero_of_negative (negative : lt x zero = true) : x.isZero = false := by
  by_contra none
  have counts := counts_of_isZero (eq_true_of_ne_false none)
  exact absurd ((lt_iff counts (counts_zero false)).1 negative) (Int.lt_irrefl 0)

/-! ## Places -/

/-- The place that a number stands for in a list of some length: its whole part, or the end of the list that is nearest
to it. -/
def placeIn (length : Nat) : Number → Nat
  | .nan => 0
  | .infinite negative => if negative then 0 else length
  | x@(.finite ..) => (Min.min (Max.max x.truncated 0) length).toNat

theorem placeIn_of_counts (counts : Counts x a) :
    placeIn length x = (Min.min (Max.max x.truncated 0) length).toNat := by
  obtain ⟨s, m, e, canonical, rfl, -⟩ := counts.finite_form
  rfl

theorem placeIn_le (length : Nat) (x : Number) : placeIn length x ≤ length := by
  unfold placeIn
  split
  · exact Nat.zero_le _
  · split <;> omega
  · omega

theorem clampTo_eq (length : Nat) (x : Number) : x.clampTo length = placeIn length x := by
  cases x with
  | nan => rfl
  | infinite negative => rfl
  | finite negative m e canonical =>
    have whole := toInt_eq_truncated (.finite negative m e canonical)
    cases negative with
    | false =>
      have whole : ((Number.finite false m e canonical).wholePart : Int) = _ := whole
      rw [placeIn, ← whole, clampTo, if_neg Bool.false_ne_true]
      change Min.min _ _ = _
      omega
    | true =>
      have whole : -((Number.finite true m e canonical).wholePart : Int) = _ := whole
      rw [placeIn, ← whole, clampTo, if_pos rfl]
      omega

theorem placeIn_zero (length : Nat) : placeIn length zero = 0 := by
  have none : Counts zero ((0 : Int) * (2 ^ unitsPerOne : Nat)) := (Int.zero_mul _).symm ▸ counts_zero false
  rw [placeIn_of_counts none, truncated_of_whole none, Int.max_self, Int.min_eq_left (Int.natCast_nonneg length)]
  rfl

/-- The fraction of a number does not count. -/
theorem placeIn_toInteger (length : Nat) (x : Number) : placeIn length x.toInteger = placeIn length x := by
  cases x with
  | nan => exact placeIn_zero length
  | infinite negative => rfl
  | finite negative m e canonical =>
    have counts := counts_finite negative canonical
    have trunc := counts_trunc counts
    have integer : (Number.finite negative m e canonical).toInteger =
        (Number.finite negative m e canonical).trunc := rfl
    rw [integer, placeIn_of_counts trunc, placeIn_of_counts counts, truncated_of_whole trunc, truncated, counts.units]

theorem relativeTo_le (length : Nat) (x : Number) : x.relativeTo length ≤ length := by
  unfold relativeTo
  split
  · split <;> omega
  · exact clampTo_eq length x ▸ placeIn_le length x

/-- The whole part of a number that is neither negative nor a length or more is below this length. -/
theorem wholePart_lt (number : x ≠ .nan) (begins : lt x zero = false) (ends : le (ofNat length) x = false) :
    x.wholePart < length := by
  by_contra beyond
  have beyond : length ≤ x.wholePart := Nat.not_lt.1 beyond
  suffices least : le (ofNat length) x = true by
    rw [ends] at least
    cases least
  cases x with
  | nan => exact absurd rfl number
  | infinite negative =>
    cases negative with
    | true => cases begins
    | false =>
      rw [Nat.eq_zero_of_le_zero beyond]
      rfl
  | finite negative m e canonical =>
    have counts := counts_finite negative canonical
    have least : 0 ≤ signed negative (m <<< e) := by
      have other := lt_iff counts (counts_zero false)
      rw [show signedZero false = zero from rfl, begins] at other
      simpa using other
    have whole := toInt_eq_truncated (.finite negative m e canonical)
    rw [truncated, counts.units, Int.tdiv_eq_ediv_of_nonneg least] at whole
    have natural : 0 ≤ (Number.finite negative m e canonical).toInt :=
      whole ▸ Int.ediv_nonneg least (Int.natCast_nonneg _)
    have most : (length : Int) ≤ (Number.finite negative m e canonical).toInt := by
      cases negative <;> simp only [toInt, isNegative, Bool.false_eq_true, if_true, if_false] at natural ⊢ <;> omega
    rw [whole] at most
    exact ofNat_le counts ((Int.le_ediv_iff_mul_le (Int.natCast_pos.2 (Nat.two_pow_pos _))).1 most)

/-! ## The same as operations on numbers -/

theorem counts_max (countsX : Counts x a) (countsY : Counts y b) :
    Counts (max x y) (Max.max a b) := by
  have less := lt_iff countsX countsY
  unfold max
  split
  · next below => rwa [Int.max_eq_right (less.1 below).le]
  · next above => rwa [Int.max_eq_left (Int.not_lt.1 (mt less.2 above))]

theorem counts_min (countsX : Counts x a) (countsY : Counts y b) :
    Counts (min x y) (Min.min a b) := by
  have less := lt_iff countsY countsX
  unfold min
  split
  · next below => rwa [Int.min_eq_right (less.1 below).le]
  · next above => rwa [Int.min_eq_left (Int.not_lt.1 (mt less.2 above))]

theorem wholePart_eq (x : Number) : x.wholePart = x.truncated.natAbs := by
  rw [← toInt_eq_truncated, toInt]
  split <;> simp

theorem wholePart_of_counts (counts : Counts x (n * (2 ^ unitsPerOne : Nat))) : x.wholePart = n := by
  rw [wholePart_eq, truncated_of_whole counts, Int.natAbs_natCast]

theorem lt_infinite (counts : Counts x a) : lt x (.infinite false) = true := by
  obtain ⟨s, m, e, canonical, rfl, -⟩ := counts.finite_form
  rfl

/-- The whole part of a value between zero and a whole number. -/
theorem tdiv_between (a : Int) (n : Nat) {one : Nat} (positive : 0 < one) :
    ((Min.min (Max.max a 0) (n * one)).tdiv one).natAbs = (Min.min (Max.max (a.tdiv one) 0) n).toNat := by
  have one_pos : (0 : Int) < one := Int.natCast_pos.2 positive
  rcases Int.le_total 0 a with natural | below
  · rw [Int.max_eq_left natural, Int.max_eq_left (Int.tdiv_nonneg natural one_pos.le),
      Int.tdiv_eq_ediv_of_nonneg natural]
    rcases Int.le_total a (n * one) with within | beyond
    · rw [Int.min_eq_left within, Int.min_eq_left (Int.ediv_le_of_le_mul one_pos within),
        Int.tdiv_eq_ediv_of_nonneg natural]
      exact (Int.toNat_of_nonneg (Int.ediv_nonneg natural one_pos.le) ▸ Int.natAbs_natCast _)
    · rw [Int.min_eq_right beyond, Int.min_eq_right ((Int.le_ediv_iff_mul_le one_pos).2 beyond),
        Int.mul_tdiv_cancel _ one_pos.ne']
      rfl
  · have backwards : a.tdiv one ≤ 0 := by
      have forwards := Int.tdiv_nonneg (Int.neg_nonneg.2 below) one_pos.le
      rw [Int.neg_tdiv] at forwards
      exact Int.neg_nonneg.1 forwards
    rw [Int.max_eq_right below, Int.max_eq_right backwards, Int.min_eq_left (by positivity),
      Int.min_eq_left (by positivity), Int.zero_tdiv]
    rfl

/-- Between zero and the length the whole part of a value is its place. -/
theorem wholePart_between (small : length < mantissaLimit) (counts : Counts x a) :
    (min (max x zero) (ofNat length)).wholePart = placeIn length x := by
  have moved := counts_min (counts_max counts (counts_zero false)) (counts_ofNat small)
  rw [placeIn_of_counts counts, truncated, counts.units, ← tdiv_between a length (Nat.two_pow_pos _), ← moved.units,
    ← truncated, ← wholePart_eq]
  rfl

theorem min_infinite (small : length < mantissaLimit) : min (.infinite false) (ofNat length) = ofNat length :=
  if_pos (lt_infinite (counts_ofNat small))

/-- A place is a number moved between zero and the length, without its fraction. -/
theorem clampTo_eq_min (small : length < mantissaLimit) (number : x ≠ .nan) :
    x.clampTo length = (min (max x zero) (ofNat length)).wholePart := by
  rw [clampTo_eq]
  cases x with
  | nan => exact absurd rfl number
  | infinite negative =>
    cases negative with
    | true =>
      have place := wholePart_between small (counts_zero false)
      exact (place.trans (placeIn_zero length)).symm
    | false =>
      have end_ : min (max (.infinite false) zero) (ofNat length) = ofNat length := min_infinite small
      rw [end_, wholePart_of_counts (counts_ofNat small)]
      rfl
  | finite negative m e canonical => exact (wholePart_between small (counts_finite negative canonical)).symm

/-- What is far below zero stays below zero when it is rounded. -/
theorem nearest_lt_zero {units : Nat} (large : mantissaNormal ≤ units) : lt (nearest true units 1) zero = true := by
  obtain ⟨m, e, full, -, -, moved⟩ := nearest_large true large
  have some : (m == 0) = false := beq_eq_false_iff_ne.2 (Nat.ne_of_gt (Nat.lt_of_lt_of_le (by decide) full))
  have rounded := moved 0
  rw [Nat.shiftLeft_zero] at rounded
  rw [rounded, pack]
  split
  · simp [lt, zero, signedZero, some]
  · rfl

theorem counts_toInteger (finite : x.isFinite = true) : Counts x.toInteger (x.truncated * (2 ^ unitsPerOne : Nat)) := by
  cases x with
  | nan => cases finite
  | infinite negative => cases finite
  | finite negative m e canonical => exact counts_trunc (counts_finite negative canonical)

theorem toInteger_ne_nan (x : Number) : x.toInteger ≠ .nan := by
  intro same
  cases x with
  | nan => cases same
  | infinite negative => cases same
  | finite negative m e canonical =>
    have counts := counts_toInteger (x := .finite negative m e canonical) rfl
    rw [same] at counts
    cases counts.finite

theorem relativeTo_of_negative (counts : Counts x (a * (2 ^ unitsPerOne : Nat))) (negative : lt x zero = true) :
    x.relativeTo length = length - a.natAbs := by
  rw [← truncated_of_whole counts, ← wholePart_eq]
  obtain ⟨s, m, e, canonical, rfl, -⟩ := counts.finite_form
  unfold relativeTo
  rw [if_pos negative]

/-- The place that a number names without its fraction, counted from the end if that is negative. -/
def placeFrom (length : Nat) : Number → Nat
  | .nan => 0
  | .infinite negative => if negative then 0 else length
  | x@(.finite ..) =>
    if x.truncated < 0 then (Max.max (length + x.truncated) 0).toNat else (Min.min x.truncated length).toNat

theorem placeFrom_le (length : Nat) (x : Number) : placeFrom length x ≤ length := by
  unfold placeFrom
  split
  · exact Nat.zero_le _
  · split <;> omega
  · split <;> omega

theorem placeFrom_ofNat (small : n < mantissaLimit) (length : Nat) :
    placeFrom length (ofNat n) = Min.min n length := by
  have counts := counts_ofNat small
  have whole := truncated_of_whole counts
  obtain ⟨s, m, e, canonical, same, -⟩ := counts.finite_form
  rw [same] at whole ⊢
  rw [placeFrom, whole, if_neg (Int.not_lt.2 (Int.natCast_nonneg n))]
  omega

theorem relativeTo_toInteger (length : Nat) (x : Number) : x.toInteger.relativeTo length = placeFrom length x := by
  cases x with
  | nan => exact (clampTo_eq length zero).trans (placeIn_zero length)
  | infinite negative => cases negative <;> rfl
  | finite s m e canonical =>
    have counts := counts_toInteger (x := .finite s m e canonical) rfl
    have less := lt_iff counts (counts_zero false)
    have one_pos : (0 : Int) < (2 ^ unitsPerOne : Nat) := Int.natCast_pos.2 (Nat.two_pow_pos _)
    rw [placeFrom]
    split
    · next negative =>
      rw [relativeTo_of_negative counts (less.2 (Int.mul_neg_of_neg_of_pos negative one_pos))]
      omega
    · next natural =>
      have least : ¬lt _ zero = true := fun below => natural (neg_of_mul_neg_left (less.1 below) one_pos.le)
      unfold relativeTo
      rw [if_neg least, clampTo_eq, placeIn_of_counts counts, truncated_of_whole counts]
      omega

/-- A place counted from the end is the sum of the length and a negative number, but not less than zero. -/
theorem from_end_eq (small : length < mantissaLimit) (counts : Counts x (a * (2 ^ unitsPerOne : Nat)))
    (negative : a < 0) : max (add (ofNat length) x) zero = ofNat (Max.max (length + a) 0).toNat := by
  have counted := counts_ofNat small
  have sum : (length * (2 ^ unitsPerOne : Nat) + a * (2 ^ unitsPerOne : Nat) : Int) =
    (length + a) * (2 ^ unitsPerOne : Nat) := (Int.add_mul ..).symm
  rcases lt_trichotomy (length + a) 0 with outside | first | within
  · have one : (0 : Int) < (2 ^ unitsPerOne : Nat) := Int.natCast_pos.2 (Nat.two_pow_pos _)
    have below : ((length : Int) + a) * (2 ^ unitsPerOne : Nat) < 0 := Int.mul_neg_of_neg_of_pos outside one
    have added := add_eq_nearest counted counts (sum ▸ below.ne)
    have large : mantissaNormal ≤ ((length + a) * (2 ^ unitsPerOne : Nat)).natAbs := by
      rw [Int.natAbs_mul, Int.natAbs_natCast, mantissaNormal, Nat.one_shiftLeft]
      exact Nat.le_trans (Nat.pow_le_pow_right Nat.two_pos (by decide)) (Nat.le_mul_of_pos_left _ (by omega))
    rw [sum, decide_eq_true below] at added
    rw [added, max, if_pos (nearest_lt_zero large), Int.max_eq_right outside.le]
    rfl
  · have added := add_opposite counted counts (by rw [sum, first, Int.zero_mul])
    rw [added, isNegative_ofNat, Bool.false_and, first]
    rfl
  · obtain ⟨k, place⟩ := Int.eq_ofNat_of_zero_le within.le
    have added := counts_add counted counts (sum ▸ fits_whole (by omega))
    rw [sum, place] at added
    rw [ofNat_of_counts added (by omega), max, if_neg, place, Int.max_eq_left (Int.natCast_nonneg k), Int.toNat_natCast]
    have least := lt_iff (counts_ofNat (n := k) (by omega)) (counts_zero false)
    exact fun below => Int.not_lt.2 (Int.mul_nonneg (Int.natCast_nonneg k) (Int.natCast_nonneg _)) (least.1 below)

/-- A number without its fraction is negative, and then its place is counted from the end, or it is a natural number, or
it is beyond every list. -/
theorem relative_cases (small : length < mantissaLimit) (x : Number) :
    (lt x.toInteger zero = true ∧
      max (add (ofNat length) x.toInteger) zero = ofNat (x.toInteger.relativeTo length)) ∨
    lt x.toInteger zero = false ∧
      ((∃ k : Nat, Counts x.toInteger (k * (2 ^ unitsPerOne : Nat)) ∧
        x.toInteger.relativeTo length = Min.min k length) ∨
      x.toInteger = .infinite false ∧ x.toInteger.relativeTo length = length) := by
  have one : (0 : Int) < (2 ^ unitsPerOne : Nat) := Int.natCast_pos.2 (Nat.two_pow_pos _)
  rw [relativeTo_toInteger]
  cases x with
  | nan =>
    have counts : Counts zero ((0 : Nat) * (2 ^ unitsPerOne : Nat)) := counts_ofNat (n := 0) (by decide)
    exact .inr ⟨rfl, .inl ⟨0, counts, (Nat.zero_min length).symm⟩⟩
  | infinite negative =>
    cases negative with
    | true =>
      obtain ⟨s, m, e, canonical, same, -⟩ := (counts_ofNat small).finite_form
      have last : max (add (ofNat length) (.infinite true)) zero = zero := same ▸ rfl
      exact .inl ⟨rfl, last⟩
    | false => exact .inr ⟨rfl, .inr ⟨rfl, rfl⟩⟩
  | finite s m e canonical =>
    have counts := counts_toInteger (x := .finite s m e canonical) rfl
    have less : lt (Number.finite s m e canonical).toInteger zero = true ↔ _ := lt_iff counts (counts_zero false)
    rw [placeFrom]
    rcases lt_or_ge (Number.finite s m e canonical).truncated 0 with below | least
    · left
      rw [if_pos below]
      exact ⟨less.2 (Int.mul_neg_of_neg_of_pos below one), from_end_eq small counts below⟩
    · right
      have above : ¬lt (Number.finite s m e canonical).toInteger zero = true :=
        fun below => Int.not_lt.2 (Int.mul_nonneg least one.le) (less.1 below)
      obtain ⟨k, natural⟩ := Int.eq_ofNat_of_zero_le least
      rw [natural] at counts
      rw [if_neg (Int.not_lt.2 least), natural]
      exact ⟨eq_false_of_ne_true above, .inl ⟨k, counts, by omega⟩⟩

/-- Moved to the length and zero, a number without its fraction is its place. -/
theorem counts_relative (small : length < mantissaLimit) (x : Number) :
    Counts (if lt x.toInteger zero then max (add (ofNat length) x.toInteger) zero
      else min x.toInteger (ofNat length)) (x.toInteger.relativeTo length * (2 ^ unitsPerOne : Nat)) := by
  have one : (0 : Int) ≤ (2 ^ unitsPerOne : Nat) := Int.natCast_nonneg _
  rcases relative_cases small x with ⟨negative, place⟩ | ⟨natural, ⟨k, counts, place⟩ | ⟨beyond, place⟩⟩
  · rw [if_pos negative, place]
    exact counts_ofNat (Nat.lt_of_le_of_lt (relativeTo_le ..) small)
  · have moved := counts_min counts (counts_ofNat small)
    rwa [if_neg (ne_true_of_eq_false natural), place, Nat.cast_min, min_mul_of_nonneg _ _ one]
  · rw [if_neg (ne_true_of_eq_false natural), place, beyond, min_infinite small]
    exact counts_ofNat small

/-- The place is the whole part of that number. -/
theorem relativeTo_eq_add (small : length < mantissaLimit) (x : Number) :
    x.toInteger.relativeTo length =
      (if lt x.toInteger zero then max (add (ofNat length) x.toInteger) zero
        else min x.toInteger (ofNat length)).wholePart :=
  (wholePart_of_counts (counts_relative small x)).symm

end ScriptEngine.Number
