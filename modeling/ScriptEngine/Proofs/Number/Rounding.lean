import Mathlib.Tactic.Ring
import ScriptEngine.Number.Arithmetic

/-!
Rounding. What is rounded is a quotient of natural numbers that counts units, and the result depends on nothing
but its value. A quotient that is the magnitude of a number gives this number back, and whatever else rounds
comes to the same.
-/

namespace ScriptEngine.Number

/-! ## Quotients -/

/-- The rounded quotient is that of the reduced fraction, too. -/
theorem roundDiv_mul_left (num den : Nat) {c : Nat} (positive : 0 < c) :
    roundDiv (c * num) (c * den) = roundDiv num den := by
  have quotient : c * num / (c * den) = num / den := Nat.mul_div_mul_left num den positive
  have remainder : 2 * (c * num % (c * den)) = c * (2 * (num % den)) := by
    rw [Nat.mul_mod_mul_left]
    ring
  have tie : (c * (2 * (num % den)) == c * den) = (2 * (num % den) == den) := by
    rw [Bool.eq_iff_iff, beq_iff_eq, beq_iff_eq, Nat.mul_right_inj positive.ne']
  simp only [roundDiv, quotient, remainder, tie, Nat.mul_lt_mul_left positive]

/-- Nothing is rounded if the quotient is whole. -/
theorem roundDiv_whole (q : Nat) {den : Nat} (positive : 0 < den) : roundDiv (q * den) den = q := by
  have quotient : q * den / den = q := Nat.mul_div_cancel q positive
  have remainder : q * den % den = 0 := Nat.mul_mod_left q den
  have noTie : (0 == den) = false := beq_eq_false_iff_ne.2 positive.ne
  simp [roundDiv, quotient, remainder, noTie]

variable (negative : Bool)

theorem nearest_mul_left (num den : Nat) {c : Nat} (positive : 0 < c) :
    nearest negative (c * num) (c * den) = nearest negative num den := by
  have shifted (excess : Nat) : (c * den) <<< excess = c * (den <<< excess) := by
    rw [Nat.shiftLeft_eq, Nat.shiftLeft_eq, Nat.mul_assoc]
  simp only [nearest, Nat.mul_div_mul_left num den positive, shifted, roundDiv_mul_left _ _ positive]

/-- Rounding depends on the value of a quotient only. -/
theorem nearest_congr {num den num' den' : Nat} (positive : 0 < den) (positive' : 0 < den')
    (same : num * den' = num' * den) : nearest negative num den = nearest negative num' den' := by
  have crossed : den' * num = den * num' := by
    rw [Nat.mul_comm, same, Nat.mul_comm]
  rw [← nearest_mul_left negative num den positive', crossed, Nat.mul_comm den' den,
    nearest_mul_left negative num' den' positive]

/-! ## Magnitudes of numbers -/

theorem log2_shiftLeft {m : Nat} (positive : m ≠ 0) (e : Nat) : (m <<< e).log2 = m.log2 + e := by
  have shifted : m <<< e ≠ 0 := by
    rw [Nat.shiftLeft_eq]
    exact Nat.mul_ne_zero positive (Nat.two_pow_pos e).ne'
  rw [Nat.log2_eq_iff shifted, Nat.shiftLeft_eq, Nat.add_right_comm, Nat.pow_add, Nat.pow_add]
  exact ⟨Nat.mul_le_mul_right _ (Nat.log2_self_le positive),
    Nat.mul_lt_mul_of_pos_right Nat.lt_log2_self (Nat.two_pow_pos e)⟩

/-- A mantissa below the limit has at most fifty-three bits. -/
theorem log2_le_of_lt_limit {m : Nat} (small : m < mantissaLimit) : m.log2 ≤ 52 := by
  by_cases zero : m = 0
  · subst zero
    decide
  · exact Nat.le_of_lt_succ ((Nat.log2_lt zero).2 (by simpa [mantissaLimit] using small))

/-- The bits of a mantissa that exceed its place are the exponent of a number. -/
theorem excess_of_canonical {m e : Nat} (canonical : Canonical m e) : (m <<< e).log2 - 52 = e := by
  obtain ⟨small, -, full | rfl⟩ := canonical
  · have positive : m ≠ 0 := by
      simp only [mantissaNormal, Nat.one_shiftLeft] at full
      omega
    have top : 52 ≤ m.log2 := (Nat.le_log2 positive).2 (by simpa [mantissaNormal] using full)
    have bound := log2_le_of_lt_limit small
    rw [log2_shiftLeft positive]
    omega
  · rw [Nat.shiftLeft_zero]
    exact Nat.sub_eq_zero_of_le (log2_le_of_lt_limit small)

theorem packRounded_canonical {m e : Nat} (canonical : Canonical m e) :
    packRounded negative m e = .finite negative m e canonical := by
  have below : (m == mantissaLimit) = false := beq_eq_false_iff_ne.2 canonical.1.ne
  simp only [packRounded, below, Bool.false_eq_true, if_false, pack, canonical, dif_pos]

/-- The magnitude of a number is rounded to this number. -/
theorem nearest_canonical {m e : Nat} (canonical : Canonical m e) :
    nearest negative (m <<< e) 1 = .finite negative m e canonical := by
  have whole : roundDiv (m <<< e) (1 <<< e) = m := by
    rw [Nat.one_shiftLeft, Nat.shiftLeft_eq]
    exact roundDiv_whole m (Nat.two_pow_pos e)
  simp only [nearest, Nat.div_one, excess_of_canonical canonical, whole]
  exact packRounded_canonical negative canonical

/-- How far a mantissa is shifted until it is full, or its exponent is used up. -/
def roomFor (k e : Nat) : Nat :=
  Min.min e (52 - k.log2)

theorem roomFor_le (k e : Nat) : roomFor k e ≤ e :=
  Nat.min_le_left ..

theorem shift_room (k e : Nat) : (k <<< roomFor k e) <<< (e - roomFor k e) = k <<< e := by
  rw [← Nat.shiftLeft_add, Nat.add_sub_of_le (roomFor_le k e)]

theorem room_lt_limit {k : Nat} (small : k < mantissaLimit) (e : Nat) : k <<< roomFor k e < mantissaLimit := by
  by_cases zero : k = 0
  · subst zero
    rwa [Nat.zero_shiftLeft]
  · have shifted : k <<< roomFor k e ≠ 0 := by
      rw [Nat.shiftLeft_eq]
      exact Nat.mul_ne_zero zero (Nat.two_pow_pos _).ne'
    have room : roomFor k e ≤ 52 - k.log2 := Nat.min_le_right ..
    have top := log2_le_of_lt_limit small
    rw [mantissaLimit, Nat.one_shiftLeft, ← Nat.log2_lt shifted, log2_shiftLeft zero]
    omega

theorem room_fills {k : Nat} (positive : k ≠ 0) (small : k < mantissaLimit) (e : Nat) :
    mantissaNormal ≤ k <<< roomFor k e ∨ e - roomFor k e = 0 := by
  have top := log2_le_of_lt_limit small
  by_cases reaches : e ≤ 52 - k.log2
  · right
    rw [roomFor, Nat.min_eq_left reaches, Nat.sub_self]
  · left
    rw [roomFor, Nat.min_eq_right (by omega), mantissaNormal, Nat.one_shiftLeft, Nat.shiftLeft_eq]
    calc 2 ^ 52 = 2 ^ k.log2 * 2 ^ (52 - k.log2) := by rw [← Nat.pow_add]; congr 1; omega
      _ ≤ k * 2 ^ (52 - k.log2) := Nat.mul_le_mul_right _ (Nat.log2_self_le positive)

/-- What is less than half of the last place of a full mantissa is dropped. -/
theorem nearest_full {m e rest : Nat} (full : mantissaNormal ≤ m) (small : m < mantissaLimit)
    (less : 2 * rest < 2 ^ e) : nearest negative (m <<< e + rest) 1 = pack negative m e := by
  have low : rest < 2 ^ e := by omega
  have positive : m <<< e + rest ≠ 0 := by
    rw [Nat.shiftLeft_eq]
    have := Nat.mul_le_mul_right (2 ^ e) full
    have := Nat.mul_pos (by decide : 0 < mantissaNormal) (Nat.two_pow_pos e)
    omega
  have bits : (m <<< e + rest).log2 = 52 + e := by
    rw [Nat.log2_eq_iff positive, Nat.add_right_comm, Nat.pow_add, Nat.pow_add, Nat.shiftLeft_eq]
    simp only [mantissaNormal, mantissaLimit, Nat.one_shiftLeft] at full small
    constructor
    · exact Nat.le_trans (Nat.mul_le_mul_right _ full) (Nat.le_add_right ..)
    · calc m * 2 ^ e + rest < (m + 1) * 2 ^ e := by rw [Nat.add_mul]; omega
        _ ≤ 2 ^ (52 + 1) * 2 ^ e := Nat.mul_le_mul_right _ small
  have quotient : (m <<< e + rest) / 2 ^ e = m := by
    rw [Nat.shiftLeft_eq, Nat.mul_comm, Nat.mul_add_div (Nat.two_pow_pos e), Nat.div_eq_of_lt low, Nat.add_zero]
  have remainder : (m <<< e + rest) % 2 ^ e = rest := by
    rw [Nat.shiftLeft_eq, Nat.mul_add_mod_self_right, Nat.mod_eq_of_lt low]
  have noTie : (2 * rest == 2 ^ e) = false := beq_eq_false_iff_ne.2 less.ne
  have below : (m == mantissaLimit) = false := beq_eq_false_iff_ne.2 small.ne
  simp [nearest, bits, roundDiv, Nat.one_shiftLeft, quotient, remainder, noTie, Nat.not_lt.2 less.le, packRounded,
    below]

theorem roundDiv_bounds (num den : Nat) : num / den ≤ roundDiv num den ∧ roundDiv num den ≤ num / den + 1 := by
  unfold roundDiv
  dsimp only
  split <;> omega

/-- What has a full mantissa at least is rounded to one, and a power of two only moves it. -/
theorem nearest_large {units : Nat} (large : mantissaNormal ≤ units) :
    ∃ m e, mantissaNormal ≤ m ∧ m < mantissaLimit ∧ units.log2 ≤ e + 52 ∧
      ∀ k, nearest negative (units <<< k) 1 = pack negative m (e + k) := by
  have positive : units ≠ 0 := by
    rintro rfl
    exact absurd large (by decide)
  simp only [mantissaNormal, Nat.one_shiftLeft] at large
  have top : 52 ≤ units.log2 := (Nat.le_log2 positive).2 large
  obtain ⟨low, high⟩ := roundDiv_bounds units (2 ^ (units.log2 - 52))
  have full : 2 ^ 52 ≤ units / 2 ^ (units.log2 - 52) := by
    rw [Nat.le_div_iff_mul_le (Nat.two_pow_pos _), ← Nat.pow_add, Nat.add_sub_of_le top]
    exact Nat.log2_self_le positive
  have short : units / 2 ^ (units.log2 - 52) < 2 ^ 53 := by
    rw [Nat.div_lt_iff_lt_mul (Nat.two_pow_pos _), ← Nat.pow_add]
    exact Nat.lt_of_lt_of_eq Nat.lt_log2_self (by congr 1; omega)
  have rounded (k : Nat) : nearest negative (units <<< k) 1 =
      packRounded negative (roundDiv units (2 ^ (units.log2 - 52))) (units.log2 - 52 + k) := by
    have excess : (units <<< k).log2 - 52 = units.log2 - 52 + k := by
      rw [log2_shiftLeft positive]
      omega
    have same : roundDiv (units <<< k) (1 <<< (units.log2 - 52 + k)) =
        roundDiv units (2 ^ (units.log2 - 52)) := by
      rw [Nat.shiftLeft_eq, Nat.mul_comm, Nat.one_shiftLeft, Nat.add_comm, Nat.pow_add]
      exact roundDiv_mul_left _ _ (Nat.two_pow_pos k)
    simp only [nearest, Nat.div_one, excess, same]
  by_cases carried : roundDiv units (2 ^ (units.log2 - 52)) = mantissaLimit
  · refine ⟨mantissaNormal, units.log2 - 52 + 1, Nat.le_refl _, by decide, by omega, fun k => ?_⟩
    rw [rounded, packRounded, if_pos (beq_iff_eq.2 carried), Nat.add_right_comm]
  · refine ⟨roundDiv units (2 ^ (units.log2 - 52)), units.log2 - 52, ?_, ?_, by omega, fun k => ?_⟩
    · exact Nat.le_trans full low
    · simp only [mantissaLimit, Nat.one_shiftLeft] at carried ⊢
      omega
    · rw [rounded, packRounded, if_neg (mt beq_iff_eq.1 carried)]

/-- What is a mantissa with an exponent in any form is one in the canonical form. -/
theorem exists_canonical {k e : Nat} (small : k < mantissaLimit) (bounded : e ≤ maxExponent) :
    ∃ m f, Canonical m f ∧ m <<< f = k <<< e := by
  by_cases zero : k = 0
  · subst zero
    exact ⟨0, 0, by decide, by simp⟩
  · exact ⟨k <<< roomFor k e, e - roomFor k e,
      ⟨room_lt_limit small e, Nat.le_trans (Nat.sub_le ..) bounded, room_fills zero small e⟩, shift_room k e⟩

/-! ## Other ways to round -/

/-- A mantissa with an exponent is rounded as the number of units that it stands for. -/
theorem scaled_eq_nearest {m : Nat} (positive : m ≠ 0) (e : Nat) :
    scaled negative m e = nearest negative (m <<< e) 1 := by
  by_cases small : m < mantissaLimit
  · have top := log2_le_of_lt_limit small
    have excess : (m <<< e).log2 - 52 = e - roomFor m e := by
      rw [log2_shiftLeft positive, roomFor]
      omega
    have whole : roundDiv (m <<< e) (1 <<< (e - roomFor m e)) = m <<< roomFor m e := by
      rw [← shift_room, Nat.shiftLeft_eq _ (e - roomFor m e), Nat.one_shiftLeft]
      exact roundDiv_whole _ (Nat.two_pow_pos _)
    have below : (m <<< roomFor m e == mantissaLimit) = false :=
      beq_eq_false_iff_ne.2 (room_lt_limit small e).ne
    simp only [scaled, small, if_true, nearest, Nat.div_one, excess, whole, packRounded, below,
      Bool.false_eq_true, if_false]
    rfl
  · have top : 52 ≤ m.log2 := by
      rw [Nat.le_log2 positive]
      simp only [mantissaLimit, Nat.one_shiftLeft] at small
      omega
    have excess : (m <<< e).log2 - 52 = e + (m.log2 - 52) := by
      rw [log2_shiftLeft positive]
      omega
    have same : roundDiv (m <<< e) (1 <<< (e + (m.log2 - 52))) = roundDiv m (1 <<< (m.log2 - 52)) := by
      rw [Nat.shiftLeft_eq, Nat.mul_comm, Nat.one_shiftLeft, Nat.one_shiftLeft, Nat.pow_add]
      exact roundDiv_mul_left _ _ (Nat.two_pow_pos e)
    simp only [scaled, small, if_false, nearest, Nat.div_one, excess, same]

theorem isNegative_nearest (num den : Nat) : (nearest negative num den).isNegative = negative := by
  have packed (m e : Nat) : (pack negative m e).isNegative = negative := by
    unfold pack
    split <;> rfl
  unfold nearest packRounded
  dsimp only
  split <;> exact packed _ _

theorem nearest_zero : nearest negative 0 1 = signedZero negative := by
  cases negative <;> decide

/-- A natural number as a number is rounded from its units. -/
theorem ofNat_eq_nearest (n : Nat) : ofNat n = nearest false (n <<< unitsPerOne) 1 := by
  by_cases zero : n = 0
  · subst zero
    rw [Nat.zero_shiftLeft, nearest_zero]
    rfl
  · rw [← scaled_eq_nearest false zero]
    simp [ofNat, zero]

end ScriptEngine.Number
