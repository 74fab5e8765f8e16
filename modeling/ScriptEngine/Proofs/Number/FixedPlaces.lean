import Mathlib.Algebra.Order.Field.Basic
import Mathlib.Tactic.FieldSimp
import Mathlib.Tactic.IntervalCases
import Mathlib.Tactic.Qify
import ScriptEngine.Library.Numerals
import ScriptEngine.Proofs.Evaluation.Outcome
import ScriptEngine.Proofs.Number.NumberText
import ScriptEngine.Proofs.Number.Places

/-!
Numbers with a fixed number of places. A number is written with forty places more than are asked for, and only if the
additional ones read as one half the last place is raised in the text itself; else the number is rounded with a half
to the even digit. A number that reads as halfway is halfway: with a small denominator it could not come so close, and
with a large one it is too small.
-/

namespace ScriptEngine.Number

variable {num den places count n : Nat}

/-! ## Numerals with places -/

/-- The last digits of a number, with zeros in front if it has fewer. -/
def lastDigits : Nat → Nat → List Char
  | 0, _ => []
  | count + 1, n => lastDigits count (n / 10) ++ [(n % 10).digitChar]

/-- The text writes a number of units of `10 ^ -places`: its whole part, and its fraction with a digit for each place,
behind a point unless there is none. -/
def Writes (places n : Nat) (text : List Char) : Prop :=
  ∃ fraction, text = digitsOf (n / 10 ^ places) ++ (if places = 0 then [] else '.' :: fraction) ∧
    AllDigits fraction ∧ fraction.length = places ∧ Decimal.ofDigits fraction = n % 10 ^ places

theorem digit_char_is_digit {d : Nat} (small : d < 10) : d.digitChar.isDigit = true := by
  interval_cases d <;> rfl

theorem digit_char_value_of {d : Nat} (small : d < 10) : d.digitChar.toNat - '0'.toNat = d := by
  interval_cases d <;> rfl

theorem length_last_digits (count n : Nat) : (lastDigits count n).length = count := by
  induction count generalizing n with
  | zero => rfl
  | succ count ih => rw [lastDigits, List.length_append, ih, List.length_singleton]

theorem all_digits_last (count n : Nat) : AllDigits (lastDigits count n) := by
  induction count generalizing n with
  | zero => exact List.forall_mem_nil _
  | succ count ih =>
    have digit := digit_char_is_digit (Nat.mod_lt n (by decide : 0 < 10))
    exact (ih (n / 10)).append (List.forall_mem_singleton.2 digit)

theorem of_last_digits (count n : Nat) : Decimal.ofDigits (lastDigits count n) = n % 10 ^ count := by
  induction count generalizing n with
  | zero => exact (Nat.mod_one n).symm
  | succ count ih =>
    rw [lastDigits, of_digits_concat, ih, digit_char_value_of (Nat.mod_lt n (by decide)), Nat.pow_succ',
      Nat.mod_mul, Nat.add_comm]

theorem last_digits_append (front behind n : Nat) :
    lastDigits (front + behind) n = lastDigits front (n / 10 ^ behind) ++ lastDigits behind n := by
  induction behind generalizing n with
  | zero => simp [lastDigits]
  | succ behind ih =>
    rw [← Nat.add_assoc, lastDigits, ih, lastDigits, Nat.div_div_eq_div_mul, ← Nat.pow_succ', List.append_assoc]

theorem digits_of_step (more : 10 ≤ n) : digitsOf n = digitsOf (n / 10) ++ [(n % 10).digitChar] :=
  Nat.toDigits_of_base_le (by decide) more

theorem digits_of_small (small : n < 10) : digitsOf n = [n.digitChar] :=
  Nat.toDigits_of_lt_base small

/-- With zeros in front the digits of a number are those of its whole part and those of its fraction. -/
theorem padded_digits (places n : Nat) : List.replicate (places + 1 - (digitsOf n).length) '0' ++ digitsOf n =
    digitsOf (n / 10 ^ places) ++ lastDigits places n := by
  induction places generalizing n with
  | zero =>
    have nonempty : 0 < (digitsOf n).length := List.length_pos_of_ne_nil Nat.toDigits_ne_nil
    have none : 0 + 1 - (digitsOf n).length = 0 := by omega
    rw [none, Nat.pow_zero, Nat.div_one, lastDigits, List.append_nil]
    rfl
  | succ places ih =>
    rw [lastDigits, Nat.pow_succ', ← Nat.div_div_eq_div_mul, ← List.append_assoc, ← ih (n / 10)]
    by_cases small : n < 10
    · have zero : n / 10 = 0 := Nat.div_eq_of_lt small
      have zeros : List.replicate places '0' ++ ['0'] = List.replicate (places + 1) '0' :=
        List.replicate_succ'.symm
      rw [zero, digits_of_small small, digits_of_small (by decide), Nat.mod_eq_of_lt small]
      change List.replicate (places + 1) '0' ++ _ = List.replicate places '0' ++ ['0'] ++ _
      rw [zeros]
    · have step := digits_of_step (Nat.not_lt.1 small)
      have longer : (digitsOf n).length = (digitsOf (n / 10)).length + 1 := by
        rw [step, List.length_append, List.length_singleton]
      rw [longer, Nat.add_sub_add_right, List.append_assoc, ← step]

theorem fixed_text_eq (places n : Nat) : fixedText places n =
    digitsOf (n / 10 ^ places) ++ if places = 0 then [] else '.' :: lastDigits places n := by
  have front (whole fraction : List Char) (len : fraction.length = places) :
      (whole ++ fraction).take ((whole ++ fraction).length - places) = whole ∧
        (whole ++ fraction).drop ((whole ++ fraction).length - places) = fraction := by
    have cut : (whole ++ fraction).length - places = whole.length := by rw [List.length_append, len]; omega
    rw [cut]
    exact ⟨List.take_left' rfl, List.drop_left' rfl⟩
  obtain ⟨whole, fraction⟩ := front (digitsOf (n / 10 ^ places)) _ (length_last_digits places n)
  simp only [fixedText, padded_digits, whole, fraction, beq_iff_eq]
  split
  · rw [List.append_nil]
  · rfl

theorem writes_fixed_text (places n : Nat) : Writes places n (fixedText places n) :=
  ⟨lastDigits places n, fixed_text_eq places n, all_digits_last places n, length_last_digits places n,
    of_last_digits places n⟩

/-! ## The carry -/

/-- A digit takes the carry unless it is a nine, which passes it on. -/
theorem carry_up_digit {d : Nat} (small : d < 10) (rest : List Char) : carryUp (d.digitChar :: rest) =
    if d = 9 then '0' :: carryUp rest else (d + 1).digitChar :: rest := by
  interval_cases d <;> rfl

/-- One more than a number, by its last digit. -/
theorem last_digit_succ (n : Nat) : n % 10 = 9 ∧ (n + 1) % 10 = 0 ∧ (n + 1) / 10 = n / 10 + 1 ∨
    n % 10 ≠ 9 ∧ (n + 1) % 10 = n % 10 + 1 ∧ (n + 1) / 10 = n / 10 := by
  omega

/-- The last digits are those of the next number, and what stands before them takes a carry if they are used up. -/
theorem carry_up_last (count n : Nat) (rest : List Char) : carryUp ((lastDigits count n).reverse ++ rest) =
    (lastDigits count (n + 1)).reverse ++ if 10 ^ count ∣ n + 1 then carryUp rest else rest := by
  induction count generalizing n with
  | zero => simp [lastDigits]
  | succ count ih =>
    have digit := carry_up_digit (Nat.mod_lt n (by decide : 0 < 10))
    rw [lastDigits, lastDigits, List.reverse_concat, List.reverse_concat, List.cons_append, List.cons_append, digit]
    obtain ⟨nine, zero, next⟩ | ⟨other, digit, same⟩ := last_digit_succ n
    · have divides : 10 ^ (count + 1) ∣ n + 1 ↔ 10 ^ count ∣ n / 10 + 1 := by
        have tens : n + 1 = 10 * (n / 10 + 1) := by omega
        rw [tens, Nat.pow_succ', Nat.mul_dvd_mul_iff_left (by decide)]
      simp only [if_pos nine, ih, zero, next, divides]
      rfl
    · have whole : ¬ 10 ^ (count + 1) ∣ n + 1 := by
        intro divides
        have ten : 10 ∣ n + 1 := Nat.dvd_trans (Dvd.intro_left _ rfl) divides
        omega
      rw [if_neg other, if_neg whole, digit, same]

theorem carry_up_digits_of (n : Nat) : carryUp (digitsOf n).reverse = (digitsOf (n + 1)).reverse := by
  induction n using Nat.strong_induction_on with
  | _ n ih =>
    by_cases small : n < 10
    · interval_cases n <;> rfl
    · have digit := carry_up_digit (Nat.mod_lt n (by decide : 0 < 10))
      rw [digits_of_step (Nat.not_lt.1 small), digits_of_step (by omega : 10 ≤ n + 1), List.reverse_concat,
        List.reverse_concat, digit]
      obtain ⟨nine, zero, next⟩ | ⟨other, digit, same⟩ := last_digit_succ n
      · rw [if_pos nine, ih _ (by omega), zero, next]
        rfl
      · rw [if_neg other, digit, same]

/-- The carry makes the numeral of the next number. -/
theorem carry_up_fixed_text (places n : Nat) :
    (carryUp (fixedText places n).reverse).reverse = fixedText places (n + 1) := by
  rw [fixed_text_eq, fixed_text_eq]
  by_cases none : places = 0
  · subst none
    rw [if_pos rfl, if_pos rfl, List.append_nil, List.append_nil, carry_up_digits_of, List.reverse_reverse,
      Nat.pow_zero, Nat.div_one, Nat.div_one]
  · have whole : (n + 1) / 10 ^ places = n / 10 ^ places + if 10 ^ places ∣ n + 1 then 1 else 0 := Nat.succ_div ..
    rw [if_neg none, if_neg none, List.reverse_append, List.reverse_cons, List.append_assoc, carry_up_last,
      List.singleton_append, carryUp, carry_up_digits_of, whole]
    split <;> simp

/-! ## Digits of a half -/

theorem all_zero_last (count n : Nat) : (lastDigits count n).all (· == '0') = true ↔ n % 10 ^ count = 0 := by
  induction count generalizing n with
  | zero => simp [lastDigits, Nat.mod_one]
  | succ count ih =>
    have digit : (n % 10).digitChar = '0' ↔ n % 10 = 0 :=
      ⟨digit_char_zero (Nat.mod_lt n (by decide)), fun zero => by rw [zero]; rfl⟩
    rw [lastDigits, List.all_append, Bool.and_eq_true, ih, Nat.pow_succ', Nat.mod_mul]
    simp [digit]
    omega

/-- The last digits read as one half if they are half of what they could be. -/
theorem is_half_last (count n : Nat) :
    isHalf (lastDigits (count + 1) n) = true ↔ n % 10 ^ (count + 1) = 5 * 10 ^ count := by
  have small := Nat.mod_lt (n / 10 ^ count) (by decide : 0 < 10)
  have five : ∀ d < 10, ∀ rest, isHalf (d.digitChar :: rest) = (d == 5 && rest.all (· == '0')) := by
    intro d less rest
    interval_cases d <;> rfl
  have low := Nat.mod_lt n (Nat.pow_pos (by decide) : 0 < 10 ^ count)
  have split : n % 10 ^ (count + 1) = n % 10 ^ count + 10 ^ count * (n / 10 ^ count % 10) := by
    rw [Nat.pow_succ, Nat.mod_mul]
  rw [Nat.add_comm count 1, last_digits_append, lastDigits, lastDigits, List.nil_append, List.singleton_append,
    five _ small, Bool.and_eq_true, beq_iff_eq, all_zero_last, Nat.add_comm 1 count, split]
  constructor
  · rintro ⟨digit, zero⟩
    rw [digit, zero]
    omega
  · intro half
    have digit : n / 10 ^ count % 10 = 5 := by
      generalize n / 10 ^ count % 10 = d at small half
      generalize 10 ^ count = unit at half low
      interval_cases d <;> omega
    rw [digit] at half
    exact ⟨digit, by omega⟩

/-- The place of the point is that behind the digits. -/
theorem find_point {whole : List Char} (digits : AllDigits whole) (rest : List Char) :
    (whole ++ '.' :: rest).findIdx? (· == '.') = some whole.length := by
  have none : whole.findIdx? (· == '.') = none := by
    rw [List.findIdx?_eq_none_iff]
    intro c mem
    rw [beq_eq_false_iff_ne]
    rintro rfl
    exact absurd (digits _ mem) (by decide)
  simp [List.findIdx?_append, none, List.findIdx?_cons]

/-- A quotient in units of the last place that is written to tell a tie. -/
def widened (num den places : Nat) : Nat :=
  roundDiv (num * 10 ^ (places + tiePlaces)) den

theorem wide_text (num den places : Nat) : roundedText num den (places + tiePlaces) =
    digitsOf (widened num den places / 10 ^ tiePlaces / 10 ^ places) ++
      '.' :: (lastDigits places (widened num den places / 10 ^ tiePlaces) ++
        lastDigits tiePlaces (widened num den places)) := by
  have some : places + tiePlaces ≠ 0 := Nat.ne_of_gt (Nat.add_pos_right places (by decide))
  have text := fixed_text_eq (places + tiePlaces) (widened num den places)
  rwa [if_neg some, last_digits_append, Nat.add_comm places, Nat.pow_add, ← Nat.div_div_eq_div_mul,
    Nat.add_comm tiePlaces] at text

/-- The text is raised if the additional digits read as one half. -/
theorem fixed_digits_eq (num den places : Nat) : fixedDigits num den places =
    if widened num den places % 10 ^ tiePlaces = 5 * 10 ^ 39 then
      fixedText places (widened num den places / 10 ^ tiePlaces + 1)
    else roundedText num den places := by
  have half := is_half_last 39 (widened num den places)
  have point := find_point (all_digits_of (widened num den places / 10 ^ tiePlaces / 10 ^ places))
  unfold fixedDigits
  simp only [wide_text, point]
  change isHalf (lastDigits tiePlaces _) = true ↔ _ % 10 ^ tiePlaces = _ at half
  generalize widened num den places = w at half ⊢
  have raised := carry_up_fixed_text places (w / 10 ^ tiePlaces)
  generalize w / 10 ^ tiePlaces = q at raised ⊢
  have front : digitsOf (q / 10 ^ places) ++ '.' :: (lastDigits places q ++ lastDigits tiePlaces w) =
      (digitsOf (q / 10 ^ places) ++ ['.'] ++ lastDigits places q) ++ lastDigits tiePlaces w := by
    simp
  have cut : (digitsOf (q / 10 ^ places)).length + 1 + places =
      (digitsOf (q / 10 ^ places) ++ ['.'] ++ lastDigits places q).length := by
    simp [length_last_digits]
    omega
  have kept : (if places == 0 then (digitsOf (q / 10 ^ places) ++ ['.'] ++ lastDigits places q).dropLast
      else digitsOf (q / 10 ^ places) ++ ['.'] ++ lastDigits places q) = fixedText places q := by
    rw [fixed_text_eq]
    cases places <;> simp [lastDigits]
  rw [front, cut, List.drop_left, List.take_left, kept, raised]
  simp only [half]

/-! ## Halves -/

/-- A rounded quotient is at most half a unit away. -/
theorem roundDiv_close (num : Nat) (positive : 0 < den) :
    2 * (roundDiv num den * den) ≤ 2 * num + den ∧ 2 * num ≤ 2 * (roundDiv num den * den) + den := by
  have parts := Nat.div_add_mod num den
  have low := Nat.mod_lt num positive
  have next : (num / den + 1) * den = num / den * den + den := Nat.succ_mul ..
  rw [Nat.mul_comm] at parts
  unfold roundDiv
  dsimp only
  split
  · next up =>
    simp only [Bool.or_eq_true, Bool.and_eq_true, decide_eq_true_eq, beq_iff_eq] at up
    rw [next]
    omega
  · next down =>
    simp only [Bool.or_eq_true, Bool.and_eq_true, decide_eq_true_eq, beq_iff_eq, not_or] at down
    omega

/-- The quotient is a whole number and a half. -/
def Halfway (num den q : Nat) : Prop :=
  2 * num = (2 * q + 1) * den

/-- What comes close to a half is halfway, if the denominator is not large or the quotient is small. -/
theorem halfway_of_close {scale q : Nat} (large : 2 ≤ scale)
    (low : scale * ((2 * q + 1) * den) ≤ scale * (2 * num) + den)
    (high : scale * (2 * num) ≤ scale * ((2 * q + 1) * den) + den) (apart : den < scale ∨ 4 * num < den) :
    Halfway num den q := by
  obtain small | tiny := apart
  · have below : scale * ((2 * q + 1) * den) < scale * (2 * num + 1) := by
      rw [Nat.mul_add scale, Nat.mul_one]
      omega
    have above : scale * (2 * num) < scale * ((2 * q + 1) * den + 1) := by
      rw [Nat.mul_add scale, Nat.mul_one]
      omega
    have less := Nat.lt_of_mul_lt_mul_left below
    have more := Nat.lt_of_mul_lt_mul_left above
    unfold Halfway
    omega
  · exfalso
    have one : den ≤ (2 * q + 1) * den := Nat.le_mul_of_pos_left den (Nat.succ_pos _)
    have scaled : scale * den ≤ scale * (2 * num) + den := Nat.le_trans (Nat.mul_le_mul_left scale one) low
    have tiny' : scale * (4 * num + 1) ≤ scale * den := Nat.mul_le_mul_left scale tiny
    have twice : scale * (4 * num + 1) = 2 * (scale * (2 * num)) + scale := by ring
    have double : 2 * den ≤ scale * den := Nat.mul_le_mul_right den large
    omega

/-- A number of units of a denominator is nearest to a quotient, and above it if another one is as near. -/
structure RoundsUp (num den n : Nat) : Prop where
  low : 2 * (n * den) ≤ 2 * num + den
  high : 2 * num < 2 * (n * den) + den

theorem RoundsUp.scaled {g : Nat} (rounds : RoundsUp num den n) (positive : 0 < g) :
    RoundsUp (g * num) (g * den) n := by
  obtain ⟨low, high⟩ := rounds
  have product : n * (g * den) = g * (n * den) := by ring
  constructor
  · have scaled := Nat.mul_le_mul_left g low
    rw [Nat.mul_add] at scaled
    rw [product]
    linarith
  · have scaled := Nat.mul_lt_mul_of_pos_left high positive
    rw [Nat.mul_add] at scaled
    rw [product]
    linarith

/-- In lower terms the denominator of a quotient is not large, or the quotient is small. -/
def HalvesApart (num den : Nat) : Prop :=
  ∃ g a d, 0 < g ∧ num = g * a ∧ den = g * d ∧ 0 < d ∧ (d < 10 ^ tiePlaces ∨ 4 * a < d)

theorem widened_scaled (g a d : Nat) (positive : 0 < g) :
    roundDiv (g * a * 10 ^ tiePlaces) (g * d) = roundDiv (a * 10 ^ tiePlaces) d := by
  rw [Nat.mul_assoc, roundDiv_mul_left _ _ positive]

/-- What reads as a half is one. -/
theorem halfway_of_read {w : Nat} (positive : 0 < den) (apart : den < 10 ^ tiePlaces ∨ 4 * num < den)
    (rounded : roundDiv (num * 10 ^ tiePlaces) den = w) (half : w % 10 ^ tiePlaces = 5 * 10 ^ 39) :
    Halfway num den (w / 10 ^ tiePlaces) := by
  obtain ⟨low, high⟩ := roundDiv_close (num * 10 ^ tiePlaces) positive
  have parts := Nat.div_add_mod w (10 ^ tiePlaces)
  have twice : 2 * (w * den) = 10 ^ tiePlaces * ((2 * (w / 10 ^ tiePlaces) + 1) * den) := by
    have whole : 2 * w = 10 ^ tiePlaces * (2 * (w / 10 ^ tiePlaces) + 1) := by
      have unit : 10 ^ tiePlaces = 2 * (5 * 10 ^ 39) := by decide
      rw [half] at parts
      generalize w / 10 ^ tiePlaces = q at parts ⊢
      rw [← parts, unit]
      ring
    rw [← Nat.mul_assoc, whole, Nat.mul_assoc]
  have product : 2 * (num * 10 ^ tiePlaces) = 10 ^ tiePlaces * (2 * num) := by ring
  rw [rounded, twice, product] at low high
  exact halfway_of_close (by decide) low high apart

/-- A half reads as one. -/
theorem read_of_halfway (positive : 0 < den) (half : Halfway num den n) :
    roundDiv (num * 10 ^ tiePlaces) den % 10 ^ tiePlaces = 5 * 10 ^ 39 := by
  have unit : 10 ^ tiePlaces = 2 * (5 * 10 ^ 39) := by decide
  have whole : num * 10 ^ tiePlaces = (2 * n + 1) * (5 * 10 ^ 39) * den := by
    rw [unit, ← Nat.mul_assoc, Nat.mul_comm num, half]
    ring
  have parts : (2 * n + 1) * (5 * 10 ^ 39) = 5 * 10 ^ 39 + 10 ^ tiePlaces * n := by
    rw [unit]
    ring
  rw [whole, roundDiv_whole _ positive, parts, Nat.add_mul_mod_self_left]
  decide

/-- A quotient is written as the number of units nearest to it. -/
theorem fixed_digits_rounds (apart : HalvesApart (num * 10 ^ places) den) :
    ∃ n, fixedDigits num den places = fixedText places n ∧ RoundsUp (num * 10 ^ places) den n := by
  obtain ⟨g, a, d, positive, top, bottom, nonzero, apart⟩ := apart
  have wide : widened num den places = roundDiv (a * 10 ^ tiePlaces) d := by
    rw [widened, Nat.pow_add, ← Nat.mul_assoc, top, bottom, widened_scaled g a d positive]
  have plain : roundedText num den places = fixedText places (roundDiv a d) := by
    have same : num * Nat.pow 10 places = g * a := top
    rw [roundedText, same, bottom, roundDiv_mul_left _ _ positive]
  rw [fixed_digits_eq, wide, plain, top, bottom]
  split
  · next half =>
    have halfway := halfway_of_read nonzero apart rfl half
    generalize roundDiv (a * 10 ^ tiePlaces) d / 10 ^ tiePlaces = q at halfway ⊢
    have rounds : RoundsUp a d (q + 1) := by
      unfold Halfway at halfway
      constructor <;> linarith
    exact ⟨q + 1, rfl, rounds.scaled positive⟩
  · next other =>
    obtain ⟨low, high⟩ := roundDiv_close a nonzero
    have rounds : RoundsUp a d (roundDiv a d) := by
      refine ⟨low, Nat.lt_of_le_of_ne high fun same => other (read_of_halfway (n := roundDiv a d) nonzero ?_)⟩
      unfold Halfway
      linarith
    exact ⟨_, rfl, rounds.scaled positive⟩

/-! ## Exact values -/

/-- The exact value of a finite number. -/
def toRat (x : Number) : ℚ :=
  x.toUnits / 2 ^ unitsPerOne

/-- The multiple of `10 ^ -places` that is nearest to a value, and the larger one if there are two. -/
structure NearestUp (places : Nat) (value : ℚ) (n : Int) : Prop where
  nearest : ∀ k : Int, |n / 10 ^ places - value| ≤ |k / 10 ^ places - value|
  largest : ∀ k : Int, |k / 10 ^ places - value| = |n / 10 ^ places - value| → k ≤ n

theorem nearest_up_of_rounds (positive : 0 < den) (rounds : RoundsUp (num * 10 ^ places) den n) :
    NearestUp places (num / den) n := by
  obtain ⟨low, high⟩ := rounds
  have unit : (0 : ℚ) < 10 ^ places := by positivity
  have bottom : (0 : ℚ) < den := Nat.cast_pos.2 positive
  qify at low high
  -- In units of the last place the value is less than a half above, and at most a half below.
  have scaled (k : Int) :
      |(k : ℚ) / 10 ^ places - num / den| = |(k : ℚ) - num * 10 ^ places / den| / 10 ^ places := by
    rw [eq_div_iff unit.ne', ← abs_of_pos unit, ← abs_mul, abs_of_pos unit]
    congr 1
    field_simp
  have above : (num * 10 ^ places / den : ℚ) < n + 1 / 2 := by
    rw [div_lt_iff₀ bottom]
    linarith
  have below : (n : ℚ) - 1 / 2 ≤ num * 10 ^ places / den := by
    rw [le_div_iff₀ bottom]
    linarith
  generalize (num * 10 ^ places / den : ℚ) = v at scaled above below
  have far (k : Int) : k = n ∨ |(n : ℚ) - v| ≤ |k - v| ∧ (n < k → |(n : ℚ) - v| < |k - v|) := by
    rcases lt_trichotomy k n with less | same | more
    · have less' : (k : ℚ) + 1 ≤ n := by exact_mod_cast less
      refine .inr ⟨?_, fun more => absurd more less.asymm⟩
      rw [abs_of_nonpos (by linarith : (k : ℚ) - v ≤ 0), abs_le]
      constructor <;> linarith
    · exact .inl same
    · have more' : (n : ℚ) + 1 ≤ k := by exact_mod_cast more
      have strict : |(n : ℚ) - v| < |k - v| := by
        rw [abs_of_nonneg (by linarith : 0 ≤ (k : ℚ) - v), abs_lt]
        constructor <;> linarith
      exact .inr ⟨strict.le, fun _ => strict⟩
  constructor
  · intro k
    rw [scaled, scaled, div_le_div_iff_of_pos_right unit]
    obtain rfl | ⟨nearer, -⟩ := far k
    · exact le_rfl
    · exact nearer
  · intro k same
    rw [scaled, scaled, div_left_inj' unit.ne'] at same
    by_contra more
    obtain rfl | ⟨-, strict⟩ := far k
    · exact more le_rfl
    · exact (strict (not_le.1 more)).ne same.symm

theorem toRat_of_counts {x : Number} {a : Int} (counts : Counts x a) : x.toRat = a / 2 ^ unitsPerOne := by
  rw [toRat, counts.units]

/-- A magnitude is the quotient that it is written from. -/
theorem ratio_value (negative : Bool) {m e : Nat} (canonical : Canonical m e) :
    0 < (toRatio m e).2 ∧
      |(Number.finite negative m e canonical).toRat| = ((toRatio m e).1 : ℚ) / (toRatio m e).2 := by
  have unit : (0 : ℚ) < 2 ^ unitsPerOne := by positivity
  have magnitude : |((signed negative (m <<< e) : Int) : ℚ)| = (m * 2 ^ e : Nat) := by
    rw [← Int.cast_abs, Int.abs_eq_natAbs, natAbs_signed, Nat.shiftLeft_eq]
    rfl
  rw [toRat_of_counts (counts_finite negative canonical), abs_div, magnitude, abs_of_pos unit]
  unfold toRatio
  split
  · next above =>
    refine ⟨Nat.one_pos, ?_⟩
    rw [div_eq_iff unit.ne', Nat.shiftLeft_eq]
    have power : (2 : ℚ) ^ e = 2 ^ (e - unitsPerOne) * 2 ^ unitsPerOne := by
      rw [← pow_add, Nat.sub_add_cancel above]
    push_cast
    rw [power]
    ring
  · next below =>
    rw [Nat.one_shiftLeft]
    refine ⟨Nat.two_pow_pos _, ?_⟩
    have lower : (0 : ℚ) < 2 ^ (unitsPerOne - e) := by positivity
    have power : (2 : ℚ) ^ unitsPerOne = 2 ^ e * 2 ^ (unitsPerOne - e) := by
      rw [← pow_add, Nat.add_sub_of_le (Nat.le_of_not_le below)]
    push_cast
    rw [div_eq_div_iff unit.ne' lower.ne', power]
    ring

/-- A number of a few places has a small denominator in lower terms, or is far below one half. -/
theorem ratio_apart {m e : Nat} (small : m < mantissaLimit) (few : places ≤ 20) :
    HalvesApart ((toRatio m e).1 * 10 ^ places) (toRatio m e).2 := by
  have tens : 10 ^ places = 2 ^ places * 5 ^ places := Nat.mul_pow 2 5 places
  unfold toRatio
  split
  · next above => exact ⟨1, _, 1, Nat.one_pos, (Nat.one_mul _).symm, rfl, Nat.one_pos, .inl (by decide)⟩
  · next below =>
    rw [Nat.one_shiftLeft]
    generalize unitsPerOne - e = k
    rcases Nat.le_total k places with within | beyond
    · refine ⟨2 ^ k, m * 5 ^ places * 2 ^ (places - k), 1, Nat.two_pow_pos k, ?_, (Nat.mul_one _).symm, Nat.one_pos,
        .inl (by decide)⟩
      have power : 2 ^ places = 2 ^ k * 2 ^ (places - k) := by rw [← Nat.pow_add, Nat.add_sub_of_le within]
      simp only [tens, power]
      ring
    · refine ⟨2 ^ places, m * 5 ^ places, 2 ^ (k - places), Nat.two_pow_pos places, ?_, ?_, Nat.two_pow_pos _, ?_⟩
      · simp only [tens]
        ring
      · rw [← Nat.pow_add, Nat.add_sub_of_le beyond]
      · rcases Nat.le_total (k - places) 132 with near | far
        · left
          exact Nat.lt_of_le_of_lt (Nat.pow_le_pow_right Nat.two_pos near) (by decide)
        · right
          calc 4 * (m * 5 ^ places) ≤ 4 * (mantissaLimit * 5 ^ 20) :=
                Nat.mul_le_mul_left 4 (Nat.mul_le_mul small.le (Nat.pow_le_pow_right (by decide) few))
            _ < 2 ^ 132 := by decide
            _ ≤ 2 ^ (k - places) := Nat.pow_le_pow_right Nat.two_pos far

/-! ## The method -/

/-- A sign in front of a negative number. -/
def signText (x : ℚ) : List Char :=
  if x < 0 then ['-'] else []

/-- A finite number is written as the multiple of the last place that is nearest to its magnitude. -/
theorem to_fixed_nearest {x : Number} (finite : x.isFinite = true) (few : places ≤ 20) :
    ∃ n : Nat, ∃ text, NearestUp places |x.toRat| n ∧ Writes places n text ∧
      x.toFixed places = signText x.toRat ++ text := by
  cases x with
  | nan => cases finite
  | infinite negative => cases finite
  | finite negative m e canonical =>
    obtain ⟨positive, value⟩ := ratio_value negative canonical
    obtain ⟨n, text, rounds⟩ := fixed_digits_rounds (ratio_apart (e := e) canonical.1 few)
    have counts := counts_finite negative canonical
    have unit : (0 : ℚ) < 2 ^ unitsPerOne := by positivity
    have below : (Number.finite negative m e canonical).toRat < 0 ↔
        lt (.finite negative m e canonical) zero = true := by
      have order : lt (.finite negative m e canonical) zero = true ↔ signed negative (m <<< e) < 0 :=
        lt_iff counts (counts_zero false)
      rw [toRat_of_counts counts, div_lt_iff₀ unit, zero_mul, order]
      exact Int.cast_lt_zero
    rw [value]
    refine ⟨n, fixedText places n, nearest_up_of_rounds positive rounds, writes_fixed_text places n, ?_⟩
    simp only [toFixed, signText, text, below]
    split <;> rfl

theorem counts_fixed_limit : Counts Library.fixedLimit (10 ^ 21 * (2 ^ unitsPerOne : Nat)) := by
  have form : (10 ^ 21) <<< unitsPerOne = (5 ^ 21) <<< (21 + unitsPerOne) := by
    rw [Nat.shiftLeft_eq, Nat.shiftLeft_eq, Nat.pow_add, ← Nat.mul_assoc, ← Nat.mul_pow]
  have fits : Fits ((10 ^ 21) <<< unitsPerOne) := by
    rw [form]
    exact fits_of_small (by decide) (by decide)
  have counts := counts_nearest false fits
  rw [← ofNat_eq_nearest] at counts
  rw [Nat.shiftLeft_eq, signed_mul] at counts
  exact counts

/-- The usual text is only given for large numbers. -/
theorem fixed_limit_le {x : Number} (finite : x.isFinite = true) :
    Library.fixedLimit.le x.abs = true ↔ 10 ^ 21 ≤ |x.toRat| := by
  cases x with
  | nan => cases finite
  | infinite negative => cases finite
  | finite negative m e canonical =>
    have unit : (0 : ℚ) < 2 ^ unitsPerOne := by positivity
    have magnitude : |((signed negative (m <<< e) : Int) : ℚ)| = ((m <<< e : Nat) : Int) := by
      rw [← Int.cast_abs, Int.abs_eq_natAbs, natAbs_signed]
    have order : Library.fixedLimit.le (.finite false m e canonical) = true ↔
        10 ^ 21 * ((2 ^ unitsPerOne : Nat) : Int) ≤ (m <<< e : Nat) :=
      le_iff counts_fixed_limit (counts_finite false canonical)
    rw [toRat_of_counts (counts_finite negative canonical), abs_div, magnitude, abs_of_pos unit, le_div_iff₀ unit]
    exact order.trans (by exact_mod_cast Iff.rfl)

/-- A small number of places is taken as it is. -/
theorem within_places (few : places ≤ 100) : (ofNat places).toInteger.within? 0 100 = some places := by
  have small : places < mantissaLimit := Nat.lt_of_le_of_lt few (by decide)
  have counts := counts_ofNat small
  have whole := counts_toInteger counts.finite
  rw [truncated_of_whole counts] at whole
  have low := (le_iff (counts_ofNat (by decide : 0 < mantissaLimit)) whole).2 (by
    rw [Nat.cast_zero, Int.zero_mul]
    exact_mod_cast Nat.zero_le _)
  have high := (le_iff whole (counts_ofNat (by decide : 100 < mantissaLimit))).2
    (Int.mul_le_mul_of_nonneg_right (by exact_mod_cast few) (Int.natCast_nonneg _))
  rw [within?, low, high, wholePart_of_counts whole]
  rfl

theorem run_number_fixed (engine : Engine) (m : Machine) (x : Number) (few : places ≤ 100) :
    m.run (Library.numberFixed engine (.number x) [.number (ofNat places)]) =
      (.ok (.string (if Library.fixedLimit.le x.abs then toString x else String.ofList (x.toFixed places))), m) := by
  have receiver : m.run (Library.thisNumber "Number.prototype.toFixed" (.number x)) = (.ok x, m) := rfl
  have wanted : m.run (ScriptEngine.toInteger engine (Library.argument [.number (ofNat places)] 0)) =
      (.ok (ofNat places).toInteger, m) := rfl
  rw [Library.numberFixed, Machine.run_bind_ok receiver, Machine.run_bind_ok wanted, within_places few]
  dsimp only
  split <;> rfl

/-- The method writes a number below `10 ^ 21` with up to twenty places as the multiple of the last place that is nearest
to its magnitude, the larger one if there are two, and with a sign just if it is negative. -/
theorem fixed_places_rounded (engine : Engine) (m : Machine) {x : Number} (finite : x.isFinite = true)
    (below : |x.toRat| < 10 ^ 21) {places : Nat} (few : places ≤ 20) :
    ∃ n : Nat, ∃ text, NearestUp places |x.toRat| n ∧ Writes places n text ∧
      m.run (Library.numberFixed engine (.number x) [.number (ofNat places)]) =
        (.ok (.string (String.ofList (signText x.toRat ++ text))), m) := by
  have small : Library.fixedLimit.le x.abs = false := by
    rw [Bool.eq_false_iff, ne_eq, fixed_limit_le finite]
    exact below.not_ge
  obtain ⟨n, text, nearest, writes, written⟩ := to_fixed_nearest finite few
  have run := run_number_fixed engine m x (Nat.le_trans few (by decide))
  rw [small, written] at run
  exact ⟨n, text, nearest, writes, run⟩

/-- Minus two and a half. -/
def minusFiveHalves : Number :=
  .finite true (5 * 2 ^ 50) 1023 (by decide)

theorem five_halves_fixed :
    (minusFiveHalves.isFinite = true ∧ |minusFiveHalves.toRat| < 10 ^ 21 ∧ 0 ≤ 20) ∧
      ∃ n : Nat, ∃ text, NearestUp 0 |minusFiveHalves.toRat| n ∧ Writes 0 n text ∧
        (Machine.bare {}).run (Library.numberFixed (engineAt 0) (.number minusFiveHalves) [.number (ofNat 0)]) =
          (.ok (.string (String.ofList (signText minusFiveHalves.toRat ++ text))), .bare {}) := by
  have small : |minusFiveHalves.toRat| < 10 ^ 21 := by
    rw [← not_le, ← fixed_limit_le rfl]
    decide
  exact ⟨⟨rfl, small, by decide⟩, fixed_places_rounded (engineAt 0) (Machine.bare {}) rfl small (by decide)⟩

example : minusFiveHalves.toFixed 0 = ['-', '3'] := by decide

end ScriptEngine.Number
