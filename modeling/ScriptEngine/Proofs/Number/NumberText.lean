import Mathlib.Data.List.Basic
import Mathlib.Data.List.Induction
import ScriptEngine.Number.Text
import ScriptEngine.Proofs.Number.LongestNumeral
import ScriptEngine.Proofs.Number.Places
import ScriptEngine.Proofs.Object.OwnKeys

/-!
Numbers as text. Digits and an exponent are laid out in one of four ways. Each of them is a decimal literal with the
value of the digits and the exponent, and no two of them share a text, so that a number is read back from its text.
-/

namespace ScriptEngine

open Number Scanning

variable {digits other : List Char} {n : Nat}

/-! ## Digits -/

theorem of_digits_append (digits more : List Char) : Decimal.ofDigits (digits ++ more) =
    10 ^ more.length * Decimal.ofDigits digits + Decimal.ofDigits more :=
  (Nat.ofDigitChars_append 0).trans Nat.ofDigitChars_eq_ofDigitChars_zero

theorem of_digits_concat (front : List Char) (c : Char) :
    Decimal.ofDigits (front ++ [c]) = 10 * Decimal.ofDigits front + (c.toNat - '0'.toNat) := by
  rw [of_digits_append]
  simp [Decimal.ofDigits]

theorem of_digits_zeros_behind (digits : List Char) (count : Nat) :
    Decimal.ofDigits (digits ++ List.replicate count '0') = 10 ^ count * Decimal.ofDigits digits :=
  (Nat.ofDigitChars_append 0).trans Nat.ofDigitChars_replicate_zero

theorem of_digits_zeros_before (count : Nat) (digits : List Char) :
    Decimal.ofDigits (List.replicate count '0' ++ digits) = Decimal.ofDigits digits := by
  have zeros : Decimal.ofDigits (List.replicate count '0') = 0 := Nat.ofDigitChars_replicate_zero
  rw [of_digits_append, zeros, Nat.mul_zero, Nat.zero_add]

theorem of_digits_of (n : Nat) : Decimal.ofDigits (digitsOf n) = n :=
  Nat.ofDigitChars_ten_toDigits

theorem all_digits_of (n : Nat) : AllDigits (digitsOf n) :=
  fun _ mem => Nat.isDigit_of_mem_toDigits (by decide) (by decide) mem

theorem all_digits_zeros (count : Nat) : AllDigits (List.replicate count '0') := by
  intro c mem
  rw [List.eq_of_mem_replicate mem]
  rfl

theorem AllDigits.append (first : AllDigits digits) (second : AllDigits other) : AllDigits (digits ++ other) :=
  fun c mem => (List.mem_append.1 mem).elim (first c) (second c)

/-- The digit of a value below ten is that of its character. -/
theorem digit_char_value {c : Char} (digit : c.isDigit = true) :
    c.toNat - '0'.toNat < 10 ∧ (c.toNat - '0'.toNat).digitChar = c := by
  obtain ⟨low, high⟩ := digit_range digit
  have known : ∀ d < 10, d.digitChar = Char.ofNat (d + 48) := by decide
  change c.toNat - 48 < 10 ∧ (c.toNat - 48).digitChar = c
  rw [known _ (by omega), Nat.sub_add_cancel low, Char.ofNat_toNat]
  exact ⟨by omega, rfl⟩

theorem digit_char_zero {d : Nat} (small : d < 10) (zero : d.digitChar = '0') : d = 0 := by
  have known : ∀ d < 10, d.digitChar = '0' → d = 0 := by decide
  exact known d small zero

theorem of_digits_pos (allDigits : AllDigits digits) (nonempty : digits ≠ []) (first : digits.head? ≠ some '0') :
    0 < Decimal.ofDigits digits := by
  obtain ⟨c, rest, rfl⟩ := List.exists_cons_of_ne_nil nonempty
  obtain ⟨small, char⟩ := digit_char_value (allDigits c (.head _))
  have value : Decimal.ofDigits (c :: rest) = 10 ^ rest.length * (c.toNat - '0'.toNat) + Decimal.ofDigits rest := by
    rw [← List.singleton_append, of_digits_append]
    simp [Decimal.ofDigits]
  have positive : 0 < c.toNat - '0'.toNat := by
    refine Nat.pos_of_ne_zero fun zero => first ?_
    rw [zero] at char
    rw [← char]
    rfl
  rw [value]
  exact Nat.add_pos_left (Nat.mul_pos (Nat.pow_pos (by decide)) positive) _

/-- Digits of which the first is not zero are the digits of their value. -/
theorem digits_of_of_digits (allDigits : AllDigits digits) (nonempty : digits ≠ [])
    (first : digits.head? ≠ some '0') : digitsOf (Decimal.ofDigits digits) = digits := by
  induction digits using List.reverseRecOn with
  | nil => exact absurd rfl nonempty
  | append_singleton front c ih =>
    obtain ⟨small, char⟩ := digit_char_value (allDigits c (by simp))
    have value := of_digits_concat front c
    cases front with
    | nil =>
      rw [value, digitsOf, Nat.toDigits_of_lt_base (by simpa [Decimal.ofDigits] using small)]
      simpa [Decimal.ofDigits] using char
    | cons d front =>
      have digits : AllDigits (d :: front) := fun c mem => allDigits c (List.mem_append_left _ mem)
      have leading : (d :: front).head? ≠ some '0' := first
      have positive := of_digits_pos digits nofun leading
      have known := ih digits nofun leading
      have before : (10 * Decimal.ofDigits (d :: front) + (c.toNat - '0'.toNat)) / 10 =
          Decimal.ofDigits (d :: front) := by omega
      have last : (10 * Decimal.ofDigits (d :: front) + (c.toNat - '0'.toNat)) % 10 = c.toNat - '0'.toNat := by omega
      rw [value, digitsOf, Nat.toDigits_of_base_le (by decide) (by omega), before, last, char]
      exact congrArg (· ++ [c]) known

theorem last_of_digits (allDigits : AllDigits digits) (nonempty : digits ≠ []) (last : digits.getLast? ≠ some '0') :
    Decimal.ofDigits digits % 10 ≠ 0 := by
  obtain ⟨front, c, rfl⟩ := (List.eq_nil_or_concat' digits).resolve_left nonempty
  obtain ⟨small, char⟩ := digit_char_value (allDigits c (by simp))
  have value := of_digits_concat front c
  intro zero
  have none : c.toNat - '0'.toNat = 0 := by omega
  refine last ?_
  rw [List.getLast?_concat, ← char, none]
  rfl

theorem last_digit_of (nonzero : n % 10 ≠ 0) : (digitsOf n).getLast? ≠ some '0' := by
  intro last
  rcases Nat.lt_or_ge n 10 with single | more
  · rw [digitsOf, Nat.toDigits_of_lt_base single] at last
    have zero := digit_char_zero single (Option.some.inj last)
    omega
  · rw [digitsOf, Nat.toDigits_of_base_le (by decide) more, List.getLast?_concat] at last
    exact nonzero (digit_char_zero (Nat.mod_lt _ (by decide)) (Option.some.inj last))

/-! ## Layout -/

/-- Digits of which neither the first nor the last is zero, and the exponent of the first one. -/
structure Scientific where
  digits : List Char
  exponent : Int
  allDigits : AllDigits digits
  nonempty : digits ≠ []
  first : digits.head? ≠ some '0'
  last : digits.getLast? ≠ some '0'

namespace Scientific

def text (f : Scientific) : List Char :=
  layout f.digits (f.exponent + 1)

/-- The digits behind a point, times the power of ten above the exponent. -/
def value (f : Scientific) : ℚ :=
  Decimal.ofDigits f.digits / 10 ^ f.digits.length * 10 ^ (f.exponent + 1)

def decimal (f : Scientific) : Decimal :=
  ⟨Decimal.ofDigits f.digits, f.exponent + 1 - f.digits.length⟩

theorem value_decimal (f : Scientific) : f.decimal.value = f.value := by
  rw [Decimal.value, value, decimal, zpow_sub₀ (by decide), zpow_natCast]
  ring

end Scientific

/-- The exponent as it is written behind digits. -/
def exponentOf (x : Int) : Exponent where
  mark := 'e'
  sign := [if x < 0 then '-' else '+']
  digits := digitsOf x.natAbs
  marked := .inl rfl
  signed := by split <;> simp [OptionalSign]
  allDigits := all_digits_of _
  nonempty := Nat.toDigits_ne_nil

theorem exponent_of_value (x : Int) : (exponentOf x).value = x := by
  change (if [if x < 0 then '-' else '+'] == ['-'] then -(Decimal.ofDigits (digitsOf x.natAbs) : Int)
    else Decimal.ofDigits (digitsOf x.natAbs)) = x
  rw [of_digits_of]
  by_cases negative : x < 0
  · rw [if_pos negative, if_pos (by decide)]
    omega
  · rw [if_neg negative, if_neg (by decide)]
    omega

/-- Only an exponent is written with a letter. -/
theorem digits_plain (allDigits : AllDigits digits) : 'e' ∉ digits :=
  fun mem => absurd (allDigits 'e' mem) (by decide)

/-- Zeros behind the digits move the point to their end. -/
theorem whole_layout (allDigits : AllDigits digits) (nonempty : digits ≠ []) (count : Nat) :
    ∃ n : Numeral, n.text = digits ++ List.replicate count '0' ∧
      n.decimal.value = Decimal.value ⟨Decimal.ofDigits digits, count⟩ := by
  have some : digits ++ List.replicate count '0' ++ [] ≠ [] := by simp [nonempty]
  refine ⟨⟨digits ++ List.replicate count '0', none, none, allDigits.append (all_digits_zeros count),
    List.forall_mem_nil _, some⟩, List.append_nil _, ?_⟩
  simp only [Decimal.value, Numeral.decimal, Option.getD_none, List.append_nil, of_digits_zeros_behind,
    Numeral.exponentValue, List.length_nil, zpow_natCast]
  push_cast
  ring

/-- A point among the digits. -/
theorem pointed_layout (allDigits : AllDigits digits) (nonempty : digits ≠ []) (position : Nat)
    (within : position ≤ digits.length) :
    ∃ n : Numeral, n.text = digits.take position ++ '.' :: digits.drop position ∧
      n.decimal = ⟨Decimal.ofDigits digits, position - digits.length⟩ := by
  have parts := List.take_append_drop position digits
  refine ⟨⟨digits.take position, some (digits.drop position), none, fun c mem => allDigits c (List.mem_of_mem_take mem),
    fun c mem => allDigits c (List.mem_of_mem_drop mem), by rwa [Option.getD_some, parts]⟩, ?_, ?_⟩
  · simp [Numeral.text, Numeral.pointText, Numeral.exponentText]
  · simp only [Numeral.decimal, Option.getD_some, parts, Numeral.exponentValue, List.length_drop, Decimal.mk.injEq,
      true_and]
    omega

/-- Zeros before the digits, and a point before them. -/
theorem fraction_layout (allDigits : AllDigits digits) (zeros : Nat) :
    ∃ n : Numeral, n.text = '0' :: '.' :: (List.replicate zeros '0' ++ digits) ∧
      n.decimal = ⟨Decimal.ofDigits digits, -zeros - digits.length⟩ := by
  refine ⟨⟨['0'], some (List.replicate zeros '0' ++ digits), none, all_digits_zeros 1,
    (all_digits_zeros zeros).append allDigits, by simp⟩, ?_, ?_⟩
  · simp [Numeral.text, Numeral.pointText, Numeral.exponentText]
  · have value := of_digits_zeros_before (zeros + 1) digits
    simp only [Numeral.decimal, Option.getD_some, Numeral.exponentValue, List.length_append, List.length_replicate,
      Decimal.mk.injEq]
    refine ⟨value, ?_⟩
    push_cast
    omega

/-- A point behind the first digit, if there are more, and an exponent. -/
theorem exponent_layout {d : Char} (digit : d.isDigit = true) (allDigits : AllDigits digits) (x : Int) :
    ∃ n : Numeral, n.text = d :: ((if digits = [] then [] else '.' :: digits) ++ (exponentOf x).text) ∧
      n.decimal = ⟨Decimal.ofDigits (d :: digits), x - digits.length⟩ := by
  have first : AllDigits [d] := by
    intro c mem
    rw [List.mem_singleton.1 mem]
    exact digit
  by_cases single : digits = []
  · refine ⟨⟨[d], none, some (exponentOf x), first, List.forall_mem_nil _, by simp⟩, ?_, ?_⟩
    · simp [Numeral.text, Numeral.pointText, Numeral.exponentText, single]
    · simp [Numeral.decimal, Numeral.exponentValue, exponent_of_value, single]
  · refine ⟨⟨[d], some digits, some (exponentOf x), first, allDigits, by simp⟩, ?_, ?_⟩
    · simp [Numeral.text, Numeral.pointText, Numeral.exponentText, single]
    · simp [Numeral.decimal, Numeral.exponentValue, exponent_of_value]

/-- A layout is a literal with the value of its digits, and it has an exponent if the point is far away. -/
theorem layout_numeral (allDigits : AllDigits digits) (nonempty : digits ≠ []) (point : Int) :
    ∃ n : Numeral, n.text = layout digits point ∧
      n.decimal.value = Decimal.value ⟨Decimal.ofDigits digits, point - digits.length⟩ ∧
      ('e' ∈ layout digits point ↔ point ≤ -6 ∨ 21 < point) := by
  have plain := digits_plain allDigits
  unfold layout
  dsimp only
  split
  · next whole =>
    simp only [Bool.and_eq_true, decide_eq_true_eq] at whole
    obtain ⟨n, text, value⟩ := whole_layout allDigits nonempty (point - digits.length).toNat
    rw [Int.toNat_of_nonneg (by omega)] at value
    refine ⟨n, text, value, ⟨fun mem => ?_, by omega⟩⟩
    exact absurd mem (digits_plain (allDigits.append (all_digits_zeros _)))
  · next notWhole =>
    split
    · next pointed =>
      simp only [Bool.and_eq_true, decide_eq_true_eq] at notWhole pointed
      obtain ⟨n, text, value⟩ := pointed_layout allDigits nonempty point.toNat (by omega)
      rw [Int.toNat_of_nonneg (by omega)] at value
      refine ⟨n, text, by rw [value], ⟨fun mem => ?_, by omega⟩⟩
      simp only [List.mem_append, List.mem_cons] at mem
      rcases mem with mem | mem | mem
      · exact absurd (List.mem_of_mem_take mem) plain
      · exact absurd mem (by decide)
      · exact absurd (List.mem_of_mem_drop mem) plain
    · split
      · next fraction =>
        simp only [Bool.and_eq_true, decide_eq_true_eq] at fraction
        obtain ⟨n, text, value⟩ := fraction_layout allDigits (-point).toNat
        rw [Int.toNat_of_nonneg (by omega), Int.neg_neg] at value
        refine ⟨n, text, by rw [value], ⟨fun mem => ?_, by omega⟩⟩
        simp only [List.cons_append, List.mem_cons] at mem
        rcases mem with mem | mem | mem
        · exact absurd mem (by decide)
        · exact absurd mem (by decide)
        · exact absurd mem (digits_plain ((all_digits_zeros _).append allDigits))
      · next notPointed notFraction =>
        simp only [Bool.and_eq_true, decide_eq_true_eq] at notWhole notPointed notFraction
        obtain ⟨d, rest, rfl⟩ := List.exists_cons_of_ne_nil nonempty
        obtain ⟨n, text, value⟩ := exponent_layout (allDigits d (.head _)) (fun c mem => allDigits c (.tail _ mem))
          (point - 1)
        have same : point - 1 - rest.length = point - (d :: rest).length := by
          rw [List.length_cons]
          omega
        rw [same] at value
        rw [List.length_cons] at notWhole
        refine ⟨n, ?_, by rw [value], ⟨fun _ => by omega, fun _ => ?_⟩⟩
        · rw [text]
          cases rest with
          | nil => rfl
          | cons c rest => rfl
        · cases rest with
          | nil => simp
          | cons c rest => simp

/-! ## Uniqueness -/

/-- A number that does not end in zero is found from its product with a power of ten. -/
theorem unpadded_unique {n k a b : Nat} (last : n % 10 ≠ 0) (last' : k % 10 ≠ 0) (same : n * 10 ^ a = k * 10 ^ b) :
    n = k ∧ a = b := by
  have smaller {n k a b : Nat} (last : n % 10 ≠ 0) (same : n * 10 ^ a = k * 10 ^ b) : b ≤ a := by
    by_contra more
    have split : 10 ^ b = 10 * 10 ^ (b - a - 1) * 10 ^ a := by
      rw [Nat.mul_assoc, ← Nat.pow_add, ← Nat.pow_succ']
      congr 1
      omega
    rw [split, ← Nat.mul_assoc] at same
    have multiple := Nat.eq_of_mul_eq_mul_right (Nat.pow_pos (by decide)) same
    rw [multiple, Nat.mul_left_comm, Nat.mul_mod_right] at last
    exact last rfl
  obtain rfl : a = b := Nat.le_antisymm (smaller last' same.symm) (smaller last same)
  exact ⟨Nat.eq_of_mul_eq_mul_right (Nat.pow_pos (by decide)) same, rfl⟩

namespace Scientific

variable {f g : Scientific}

theorem exists_numeral (f : Scientific) : ∃ n : Numeral, n.text = f.text ∧ n.decimal.value = f.decimal.value ∧
    ('e' ∈ f.text ↔ f.exponent < -6 ∨ 20 < f.exponent) := by
  obtain ⟨n, text, value, letter⟩ := layout_numeral f.allDigits f.nonempty (f.exponent + 1)
  refine ⟨n, text, value, letter.trans ?_⟩
  omega

/-- Digits and an exponent are found from their value. -/
theorem unique_of_value (same : f.decimal.value = g.decimal.value) : f.digits = g.digits ∧ f.exponent = g.exponent := by
  rw [Decimal.value_eq_iff, Decimal.num, Decimal.num, Decimal.den, Decimal.den, Nat.mul_assoc, Nat.mul_assoc,
    ← Nat.pow_add, ← Nat.pow_add] at same
  obtain ⟨values, powers⟩ := unpadded_unique (last_of_digits f.allDigits f.nonempty f.last)
    (last_of_digits g.allDigits g.nonempty g.last) same
  have digits : f.digits = g.digits := by
    rw [← digits_of_of_digits f.allDigits f.nonempty f.first, ← digits_of_of_digits g.allDigits g.nonempty g.first]
    exact congrArg digitsOf values
  have lengths := congrArg List.length digits
  simp only [decimal] at powers
  exact ⟨digits, by omega⟩

theorem unique_of_text (same : f.text = g.text) : f.digits = g.digits ∧ f.exponent = g.exponent := by
  obtain ⟨n, text, value, -⟩ := f.exists_numeral
  obtain ⟨k, text', value', -⟩ := g.exists_numeral
  have read := read_decimal_text n
  rw [text, same, ← text', read_decimal_text, Option.some_inj] at read
  exact unique_of_value (value.symm.trans ((congrArg Decimal.value read.symm).trans value'))

/-- The text of digits and an exponent is a literal with their value. -/
structure Reads (f : Scientific) : Prop where
  accepted : isDecimalLiteral f.text = true
  exact : ∃ d, readDecimal? f.text = some d ∧ d.value = f.value
  exponential : 'e' ∈ f.text ↔ f.exponent < -6 ∨ 20 < f.exponent
  positive : ofText (String.ofList f.text) = f.decimal.toNumber false
  negative : ofText (String.ofList ('-' :: f.text)) = f.decimal.toNumber true

theorem reads (f : Scientific) : f.Reads := by
  obtain ⟨n, text, value, letter⟩ := f.exists_numeral
  have positive := ofText_numeral n (.inl rfl)
  have negative := ofText_numeral n (.inr (.inr rfl))
  rw [text] at positive negative
  exact {
    accepted := is_decimal_literal_iff.2 ⟨n, text⟩
    exact := ⟨n.decimal, text ▸ read_decimal_text n, value.trans f.value_decimal⟩
    exponential := letter
    positive := positive.trans (Decimal.toNumber_congr false value)
    negative := negative.trans (Decimal.toNumber_congr true value) }

/-- A fraction that is not zero and does not end in zero, as digits and an exponent. -/
def ofDecimal (d : Decimal) (last : d.significand % 10 ≠ 0) : Scientific where
  digits := digitsOf d.significand
  exponent := (digitsOf d.significand).length + d.exponent - 1
  allDigits := all_digits_of _
  nonempty := Nat.toDigits_ne_nil
  first := fun leading => last (by rw [zero_of_leading leading])
  last := last_digit_of last

theorem decimal_ofDecimal (d : Decimal) (last : d.significand % 10 ≠ 0) : (ofDecimal d last).decimal = d := by
  obtain ⟨significand, exponent⟩ := d
  simp only [decimal, ofDecimal, of_digits_of, Decimal.mk.injEq, true_and]
  omega

theorem text_ofDecimal (d : Decimal) (last : d.significand % 10 ≠ 0) :
    (ofDecimal d last).text = layoutDecimal d := by
  have point : (digitsOf d.significand).length + d.exponent - 1 + 1 = (digitsOf d.significand).length + d.exponent := by
    omega
  rw [text, layoutDecimal]
  exact congrArg (layout (digitsOf d.significand)) point

end Scientific

/-! ## Numbers -/

theorem toText_finite (s : Bool) {m k : Nat} (canonical : Canonical m k) (positive : m ≠ 0) :
    (Number.finite s m k canonical).toText =
      (if s then ['-'] else []) ++ layoutDecimal (Number.finite s m k canonical).shortest := by
  have some : (m == 0) = false := beq_eq_false_iff_ne.2 positive
  unfold Number.toText
  dsimp only
  rw [some, if_neg Bool.false_ne_true]
  generalize layoutDecimal _ = text
  cases s <;> rfl

/-- A finite number is written as the digits and the exponent of a fraction that is read as its magnitude. -/
theorem finite_text (s : Bool) {m k : Nat} (canonical : Canonical m k) (positive : m ≠ 0) :
    ∃ f : Scientific, f.decimal.toNumber false = .finite false m k canonical ∧
      (Number.finite s m k canonical).toText = (if s then ['-'] else []) ++ f.text := by
  obtain ⟨reads, last⟩ := shortest_reads s canonical positive
  rw [toText_finite s canonical positive]
  generalize (Number.finite s m k canonical).shortest = d at reads last
  exact ⟨.ofDecimal d last, by rw [Scientific.decimal_ofDecimal, reads], by rw [Scientific.text_ofDecimal]⟩

/-- A number is read back from its text, except that zero loses its sign. -/
theorem text_read_back (v : Number) : ofText (String.ofList v.toText) = if v.isZero then zero else v := by
  cases v with
  | nan => decide
  | infinite negative =>
    cases negative with
    | false => exact ofText_infinity (.inl rfl)
    | true => exact ofText_infinity (.inr (.inr rfl))
  | finite s m k canonical =>
    by_cases none : m = 0
    · subst none
      have written : (Number.finite s 0 k canonical).toText = ['0'] := rfl
      have zeroSigned : (Number.finite s 0 k canonical).isZero = true := rfl
      rw [written, zeroSigned, if_pos rfl]
      decide
    · have some : (Number.finite s m k canonical).isZero = false := beq_eq_false_iff_ne.2 none
      obtain ⟨f, reads, text⟩ := finite_text s canonical none
      rw [some, text]
      cases s with
      | false => exact f.reads.positive.trans reads
      | true =>
        refine f.reads.negative.trans ?_
        rw [Decimal.toNumber_neg, reads]
        rfl

/-- Every number is read back from its text, except that zero loses its sign. A number that is finite and not zero is
written as digits and an exponent that are read as its magnitude. Of all digits and exponents the text is a decimal
literal with their exact value, in which an exponent is written only for a first digit far from the point, and
different ones have different texts. -/
theorem number_texts_read_back :
    (∀ v : Number, ofText (String.ofList v.toText) = if v.isZero then zero else v) ∧
      (∀ s m k canonical, m ≠ 0 → ∃ f : Scientific, f.decimal.toNumber false = .finite false m k canonical ∧
        (Number.finite s m k canonical).toText = (if s then ['-'] else []) ++ f.text) ∧
      (∀ f : Scientific, f.Reads) ∧
      ∀ f g : Scientific, f.text = g.text → f.digits = g.digits ∧ f.exponent = g.exponent :=
  ⟨text_read_back, fun s _ _ canonical positive => finite_text s canonical positive, Scientific.reads,
    fun _ _ => Scientific.unique_of_text⟩

/-! ## Whole numbers -/

/-- Leaving zeros out at the end raises the exponent. -/
theorem zeros_of_normalize {d : Decimal} (positive : d.significand ≠ 0) : ∃ zeros : Nat,
    d.significand = d.normalize.significand * 10 ^ zeros ∧ d.normalize.exponent = d.exponent + zeros := by
  fun_induction Decimal.normalize d with
  | case1 d zero => exact absurd zero positive
  | case2 d some tenfold ih =>
    obtain ⟨zeros, digits, exponent⟩ := ih (by dsimp only; omega)
    dsimp only at digits exponent
    refine ⟨zeros + 1, ?_, ?_⟩
    · rw [Nat.pow_succ, ← Nat.mul_assoc, ← digits, Nat.div_mul_cancel (Nat.dvd_of_mod_eq_zero tenfold)]
    · rw [exponent]
      push_cast
      ring
  | case3 d some last => exact ⟨0, by simp, by simp⟩

theorem digits_of_zeros_behind {c : Nat} (positive : c ≠ 0) (zeros : Nat) :
    digitsOf (c * 10 ^ zeros) = digitsOf c ++ List.replicate zeros '0' := by
  have nonempty : digitsOf c ≠ [] := Nat.toDigits_ne_nil
  have first : (digitsOf c ++ List.replicate zeros '0').head? ≠ some '0' := by
    rw [List.head?_append_of_ne_nil _ nonempty]
    exact fun leading => positive (zero_of_leading leading)
  have known := digits_of_of_digits ((all_digits_of c).append (all_digits_zeros zeros)) (by simp [nonempty]) first
  rwa [of_digits_zeros_behind, of_digits_of, Nat.mul_comm] at known

namespace Number

variable {x : Number} {s : Bool} {m e : Nat} {canonical : Canonical m e}

theorem isWhole_of_counts (counts : Counts (.finite s m e canonical) (n * (2 ^ unitsPerOne : Nat))) :
    (Number.finite s m e canonical).isWhole = true := by
  have units := magnitude_of_counts counts
  rw [isWhole, Bool.or_eq_true, decide_eq_true_eq]
  refine or_iff_not_imp_left.2 fun below => ?_
  have apart : 2 ^ unitsPerOne = 2 ^ (unitsPerOne - e) * 2 ^ e := by
    rw [← Nat.pow_add, Nat.sub_add_cancel (by omega)]
  rw [apart, ← Nat.mul_assoc] at units
  rw [Nat.eq_of_mul_eq_mul_right (Nat.two_pow_pos e) units, Nat.one_shiftLeft, Nat.mul_mod_left]
  rfl

/-- A whole number is written with its own digits, without the zeros at their end. -/
theorem shortest_of_counts (counts : Counts x (n * (2 ^ unitsPerOne : Nat))) (small : n < mantissaLimit) :
    x.shortest = Decimal.normalize ⟨n, 0⟩ := by
  obtain ⟨s, m, e, canonical, rfl, -⟩ := counts.finite_form
  have magnitude : Counts (.finite false m e canonical) (n * (2 ^ unitsPerOne : Nat)) := by
    rw [← Int.natCast_mul, ← magnitude_of_counts counts, ← Nat.shiftLeft_eq]
    exact counts_finite false canonical
  have whole := isWhole_of_counts magnitude
  have part := wholePart_of_counts magnitude
  simp only [shortest, abs, whole, part, small, decide_true, Bool.and_self, if_true]

theorem layout_whole (positive : n ≠ 0) (small : n < 10 ^ 21) :
    layoutDecimal (Decimal.normalize ⟨n, 0⟩) = digitsOf n := by
  obtain ⟨zeros, digits, exponent⟩ := zeros_of_normalize (d := ⟨n, 0⟩) positive
  dsimp only at digits exponent
  have some : (Decimal.normalize ⟨n, 0⟩).significand ≠ 0 := by
    intro zero
    rw [zero, Nat.zero_mul] at digits
    exact positive digits
  have written := digits_of_zeros_behind some zeros
  rw [← digits] at written
  have count : (digitsOf n).length ≤ 21 := (Nat.length_toDigits_le_iff (by decide) (by decide)).2 small
  rw [written, List.length_append, List.length_replicate] at count
  rw [layoutDecimal, exponent, written]
  simp [layout]
  omega

/-- A whole number below `2 ^ 53` is written with its digits, and so is the negative zero. -/
theorem toText_of_counts (counts : Counts x (n * (2 ^ unitsPerOne : Nat))) (small : n < mantissaLimit) :
    x.toText = digitsOf n := by
  have shortest := shortest_of_counts counts small
  obtain ⟨s, m, e, canonical, rfl, units⟩ := counts.finite_form
  have magnitude := magnitude_of_counts counts
  have one := Nat.two_pow_pos unitsPerOne
  by_cases none : m = 0
  · subst none
    have zero : n = 0 := by
      rw [Nat.zero_mul, eq_comm, Nat.mul_eq_zero] at magnitude
      exact magnitude.resolve_right one.ne'
    subst zero
    rfl
  · have positive : n ≠ 0 := by
      rintro rfl
      rw [Nat.zero_mul, Nat.mul_eq_zero] at magnitude
      exact magnitude.elim none (Nat.two_pow_pos e).ne'
    have sign : s = false := by
      have natural : 0 < n * 2 ^ unitsPerOne := Nat.mul_pos (Nat.pos_of_ne_zero positive) one
      rw [← Int.natCast_mul] at units
      generalize n * 2 ^ unitsPerOne = k at units natural
      cases s with
      | false => rfl
      | true =>
        simp only [signed, if_true] at units
        omega
    rw [toText_finite s canonical none, shortest, layout_whole positive (Nat.lt_trans small (by decide)), sign]
    rfl

theorem shortest_ofNat_reads (small : n < mantissaLimit) : (ofNat n).shortest.toNumber false = ofNat n := by
  rw [shortest_of_counts (counts_ofNat small) small, Decimal.toNumber_congr false (Decimal.value_normalize _)]
  by_cases zero : n = 0
  · subst zero
    rfl
  · rw [Decimal.toNumber_eq_nearest false zero, ofNat_eq_nearest]
    simp [Decimal.num, Decimal.den]

/-- A fraction that is read as a whole number has no fewer digits than this number without its last zeros. -/
theorem fewest_digits (small : n < mantissaLimit) {d : Decimal} (reads : d.toNumber false = ofNat n) :
    (digitsOf (ofNat n).shortest.significand).length ≤ (digitsOf d.significand).length := by
  rw [shortest_of_counts (counts_ofNat small) small]
  suffices least : (Decimal.normalize ⟨n, 0⟩).significand ≤ d.significand by
    have some : 0 < (digitsOf d.significand).length := List.length_pos_of_ne_nil Nat.toDigits_ne_nil
    have below : d.significand < 10 ^ (digitsOf d.significand).length :=
      (Nat.length_toDigits_le_iff (by decide) some).1 (Nat.le_refl _)
    exact (Nat.length_toDigits_le_iff (by decide) some).2 (Nat.lt_of_le_of_lt least below)
  by_cases zero : n = 0
  · subst zero
    simp [Decimal.normalize]
  obtain ⟨zeros, digits, -⟩ := zeros_of_normalize (d := ⟨n, 0⟩) zero
  have last := Decimal.last_of_normalize (d := ⟨n, 0⟩) zero
  dsimp only at digits
  generalize (Decimal.normalize ⟨n, 0⟩).significand = c at digits last ⊢
  have some : d.significand ≠ 0 := by
    intro nothing
    rw [Decimal.toNumber, if_pos (beq_iff_eq.2 nothing)] at reads
    exact zero (ofNat_unique (k := 0) reads small).symm
  rw [Decimal.toNumber_eq_nearest false some] at reads
  by_contra fewer
  have within : c ≤ n := digits ▸ Nat.le_mul_of_pos_right c (Nat.pow_pos (by decide))
  rcases Int.le_total 0 d.exponent with whole | fraction
  · -- The fraction is a natural number, and it can only be this one.
    have one : d.den = 1 := by
      have none : (-d.exponent).toNat = 0 := by omega
      rw [Decimal.den, none, Nat.pow_zero]
    rw [one, ← ofNat_eq_nearest] at reads
    have value := ofNat_unique reads small
    obtain ⟨more, own, -⟩ := zeros_of_normalize some
    rw [digits, Decimal.num, own, Nat.mul_assoc, ← Nat.pow_add] at value
    obtain ⟨same, -⟩ := unpadded_unique (Decimal.last_of_normalize some) last value
    rw [own, same] at fewer
    exact fewer (Nat.le_mul_of_pos_right c (Nat.pow_pos (by decide)))
  · have same : d.num = d.significand := by
      have none : d.exponent.toNat = 0 := by omega
      rw [Decimal.num, none, Nat.pow_zero, Nat.mul_one]
    have below : d.num ≤ (n - 1) * d.den := by
      rw [same]
      exact Nat.le_trans (by omega) (Nat.le_mul_of_pos_right _ d.den_pos)
    exact nearest_ne_of_le d.den_pos (by omega) small below reads

end Number

end ScriptEngine
