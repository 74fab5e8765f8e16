import ScriptEngine.Proofs.Scanning.Surroundings

/-!
Decimal literals. A decimal literal is told by its parts: digits, perhaps with a point, and perhaps an exponent.
The test of a whole text, the search at the front of a text and the reading of a value go through the same parts.
-/

namespace ScriptEngine

/-- Digits and nothing else. -/
def AllDigits (text : List Char) : Prop :=
  ∀ c ∈ text, c.isDigit = true

/-- A sign, or none. -/
def OptionalSign (text : List Char) : Prop :=
  text = [] ∨ text = ['+'] ∨ text = ['-']

/-- An exponent as it is written. -/
structure Exponent where
  mark : Char
  sign : List Char
  digits : List Char
  marked : mark = 'e' ∨ mark = 'E'
  signed : OptionalSign sign
  allDigits : AllDigits digits
  nonempty : digits ≠ []

def Exponent.text (e : Exponent) : List Char :=
  e.mark :: (e.sign ++ e.digits)

def Exponent.value (e : Exponent) : Int :=
  if e.sign == ['-'] then -(Decimal.ofDigits e.digits : Int) else Decimal.ofDigits e.digits

/-- A decimal literal as it is written: the digits before the point, those behind it if there is a point, and the
exponent. There is a digit on one side of the point at least. -/
structure Numeral where
  whole : List Char
  fraction : Option (List Char)
  exponent : Option Exponent
  wholeDigits : AllDigits whole
  fractionDigits : AllDigits (fraction.getD [])
  nonempty : whole ++ fraction.getD [] ≠ []

namespace Numeral

/-- A point with the digits behind it. -/
def pointText : Option (List Char) → List Char
  | some digits => '.' :: digits
  | none => []

def exponentText : Option Exponent → List Char
  | some e => e.text
  | none => []

def exponentValue : Option Exponent → Int
  | some e => e.value
  | none => 0

def text (n : Numeral) : List Char :=
  n.whole ++ (pointText n.fraction ++ exponentText n.exponent)

/-- The value of a decimal literal. -/
def decimal (n : Numeral) : Decimal :=
  ⟨Decimal.ofDigits (n.whole ++ n.fraction.getD []), exponentValue n.exponent - (n.fraction.getD []).length⟩

end Numeral

/-! ## Digits -/

open Scanning

variable {text rest digits : List Char}

/-- Digits in front of a text are read with those at its front. -/
theorem span_digits_front (all : AllDigits digits) (rest : List Char) :
    spanDigits (digits ++ rest) = (digits ++ (spanDigits rest).1, (spanDigits rest).2) := by
  simp only [spanDigits, List.span_eq_takeWhile_dropWhile, List.takeWhile_append_of_pos all,
    List.dropWhile_append_of_pos all]

theorem span_digits_all (all : AllDigits digits) : spanDigits digits = (digits, []) := by
  have read := span_digits_front all []
  rw [List.append_nil] at read
  rw [read]
  simp [spanDigits, List.span_eq_takeWhile_dropWhile]

theorem span_digits_stop {c : Char} (other : c.isDigit = false) (rest : List Char) :
    spanDigits (c :: rest) = ([], c :: rest) := by
  simp [spanDigits, List.span_eq_takeWhile_dropWhile, other]

theorem all_digits_span (text : List Char) : AllDigits (spanDigits text).1 :=
  (span_cut (rfl : text.span (·.isDigit) = ((spanDigits text).1, (spanDigits text).2))).2.1

theorem span_digits_ends (text : List Char) : ∀ c, (spanDigits text).2.head? = some c → c.isDigit = false :=
  (span_cut (rfl : text.span (·.isDigit) = ((spanDigits text).1, (spanDigits text).2))).2.2

theorem span_digits_le (text : List Char) : (spanDigits text).2.length ≤ text.length := by
  have parts := congrArg List.length (span_digits_append text)
  rw [List.length_append] at parts
  omega

theorem span_sign_append (text : List Char) : (spanSign text).1 ++ (spanSign text).2 = text := by
  unfold spanSign
  split <;> rfl

theorem span_sign_signed (text : List Char) : OptionalSign (spanSign text).1 := by
  unfold spanSign
  split <;> simp [OptionalSign]

/-- A sign is read apart from what is no sign, and there need not be one. -/
theorem span_sign_front {sign : List Char} (signed : OptionalSign sign)
    (unsigned : ∀ c ∈ text.head?, c ≠ '+' ∧ c ≠ '-') : spanSign (sign ++ text) = (sign, text) := by
  obtain rfl | rfl | rfl := signed
  · rw [List.nil_append]
    unfold spanSign
    split
    · exact absurd rfl (unsigned '+' rfl).1
    · exact absurd rfl (unsigned '-' rfl).2
    · rfl
  · rfl
  · rfl

theorem digit_no_sign {c : Char} (digit : c.isDigit = true) : c ≠ '+' ∧ c ≠ '-' := by
  constructor <;> (rintro rfl; exact absurd digit (by decide))

/-! ## The parts of a text -/

theorem span_fraction_point (text : List Char) : spanFraction ('.' :: text) = spanDigits text := rfl

theorem span_fraction_stop {c : Char} (other : c ≠ '.') (rest : List Char) :
    spanFraction (c :: rest) = ([], c :: rest) := by
  unfold spanFraction
  split
  · next same =>
    cases same
    exact absurd rfl other
  · rfl

theorem span_fraction_le (text : List Char) : (spanFraction text).2.length ≤ text.length := by
  unfold spanFraction
  split
  · next rest => exact Nat.le_succ_of_le (span_digits_le rest)
  · exact Nat.le_refl _

/-- What is read as a fraction is a point with digits, or nothing. -/
theorem exists_fraction (text : List Char) :
    ∃ fraction, AllDigits (fraction.getD []) ∧ (spanFraction text).1 = fraction.getD [] ∧
      text = Numeral.pointText fraction ++ (spanFraction text).2 := by
  unfold spanFraction
  split
  · next rest =>
    refine ⟨some (spanDigits rest).1, all_digits_span rest, rfl, ?_⟩
    rw [Numeral.pointText, List.cons_append, span_digits_append]
  · exact ⟨none, List.forall_mem_nil _, rfl, rfl⟩

/-- A mark with digits behind it is an exponent. -/
theorem exists_exponent {mark : Char} (marked : mark = 'e' ∨ mark = 'E') (text : List Char)
    (nonempty : (spanDigits (spanSign text).2).1 ≠ []) :
    ∃ e : Exponent, mark :: text = e.text ++ (spanDigits (spanSign text).2).2 := by
  refine ⟨⟨mark, (spanSign text).1, (spanDigits (spanSign text).2).1, marked, span_sign_signed text,
    all_digits_span _, nonempty⟩, ?_⟩
  rw [Exponent.text, List.cons_append, List.append_assoc, span_digits_append, span_sign_append]

theorem mark_not_digit {mark : Char} (marked : mark = 'e' ∨ mark = 'E') : mark.isDigit = false ∧ mark ≠ '.' := by
  obtain rfl | rfl := marked <;> decide

/-- The digits of an exponent are read behind its sign, and those that follow them are, too. -/
theorem Exponent.span_text (e : Exponent) (rest : List Char) :
    spanSign (e.sign ++ e.digits ++ rest) = (e.sign, e.digits ++ rest) ∧
      spanDigits (e.digits ++ rest) = (e.digits ++ (spanDigits rest).1, (spanDigits rest).2) := by
  rw [List.append_assoc]
  refine ⟨span_sign_front e.signed ?_, span_digits_front e.allDigits rest⟩
  intro c begins
  cases some : e.digits with
  | nil => exact absurd some e.nonempty
  | cons d digits =>
    rw [some] at begins
    cases begins
    exact digit_no_sign (e.allDigits _ (some ▸ .head _))

theorem Exponent.mark_test (e : Exponent) : (e.mark == 'e' || e.mark == 'E') = true := by
  obtain marked | marked := e.marked <;> rw [marked] <;> rfl

theorem Exponent.text_append (e : Exponent) (rest : List Char) :
    e.text ++ rest = e.mark :: (e.sign ++ e.digits ++ rest) := by
  rw [Exponent.text, List.cons_append]

/-- The front of a literal is read up to its exponent. -/
theorem Numeral.span_front (n : Numeral) (e : Exponent) (ends : n.exponent = some e) (rest : List Char) :
    (spanDigits (n.text ++ rest)).1 = n.whole ∧
      spanFraction (spanDigits (n.text ++ rest)).2 = (n.fraction.getD [], e.text ++ rest) := by
  obtain ⟨notDigit, notPoint⟩ := mark_not_digit e.marked
  have stop : spanDigits (e.text ++ rest) = ([], e.text ++ rest) := by
    rw [e.text_append]
    exact span_digits_stop notDigit _
  have front : spanDigits (n.text ++ rest) =
      (n.whole ++ (spanDigits (pointText n.fraction ++ (e.text ++ rest))).1,
        (spanDigits (pointText n.fraction ++ (e.text ++ rest))).2) := by
    rw [Numeral.text, ends, exponentText, List.append_assoc, List.append_assoc,
      span_digits_front n.wholeDigits]
  have digits := n.fractionDigits
  rw [front]
  cases point : n.fraction with
  | none =>
    rw [pointText, List.nil_append, stop, e.text_append]
    exact ⟨List.append_nil _, span_fraction_stop notPoint _⟩
  | some fraction =>
    rw [point, Option.getD_some] at digits
    have read := span_digits_front digits (e.text ++ rest)
    rw [stop, List.append_nil] at read
    rw [pointText, List.cons_append, span_digits_stop (by decide)]
    exact ⟨List.append_nil _, read⟩

theorem Numeral.span_plain (n : Numeral) (ends : n.exponent = none) :
    (spanDigits n.text).1 = n.whole ∧ spanFraction (spanDigits n.text).2 = (n.fraction.getD [], []) := by
  have digits := n.fractionDigits
  rw [Numeral.text, ends, exponentText, List.append_nil, span_digits_front n.wholeDigits]
  cases point : n.fraction with
  | none => exact ⟨List.append_nil _, rfl⟩
  | some fraction =>
    rw [point, Option.getD_some] at digits
    rw [pointText, span_digits_stop (by decide)]
    exact ⟨List.append_nil _, span_digits_all digits⟩

/-! ## The test -/

theorem exponent_or_empty_text (e : Exponent) : isExponentOrEmpty e.text = true := by
  obtain ⟨sign, digits⟩ := e.span_text []
  rw [List.append_nil] at sign
  have some : (e.digits ++ (spanDigits []).1).isEmpty = false := by
    simpa using fun none => absurd none e.nonempty
  rw [List.append_nil] at sign digits
  simp only [Exponent.text, isExponentOrEmpty, e.mark_test, sign, digits, if_true, some]
  rfl

theorem exists_of_exponent_or_empty (test : isExponentOrEmpty text = true) :
    ∃ exponent, text = Numeral.exponentText exponent := by
  cases text with
  | nil => exact ⟨none, rfl⟩
  | cons mark rest =>
    dsimp only [isExponentOrEmpty] at test
    split at test
    · next marked =>
      simp only [Bool.or_eq_true, beq_iff_eq] at marked
      simp only [Bool.and_eq_true, Bool.not_eq_true', List.isEmpty_eq_false_iff, List.isEmpty_iff] at test
      obtain ⟨e, parts⟩ := exists_exponent marked rest test.1
      rw [test.2, List.append_nil] at parts
      exact ⟨some e, parts⟩
    · cases test

/-- There are no digits if there are none on either side of the point. -/
theorem front_empty (whole fraction : List Char) :
    (whole.length + fraction.length == 0) = (whole ++ fraction).isEmpty ∧
      (whole.isEmpty && fraction.isEmpty) = (whole ++ fraction).isEmpty := by
  cases whole <;> cases fraction <;> simp

/-- The test of a whole text accepts the decimal literals. -/
theorem is_decimal_literal_iff : isDecimalLiteral text = true ↔ ∃ n : Numeral, n.text = text := by
  constructor
  · intro test
    obtain ⟨fraction, fractionDigits, read, parts⟩ := exists_fraction (spanDigits text).2
    have whole := span_digits_append text
    unfold isDecimalLiteral at test
    dsimp only at test
    split at test
    · cases test
    · next some =>
      obtain ⟨exponent, tail⟩ := exists_of_exponent_or_empty test
      rw [read, (front_empty ..).1, List.isEmpty_iff] at some
      refine ⟨⟨(spanDigits text).1, fraction, exponent, all_digits_span text, fractionDigits, some⟩, ?_⟩
      rw [Numeral.text, ← tail, ← parts, whole]
  · rintro ⟨n, rfl⟩
    have test := (front_empty ..).1.trans (List.isEmpty_eq_false_iff.2 n.nonempty)
    unfold isDecimalLiteral
    cases ends : n.exponent with
    | none =>
      obtain ⟨whole, fraction⟩ := n.span_plain ends
      simp only [whole, fraction, test, isExponentOrEmpty]
      rfl
    | some e =>
      obtain ⟨whole, fraction⟩ := n.span_front e ends []
      rw [List.append_nil] at whole fraction
      simp only [whole, fraction, test, List.append_nil, exponent_or_empty_text]
      rfl

/-! ## The value -/

theorem read_exponent_text (e : Exponent) : readExponent? e.text = some e.value := by
  obtain ⟨sign, -⟩ := e.span_text []
  rw [List.append_nil, List.append_nil] at sign
  have digits := span_digits_all e.allDigits
  simp only [Exponent.text, readExponent?, e.mark_test, if_true, sign, digits]
  cases some : e.digits with
  | nil => exact absurd some e.nonempty
  | cons d digits =>
    rw [Exponent.value, some]

/-- The value of a literal is read. -/
theorem read_decimal_text (n : Numeral) : readDecimal? n.text = some n.decimal := by
  have test := (front_empty ..).2.trans (List.isEmpty_eq_false_iff.2 n.nonempty)
  unfold readDecimal?
  cases ends : n.exponent with
  | none =>
    obtain ⟨whole, fraction⟩ := n.span_plain ends
    simp only [whole, fraction, test, Numeral.decimal, ends]
    rfl
  | some e =>
    obtain ⟨whole, fraction⟩ := n.span_front e ends []
    rw [List.append_nil] at whole fraction
    simp only [whole, fraction, test, List.append_nil, read_exponent_text, Numeral.decimal, ends]
    rfl

/-! ## The longest literal at the front -/

theorem skip_exponent_le (text : List Char) : (skipExponent text).length ≤ text.length := by
  unfold skipExponent
  split
  · exact Nat.le_refl _
  · next mark rest =>
    split
    · have sign := congrArg List.length (span_sign_append rest)
      have digits := span_digits_le (spanSign rest).2
      rw [List.length_append] at sign
      dsimp only
      split
      · exact Nat.le_refl _
      · rw [List.length_cons]
        omega
    · exact Nat.le_refl _

theorem skip_exponent_text (e : Exponent) (rest : List Char) :
    skipExponent (e.text ++ rest) = (spanDigits rest).2 := by
  obtain ⟨sign, digits⟩ := e.span_text rest
  have some : (e.digits ++ (spanDigits rest).1).isEmpty = false := by
    simpa using fun none => absurd none e.nonempty
  simp only [e.text_append, skipExponent, e.mark_test, if_true, sign, digits, some]
  rfl

theorem exists_of_skip_exponent (text : List Char) :
    ∃ exponent, text = Numeral.exponentText exponent ++ skipExponent text := by
  unfold skipExponent
  split
  · exact ⟨none, rfl⟩
  · next mark rest =>
    split
    · next marked =>
      simp only [Bool.or_eq_true, beq_iff_eq] at marked
      dsimp only
      split
      · exact ⟨none, rfl⟩
      · next digits =>
        rw [List.isEmpty_iff] at digits
        obtain ⟨e, parts⟩ := exists_exponent marked rest digits
        exact ⟨some e, parts⟩
    · exact ⟨none, rfl⟩

/-- What is passed at the front of a text is a literal. -/
theorem exists_of_skip_decimal (passed : skipDecimal? text = some rest) : ∃ n : Numeral, n.text ++ rest = text := by
  obtain ⟨fraction, fractionDigits, read, parts⟩ := exists_fraction (spanDigits text).2
  obtain ⟨exponent, tail⟩ := exists_of_skip_exponent (spanFraction (spanDigits text).2).2
  have whole := span_digits_append text
  unfold skipDecimal? at passed
  dsimp only at passed
  split at passed
  · cases passed
  · next some =>
    cases passed
    rw [read, (front_empty ..).2, List.isEmpty_iff] at some
    refine ⟨⟨(spanDigits text).1, fraction, exponent, all_digits_span text, fractionDigits, some⟩, ?_⟩
    rw [Numeral.text, List.append_assoc, List.append_assoc, ← tail, ← parts, whole]

/-- Of a literal without an exponent everything is read, whatever follows it. -/
theorem Numeral.span_open (n : Numeral) (ends : n.exponent = none) (rest : List Char) :
    (spanDigits (n.text ++ rest)).1 ++ (spanFraction (spanDigits (n.text ++ rest)).2).1 ≠ [] ∧
      (spanFraction (spanDigits (n.text ++ rest)).2).2.length ≤ rest.length := by
  have digits := n.fractionDigits
  have nonempty := n.nonempty
  have short := span_digits_le rest
  rw [Numeral.text, ends, exponentText, List.append_nil, List.append_assoc, span_digits_front n.wholeDigits]
  cases point : n.fraction with
  | none =>
    rw [point, Option.getD_none, List.append_nil] at nonempty
    rw [pointText, List.nil_append]
    exact ⟨by simp [nonempty], Nat.le_trans (span_fraction_le _) short⟩
  | some fraction =>
    rw [point, Option.getD_some] at digits nonempty
    rw [pointText, List.cons_append, span_digits_stop (by decide), span_fraction_point, span_digits_front digits,
      List.append_nil, ← List.append_assoc]
    exact ⟨fun none => nonempty (List.append_eq_nil_iff.1 none).1, short⟩

/-- Any literal at the front of a text is passed, perhaps with more. -/
theorem skip_decimal_text (n : Numeral) (rest : List Char) :
    ∃ left, skipDecimal? (n.text ++ rest) = some left ∧ left.length ≤ rest.length := by
  unfold skipDecimal?
  cases ends : n.exponent with
  | none =>
    obtain ⟨nonempty, short⟩ := n.span_open ends rest
    have test := (front_empty ..).2.trans (List.isEmpty_eq_false_iff.2 nonempty)
    refine ⟨_, if_neg (Bool.not_eq_true _ ▸ test), ?_⟩
    exact Nat.le_trans (skip_exponent_le _) short
  | some e =>
    obtain ⟨whole, fraction⟩ := n.span_front e ends rest
    have test := (front_empty ..).2.trans (List.isEmpty_eq_false_iff.2 n.nonempty)
    simp only [whole, fraction, test, skip_exponent_text]
    exact ⟨_, rfl, span_digits_le rest⟩

end ScriptEngine
