import Mathlib.Order.Compare
import ScriptEngine.Proofs.Evaluation.Outcome
import ScriptEngine.Proofs.Number.Units

/-!
The relational operators. Two of them hand their operands over exchanged, and say with a flag which one is to be converted
first; two of them ask whether the other order is known not to hold. All four come to questions about one order of two
primitive values, which is that of code units or that of numbers, and has no answer beside what is not a number.
-/

namespace ScriptEngine

variable {x y : Value} {o : Ordering}

/-! ## The order of numbers -/

namespace Number

/-- Where a number stands: infinities before and behind all numbers of units, and what is not a number nowhere. -/
def rank? : Number → Option (Int × Int)
  | .nan => none
  | .infinite negative => some (if negative then -1 else 1, 0)
  | x@(.finite ..) => some (0, x.toUnits)

/-- How a number stands to another. -/
def ordering? (a b : Number) : Option Ordering :=
  match a.rank?, b.rank? with
  | some p, some q => some ((compare p.1 q.1).then (compare p.2 q.2))
  | _, _ => none

theorem isSome_rank (a : Number) : a.rank?.isSome = !a.isNaN := by
  cases a <;> rfl

/-- The order and the equality of numbers are those of their ranks. -/
theorem lt_and_eq_iff_rank {a b : Number} {p q : Int × Int} (first : a.rank? = some p) (second : b.rank? = some q) :
    (a.lt b = true ↔ p.1 < q.1 ∨ p.1 = q.1 ∧ p.2 < q.2) ∧ (a.eq b = true ↔ p.1 = q.1 ∧ p.2 = q.2) := by
  cases a with
  | nan => cases first
  | infinite s =>
    cases first
    cases b with
    | nan => cases second
    | infinite t => cases second; cases s <;> cases t <;> simp [lt, eq]
    | finite t n f canonical => cases second; cases s <;> simp [lt, eq]
  | finite s m e canonical =>
    cases first
    cases b with
    | nan => cases second
    | infinite t => cases second; cases t <;> simp [lt, eq]
    | finite t n f canonical' =>
      cases second
      have less := lt_iff ⟨rfl, rfl⟩ ⟨rfl, rfl⟩ (x := .finite s m e canonical) (y := .finite t n f canonical')
      have same := eq_iff ⟨rfl, rfl⟩ ⟨rfl, rfl⟩ (x := .finite s m e canonical) (y := .finite t n f canonical')
      simp [less, same]

theorem ordering_swap (a b : Number) : b.ordering? a = (a.ordering? b).map Ordering.swap := by
  unfold ordering?
  cases a.rank? <;> cases b.rank?
  case some.some p q =>
    rw [Option.map_some, Ordering.swap_then, ← Std.OrientedOrd.eq_swap, ← Std.OrientedOrd.eq_swap]
  all_goals rfl

theorem ordering_eq_none_iff (a b : Number) : a.ordering? b = none ↔ (a.isNaN || b.isNaN) = true := by
  have first := isSome_rank a
  have second := isSome_rank b
  unfold ordering?
  rw [Bool.or_eq_true, ← Bool.not_eq_false', ← Bool.not_eq_false', ← first, ← second]
  cases a.rank? <;> cases b.rank? <;> simp

theorem ordering_spec {a b : Number} (ordered : a.ordering? b = some o) :
    a.lt b = o.isLT ∧ (a.eq b = true ↔ o = .eq) := by
  unfold ordering? at ordered
  split at ordered
  · next p q first second =>
    cases ordered
    obtain ⟨less, same⟩ := lt_and_eq_iff_rank first second
    constructor
    · rw [Bool.eq_iff_iff, less, Ordering.isLT_iff_eq_lt, Ordering.then_eq_lt, compare_lt_iff_lt, compare_eq_iff_eq,
        compare_lt_iff_lt]
    · rw [same, Ordering.then_eq_eq, compare_eq_iff_eq, compare_eq_iff_eq]
  · cases ordered

end Number

/-! ## The order of primitive values -/

namespace Text

/-- The first place where two lists differ decides, or the end of the shorter one. -/
theorem unitsLt_eq (us vs : List UInt16) : unitsLt us vs = (compare us vs).isLT := by
  induction us generalizing vs with
  | nil => cases vs <;> rfl
  | cons u us ih =>
    cases vs with
    | nil => rfl
    | cons v vs =>
      rw [unitsLt, ih, List.compare_cons_cons]
      rcases lt_trichotomy u.toNat v.toNat with less | same | more
      · have known : compare u v = .lt := Std.compare_eq_lt.2 (UInt16.lt_iff_toNat_lt.2 less)
        have less' : u < v := UInt16.lt_iff_toNat_lt.2 less
        simp [known, less']
      · obtain rfl : u = v := UInt16.toNat_inj.1 same
        have irreflexive : ¬ u < u := fun less => absurd (UInt16.lt_iff_toNat_lt.1 less) (Nat.lt_irrefl _)
        simp [irreflexive]
      · have known : compare u v = .gt := Std.compare_eq_gt.2 (UInt16.lt_iff_toNat_lt.2 more)
        have notLess : ¬ u < v := fun less => absurd (UInt16.lt_iff_toNat_lt.1 less) (Nat.lt_asymm more)
        have other : u ≠ v := fun same => absurd (congrArg UInt16.toNat same) more.ne'
        simp [known, notLess, other]

theorem unitsLt_iff_lex (us vs : List UInt16) : unitsLt us vs = true ↔ List.Lex (· < ·) us vs := by
  induction us generalizing vs with
  | nil => cases vs <;> simp [unitsLt]
  | cons u us ih => cases vs <;> simp [unitsLt, ih, List.cons_lt_cons_iff]

end Text

namespace Value

/-- How a primitive value stands to another: strings by their code units, others by their numbers. -/
def ordering? : Value → Value → Option Ordering
  | string s, string t => some (compare (Text.units s) (Text.units t))
  | x, y => x.primitiveToNumber.ordering? y.primitiveToNumber

/-- Both values are strings. -/
def bothStrings : Value → Value → Bool
  | string _, string _ => true
  | _, _ => false

theorem exists_of_both_strings (strings : x.bothStrings y = true) : ∃ s t, x = string s ∧ y = string t := by
  unfold bothStrings at strings
  split at strings
  · exact ⟨_, _, rfl, rfl⟩
  · cases strings

theorem ordering_of_not_strings (other : x.bothStrings y = false) :
    x.ordering? y = x.primitiveToNumber.ordering? y.primitiveToNumber := by
  cases x <;> cases y <;> first | rfl | cases other

theorem ordering_swap (x y : Value) : y.ordering? x = (x.ordering? y).map Ordering.swap := by
  cases strings : x.bothStrings y with
  | true =>
    obtain ⟨s, t, rfl, rfl⟩ := exists_of_both_strings strings
    exact congrArg some Std.OrientedOrd.eq_swap
  | false =>
    have strings' : y.bothStrings x = false := by cases x <;> cases y <;> first | rfl | cases strings
    rw [ordering_of_not_strings strings, ordering_of_not_strings strings', Number.ordering_swap]

theorem less_of_not_strings (other : x.bothStrings y = false) : x.less? y =
    if x.primitiveToNumber.isNaN || y.primitiveToNumber.isNaN then none
    else some (x.primitiveToNumber.lt y.primitiveToNumber) := by
  cases x <;> cases y <;> first | rfl | cases other

/-- What is computed is whether the first value is before the second one. -/
theorem less_eq_ordering (x y : Value) : x.less? y = (x.ordering? y).map Ordering.isLT := by
  cases strings : x.bothStrings y with
  | true =>
    obtain ⟨s, t, rfl, rfl⟩ := exists_of_both_strings strings
    exact congrArg some (Text.unitsLt_eq ..)
  | false =>
    have unordered := Number.ordering_eq_none_iff x.primitiveToNumber y.primitiveToNumber
    rw [less_of_not_strings strings, ordering_of_not_strings strings]
    split
    · next nan => rw [unordered.2 nan]; rfl
    · next number =>
      obtain ⟨o, ordered⟩ := Option.ne_none_iff_exists'.1 (mt unordered.1 number)
      rw [ordered, (Number.ordering_spec ordered).1]
      rfl

end Value

/-! ## The operators -/

/-- The relational operators. -/
inductive Comparison where
  | less
  | greater
  | lessEqual
  | greaterEqual
  deriving DecidableEq

namespace Comparison

def operator : Comparison → BinaryOp
  | less => .less
  | greater => .greater
  | lessEqual => .lessEqual
  | greaterEqual => .greaterEqual

/-- In what order the operands have to stand. -/
def accepts : Comparison → Ordering → Bool
  | less => Ordering.isLT
  | greater => Ordering.isGT
  | lessEqual => Ordering.isLE
  | greaterEqual => Ordering.isGE

/-- Two primitive values stand in the order that is asked for. -/
def holds (c : Comparison) (x y : Value) : Bool :=
  (x.ordering? y).any c.accepts

/-- The operator that asks the same of the operands exchanged. -/
def mirrored : Comparison → Comparison
  | less => greater
  | greater => less
  | lessEqual => greaterEqual
  | greaterEqual => lessEqual

theorem holds_mirrored (c : Comparison) (x y : Value) : c.mirrored.holds y x = c.holds x y := by
  rw [holds, holds, Value.ordering_swap]
  cases x.ordering? y with
  | none => rfl
  | some o => cases c <;> cases o <;> rfl

/-- An operator that keeps its operands in place is told by whether the first one is before the second. -/
theorem holds_of_less (x y : Value) :
    (x.less? y == some true) = less.holds x y ∧ (x.less? y == some false) = greaterEqual.holds x y := by
  rw [Value.less_eq_ordering]
  unfold holds
  cases x.ordering? y with
  | none => exact ⟨rfl, rfl⟩
  | some o => cases o <;> exact ⟨rfl, rfl⟩

/-- An operator converts its left operand and then its right one, and asks for the order of what it gets. -/
theorem apply_eq (engine : Engine) (c : Comparison) (x y : Value) : applyBinary engine c.operator x y = (do
    let a ← toPrimitive engine x .number
    let b ← toPrimitive engine y .number
    return .boolean (c.holds a b)) := by
  have kept (a b : Value) := holds_of_less a b
  have exchanged (a b : Value) : less.holds b a = greater.holds a b ∧ greaterEqual.holds b a = lessEqual.holds a b :=
    ⟨holds_mirrored .greater a b, holds_mirrored .lessEqual a b⟩
  cases c with
  | less => simp [applyBinary, operator, lessThan, kept]
  | greater => simp [applyBinary, operator, lessThan, kept, exchanged]
  | lessEqual => simp [applyBinary, operator, lessThan, kept, exchanged]
  | greaterEqual => simp [applyBinary, operator, lessThan, kept]

theorem toPrimitive_plain (engine : Engine) (plain : x.isObject = false) (hint : Hint) :
    toPrimitive engine x hint = pure x := by
  cases x <;> first | rfl | cases plain

theorem run_primitives (engine : Engine) (m : Machine) (c : Comparison) (plain : x.isObject = false)
    (plain' : y.isObject = false) : m.run (applyBinary engine c.operator x y) = (.ok (.boolean (c.holds x y)), m) := by
  rw [apply_eq, toPrimitive_plain engine plain, toPrimitive_plain engine plain']
  rfl

end Comparison

/-! ## Laws -/

/-- One of three holds and the others do not. -/
def ExactlyOne (p q r : Prop) : Prop :=
  (p ∧ ¬ q ∧ ¬ r) ∨ (¬ p ∧ q ∧ ¬ r) ∨ (¬ p ∧ ¬ q ∧ r)

open Comparison

theorem less_strings_iff (s t : String) : less.holds (.string s) (.string t) = true ↔
    List.Lex (· < ·) (Text.units s) (Text.units t) := by
  rw [← Text.unitsLt_iff_lex, Text.unitsLt_eq]
  rfl

/-- Where there is an order, one of three cases is given by it. -/
theorem one_of_ordering (ordered : x.ordering? y = some o) :
    lessEqual.holds x y = !less.holds y x ∧
      ExactlyOne (less.holds x y = true) (less.holds y x = true) (o = .eq) := by
  unfold holds ExactlyOne
  rw [Value.ordering_swap x y, ordered]
  cases o <;> simp [accepts]

theorem one_of_strings (s t : String) : ExactlyOne (less.holds (.string s) (.string t) = true)
    (less.holds (.string t) (.string s) = true) (s = t) := by
  have cases_ := (one_of_ordering (x := .string s) (y := .string t) rfl).2
  rwa [Std.LawfulEqOrd.compare_eq_iff_eq, Text.units_inj] at cases_

theorem less_strings_trans {s t u : String} (first : less.holds (.string s) (.string t) = true)
    (second : less.holds (.string t) (.string u) = true) : less.holds (.string s) (.string u) = true := by
  unfold holds accepts Value.ordering? at *
  simp only [Option.any_some, Ordering.isLT_iff_eq_lt] at *
  exact Std.TransCmp.lt_trans first second

/-- Of what is not two strings the numbers are compared. -/
theorem holds_numbers (other : x.bothStrings y = false) :
    ((x.primitiveToNumber.isNaN || y.primitiveToNumber.isNaN) = true → ∀ c : Comparison, c.holds x y = false) ∧
    ((x.primitiveToNumber.isNaN || y.primitiveToNumber.isNaN) = false →
      lessEqual.holds x y = !less.holds y x ∧
        ExactlyOne (less.holds x y = true) (less.holds y x = true)
          (x.primitiveToNumber.eq y.primitiveToNumber = true)) := by
  have unordered := Number.ordering_eq_none_iff x.primitiveToNumber y.primitiveToNumber
  rw [← Value.ordering_of_not_strings other] at unordered
  constructor
  · intro nan c
    rw [holds, unordered.2 nan]
    rfl
  · intro number
    obtain ⟨o, ordered⟩ := Option.ne_none_iff_exists'.1 (mt unordered.1 (Bool.eq_false_iff.1 number))
    have same := (Number.ordering_spec (Value.ordering_of_not_strings other ▸ ordered)).2
    rw [same]
    exact one_of_ordering ordered

/-- On every machine a relational operator converts its left operand, then its right one, each once, and compares what it
gets. On primitive values the operators that look the other way are those of the operands exchanged. Two strings are
strictly ordered by their code units. Other values are ordered by their numbers, unless one of these is not a number. -/
theorem relational_operators_ordered (engine : Engine) :
    (∀ (c : Comparison) (x y : Value), applyBinary engine c.operator x y = (do
      let a ← toPrimitive engine x .number
      let b ← toPrimitive engine y .number
      return .boolean (c.holds a b))) ∧
    (∀ x y : Value, x.isObject = false → y.isObject = false → ∀ (c : Comparison) (m : Machine),
      m.run (applyBinary engine c.operator x y) = (.ok (.boolean (c.holds x y)), m) ∧
      m.run (applyBinary engine c.mirrored.operator y x) = m.run (applyBinary engine c.operator x y)) ∧
    (∀ s t : String,
      (less.holds (.string s) (.string t) = true ↔ List.Lex (· < ·) (Text.units s) (Text.units t)) ∧
      ExactlyOne (less.holds (.string s) (.string t) = true) (less.holds (.string t) (.string s) = true) (s = t)) ∧
    (∀ s t u : String, less.holds (.string s) (.string s) = false ∧
      (less.holds (.string s) (.string t) = true → less.holds (.string t) (.string u) = true →
        less.holds (.string s) (.string u) = true)) ∧
    (∀ x y : Value, x.bothStrings y = false →
      ((x.primitiveToNumber.isNaN || y.primitiveToNumber.isNaN) = true → ∀ c : Comparison, c.holds x y = false) ∧
      ((x.primitiveToNumber.isNaN || y.primitiveToNumber.isNaN) = false →
        lessEqual.holds x y = !less.holds y x ∧
          ExactlyOne (less.holds x y = true) (less.holds y x = true)
            (x.primitiveToNumber.eq y.primitiveToNumber = true))) := by
  refine ⟨Comparison.apply_eq engine, ?_, ?_, ?_, fun x y => holds_numbers⟩
  · intro x y plain plain' c m
    have run := run_primitives engine m c plain plain'
    have exchanged := run_primitives engine m c.mirrored plain' plain
    rw [holds_mirrored] at exchanged
    exact ⟨run, exchanged.trans run.symm⟩
  · intro s t
    exact ⟨less_strings_iff s t, one_of_strings s t⟩
  · intro s t u
    have irreflexive : less.holds (.string s) (.string s) = false := by
      obtain ⟨-, none, -⟩ | ⟨none, -, -⟩ | ⟨none, -, -⟩ := one_of_strings s s
      all_goals exact Bool.eq_false_iff.2 none
    exact ⟨irreflexive, less_strings_trans⟩

end ScriptEngine
