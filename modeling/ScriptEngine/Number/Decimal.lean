import ScriptEngine.Number.Arithmetic

/-!
Decimal fractions: the number nearest to each of them, and for a given number the decimal fraction with the fewest
digits that reads back as it, of those with as few digits the one nearest to it.
-/

namespace ScriptEngine

/-! ## From decimals to numbers -/

/-- The exact value `significand * 10 ^ exponent`. -/
structure Decimal where
  significand : Nat
  exponent : Int
  deriving DecidableEq

namespace Decimal

/-- The number nearest to a decimal fraction. The two guards answer for exponents far outside the
range of numbers, so that no power is computed that the result cannot depend on. -/
def toNumber (negative : Bool) (d : Decimal) : Number :=
  if d.significand == 0 then .signedZero negative
  else if 400 < d.exponent then .infinite negative
  else if d.exponent + d.significand.log2 + 401 < 0 then .signedZero negative
  else match d.exponent with
    | .ofNat up => .nearest negative ((d.significand * Nat.pow 10 up) <<< unitsPerOne) 1
    | .negSucc down => .nearest negative (d.significand <<< unitsPerOne) (Nat.pow 10 (down + 1))

/-- How many digits a natural number has in base ten. -/
def digitCount (n : Nat) : Nat :=
  if n < 10 then 1 else digitCount (n / 10) + 1

/-- A positive decimal with as few digits as its value allows: no zero ends the significand. -/
def normalize (d : Decimal) : Decimal :=
  if d.significand = 0 then ⟨0, 0⟩
  else if d.significand % 10 = 0 then normalize ⟨d.significand / 10, d.exponent + 1⟩
  else d
termination_by d.significand
decreasing_by all_goals omega

end Decimal

/-! ## From numbers to decimals -/

namespace Number

/-- A magnitude as a quotient of natural numbers. -/
def toRatio (mantissa exponent : Nat) : Nat × Nat :=
  if unitsPerOne ≤ exponent then (mantissa <<< (exponent - unitsPerOne), 1)
  else (mantissa, 1 <<< (unitsPerOne - exponent))

/-- How often a positive quotient below one can be multiplied by ten and stays below one; at most
`fuel` times. -/
def leadingZeros (fuel num den : Nat) : Nat :=
  match fuel with
  | 0 => 0
  | fuel + 1 => if num * 10 < den then leadingZeros fuel (num * 10) den + 1 else 0

/-- The place of the first digit: the quotient is below ten to this power and not below the power
before it. -/
def pointPlace (num den : Nat) : Int :=
  if den ≤ num then Decimal.digitCount (num / den) else -(leadingZeros 400 num den : Int)

/-- The quotient in units of `10 ^ place`, rounded down, and twice what remains beside the unit. -/
def onGrid (num den : Nat) (place : Int) : Nat × Nat × Nat :=
  let (num, den) := match place with
    | .ofNat up => (num, den * Nat.pow 10 up)
    | .negSucc down => (num * Nat.pow 10 (down + 1), den)
  (num / den, 2 * (num % den), den)

/-- The nearest point of a decimal grid that reads back as `x`, if its lower or upper neighbour on
the grid does. Of two equally near points the upper one is taken. -/
def shortestOnGrid (x : Number) (num den : Nat) (place : Int) : Option Decimal :=
  let (below, twice, unit) := onGrid num den place
  let lower : Decimal := ⟨below, place⟩
  let upper : Decimal := ⟨below + 1, place⟩
  if lower.toNumber false = x then
    if unit ≤ twice && upper.toNumber false = x then some upper else some lower
  else if upper.toNumber false = x then some upper
  else none

/-- The exact decimal expansion of a magnitude. -/
def exactDecimal (mantissa exponent : Nat) : Decimal :=
  if unitsPerOne ≤ exponent then ⟨mantissa <<< (exponent - unitsPerOne), 0⟩
  else
    let down := unitsPerOne - exponent
    ⟨mantissa * Nat.pow 5 down, -(down : Int)⟩

/-- The grids on which a numeral of one to seventeen digits may lie, coarsest first. -/
def grids (point : Int) : List Int :=
  (List.range 17).map fun (finer : Nat) => point - 1 - finer

/-- The shortest decimal that reads back as a positive finite number; zero for any other. A whole
number that is exact to the last digit is its own. -/
def shortest (x : Number) : Decimal :=
  match x with
  | .finite _ m e _ =>
    let magnitude := x.abs
    if magnitude.isWhole && magnitude.wholePart < mantissaLimit then
      Decimal.normalize ⟨magnitude.wholePart, 0⟩
    else
      let (num, den) := toRatio m e
      let found := (grids (pointPlace num den)).findSome? (shortestOnGrid magnitude num den)
      (found.getD (exactDecimal m e)).normalize
  | _ => ⟨0, 0⟩

end Number
end ScriptEngine
