/-!
The numbers of the scripting language: binary floating point with 53 significant bits. Each finite
number is a whole multiple of the smallest positive one, `2^-1074`, which is called the *unit* here,
so the exact value of a number is a natural number of units and a sign, and every operation is stated
as: compute exactly, then round.
-/

namespace ScriptEngine

/-- Mantissas are below this bound. -/
def mantissaLimit : Nat := 1 <<< 53

/-- Mantissas of numbers that are not too small reach this bound. -/
def mantissaNormal : Nat := 1 <<< 52

/-- The largest power of two that scales a mantissa, counted in units. -/
def maxExponent : Nat := 2045

/-- One as a number of units is two to this power. -/
def unitsPerOne : Nat := 1074

/-- A mantissa and an exponent in the one form that stands for their product: as many significant
bits as the exponent leaves room for. -/
def Canonical (mantissa exponent : Nat) : Prop :=
  mantissa < mantissaLimit ∧ exponent ≤ maxExponent ∧ (mantissaNormal ≤ mantissa ∨ exponent = 0)

instance (mantissa exponent : Nat) : Decidable (Canonical mantissa exponent) := by
  unfold Canonical; infer_instance

/-- A number: not a number at all, one of the infinities, or `mantissa * 2 ^ exponent` units with a
sign, which zero has too. -/
inductive Number where
  | nan
  | infinite (negative : Bool)
  | finite (negative : Bool) (mantissa exponent : Nat) (canonical : Canonical mantissa exponent)
  deriving DecidableEq

namespace Number

/-- Zero with a sign. -/
def signedZero (negative : Bool) : Number :=
  .finite negative 0 0 (by decide)

instance : Inhabited Number := ⟨signedZero false⟩

/-- The number with the given mantissa and exponent, infinite when it is too large. -/
def pack (negative : Bool) (mantissa exponent : Nat) : Number :=
  if canonical : Canonical mantissa exponent then .finite negative mantissa exponent canonical
  else .infinite negative

/-- The quotient rounded to the nearest whole number, a half to the even one. -/
def roundDiv (num den : Nat) : Nat :=
  let q := num / den
  let twice := 2 * (num % den)
  if den < twice || (twice == den && q % 2 == 1) then q + 1 else q

/-- Packs a mantissa that rounding may have carried up to the limit. -/
def packRounded (negative : Bool) (mantissa exponent : Nat) : Number :=
  if mantissa == mantissaLimit then pack negative mantissaNormal (exponent + 1)
  else pack negative mantissa exponent

/-- The number nearest to `num / den` units, of two equally near ones the one with the even
mantissa. -/
def nearest (negative : Bool) (num den : Nat) : Number :=
  let excess := (num / den).log2 - 52
  packRounded negative (roundDiv num (den <<< excess)) excess

/-- The number nearest to `mantissa * 2 ^ exponent` units. -/
def scaled (negative : Bool) (mantissa exponent : Nat) : Number :=
  if mantissa < mantissaLimit then
    let room := min exponent (52 - mantissa.log2)
    pack negative (mantissa <<< room) (exponent - room)
  else
    let excess := mantissa.log2 - 52
    packRounded negative (roundDiv mantissa (1 <<< excess)) (exponent + excess)

/-- A natural number as a number. -/
def ofNat (n : Nat) : Number :=
  if n == 0 then signedZero false else scaled false n unitsPerOne

/-- An integer as a number. -/
def ofInt (n : Int) : Number :=
  if n == 0 then signedZero false else scaled (n < 0) n.natAbs unitsPerOne

def zero : Number := signedZero false

def one : Number := ofNat 1

/-- The number whose sixty-four bits are sign, exponent and mantissa fields in this order. -/
def ofBits (bits : UInt64) : Number :=
  let negative := bits >>> 63 == 1
  let field := ((bits >>> 52) &&& 0x7FF).toNat
  let low := (bits &&& 0xFFFFFFFFFFFFF).toNat
  if field == 0x7FF then if low == 0 then .infinite negative else .nan
  else if field == 0 then pack negative low 0
  else pack negative (mantissaNormal + low) (field - 1)

/-- Not a number. -/
def isNaN : Number → Bool
  | .nan => true
  | _ => false

/-- Neither infinite nor not a number. -/
def isFinite : Number → Bool
  | .finite .. => true
  | _ => false

/-- Zero of either sign. -/
def isZero : Number → Bool
  | .finite _ m _ _ => m == 0
  | _ => false

/-- The sign, which is not that of an order: zero may be negative, and what is not a number is
taken as positive. -/
def isNegative : Number → Bool
  | .nan => false
  | .infinite negative => negative
  | .finite negative _ _ _ => negative

/-- The magnitude of a finite number in units; of any other it is zero. -/
def magnitudeUnits : Number → Nat
  | .finite _ m e _ => m <<< e
  | _ => 0

/-- A finite number in units, with its sign. -/
def toUnits (x : Number) : Int :=
  if x.isNegative then -(x.magnitudeUnits : Int) else x.magnitudeUnits

end Number
end ScriptEngine
