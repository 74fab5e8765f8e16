import ScriptEngine.Number.Arithmetic

/-!
Numbers without their fraction, cut to a range of natural numbers or taken as fixed-width words. What lies below a range
becomes its first number and what lies above it its last; a word is what is left modulo a power of two. What is not a
number becomes zero.
-/

namespace ScriptEngine.Number

/-- The natural number nearest to a number without its fraction that is at most `limit`. -/
def clampTo (limit : Nat) : Number → Nat
  | .nan => 0
  | .infinite negative => if negative then 0 else limit
  | x@(.finite negative ..) => if negative then 0 else Nat.min x.wholePart limit

/-- A place in a list of some length, counted from the end if it is negative. -/
def relativeTo (length : Nat) (x : Number) : Nat :=
  if lt x zero then
    match x with
    | .infinite _ => 0
    | _ => length - x.wholePart
  else x.clampTo length

/-- The natural number that is left of a number between two bounds when its fraction is dropped. -/
def within? (low high : Nat) (x : Number) : Option Nat :=
  if le (ofNat low) x && le x (ofNat high) then some x.wholePart else none

/-! ## Words -/

/-- The integer that is left when the fraction is dropped. -/
def toInt (x : Number) : Int :=
  if x.isNegative then -(x.wholePart : Int) else x.wholePart

/-- The remainder of a division that is not negative: the divisor goes once more into what is. -/
def remEuclid (x y : Number) : Number :=
  let r := rem x y
  if lt r zero then add r y.abs else r

/-- How many words of thirty-two bits there are. -/
def wordCount : Number := ofNat 4294967296

/-- A number without its fraction, taken into the range of unsigned words. -/
def wrap (x : Number) : Number :=
  if !x.isFinite || x.isZero then zero else remEuclid x.trunc wordCount

/-- The unsigned word of thirty-two bits. -/
def toUint32 (x : Number) : UInt32 :=
  UInt32.ofNat (x.wrap.clampTo 4294967295)

/-- The signed word of thirty-two bits. The upper half of the range stands for the negative words. -/
def toInt32 (x : Number) : Int32 :=
  let wrapped := x.wrap
  if le (ofNat 2147483648) wrapped then Int32.ofIntClamp (sub wrapped wordCount).toInt
  else Int32.ofIntClamp wrapped.toInt

/-- The unsigned word of sixteen bits. -/
def toUint16 (x : Number) : UInt16 :=
  (x.toUint32 &&& 0xFFFF).toUInt16

def ofInt32 (n : Int32) : Number := ofInt n.toInt

def ofUint32 (n : UInt32) : Number := ofNat n.toNat

end ScriptEngine.Number
