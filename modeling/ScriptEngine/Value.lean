import ScriptEngine.Number.Literal
import ScriptEngine.Number.Text
import ScriptEngine.Text.Quoted
import ScriptEngine.Text.Units

/-!
The values of the scripting language, and what can be said of a value without a look at any object.
-/

namespace ScriptEngine

/-- The address of an object. -/
@[ext]
structure ObjectId where
  index : Nat
  deriving DecidableEq, Inhabited

/-- A value: one of the primitive ones, or an object by its address. -/
inductive Value where
  | undefined
  | null
  | boolean (b : Bool)
  | number (n : Number)
  | string (s : String)
  | object (id : ObjectId)
  deriving DecidableEq, Inhabited

/-- What an object is to be converted to when either of two kinds of value would do. -/
inductive Hint where
  | any
  | number
  | string
  deriving DecidableEq

namespace Value

/-- Neither of the two values that stand for nothing. -/
def isNullish : Value → Bool
  | undefined | null => true
  | _ => false

def isUndefined : Value → Bool
  | undefined => true
  | _ => false

def isObject : Value → Bool
  | object _ => true
  | _ => false

def isString : Value → Bool
  | string _ => true
  | _ => false

/-- The object that a value is. -/
def asObject? : Value → Option ObjectId
  | object id => some id
  | _ => none

/-- A natural number as a value. -/
def ofNat (n : Nat) : Value := number (.ofNat n)

/-- What counts as true where a choice is made: all but the empty and the zero values. -/
def toBoolean : Value → Bool
  | undefined | null => false
  | boolean b => b
  | number n => !(n.isZero || n.isNaN)
  | string s => !s.isEmpty
  | object _ => true

/-- Equality without conversion. What is not a number equals nothing, and the two zeros are equal. -/
def strictEquals : Value → Value → Bool
  | undefined, undefined | null, null => true
  | boolean x, boolean y => x == y
  | number x, number y => x.eq y
  | string x, string y => x == y
  | object x, object y => x == y
  | _, _ => false

/-- Equality that tells the two zeros apart and takes what is not a number as equal to itself. -/
def sameValue : Value → Value → Bool
  | number x, number y => x == y
  | x, y => strictEquals x y

/-- The number that a boolean stands for. -/
def numberOfBool (b : Bool) : Number :=
  if b then .one else .zero

/-- One string comes before another by their code units. -/
def stringLess (x y : String) : Bool :=
  Text.unitsLt (Text.units x) (Text.units y)

/-- A value as text, in which an object is shown by the name of its kind. -/
def textWith (className : ObjectId → String) : Value → String
  | undefined => "undefined"
  | null => "null"
  | boolean b => if b then "true" else "false"
  | number n => toString n
  | string s => s
  | object id => s!"[object {className id}]"

/-- The conversion of a primitive value to a string; an object has none of its own. -/
def primitiveToText (v : Value) : String :=
  v.textWith fun _ => "Object"

/-- The conversion of a primitive value to a number; an object has none of its own. -/
def primitiveToNumber : Value → Number
  | undefined => .nan
  | null => .zero
  | boolean b => numberOfBool b
  | number n => n
  | string s => .ofText s
  | object _ => .nan

end Value
end ScriptEngine
