import ScriptEngine.Evaluation.Engine
import ScriptEngine.Number.Words

/-!
Conversions and comparisons that may call functions of objects.
-/

namespace ScriptEngine

/-- The methods that are tried on an object to convert it, in order. -/
def conversionMethods : Hint → List String
  | .string => ["toString", "valueOf"]
  | .number | .any => ["valueOf", "toString"]

/-- The first primitive value that one of the methods of an object gives. -/
def firstPrimitive (engine : Engine) (id : ObjectId) : List String → Eval Value
  | [] => throwFault .noPrimitiveValue
  | name :: rest => do
    let method ← getProperty engine id name
    if ← askHeap (·.isCallable method) then
      let result ← engine.call method (.object id) []
      if result.isObject then firstPrimitive engine id rest else return result
    else firstPrimitive engine id rest

/-- A value as a primitive one. -/
def toPrimitive (engine : Engine) (value : Value) (hint : Hint) : Eval Value :=
  match value with
  | .object id => firstPrimitive engine id (conversionMethods hint)
  | _ => return value

/-- A value as a number. -/
def toNumber (engine : Engine) (value : Value) : Eval Number := do
  return (← toPrimitive engine value .number).primitiveToNumber

/-- A value as a string. -/
def toText (engine : Engine) (value : Value) : Eval String := do
  return (← toPrimitive engine value .string).primitiveToText

/-- A value as a number without a fraction. -/
def toInteger (engine : Engine) (value : Value) : Eval Number := do
  return (← toNumber engine value).toInteger

def toInt32 (engine : Engine) (value : Value) : Eval Int32 := do
  return (← toNumber engine value).toInt32

def toUint32 (engine : Engine) (value : Value) : Eval UInt32 := do
  return (← toNumber engine value).toUint32

def toUint16 (engine : Engine) (value : Value) : Eval UInt16 := do
  return (← toNumber engine value).toUint16

/-- Refuses the values that stand for nothing. -/
def checkCoercible (value : Value) : Eval Unit := do
  if value.isNullish then throwFault (.noObject (← displayValue value))

/-- A value as an object; a primitive one is wrapped. -/
def toObject (value : Value) : Eval ObjectId := do
  match value with
  | .object id => return id
  | .boolean b => createWrapper (.boolean b)
  | .number n => createWrapper (.number n)
  | .string s => createWrapper (.string s)
  | .undefined | .null => throwFault (.noObject (← displayValue value))

/-! ## Comparison -/

/-- A boolean as the number that stands for it; any other value as it is. -/
def Value.unboolean : Value → Value
  | .boolean b => .number (Value.numberOfBool b)
  | v => v

/-- Equality of primitive values after conversion. -/
def Value.looselyEquals (x y : Value) : Bool :=
  match x.unboolean, y.unboolean with
  | .undefined, .undefined | .undefined, .null | .null, .undefined | .null, .null => true
  | .number a, .number b => a.eq b
  | .string a, .string b => a == b
  | .number a, .string b => a.eq (.ofText b)
  | .string a, .number b => (Number.ofText a).eq b
  | _, _ => false

/-- Equality after conversion. Two objects are equal if they are the same; an object equals a primitive
value if its own primitive value does. -/
def looseEquals (engine : Engine) (x y : Value) : Eval Bool := do
  match x, y with
  | .object a, .object b => return a == b
  | .object _, _ =>
    if y.isNullish then return false
    else return (← toPrimitive engine x .any).looselyEquals y
  | _, .object _ =>
    if x.isNullish then return false
    else return x.looselyEquals (← toPrimitive engine y .any)
  | _, _ => return x.looselyEquals y

/-- The order of two primitive values: strings by their code units, others as numbers. There is no
answer when one of those is not a number. -/
def Value.less? (x y : Value) : Option Bool :=
  match x, y with
  | .string a, .string b => some (Value.stringLess a b)
  | _, _ =>
    let a := x.primitiveToNumber
    let b := y.primitiveToNumber
    if a.isNaN || b.isNaN then none else some (a.lt b)

/-- The order of two values. The flag says which of them is converted first. -/
def lessThan (engine : Engine) (x y : Value) (leftFirst : Bool) : Eval (Option Bool) := do
  if leftFirst then
    let a ← toPrimitive engine x .number
    let b ← toPrimitive engine y .number
    return a.less? b
  else
    let b ← toPrimitive engine y .number
    let a ← toPrimitive engine x .number
    return a.less? b

end ScriptEngine
