import ScriptEngine.Library.Argument

/-!
Functions about numbers and booleans: conversion to them, the objects that wrap them, and their text.
-/

namespace ScriptEngine.Library

/-- The primitive value that a value is or wraps. -/
def primitiveOf (value : Value) : Eval Value := do
  match value with
  | .object id => return ((← getObject id).primitive?).getD value
  | _ => return value

/-! ## Booleans -/

/-- An object that wraps an argument as a boolean. -/
def wrapBoolean (arguments : List Value) : Eval Value :=
  return .object (← createWrapper (.boolean (argument arguments 0).toBoolean))

/-- The boolean that a method is called on. -/
def thisBoolean (method : String) (this : Value) : Eval Bool := do
  match ← primitiveOf this with
  | .boolean b => return b
  | _ => throwFault (.wrongReceiver method "Boolean")

/-- A boolean as text. -/
def booleanText (this : Value) : Eval Value := do
  let b ← thisBoolean "Boolean.prototype.toString" this
  return .string (Value.boolean b).primitiveToText

/-- The boolean that an object wraps. -/
def booleanValue (this : Value) : Eval Value :=
  return .boolean (← thisBoolean "Boolean.prototype.valueOf" this)

/-! ## Numbers -/

/-- An argument as a number, or zero without one. -/
def numberOf (engine : Engine) (arguments : List Value) : Eval Number :=
  match arguments with
  | [] => return .zero
  | v :: _ => toNumber engine v

/-- An object that wraps an argument as a number. -/
def wrapNumber (engine : Engine) (arguments : List Value) : Eval Value := do
  let n ← numberOf engine arguments
  return .object (← createWrapper (.number n))

/-- The number that a method is called on. -/
def thisNumber (method : String) (this : Value) : Eval Number := do
  match ← primitiveOf this with
  | .number n => return n
  | _ => throwFault (.wrongReceiver method "Number")

/-- The base that is asked for, ten without an argument. -/
def radixOf (engine : Engine) (arguments : List Value) : Eval Nat := do
  let requested ← match argument arguments 0 with
    | .undefined => pure (.ofNat 10)
    | value => toInteger engine value
  match requested.within? 2 36 with
  | some radix => return radix
  | none => throwFault .radix

/-- A number as text in a base. -/
def numberText (engine : Engine) (this : Value) (arguments : List Value) : Eval Value := do
  let n ← thisNumber "Number.prototype.toString" this
  let radix ← radixOf engine arguments
  if radix == 10 then return .string (toString n)
  else return .string (String.ofList (n.toRadix radix))

/-- A number as text. -/
def numberLocaleText (this : Value) : Eval Value := do
  return .string (toString (← thisNumber "Number.prototype.toLocaleString" this))

/-- The number that an object wraps. -/
def numberValue (this : Value) : Eval Value := do
  return .number (← thisNumber "Number.prototype.valueOf" this)

/-- The least number for which a fixed number of places is not written. -/
def fixedLimit : Number := .ofNat (Nat.pow 10 21)

/-- A number with a fixed number of places. -/
def numberFixed (engine : Engine) (this : Value) (arguments : List Value) : Eval Value := do
  let n ← thisNumber "Number.prototype.toFixed" this
  match (← toInteger engine (argument arguments 0)).within? 0 100 with
  | none => throwFault .fixedPlaces
  | some places =>
    if fixedLimit.le n.abs then return .string (toString n)
    else return .string (String.ofList (n.toFixed places))

/-! ## Numbers from text -/

/-- What a text is read as after its sign: digits in a base. Without a base it is ten, and where the
base is open or sixteen the mark of hexadecimal digits is accepted in front of them. -/
def basedDigits (radix : Int) (unsigned : List Char) : Option (Nat × List Char) :=
  if radix != 0 && !(2 ≤ radix && radix ≤ 36) then none
  else
    let base := if radix == 0 then 10 else radix.toNat
    match unsigned with
    | '0' :: mark :: rest =>
      if (radix == 0 || radix == 16) && (mark == 'x' || mark == 'X') then some (16, rest)
      else some (base, unsigned)
    | _ => some (base, unsigned)

/-- The integer at the front of a text, in a base. -/
def readInteger (radix : Int) (text : List Char) : Number :=
  let (negative, unsigned) := Number.splitSign (text.dropWhile Text.isBlank)
  match basedDigits radix unsigned with
  | none => .nan
  | some (base, digits) =>
    match Number.ofDigits? base (digits.takeWhile fun c => (digitValue? base c).isSome) with
    | some magnitude => if negative then magnitude.neg else magnitude
    | none => .nan

/-- The integer at the front of an argument. -/
def parseInteger (engine : Engine) (arguments : List Value) : Eval Value := do
  let text ← toText engine (argument arguments 0)
  let radix ← toInt32 engine (argument arguments 1)
  return .number (readInteger radix.toInt text.toList)

/-- The number at the front of an argument. -/
def parseNumber (engine : Engine) (arguments : List Value) : Eval Value := do
  let text ← toText engine (argument arguments 0)
  return .number (.ofPrefix (text.toList.dropWhile Text.isBlank))

/-- The argument does not stand for a number. -/
def isNotNumber (engine : Engine) (arguments : List Value) : Eval Value :=
  return .boolean (← toNumber engine (argument arguments 0)).isNaN

/-- The argument stands for a finite number. -/
def isFiniteNumber (engine : Engine) (arguments : List Value) : Eval Value :=
  return .boolean (← toNumber engine (argument arguments 0)).isFinite

end ScriptEngine.Library
