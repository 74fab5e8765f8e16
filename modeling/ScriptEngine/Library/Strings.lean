import ScriptEngine.Library.Numerals
import ScriptEngine.Text.Case
import ScriptEngine.Text.Search

/-!
Functions about strings. Places in a string count its code units.
-/

namespace ScriptEngine.Library

/-- An argument as a string, or the empty one without it. -/
def textOf (engine : Engine) (arguments : List Value) : Eval String :=
  match arguments with
  | [] => return ""
  | v :: _ => toText engine v

/-- An object that wraps an argument as a string. -/
def wrapText (engine : Engine) (arguments : List Value) : Eval Value := do
  let text ← textOf engine arguments
  return .object (← createWrapper (.string text))

/-- The string that a value is or wraps. -/
def stringValue (this : Value) : Eval Value := do
  match ← primitiveOf this with
  | .string text => return .string text
  | _ => throwFault (.wrongReceiver "String.prototype.valueOf" "String")

/-- The string of the code units that the arguments stand for. -/
def fromCodeUnits (engine : Engine) (arguments : List Value) : Eval Value := do
  let units ← arguments.mapM (toUint16 engine)
  return .string (Text.ofUnits units)

/-- The value that a method is called on as a string. -/
def thisText (engine : Engine) (this : Value) : Eval String := do
  checkCoercible this
  toText engine this

/-! ## Parts -/

/-- The code unit at a place, if the place is in the string. -/
def unitAt? (units : List UInt16) (place : Number) : Option UInt16 :=
  if place.lt .zero || (Number.ofNat units.length).le place then none else units[place.wholePart]?

/-- The string of one code unit. -/
def charAt (engine : Engine) (this : Value) (arguments : List Value) : Eval Value := do
  let text ← thisText engine this
  let place ← toInteger engine (argument arguments 0)
  return .string (Text.ofUnits (unitAt? (Text.units text) place).toList)

/-- A code unit as a number. -/
def charCodeAt (engine : Engine) (this : Value) (arguments : List Value) : Eval Value := do
  let text ← thisText engine this
  let place ← toInteger engine (argument arguments 0)
  match unitAt? (Text.units text) place with
  | some unit => return .ofNat unit.toNat
  | none => return .number .nan

/-- The units from one place up to another. -/
def between (units : List UInt16) (first last : Nat) : String :=
  Text.ofUnits ((units.take last).drop first)

/-- The places that two arguments name; the second is the end of the string if it is not given. -/
def bounds (engine : Engine) (length : Nat) (arguments : List Value) : Eval (Number × Number) := do
  let first ← toInteger engine (argument arguments 0)
  let last ← match argument arguments 1 with
    | .undefined => pure (.ofNat length)
    | value => toInteger engine value
  return (first, last)

/-- The part between two places, each counted from the end if it is negative. -/
def sliceText (engine : Engine) (this : Value) (arguments : List Value) : Eval Value := do
  let units := Text.units (← thisText engine this)
  let (first, last) ← bounds engine units.length arguments
  return .string (between units (first.relativeTo units.length) (last.relativeTo units.length))

/-- The part between two places, given in either order. -/
def substring (engine : Engine) (this : Value) (arguments : List Value) : Eval Value := do
  let units := Text.units (← thisText engine this)
  let (first, last) ← bounds engine units.length arguments
  let a := first.clampTo units.length
  let b := last.clampTo units.length
  return .string (between units (min a b) (max a b))

/-- The string with other strings behind it. -/
def concat (engine : Engine) (this : Value) (arguments : List Value) : Eval Value := do
  let text ← thisText engine this
  let others ← arguments.mapM (toText engine)
  return .string (others.foldl (· ++ ·) text)

/-- The parts between the occurrences of a separator. -/
def partsOf (text separator : String) : List String :=
  (Text.splitUnits (Text.units separator) (Text.units text)).map Text.ofUnits

/-- The parts of the string, up to a number of them. Without a separator the whole string is one. -/
def split (engine : Engine) (this : Value) (arguments : List Value) : Eval Value := do
  let text ← thisText engine this
  let limit ← match argument arguments 1 with
    | .undefined => pure Object.maxWord
    | value => pure (← toUint32 engine value).toNat
  let separator ← match argument arguments 0 with
    | .undefined => pure none
    | value => some <$> toText engine value
  let parts := match separator with
    | none => [text]
    | some separator => partsOf text separator
  textArray (parts.take limit)

/-! ## Search -/

/-- A place that was found, or minus one. -/
def placeOrMissing (found : Option Nat) : Value :=
  match found with
  | some place => .ofNat place
  | none => .number (.ofInt (-1))

/-- The first place of a string in this one. -/
def indexOf (engine : Engine) (this : Value) (arguments : List Value) : Eval Value := do
  let text ← thisText engine this
  let search ← toText engine (argument arguments 0)
  let place ← toInteger engine (argument arguments 1)
  let units := Text.units text
  return placeOrMissing (Text.findFrom? (Text.units search) units (place.clampTo units.length))

/-- The last place of a string in this one; what is not a number does not bound it. -/
def lastIndexOf (engine : Engine) (this : Value) (arguments : List Value) : Eval Value := do
  let text ← thisText engine this
  let search ← toText engine (argument arguments 0)
  let bound ← toNumber engine (argument arguments 1)
  let units := Text.units text
  let place := if bound.isNaN then units.length else bound.clampTo units.length
  return placeOrMissing (Text.findLast? (Text.units search) units place)

/-- The order of two strings by their characters. -/
def compareTexts (x y : String) : Int :=
  if x < y then -1 else if x = y then 0 else 1

/-- The order of the string and another one. -/
def localeCompare (engine : Engine) (this : Value) (arguments : List Value) : Eval Value := do
  let text ← thisText engine this
  let other ← toText engine (argument arguments 0)
  return .number (.ofInt (compareTexts text other))

/-! ## Replacement -/

/-- What replaces an occurrence: what a function gives, or a template. -/
inductive Replacement where
  | byFunction (f : Value)
  | byTemplate (template : String)

/-- The units that replace what was found. -/
def replacementUnits (engine : Engine) (text search : String) (m : Text.Match) :
    Replacement → Eval (List UInt16)
  | .byTemplate template => return m.expand (Text.units template)
  | .byFunction f => do
    let result ← engine.call f .undefined
      [.string search, .ofNat m.before.length, .string text]
    return Text.units (← toText engine result)

/-- The string with the first occurrence of another one replaced. -/
def replace (engine : Engine) (this : Value) (arguments : List Value) : Eval Value := do
  let text ← thisText engine this
  let search ← toText engine (argument arguments 0)
  let given := argument arguments 1
  let replacement ←
    if ← askHeap (·.isCallable given) then pure (.byFunction given)
    else .byTemplate <$> toText engine given
  let units := Text.units text
  let found := Text.units search
  match Text.findFrom? found units 0 with
  | none => return .string text
  | some place =>
    let m : Text.Match := ⟨units.take place, found, units.drop (place + found.length)⟩
    let inserted ← replacementUnits engine text search m replacement
    return .string (Text.ofUnits (m.before ++ inserted ++ m.after))

/-! ## Forms -/

/-- The string with a change made to it. -/
def changeText (engine : Engine) (this : Value) (f : String → String) : Eval Value := do
  return .string (f (← thisText engine this))

/-- A text without the blanks at its two ends. -/
def trimText (text : String) : String :=
  String.ofList (Text.trimBlanks text.toList)

end ScriptEngine.Library
