import ScriptEngine.Library.Argument

/-!
Functions about arrays. All but the constructor take any object that has a length and properties at
indices.
-/

namespace ScriptEngine.Library

/-- The length that an object says it has. -/
def lengthOf (engine : Engine) (id : ObjectId) : Eval Nat := do
  return (← toUint32 engine (← getProperty engine id Object.lengthKey)).toNat

/-- Sets the length of an object. -/
def setLength (engine : Engine) (id : ObjectId) (length : Nat) : Eval Unit :=
  putProperty engine id Object.lengthKey (.ofNat length) true

/-- Sets an element of a new array. -/
def defineElement (engine : Engine) (id : ObjectId) (index : Nat) (value : Value) : Eval Unit :=
  discard (defineProperty engine id (indexKey index) (.data value .all) true)

/-- An array of a length that a number gives, or else of the arguments. -/
def arrayOf (engine : Engine) (arguments : List Value) : Eval Value := do
  match arguments with
  | [.number requested] =>
    let length := requested.toUint32
    unless (Number.ofUint32 length).eq requested do throwFault .arrayLength
    let id ← createArray []
    setLength engine id length.toNat
    return .object id
  | _ => arrayValue arguments

/-- The argument is an array. -/
def isArray (arguments : List Value) : Eval Value := do
  match argument arguments 0 with
  | .object id => return .boolean (← getObject id).isArray
  | _ => return .boolean false

/-! ## The end of an array -/

/-- Writes values at indices from `index` on, and gives the index behind them. -/
def putElements (engine : Engine) (id : ObjectId) (index : Nat) : List Value → Eval Nat
  | [] => return index
  | v :: rest => do
    putProperty engine id (indexKey index) v true
    putElements engine id (index + 1) rest

/-- Adds elements at the end, and gives the new length. -/
def push (engine : Engine) (this : Value) (arguments : List Value) : Eval Value := do
  let id ← toObject this
  let length ← putElements engine id (← lengthOf engine id) arguments
  setLength engine id length
  return .ofNat length

/-- Takes the last element away, and gives it. -/
def pop (engine : Engine) (this : Value) : Eval Value := do
  let id ← toObject this
  match ← lengthOf engine id with
  | 0 =>
    setLength engine id 0
    return .undefined
  | last + 1 =>
    let value ← getProperty engine id (indexKey last)
    discard (deleteProperty id (indexKey last) true)
    setLength engine id last
    return value

/-! ## Text -/

/-- The text of an element; the values that stand for nothing have none. -/
def elementText (engine : Engine) (value : Value) : Eval String :=
  if value.isNullish then return "" else toText engine value

/-- Puts the texts of `count` elements from `index` on behind a text, each but the first of all after
a separator. -/
def joinElements (engine : Engine) (id : ObjectId) (separator : String) (index : Nat)
    (text : String) : (count : Nat) → Eval String
  | 0 => return text
  | count + 1 => do
    let text := if index == 0 then text else text ++ separator
    let value ← getProperty engine id (indexKey index)
    joinElements engine id separator (index + 1) (text ++ (← elementText engine value)) count

/-- The texts of all elements with a separator between them. -/
def join (engine : Engine) (this : Value) (arguments : List Value) : Eval Value := do
  let id ← toObject this
  let length ← lengthOf engine id
  let separator ← match argument arguments 0 with
    | .undefined => pure ","
    | value => toText engine value
  return .string (← joinElements engine id separator 0 "" length)

/-- What the method `join` gives, if there is one. -/
def arrayText (engine : Engine) (this : Value) : Eval Value := do
  let id ← toObject this
  let method ← getProperty engine id "join"
  if ← askHeap (·.isCallable method) then engine.call method (.object id) []
  else return .string s!"[object {(← getObject id).className}]"

/-! ## Parts and search -/

/-- A place that an argument names, counted from the end if it is negative. -/
def relativePlace (engine : Engine) (length : Nat) (value : Value) (absent : Nat) : Eval Nat := do
  match value with
  | .undefined => return absent
  | _ => return (← toInteger engine value).relativeTo length

/-- Copies `count` elements from index `source` on to another array, from index `target` on. An
element that is missing stays so. -/
def copyElements (engine : Engine) (id copy : ObjectId) (source target : Nat) :
    (count : Nat) → Eval Unit
  | 0 => return
  | count + 1 => do
    if ← askHeap (·.has id (indexKey source)) then
      let value ← getProperty engine id (indexKey source)
      defineElement engine copy target value
    copyElements engine id copy (source + 1) (target + 1) count

/-- A new array of the elements between two places. -/
def slice (engine : Engine) (this : Value) (arguments : List Value) : Eval Value := do
  let id ← toObject this
  let length ← lengthOf engine id
  let first ← relativePlace engine length (argument arguments 0) 0
  let last ← relativePlace engine length (argument arguments 1) length
  let copy ← createArray []
  copyElements engine id copy first 0 (last - first)
  setLength engine copy (last - first)
  return .object copy

/-- The first index among `count` from `index` on at which a value stands. -/
def searchElements (engine : Engine) (id : ObjectId) (search : Value) (index : Nat) :
    (count : Nat) → Eval (Option Nat)
  | 0 => return none
  | count + 1 => do
    if ← askHeap (·.has id (indexKey index)) then
      let value ← getProperty engine id (indexKey index)
      if value.strictEquals search then return some index
    searchElements engine id search (index + 1) count

/-- An index that was found when counting from a start; at the start it is that very number, which may
be the negative zero. -/
def foundIndex (start : Number) (index : Nat) : Number :=
  if index == 0 && start.isZero then start else .ofNat index

/-- The first index of a value, from a place on. -/
def indexOfElement (engine : Engine) (this : Value) (arguments : List Value) : Eval Value := do
  let id ← toObject this
  let length ← lengthOf engine id
  if length == 0 then return .number (.ofInt (-1))
  let start ← match argument arguments 1 with
    | .undefined => pure .zero
    | value => toInteger engine value
  let first := start.relativeTo length
  match ← searchElements engine id (argument arguments 0) first (length - first) with
  | some index => return .number (foundIndex start index)
  | none => return .number (.ofInt (-1))

/-! ## Callbacks -/

/-- What a callback is called on, and what it is called for. -/
structure Visit where
  callback : Value
  this : Value
  object : ObjectId

/-- Calls the callback for an element. -/
def Visit.call (engine : Engine) (v : Visit) (index : Nat) (value : Value) : Eval Value :=
  engine.call v.callback v.this [value, .ofNat index, .object v.object]

/-- Calls the callback for `count` elements from `index` on, those that are missing aside, and passes on
what it gives. -/
def visitElements (engine : Engine) (v : Visit) (use : Nat → Value → Eval Unit) (index : Nat) :
    (count : Nat) → Eval Unit
  | 0 => return
  | count + 1 => do
    if ← askHeap (·.has v.object (indexKey index)) then
      let value ← getProperty engine v.object (indexKey index)
      use index (← v.call engine index value)
    visitElements engine v use (index + 1) count

/-- The length of the object and the visit that the arguments ask for. -/
def beginVisit (engine : Engine) (this : Value) (arguments : List Value) : Eval (Nat × Visit) := do
  let id ← toObject this
  let length ← lengthOf engine id
  let callback := argument arguments 0
  requireCallback callback
  return (length, ⟨callback, argument arguments 1, id⟩)

/-- Calls a function for every element. -/
def forEach (engine : Engine) (this : Value) (arguments : List Value) : Eval Value := do
  let (length, visit) ← beginVisit engine this arguments
  visitElements engine visit (fun _ _ => return) 0 length
  return .undefined

/-- A new array of what a function gives for every element. -/
def map (engine : Engine) (this : Value) (arguments : List Value) : Eval Value := do
  let (length, visit) ← beginVisit engine this arguments
  let result ← createArray []
  setLength engine result length
  visitElements engine visit (defineElement engine result) 0 length
  return .object result

end ScriptEngine.Library
