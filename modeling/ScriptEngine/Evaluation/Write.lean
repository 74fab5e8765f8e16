import ScriptEngine.Evaluation.Convert

/-!
Writing, defining and removing properties, and descriptions of properties as objects of a script. The
length of an array is checked before it is defined. What is not accepted is an error or not, as the
caller asks.
-/

namespace ScriptEngine

/-- The length that is defined for an array has to be a natural number below `2 ^ 32`. -/
def checkLength (engine : Engine) (patch : PropertyPatch) : Eval PropertyPatch := do
  match patch.value with
  | none => return patch
  | some requested =>
    let n ← toNumber engine requested
    let length := Number.ofUint32 n.toUint32
    unless length.eq n do throwFault .arrayLength
    return { patch with value := some (.number length) }

/-- Defines a property as it is described. It says whether that was accepted. -/
def defineProperty (engine : Engine) (id : ObjectId) (key : String) (patch : PropertyPatch)
    (throws : Bool) : Eval Bool := do
  let ofArray ← askHeap fun h => (h.get id).isArray
  let patch ← if ofArray && key == Object.lengthKey then checkLength engine patch else pure patch
  let accepted ← updateObject id (·.define key patch)
  if !accepted && throws then throwFault (.redefinition key)
  return accepted

/-- What becomes of a write that is not accepted. -/
def rejectWrite (key : String) (throws : Bool) : Eval Unit := do
  if throws then throwFault (.readOnly key)

/-- Writes a property of an object: it replaces the value of its own one, calls the function that an
own or inherited one names, or adds a new one. -/
def putProperty (engine : Engine) (id : ObjectId) (key : String) (value : Value) (throws : Bool) :
    Eval Unit := do
  let o ← getObject id
  let own := o.getOwn? key
  let found ← match own with
    | some p => pure (some p)
    | none => askHeap (·.find? o.proto key)
  match found.map Property.kind with
  | some (.data _ false) => rejectWrite key throws
  | some (.accessor _ (some setter)) =>
    discard (engine.call (.object setter) (.object id) [value])
  | some (.accessor _ none) => rejectWrite key throws
  | some (.data _ true) | none =>
    if own.isSome then discard (defineProperty engine id key (.ofValue value) throws)
    else if !o.extensible then rejectWrite key throws
    else discard (defineProperty engine id key (.data value .all) throws)

/-- Writes a property of any value. One that is no object can only pass the value to a function that
the object wrapping it would inherit. -/
def putValueProperty (engine : Engine) (base : Value) (key : String) (value : Value)
    (strict : Bool) : Eval Unit := do
  match base with
  | .object id => putProperty engine id key value strict
  | .undefined | .null => throwFault (.writeOfNothing key (← displayValue base))
  | _ =>
    let wrapper ← toObject base
    let o ← getObject wrapper
    if (o.getOwn? key).isSome then rejectWrite key strict
    else match (← askHeap (·.find? (some wrapper) key)).map Property.kind with
      | some (.accessor _ (some setter)) => discard (engine.call (.object setter) base [value])
      | _ => rejectWrite key strict

/-- Removes a property. It says whether that was accepted. -/
def deleteProperty (id : ObjectId) (key : String) (throws : Bool) : Eval Bool := do
  let removed ← updateObject id (·.delete key)
  if !removed && throws then throwFault (.undeletable key)
  return removed

/-- Defines a property without any check of the length of an array. -/
def defineUnchecked (id : ObjectId) (key : String) (patch : PropertyPatch) : Eval Bool :=
  updateObject id (·.define key patch)

/-! ## Descriptions as objects -/

/-- A part of a description that an object holds, if it does. -/
def descriptorPart (engine : Engine) (id : ObjectId) (part : String) : Eval (Option Value) := do
  if ← askHeap (·.has id part) then some <$> getProperty engine id part else return none

/-- A function that a description mentions. -/
def descriptorFunction (engine : Engine) (id : ObjectId) (part : String) :
    Eval (Option (Option ObjectId)) := do
  match ← descriptorPart engine id part with
  | none => return none
  | some .undefined => return some none
  | some value =>
    match value.asObject? with
    | some f =>
      if ← askHeap fun h => (h.get f).isCallable then return some (some f)
      else throwFault (.accessorNotFunction part (← displayValue value))
    | none => throwFault (.accessorNotFunction part (← displayValue value))

/-- The description of a property that an object gives. A value and functions exclude each other. -/
def toPatch (engine : Engine) (value : Value) : Eval PropertyPatch := do
  match value with
  | .object id =>
    let enumerable ← descriptorPart engine id "enumerable"
    let configurable ← descriptorPart engine id "configurable"
    let data ← descriptorPart engine id "value"
    let writable ← descriptorPart engine id "writable"
    let get ← descriptorFunction engine id "get"
    let set ← descriptorFunction engine id "set"
    let patch : PropertyPatch := {
      value := data
      writable := writable.map Value.toBoolean
      get, set
      enumerable := enumerable.map Value.toBoolean
      configurable := configurable.map Value.toBoolean }
    if patch.mentionsAccessor && patch.mentionsData then throwFault .mixedDescriptor
    return patch
  | _ => throwFault (.descriptorNotObject (← displayValue value))

/-- A function of a property as a value. -/
def functionValue (f : Option ObjectId) : Value :=
  match f with
  | some id => .object id
  | none => .undefined

/-- The object that describes a property. -/
def ofProperty (p : Property) : Eval ObjectId := do
  let o := Object.new .ordinary (some (← getIntrinsics).objectPrototype)
  let o := match p.kind with
    | .data value writable =>
      (o.setData "value" value .all).setData "writable" (.boolean writable) .all
    | .accessor get set =>
      (o.setData "get" (functionValue get) .all).setData "set" (functionValue set) .all
  let o := o.setData "enumerable" (.boolean p.enumerable) .all
  newObject (o.setData "configurable" (.boolean p.configurable) .all)

/-! ## Lists -/

/-- More elements than this are not passed as arguments. -/
def maxArguments : Nat := 65536

/-- The `count` properties of an object at indices from `index` on, behind the values `done`, last
first. -/
def elementsFrom (engine : Engine) (id : ObjectId) (index : Nat) (done : List Value) :
    (count : Nat) → Eval (List Value)
  | 0 => return done.reverse
  | count + 1 => do
    let value ← getProperty engine id (indexKey index)
    elementsFrom engine id (index + 1) (value :: done) count

/-- The elements of an object that has a length and properties at indices. -/
def toList (engine : Engine) (id : ObjectId) : Eval (List Value) := do
  let length := (← toUint32 engine (← getProperty engine id Object.lengthKey)).toNat
  if maxArguments < length then throwFault (.tooManyArguments length)
  elementsFrom engine id 0 [] length

end ScriptEngine
