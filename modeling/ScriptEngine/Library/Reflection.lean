import ScriptEngine.Library.Argument

/-!
Functions that examine and restrict objects: those of the `Object` constructor, and the methods that
every object inherits.
-/

namespace ScriptEngine.Library

/-- An argument as an object, or a new object in place of the values that stand for nothing. -/
def objectOf (arguments : List Value) : Eval Value := do
  let value := argument arguments 0
  if value.isNullish then return .object (← createObject)
  else return .object (← toObject value)

/-- The prototype of an object. -/
def getPrototypeOf (arguments : List Value) : Eval Value := do
  let id ← requireObject "Object.getPrototypeOf" (argument arguments 0)
  match (← getObject id).proto with
  | some proto => return .object proto
  | none => return .null

/-! ## Properties -/

/-- The description of an own property. -/
def getOwnPropertyDescriptor (engine : Engine) (arguments : List Value) : Eval Value := do
  let id ← requireObject "Object.getOwnPropertyDescriptor" (argument arguments 0)
  let key ← toText engine (argument arguments 1)
  match (← getObject id).getOwn? key with
  | some p => return .object (← ofProperty p)
  | none => return .undefined

/-- The names of all own properties. -/
def getOwnPropertyNames (arguments : List Value) : Eval Value := do
  let id ← requireObject "Object.getOwnPropertyNames" (argument arguments 0)
  textArray (← getObject id).ownKeys

/-- The names of the own properties of an object that loops over keys see. -/
def enumerableKeys (o : Object) : List String :=
  o.ownKeys.filter fun key => (o.getOwn? key).any (·.enumerable)

/-- The names of the own properties that loops over keys see. -/
def keys (arguments : List Value) : Eval Value := do
  let id ← requireObject "Object.keys" (argument arguments 0)
  textArray (enumerableKeys (← getObject id))

/-- Reads the descriptions that an object holds under some of its names, in order. -/
def readPatches (engine : Engine) (descriptions : ObjectId) :
    List String → Eval (List (String × PropertyPatch))
  | [] => return []
  | key :: rest => do
    let own := (← getObject descriptions).getOwn? key
    if own.any (·.enumerable) then
      let description ← getProperty engine descriptions key
      let patch ← toPatch engine description
      return (key, patch) :: (← readPatches engine descriptions rest)
    else readPatches engine descriptions rest

/-- Defines properties as an object describes them. All descriptions are read before any property is
defined. -/
def defineFrom (engine : Engine) (id : ObjectId) (descriptions : Value) : Eval Unit := do
  let descriptions ← toObject descriptions
  let patches ← readPatches engine descriptions (← getObject descriptions).ownKeys
  patches.forM fun (key, patch) => discard (defineProperty engine id key patch true)

/-- A new object with a given prototype and, if descriptions are given, with properties. -/
def create (engine : Engine) (arguments : List Value) : Eval Value := do
  let proto ← match argument arguments 0 with
    | .object proto => pure (some proto)
    | .null => pure none
    | other => throwFault (.badPrototype (← displayValue other))
  let id ← createObjectFrom proto
  let descriptions := argument arguments 1
  unless descriptions.isUndefined do defineFrom engine id descriptions
  return .object id

/-- Defines one property. -/
def defineOne (engine : Engine) (arguments : List Value) : Eval Value := do
  let id ← requireObject "Object.defineProperty" (argument arguments 0)
  let key ← toText engine (argument arguments 1)
  let patch ← toPatch engine (argument arguments 2)
  discard (defineProperty engine id key patch true)
  return .object id

/-- Defines all properties that an object describes. -/
def defineAll (engine : Engine) (arguments : List Value) : Eval Value := do
  let id ← requireObject "Object.defineProperties" (argument arguments 0)
  defineFrom engine id (argument arguments 1)
  return .object id

/-! ## Restrictions -/

/-- No properties can be added to an object from now on. -/
def preventExtensions (arguments : List Value) : Eval Value := do
  let id ← requireObject "Object.preventExtensions" (argument arguments 0)
  modifyObject id (·.preventExtensions)
  return .object id

/-- Properties can be added to an object. -/
def isExtensible (arguments : List Value) : Eval Value := do
  let id ← requireObject "Object.isExtensible" (argument arguments 0)
  return .boolean (← getObject id).extensible

/-- The change that takes a property's freedom: it can no longer be configured, and if it is to be
frozen its value can no longer be replaced. -/
def restriction (p : Property) (freezes : Bool) : PropertyPatch :=
  { configurable := some false
    writable := if freezes && p.isData then some false else none }

/-- Takes the freedom of an object and its properties. -/
def restrict (engine : Engine) (id : ObjectId) (freezes : Bool) : Eval Unit := do
  (← getObject id).ownKeys.forM fun key => do
    match (← getObject id).getOwn? key with
    | none => return
    | some p => discard (defineProperty engine id key (restriction p freezes) true)
  modifyObject id (·.preventExtensions)

/-- No property can be added to an object or configured, nor any value replaced if it is to be
frozen. -/
def isRestricted (o : Object) (frozen : Bool) : Bool :=
  !o.extensible && o.ownKeys.all fun key =>
    (o.getOwn? key).all fun p => !p.configurable && !(frozen && p.isWritable)

/-- Properties of an object are fixed, and with `freezes` their values are too. -/
def restrictObject (engine : Engine) (function : String) (freezes : Bool) (arguments : List Value) :
    Eval Value := do
  let id ← requireObject function (argument arguments 0)
  restrict engine id freezes
  return .object id

/-- Tells whether properties of an object are fixed, and with `frozen` their values too. -/
def testRestricted (function : String) (frozen : Bool) (arguments : List Value) : Eval Value := do
  let id ← requireObject function (argument arguments 0)
  return .boolean (isRestricted (← getObject id) frozen)

/-! ## Methods of every object -/

/-- A value as the name of its kind in brackets. -/
def describeKind (this : Value) : Eval Value := do
  let name ← match this with
    | .undefined => pure "Undefined"
    | .null => pure "Null"
    | _ => pure (← getObject (← toObject this)).className
  return .string s!"[object {name}]"

/-- What the method `toString` gives. -/
def localeText (engine : Engine) (this : Value) : Eval Value := do
  let method ← getValueProperty engine this "toString"
  unless ← askHeap (·.isCallable method) do throwFault .textMethodMissing
  engine.call method this []

/-- The value itself as an object. -/
def objectValue (this : Value) : Eval Value := do
  return .object (← toObject this)

/-- The own property that the first argument names. -/
def ownPropertyNamed (engine : Engine) (this : Value) (arguments : List Value) :
    Eval (Option Property) := do
  let key ← toText engine (argument arguments 0)
  let id ← toObject this
  return (← getObject id).getOwn? key

/-- There is an own property of a name. -/
def hasOwnProperty (engine : Engine) (this : Value) (arguments : List Value) : Eval Value := do
  return .boolean (← ownPropertyNamed engine this arguments).isSome

/-- There is an own property of a name that loops over keys see. -/
def propertyIsEnumerable (engine : Engine) (this : Value) (arguments : List Value) : Eval Value := do
  return .boolean ((← ownPropertyNamed engine this arguments).any (·.enumerable))

/-- The argument inherits from the object. -/
def isPrototypeOf (this : Value) (arguments : List Value) : Eval Value := do
  match argument arguments 0 with
  | .object heir =>
    let id ← toObject this
    return .boolean (← askHeap (·.inheritsFrom heir id))
  | _ => return .boolean false

end ScriptEngine.Library
