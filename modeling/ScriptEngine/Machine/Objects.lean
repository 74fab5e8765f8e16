import ScriptEngine.Machine.Basic
import ScriptEngine.Object.Elements

/-!
The objects that an engine makes, each complete from the start, and the errors that it throws.
-/

namespace ScriptEngine

/-- An object without properties that inherits from a given one. -/
def createObjectFrom (proto : Option ObjectId) : Eval ObjectId :=
  newObject (.new .ordinary proto)

/-- A plain object. -/
def createObject : Eval ObjectId := do
  createObjectFrom (some (← getIntrinsics).objectPrototype)

/-- An array of given elements. -/
def createArray (items : List Value) : Eval ObjectId := do
  newObject (.ofElements (← getIntrinsics).arrayPrototype items)

/-- The object that wraps a primitive value, as an object by itself. -/
def Object.wrapping (intrinsics : Intrinsics) (kind : ObjectKind) : Object :=
  match kind with
  | .boolean _ => .new kind (some intrinsics.booleanPrototype)
  | .number _ => .new kind (some intrinsics.numberPrototype)
  | .string s =>
    (Object.new kind (some intrinsics.stringPrototype)).setData Object.lengthKey
      (.ofNat (Text.units s).length) .none
  | _ => .new kind (some intrinsics.objectPrototype)

/-- The object that wraps a primitive value. -/
def createWrapper (kind : ObjectKind) : Eval ObjectId := do
  newObject (.wrapping (← getIntrinsics) kind)

/-- A function object, as an object by itself. -/
def Object.ofCallable (proto : ObjectId) (f : Callable) (length : Nat) (name : String) : Object :=
  ((Object.new (.function f) (some proto)).setData Object.lengthKey (.ofNat length) .none).setData
    "name" (.string name) .none

/-- A function object with a number of expected arguments and a name. -/
def createFunctionObject (f : Callable) (length : Nat) (name : String) : Eval ObjectId := do
  newObject (.ofCallable (← getIntrinsics).functionPrototype f length name)

/-- A function of the engine or the host. -/
def createNative (name : String) (length : Nat) (call : Builtin) : Eval ObjectId :=
  createFunctionObject (.native ⟨name, call, none⟩) length name

/-- A function of the engine or the host that can construct objects. The prototype of those objects
and the function refer to each other. -/
def createConstructor (name : String) (length : Nat) (call : Builtin) (construct : Construction)
    (proto : ObjectId) : Eval ObjectId := do
  let f ← createFunctionObject (.native ⟨name, call, some construct⟩) length name
  modifyObject f (·.setData "prototype" (.object proto) .none)
  modifyObject proto (·.setData "constructor" (.object f) .hidden)
  return f

/-- Gives an object a method of the engine. -/
def defineMethod (target : ObjectId) (name : String) (length : Nat) (call : Builtin) : Eval Unit := do
  let f ← createNative name length call
  modifyObject target (·.setData name (.object f) .hidden)

/-- An error object, as an object by itself. It has no message of its own if the message is empty. -/
def Object.ofError (intrinsics : Intrinsics) (kind : ErrorKind) (message : String) : Object :=
  let o := Object.new .error (some (intrinsics.errorPrototype kind))
  if message.isEmpty then o else o.setData "message" (.string message) .hidden

/-- An error object. -/
def createError (kind : ErrorKind) (message : String) : Eval ObjectId := do
  newObject (.ofError (← getIntrinsics) kind message)

/-- Throws a value. -/
def throwValue {α : Type} (value : Value) : Eval α :=
  throw (.thrown value)

/-- Throws a new error object for a cause. -/
def throwFault {α : Type} (fault : Fault) : Eval α := do
  throwValue (.object (← createError fault.kind fault.message))

/-- A function of a script that sees an environment around it. Unless it is an arrow function it gets
an object as its `prototype`, from which what it constructs will inherit. -/
def createScriptFunction (code : FunctionCode) (environment : EnvironmentId) : Eval ObjectId := do
  let this := (← getContext).this
  let lexicalThis := if code.isArrow then some this else none
  let f ← createFunctionObject (.script ⟨code, environment, lexicalThis⟩) code.parameters.length
    (code.name.getD "")
  unless code.isArrow do
    let proto ← createObject
    modifyObject proto (·.setData "constructor" (.object f) .hidden)
    modifyObject f (·.setData "prototype" (.object proto) ⟨true, false, false⟩)
  return f

/-- The object that holds the arguments of a call; changes to it do not change parameters. Only in
sloppy code it tells which function was called. -/
def createArguments (callee : ObjectId) (arguments : List Value) (strict : Bool) : Eval ObjectId := do
  let o := Object.ofArguments (← getIntrinsics).objectPrototype arguments
  newObject (if strict then o else o.setData "callee" (.object callee) .hidden)

end ScriptEngine
