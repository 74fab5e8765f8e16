import ScriptEngine.Environment
import ScriptEngine.Machine.Fault

/-!
The state of a running engine, and the actions on it. An action ends with a result, or is cut short: by
a value that the script throws, by too many nested calls, which no script can catch, or because the
steps that it was given are used up. In each case there is a state from which to go on.
-/

namespace ScriptEngine

/-- What a host decides about an engine: how many calls may be nested, and whether every script is
strict. -/
structure EngineOptions where
  maxCallDepth : Nat := 1000
  strict : Bool := false
  deriving DecidableEq

/-- What code runs in: where its names are looked up, where its function's variables live, what `this`
is, and whether it is strict. -/
structure Context where
  lexical : EnvironmentId
  vars : EnvironmentId
  this : Value
  strict : Bool
  deriving DecidableEq, Inhabited

/-- The prototypes of the objects that the engine makes. -/
structure Intrinsics where
  objectPrototype : ObjectId
  functionPrototype : ObjectId
  arrayPrototype : ObjectId
  booleanPrototype : ObjectId
  numberPrototype : ObjectId
  stringPrototype : ObjectId
  errorPrototype : ErrorKind → ObjectId

/-- What all scripts of an engine share: the prototypes, the global object, the environment over its
properties, and the one inside it for the names of `let` and `const`. -/
structure Realm where
  intrinsics : Intrinsics
  globalObject : ObjectId
  globalEnvironment : EnvironmentId
  scriptEnvironment : EnvironmentId

/-- The state of an engine. The current context is apart from those of the calls around it; the text
is what was printed. -/
structure Machine where
  heap : Heap
  environments : EnvironmentStore
  context : Context
  callers : List Context
  callDepth : Nat
  output : String
  realm : Realm
  options : EngineOptions

/-- Why an action is cut short. -/
inductive Abrupt where
  | thrown (value : Value)
  /-- As many calls are nested as may be; the number says how many. -/
  | overflow (depth : Nat)
  /-- The steps are used up. -/
  | exhausted
  deriving DecidableEq

/-- An action on an engine. -/
abbrev Eval := EStateM Abrupt Machine

/-- Runs an action and gives how it ended; the action that does so is not cut short. -/
def attempt {α : Type} (action : Eval α) : Eval (Except Abrupt α) := fun m =>
  match action m with
  | .ok a m => .ok (.ok a) m
  | .error e m => .ok (.error e) m

/-- Ends as an action ended. -/
def resume {α : Type} (outcome : Except Abrupt α) : Eval α := fun m =>
  match outcome with
  | .ok a => .ok a m
  | .error e => .error e m

namespace Machine

/-- Changes the heap. -/
def withHeap {α : Type} (m : Machine) (f : Heap → α × Heap) : α × Machine :=
  let heap := m.heap
  let m := { m with heap := .empty }
  let (a, heap) := f heap
  (a, { m with heap })

/-- Changes the environments. -/
def withEnvironments {α : Type} (m : Machine) (f : EnvironmentStore → α × EnvironmentStore) :
    α × Machine :=
  let environments := m.environments
  let m := { m with environments := .empty }
  let (a, environments) := f environments
  (a, { m with environments })

end Machine

/-! ## Objects -/

/-- What the heap says. -/
def askHeap {α : Type} (f : Heap → α) : Eval α :=
  return f (← get).heap

/-- The object at an address. -/
def getObject (id : ObjectId) : Eval Object :=
  askHeap (·.get id)

/-- Adds an object. -/
def newObject (o : Object) : Eval ObjectId :=
  modifyGet fun m => m.withHeap (·.add o)

/-- Changes an object by an operation that also says something. -/
def updateObject {α : Type} (id : ObjectId) (f : Object → α × Object) : Eval α :=
  modifyGet fun m => m.withHeap (·.update id f)

/-- Changes an object. -/
def modifyObject (id : ObjectId) (f : Object → Object) : Eval Unit :=
  updateObject id fun o => ((), f o)

/-- What all scripts of the engine share. -/
def getRealm : Eval Realm :=
  return (← get).realm

def getIntrinsics : Eval Intrinsics :=
  return (← get).realm.intrinsics

/-- A value as it is shown in messages. -/
def displayValue (value : Value) : Eval String :=
  askHeap (·.display value)

/-! ## Environments -/

/-- The environment at an address. -/
def getEnvironment (id : EnvironmentId) : Eval Environment :=
  return (← get).environments.get id

/-- Adds an environment. -/
def newEnvironment (e : Environment) : Eval EnvironmentId :=
  modifyGet fun m => m.withEnvironments (·.add e)

/-- Changes an environment by an operation that also says something. -/
def updateEnvironment {α : Type} (id : EnvironmentId) (f : Environment → α × Environment) : Eval α :=
  modifyGet fun m => m.withEnvironments (·.update id f)

/-- Changes an environment. -/
def modifyEnvironment (id : EnvironmentId) (f : Environment → Environment) : Eval Unit :=
  updateEnvironment id fun e => ((), f e)

/-! ## Contexts -/

/-- The current context. -/
def getContext : Eval Context :=
  return (← get).context

/-- The environment in which names are looked up now. -/
def lexicalEnvironment : Eval EnvironmentId :=
  return (← get).context.lexical

/-- The current code is strict. -/
def isStrictCode : Eval Bool :=
  return (← get).context.strict

/-- From now on names are looked up in another environment. -/
def setLexicalEnvironment (id : EnvironmentId) : Eval Unit :=
  modify fun m => { m with context := { m.context with lexical := id } }

/-- Enters a context. -/
def pushContext (c : Context) : Eval Unit :=
  modify fun m => { m with context := c, callers := m.context :: m.callers }

/-- Leaves a context for the one around it. -/
def popContext : Eval Unit :=
  modify fun m =>
    match m.callers with
    | [] => m
    | c :: rest => { m with context := c, callers := rest }

/-- Runs an action in a context of its own, which is left however the action ends. -/
def inContext {α : Type} (c : Context) (action : Eval α) : Eval α := do
  pushContext c
  let outcome ← attempt action
  popContext
  resume outcome

/-- Runs an action with names looked up in another environment. However the action ends, they are
looked up where they were before. -/
def inEnvironment {α : Type} (id : EnvironmentId) (action : Eval α) : Eval α := do
  let saved ← lexicalEnvironment
  setLexicalEnvironment id
  let outcome ← attempt action
  setLexicalEnvironment saved
  resume outcome

/-! ## Nested calls -/

/-- Counts a nested call, if one more is allowed. -/
def enterCall : Eval Unit := do
  let m ← get
  if m.options.maxCallDepth ≤ m.callDepth then throw (.overflow m.callDepth)
  modify fun m => { m with callDepth := m.callDepth + 1 }

/-- Runs an action as a nested call, which is over however the action ends. -/
def nested {α : Type} (action : Eval α) : Eval α := do
  enterCall
  let outcome ← attempt action
  modify fun m => { m with callDepth := m.callDepth - 1 }
  resume outcome

/-! ## Output -/

/-- Prints a line. -/
def printLine (line : String) : Eval Unit :=
  modify fun m => { m with output := m.output ++ line ++ "\n" }

end ScriptEngine
