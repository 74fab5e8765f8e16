import ScriptEngine.Evaluation.Write

/-!
Names and what they are bound to, and references: what an expression refers to when it is assigned,
called or deleted.
-/

namespace ScriptEngine

/-- The value of a name in an environment that binds it. -/
def getBinding (engine : Engine) (id : EnvironmentId) (name : String) (strict : Bool) :
    Eval Value := do
  match (← getEnvironment id).bindings with
  | .declarative names =>
    match names.find? name with
    | some b => if b.initialized then return b.value else throwFault (.uninitialized name)
    | none => throwFault (.notDefined name)
  | .properties object _ =>
    if ← askHeap (·.has object name) then getProperty engine object name
    else if strict then throwFault (.notDefined name)
    else return .undefined

/-- Gives a name another value in an environment that binds it. -/
def setBinding (engine : Engine) (id : EnvironmentId) (name : String) (value : Value)
    (strict : Bool) : Eval Unit := do
  match (← getEnvironment id).bindings with
  | .declarative names =>
    match names.find? name with
    | none => throwFault (.notDefined name)
    | some b =>
      if !b.initialized then throwFault (.uninitialized name)
      else if b.mutable then modifyEnvironment id (·.set name { b with value })
      else if strict || b.strict then throwFault .constantAssignment
  | .properties object _ => putProperty engine object name value strict

/-- Removes a name from an environment. It says whether that was accepted. -/
def deleteBinding (id : EnvironmentId) (name : String) : Eval Bool := do
  match (← getEnvironment id).bindings with
  | .declarative names =>
    match names.find? name with
    | none => return true
    | some b =>
      if b.deletable then
        modifyEnvironment id (·.erase name)
        return true
      else return false
  | .properties object _ => deleteProperty object name false

/-- What an expression refers to: a name, with the environment that binds it if one does, or a property
of a value. -/
inductive Reference where
  | name (environment : Option EnvironmentId) (name : String) (strict : Bool)
  | property (base : Value) (key : String) (strict : Bool)

/-- What a name refers to at the current place. -/
def resolveName (name : String) : Eval Reference := do
  let m ← get
  let environment := m.environments.resolve? m.heap m.context.lexical name
  return .name environment name m.context.strict

/-- The value that a reference has. -/
def getReference (engine : Engine) (r : Reference) : Eval Value :=
  match r with
  | .name none name _ => throwFault (.notDefined name)
  | .name (some environment) name strict => getBinding engine environment name strict
  | .property base key _ => getValueProperty engine base key

/-- Gives a reference another value. In sloppy code a name that is not bound becomes a property of the
global object. -/
def putReference (engine : Engine) (r : Reference) (value : Value) : Eval Unit := do
  match r with
  | .name none name strict =>
    if strict then throwFault (.notDefined name)
    else putProperty engine (← getRealm).globalObject name value false
  | .name (some environment) name strict => setBinding engine environment name value strict
  | .property base key strict => putValueProperty engine base key value strict

/-- What a function is called on that a reference gave. -/
def receiverOf (r : Reference) : Eval Value := do
  match r with
  | .name none _ _ => return .undefined
  | .name (some environment) _ _ => return (← getEnvironment environment).implicitThis
  | .property base _ _ => return base

/-- Removes what a reference refers to. -/
def deleteReference (r : Reference) : Eval Bool := do
  match r with
  | .name none _ _ => return true
  | .name (some environment) name _ => deleteBinding environment name
  | .property base key strict => deleteProperty (← toObject base) key strict

end ScriptEngine
