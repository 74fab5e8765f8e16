import ScriptEngine.Evaluation.Statement
import ScriptEngine.Syntax.Program

/-!
What happens when a function or a script is entered. The parameters of a function and the names that its body declares
are bound in a new environment, and the body runs in a context of its own. The names that a script declares are bound
before its first statement: those of `let` and `const` in an environment that all scripts of an engine share, functions
and `var` as properties of the global object.
-/

namespace ScriptEngine

/-! ## Functions -/

/-- The value that each parameter gets. -/
def bindParameters (e : Environment) : List String → List Value → Environment
  | [], _ => e
  | name :: rest, [] => bindParameters (e.declare name .undefined) rest []
  | name :: rest, v :: values => bindParameters (e.declare name v) rest values

/-- Binds the functions that a body declares, the last of each name winning. -/
def bindFunctions (environment : EnvironmentId) (functions : List FunctionCode) : Eval Unit :=
  functions.forM fun code => do
    match code.name with
    | none => return
    | some name =>
      let f ← createScriptFunction code environment
      modifyEnvironment environment (·.declare name (.object f))

/-- Binds the names of `var` that are not bound yet. -/
def bindVars (e : Environment) (names : List String) : Environment :=
  names.foldl (fun e name => if (e.binding? name).isSome then e else e.declare name .undefined) e

/-- The name of the object that holds the arguments of a call. -/
def argumentsName : String := "arguments"

/-- A function makes the object that holds its arguments: its body mentions it, and neither a parameter
nor a function that the body declares has its name. -/
def makesArguments (code : FunctionCode) : Bool :=
  code.usesArguments && !code.isArrow && !code.parameters.contains argumentsName &&
    !code.scope.functions.any (·.name == some argumentsName)

/-- Binds everything that the body of a function needs before its first statement. -/
def bindDeclarations (callee : ObjectId) (code : FunctionCode) (environment : EnvironmentId)
    (arguments : List Value) : Eval Unit := do
  modifyEnvironment environment (bindParameters · code.parameters arguments)
  bindFunctions environment code.scope.functions
  if makesArguments code then
    let object ← createArguments callee arguments code.strict
    modifyEnvironment environment fun e =>
      if code.strict then
        ((e.createImmutable argumentsName false).initialize? argumentsName (.object object)).2
      else e.declare argumentsName (.object object)
  modifyEnvironment environment fun e =>
    (bindVars e code.scope.vars).createLexical code.scope.lexical

/-- What `this` is in a function that is called on a value. An arrow function takes it from the code
around it, and sloppy code always has an object. -/
def thisFor (f : ScriptFunction) (this : Value) : Eval Value := do
  if f.code.isArrow then return f.lexicalThis.getD .undefined
  else if f.code.strict then return this
  else if this.isNullish then return .object (← getRealm).globalObject
  else return .object (← toObject this)

/-- Runs the body of a function. Without a `return` its result is undefined. -/
def enterFunction (engine : Engine) (callee : ObjectId) (f : ScriptFunction) (this : Value)
    (arguments : List Value) : Eval Value := do
  let this ← thisFor f this
  let environment ← newEnvironment (.declarative (some f.environment))
  bindDeclarations callee f.code environment arguments
  let context : Context := ⟨environment, environment, this, f.code.strict⟩
  match ← inContext context (executeAll engine none f.code.body) with
  | .returned value => return value
  | _ => return .undefined

/-- Calls a function of a script, as a nested call. -/
def callScript (engine : Engine) (callee : ObjectId) (f : ScriptFunction) (this : Value)
    (arguments : List Value) : Eval Value :=
  nested (enterFunction engine callee f this arguments)

/-! ## Scripts -/

/-- The flags of a global name. -/
def globalAttributes : Attributes := ⟨true, true, false⟩

/-- No name of `let` or `const` may be declared by two scripts. -/
def checkRedeclared (names : List LexicalName) : Eval Unit := do
  let environment ← getEnvironment (← getRealm).scriptEnvironment
  names.forM fun n => do
    if ← askHeap fun h => environment.has h n.name then throwFault (.alreadyDeclared n.name)

/-- Binds a function that a script declares. A property of its name that cannot be redefined may only
be given the new value, if it is one that a loop over keys sees. -/
def declareGlobalFunction (engine : Engine) (strict : Bool) (code : FunctionCode) : Eval Unit := do
  match code.name with
  | none => return
  | some name =>
    let realm ← getRealm
    let f ← createScriptFunction code realm.scriptEnvironment
    match (← getObject realm.globalObject).getOwn? name with
    | some ⟨kind, enumerable, false⟩ =>
      unless (⟨kind, enumerable, false⟩ : Property).isWritable && enumerable do
        throwFault (.globalFunctionRefused name)
      putProperty engine realm.globalObject name (.object f) strict
    | _ =>
      discard (defineProperty engine realm.globalObject name (.data (.object f) globalAttributes) true)

/-- Binds a name of `var` that a script declares, unless the global object has such a property. -/
def declareGlobalVar (engine : Engine) (name : String) : Eval Unit := do
  let global := (← getRealm).globalObject
  unless ((← getObject global).getOwn? name).isSome do
    discard (defineProperty engine global name (.data .undefined globalAttributes) true)

/-- Binds all names that a script declares. -/
def bindGlobals (engine : Engine) (p : Program) : Eval Unit := do
  checkRedeclared p.scope.lexical
  modifyEnvironment (← getRealm).scriptEnvironment (·.createLexical p.scope.lexical)
  p.scope.functions.forM (declareGlobalFunction engine p.strict)
  p.scope.vars.forM (declareGlobalVar engine)

/-- Runs the statements of a script and gives the last value that any of them left. -/
def runStatements (engine : Engine) (last : Option Value) : List Stmt → Eval (Option Value)
  | [] => return last
  | s :: rest => do
    match ← engine.execute [] s with
    | .normal value => runStatements engine (value <|> last) rest
    | _ => return last

/-- Runs a script in a context that is already entered. -/
def runScript (engine : Engine) (p : Program) : Eval (Option Value) := do
  bindGlobals engine p
  runStatements engine none p.body

/-- The context of a whole script. -/
def scriptContext (strict : Bool) : Eval Context := do
  let realm ← getRealm
  return ⟨realm.scriptEnvironment, realm.globalEnvironment, .object realm.globalObject, strict⟩

/-- Runs a script in a context of its own. Its value is undefined if no statement left one. -/
def runProgram (engine : Engine) (p : Program) : Eval Value := do
  let value ← inContext (← scriptContext p.strict) (runScript engine p)
  return value.getD .undefined

/-! ## Errors as the host sees them -/

/-- The result of an action, unless it throws or too many calls are nested. That the steps are used up is passed
on. -/
def resultOf? {α : Type} (action : Eval α) : Eval (Option α) := do
  match ← attempt action with
  | .ok a => return some a
  | .error .exhausted => throw .exhausted
  | .error _ => return none

/-- A property of a thrown object as text, unless it is undefined or cannot be read. -/
def describeField (engine : Engine) (id : ObjectId) (key : String) : Eval (Option String) := do
  match ← resultOf? (getProperty engine id key) with
  | none | some .undefined => return none
  | some value => resultOf? (toText engine value)

/-- A thrown value as it is reported: the name and the message of an error object, or the value itself.
Whatever fails on the way is left out. -/
def describeThrown (engine : Engine) (value : Value) : Eval String := do
  match value with
  | .object id =>
    let name ← describeField engine id "name"
    let message ← describeField engine id "message"
    match name, message with
    | some name, some message => return if message.isEmpty then name else s!"{name}: {message}"
    | some name, none => return name
    | none, some message => return message
    | none, none => displayValue value
  | _ => return value.primitiveToText

/-- Why a script has no value: it could not be read, it threw, or it was cut short. -/
inductive ScriptError where
  | unreadable (d : Diagnostic)
  | uncaught (value : Value) (message : String)
  | overflow (depth : Nat)
  | exhausted

/-- How too many nested calls are reported. -/
def overflowMessage (depth : Nat) : String :=
  s!"maximum call stack size exceeded ({depth} frames)"

/-- The wording of an error. -/
def ScriptError.display : ScriptError → String
  | unreadable d => d.display
  | uncaught _ message => s!"Uncaught {message}"
  | overflow depth => s!"fatal: {overflowMessage depth}"
  | exhausted => "fatal: out of steps"

/-- Runs a program and says how it ended. -/
def evalProgram (engine : Engine) (p : Program) : Eval (Except ScriptError Value) := do
  match ← attempt (runProgram engine p) with
  | .ok value => return .ok value
  | .error (.thrown value) => return .error (.uncaught value (← describeThrown engine value))
  | .error (.overflow depth) => return .error (.overflow depth)
  | .error .exhausted => return .error .exhausted

/-- Reads and runs a script and says how it ended. -/
def evalSource (engine : Engine) (source : String) : Eval (Except ScriptError Value) := do
  match Program.ofSource source (← get).options.strict with
  | .error d => return .error (.unreadable d)
  | .ok p => evalProgram engine p

end ScriptEngine
