import ScriptEngine.Library.Argument

/-!
Functions about functions: making one from text, and calling, binding and showing one.
-/

namespace ScriptEngine.Library

/-- All arguments of the `Function` constructor as strings, the last of which is a body. -/
def functionTexts (engine : Engine) : List Value → Eval (List String)
  | [] => return []
  | v :: rest => do
    let text ← toText engine v
    return text :: (← functionTexts engine rest)

/-- The script that makes a function of parameters and a body. -/
def functionSource (texts : List String) : String :=
  "(function anonymous(" ++ ",".intercalate texts.dropLast ++ "\n) \x7b\n" ++
    texts.getLastD "" ++ "\n\x7d)"

/-- The function expression that a script consists of. -/
def soleFunction? (p : Program) : Option FunctionCode :=
  match p.body with
  | [⟨.expr ⟨.function code, _⟩, _⟩] => some code
  | _ => none

/-- Makes a function of parameters and a body that are given as strings. It sees the names of scripts
only, wherever it is made. -/
def functionOf (engine : Engine) (arguments : List Value) : Eval Value := do
  let texts ← functionTexts engine arguments
  match Program.ofSource (functionSource texts) false with
  | .error d => throwFault (.unreadable d.message)
  | .ok p =>
    match soleFunction? p with
    | none => throwFault .notFunctionBody
    | some code => return .object (← createScriptFunction code (← getRealm).scriptEnvironment)

/-- Calls a function on the first argument with the others. -/
def callOn (engine : Engine) (this : Value) (arguments : List Value) : Eval Value := do
  unless ← askHeap (·.isCallable this) do
    throwFault (.callOnNonFunction "Function.prototype.call")
  engine.call this (argument arguments 0) (arguments.drop 1)

/-- Calls a function on the first argument with the elements of the second. -/
def applyOn (engine : Engine) (this : Value) (arguments : List Value) : Eval Value := do
  unless ← askHeap (·.isCallable this) do
    throwFault (.callOnNonFunction "Function.prototype.apply")
  let elements ← match argument arguments 1 with
    | .undefined | .null => pure []
    | .object id => toList engine id
    | other => throwFault (.listOfNonObject (← displayValue other))
  engine.call this (argument arguments 0) elements

/-- How many arguments are still expected when some are given beforehand. -/
def remainingLength (length : Value) (given : Nat) : Nat :=
  match length with
  | .number n => (n.sub (.ofNat given)).clampTo Object.maxWord
  | _ => 0

/-- A function that calls this one on the first argument, with the other arguments before its own. -/
def bind (engine : Engine) (this : Value) (arguments : List Value) : Eval Value := do
  match this, ← askHeap (·.callable? this) with
  | .object target, some _ =>
    let given := arguments.drop 1
    let length ← getProperty engine target Object.lengthKey
    let f : Callable := .bound ⟨target, argument arguments 0, given⟩
    let name ← askHeap (·.functionName f)
    return .object (← createFunctionObject f (remainingLength length given.length) name)
  | _, _ => throwFault .bindOnNonFunction

/-- A function as text: its source, if a script holds it. -/
def functionText (this : Value) : Eval Value := do
  match ← askHeap (·.callable? this) with
  | none => throwFault (.wrongReceiver "Function.prototype.toString" "Function")
  | some (.script f) => return .string f.code.source
  | some f =>
    let name ← askHeap (·.functionName f)
    return .string (s!"function {name}() " ++ "\x7b [native code] \x7d")

end ScriptEngine.Library
