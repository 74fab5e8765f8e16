import ScriptEngine.Evaluation.Script

/-!
How the functions of the standard library take their arguments, and what several of them make.
-/

namespace ScriptEngine.Library

/-- The argument at a place; one that is not given is undefined. -/
def argument (arguments : List Value) (index : Nat) : Value :=
  arguments.getD index .undefined

/-- The object that a function, given by its name, insists on. -/
def requireObject (function : String) (value : Value) : Eval ObjectId := do
  match value with
  | .object id => return id
  | _ => throwFault (.calledOnNonObject function (← displayValue value))

/-- A function that is to be called later. -/
def requireCallback (value : Value) : Eval Unit := do
  unless ← askHeap (·.isCallable value) do throwFault (.notFunction (← displayValue value))

/-- A new array as a value. -/
def arrayValue (items : List Value) : Eval Value :=
  return .object (← createArray items)

/-- A new array of strings as a value. -/
def textArray (items : List String) : Eval Value :=
  arrayValue (items.map .string)

end ScriptEngine.Library
