import ScriptEngine.Library.Run

/-!
The recursion of evaluation is closed here. An engine is given a number of steps; each of its actions
goes back to an engine with one step less, and one without steps ends every action.
-/

namespace ScriptEngine

/-- Calls a function, which its object and its code give. -/
def callFunction (engine : Engine) (callee : ObjectId) (this : Value) (arguments : List Value) :
    Callable → Eval Value
  | .native f => nested (Library.run engine f.call this arguments)
  | .script f => callScript engine callee f this arguments
  | .bound f => engine.call (.object f.target) f.this (f.arguments ++ arguments)

/-- Calls a value, which has to be a function. -/
def callValue (engine : Engine) (function this : Value) (arguments : List Value) : Eval Value := do
  match function.asObject?, ← askHeap (·.callable? function) with
  | some callee, some f => callFunction engine callee this arguments f
  | _, _ => throwFault (.notFunction (← displayValue function))

/-- The object from which an object inherits that a function constructs. -/
def prototypeFor (engine : Engine) (constructor : ObjectId) : Eval ObjectId := do
  match ← getProperty engine constructor "prototype" with
  | .object proto => return proto
  | _ => return (← getIntrinsics).objectPrototype

/-- What a function does with an object that is being constructed. -/
def initializeWith (engine : Engine) (callee : ObjectId) (instanceId : ObjectId)
    (arguments : List Value) : Callable → Eval Value
  | .native f =>
    match f.construct with
    | some construct => nested (Library.construct engine construct instanceId arguments)
    | none => throwFault (.notConstructor f.name)
  | .script f => callScript engine callee f (.object instanceId) arguments
  | .bound _ => return .undefined

/-- Constructs an object by a function. An object that the function gives takes the place of the new
one; a bound function leaves all to its target. -/
def constructBy (engine : Engine) (callee : ObjectId) (arguments : List Value) (f : Callable) :
    Eval Value := do
  match f with
  | .bound f => engine.construct (.object f.target) (f.arguments ++ arguments)
  | _ =>
    let proto ← prototypeFor engine callee
    let instanceId ← createObjectFrom (some proto)
    let result ← initializeWith engine callee instanceId arguments f
    return if result.isObject then result else .object instanceId

/-- Constructs an object by a value, which has to be a function that can. -/
def constructValue (engine : Engine) (constructor : Value) (arguments : List Value) : Eval Value := do
  let f ← askHeap fun h => (h.callable? constructor).filter h.isConstructor
  match constructor.asObject?, f with
  | some callee, some f => constructBy engine callee arguments f
  | _, _ => throwFault (.notConstructor (← displayValue constructor))

/-- The engine with a number of steps. -/
def engineAt : Nat → Engine
  | 0 => {
    rounds := 0
    evaluate := fun _ => throw .exhausted
    execute := fun _ _ => throw .exhausted
    call := fun _ _ _ => throw .exhausted
    construct := fun _ _ => throw .exhausted }
  | steps + 1 => {
    rounds := steps
    evaluate := fun e m => evaluateForm (engineAt steps) e.form m
    execute := fun labels s m => executeForm (engineAt steps) labels s.form m
    call := fun f this arguments m => callValue (engineAt steps) f this arguments m
    construct := fun f arguments m => constructValue (engineAt steps) f arguments m }

end ScriptEngine
