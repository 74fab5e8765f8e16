import ScriptEngine.Evaluation.Operator
import ScriptEngine.Evaluation.Reference

/-!
Evaluation of expressions, one level at a time.
-/

namespace ScriptEngine

/-- A literal as a value. -/
def Literal.value : Literal → Value
  | .null => .null
  | .boolean b => .boolean b
  | .number n => .number n
  | .string s => .string s

/-- An expression as it is shown in the message that it is no function. -/
def Expr.describe (e : Expr) : String :=
  match e with
  | ⟨.identifier name, _⟩ => name
  | ⟨.this, _⟩ => "this"
  | ⟨.member object name, _⟩ => object.describe ++ "." ++ name
  | ⟨.index object _, _⟩ => object.describe ++ "[...]"
  | ⟨.call callee _, _⟩ => callee.describe ++ "(...)"
  | ⟨.literal (.string s), _⟩ => "\"" ++ s ++ "\""
  | ⟨.literal l, _⟩ => l.value.primitiveToText
  | _ => "expression"

/-- An expression that refers to something. -/
def Expr.isReference (e : Expr) : Bool :=
  match e.form with
  | .identifier _ | .member .. | .index .. => true
  | _ => false

/-- A value as the name of a property. What is asked of a value without properties is not converted,
so that the first of the two errors is that there are none. -/
def toKey (engine : Engine) (base key : Value) : Eval String := do
  if base.isNullish then displayValue key else toText engine key

/-- What an expression refers to. -/
def evaluateReference (engine : Engine) (e : Expr) : Eval Reference := do
  match e.form with
  | .identifier name => resolveName name
  | .member object name =>
    let base ← engine.evaluate object
    return .property base name (← isStrictCode)
  | .index object key =>
    let base ← engine.evaluate object
    let key ← toKey engine base (← engine.evaluate key)
    return .property base key (← isStrictCode)
  | _ =>
    discard (engine.evaluate e)
    throwFault .badAssignment

/-- Defines the elements of an array from an index on; those left out are skipped. -/
def fillArray (engine : Engine) (id : ObjectId) (index : Nat) : List (Option Expr) → Eval Unit
  | [] => return
  | none :: rest => fillArray engine id (index + 1) rest
  | some e :: rest => do
    let value ← engine.evaluate e
    discard (defineUnchecked id (indexKey index) (.data value .all))
    fillArray engine id (index + 1) rest

/-- An array as it is written. Its length counts also the elements that are left out. -/
def evaluateArray (engine : Engine) (elements : List (Option Expr)) : Eval Value := do
  let id ← createArray []
  fillArray engine id 0 elements
  discard (defineUnchecked id Object.lengthKey (.ofValue (.ofNat elements.length)))
  return .object id

/-- The description of a property as it is written in an object. -/
def entryPatch (engine : Engine) (entry : Entry) : Eval PropertyPatch := do
  let flags : PropertyPatch := { enumerable := some true, configurable := some true }
  match entry.value with
  | .value e => return .data (← engine.evaluate e) .all
  | .getter code =>
    let f ← createScriptFunction code (← lexicalEnvironment)
    return { flags with get := some (some f) }
  | .setter code =>
    let f ← createScriptFunction code (← lexicalEnvironment)
    return { flags with set := some (some f) }

/-- An object as it is written. -/
def evaluateObject (engine : Engine) (entries : List Entry) : Eval Value := do
  let id ← createObject
  entries.forM fun entry => do
    let patch ← entryPatch engine entry
    discard (defineProperty engine id entry.key patch false)
  return .object id

/-- A function as it is written. Its own name, if it has one, is bound in an environment of its own and
cannot be changed. -/
def evaluateFunction (code : FunctionCode) : Eval Value := do
  let outer ← lexicalEnvironment
  match code.name, code.isArrow with
  | some name, false =>
    let environment ← newEnvironment (.declarative (some outer))
    let f ← createScriptFunction code environment
    modifyEnvironment environment fun e =>
      ((e.createImmutable name false).initialize? name (.object f)).2
    return .object f
  | _, _ => return .object (← createScriptFunction code outer)

/-- Removes what an expression refers to; of any other expression only the effects count. -/
def evaluateDelete (engine : Engine) (e : Expr) : Eval Value := do
  if e.isReference then
    let r ← evaluateReference engine e
    return .boolean (← deleteReference r)
  else
    discard (engine.evaluate e)
    return .boolean true

/-- The name of the type of an expression's value. A name that is not bound is no error here. -/
def evaluateTypeOf (engine : Engine) (e : Expr) : Eval Value := do
  let value ← match e.form with
    | .identifier name =>
      match ← resolveName name with
      | .name none _ _ => pure .undefined
      | r => getReference engine r
    | _ => engine.evaluate e
  return .string (← askHeap (·.typeOf value))

/-- Applies an operator to the one operand behind it. -/
def evaluateUnary (engine : Engine) (op : UnaryOp) (e : Expr) : Eval Value := do
  match op with
  | .delete => evaluateDelete engine e
  | .typeOf => evaluateTypeOf engine e
  | .void =>
    discard (engine.evaluate e)
    return .undefined
  | .negate => return .number (← toNumber engine (← engine.evaluate e)).neg
  | .plus => return .number (← toNumber engine (← engine.evaluate e))
  | .not => return .boolean !(← engine.evaluate e).toBoolean
  | .bitNot => return .number (.ofInt32 (~~~(← toInt32 engine (← engine.evaluate e))))

/-- Increments or decrements what an expression refers to. -/
def evaluateUpdate (engine : Engine) (op : UpdateOp) (operatorFirst : Bool) (target : Expr) :
    Eval Value := do
  let r ← evaluateReference engine target
  let old ← toNumber engine (← getReference engine r)
  let new := match op with
    | .increment => old.add .one
    | .decrement => old.sub .one
  putReference engine r (.number new)
  return .number (if operatorFirst then new else old)

/-- Assigns a value, to which an operator may first be applied. -/
def evaluateAssign (engine : Engine) (op : Option BinaryOp) (target value : Expr) : Eval Value := do
  let r ← evaluateReference engine target
  let result ← match op with
    | none => engine.evaluate value
    | some op =>
      let current ← getReference engine r
      let operand ← engine.evaluate value
      applyBinary engine op current operand
  putReference engine r result
  return result

/-- Calls a function. What it is called on is what the function was read from. -/
def evaluateCall (engine : Engine) (callee : Expr) (arguments : List Expr) : Eval Value := do
  let (function, this) ←
    if callee.isReference then
      let r ← evaluateReference engine callee
      let function ← getReference engine r
      pure (function, ← receiverOf r)
    else pure (← engine.evaluate callee, Value.undefined)
  let values ← arguments.mapM engine.evaluate
  unless ← askHeap (·.isCallable function) do throwFault (.notFunction callee.describe)
  engine.call function this values

/-- Constructs an object. -/
def evaluateConstruct (engine : Engine) (callee : Expr) (arguments : List Expr) : Eval Value := do
  let constructor ← engine.evaluate callee
  let values ← arguments.mapM engine.evaluate
  unless ← askHeap fun h => (h.callable? constructor).any h.isConstructor do
    throwFault (.notConstructor callee.describe)
  engine.construct constructor values

/-- The value of the last of some expressions. -/
def evaluateSequence (engine : Engine) (last : Value) : List Expr → Eval Value
  | [] => return last
  | e :: rest => do evaluateSequence engine (← engine.evaluate e) rest

/-- The value of an expression. -/
def evaluateForm (engine : Engine) (form : ExprForm) : Eval Value := do
  match form with
  | .literal l => return l.value
  | .identifier name => getReference engine (← resolveName name)
  | .this => return (← getContext).this
  | .array elements => evaluateArray engine elements
  | .object entries => evaluateObject engine entries
  | .function code => evaluateFunction code
  | .unary op operand => evaluateUnary engine op operand
  | .update op operatorFirst target => evaluateUpdate engine op operatorFirst target
  | .binary op left right =>
    let x ← engine.evaluate left
    let y ← engine.evaluate right
    applyBinary engine op x y
  | .logical op left right =>
    let x ← engine.evaluate left
    match op, x.toBoolean with
    | .and, false | .or, true => return x
    | _, _ => engine.evaluate right
  | .conditional test yes no =>
    if (← engine.evaluate test).toBoolean then engine.evaluate yes else engine.evaluate no
  | .assign op target value => evaluateAssign engine op target value
  | .sequence items => evaluateSequence engine .undefined items
  | .member object name => getValueProperty engine (← engine.evaluate object) name
  | .index object key =>
    let base ← engine.evaluate object
    let key ← toKey engine base (← engine.evaluate key)
    getValueProperty engine base key
  | .call callee arguments => evaluateCall engine callee arguments
  | .construct callee arguments => evaluateConstruct engine callee arguments

end ScriptEngine
