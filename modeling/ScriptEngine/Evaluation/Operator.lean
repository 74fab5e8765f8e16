import ScriptEngine.Evaluation.Write

/-!
The operators between two values.
-/

namespace ScriptEngine

/-- The sum of two primitive values; if either is a string both are joined as strings. -/
def Value.add (x y : Value) : Value :=
  if x.isString || y.isString then .string (x.primitiveToText ++ y.primitiveToText)
  else .number (x.primitiveToNumber.add y.primitiveToNumber)

/-- The function at the bottom of bound functions, at most `fuel` of them. -/
def Heap.targetWithin (h : Heap) (fuel : Nat) (id : ObjectId) : ObjectId :=
  match fuel, (h.get id).callable? with
  | fuel + 1, some (.bound f) => h.targetWithin fuel f.target
  | _, _ => id

/-- The function that a bound function calls in the end; any other is its own. -/
def Heap.target (h : Heap) (id : ObjectId) : ObjectId :=
  h.targetWithin h.objects.size id

/-- A value inherits from the `prototype` of a function. -/
def instanceOf (engine : Engine) (value constructor : Value) : Eval Bool := do
  match constructor.asObject? with
  | none => throwFault .instanceOfNotCallable
  | some id =>
    unless ← askHeap (·.isCallable constructor) do throwFault .instanceOfNotCallable
    match value with
    | .object instanceId =>
      let target ← askHeap (·.target id)
      match ← getProperty engine target "prototype" with
      | .object proto => askHeap (·.inheritsFrom instanceId proto)
      | other => throwFault (.prototypeNotObject (← displayValue other))
    | _ => return false

/-- An operator on two words of thirty-two bits. -/
def bitwise (engine : Engine) (x y : Value) (f : Int32 → Int32 → Int32) : Eval Value := do
  let a ← toInt32 engine x
  let b ← toInt32 engine y
  return .number (.ofInt32 (f a b))

/-- An operator on two numbers. -/
def arithmetic (engine : Engine) (x y : Value) (f : Number → Number → Number) : Eval Value := do
  let a ← toNumber engine x
  let b ← toNumber engine y
  return .number (f a b)

/-- How far a shift goes: the count modulo thirty-two. -/
def shiftCount (n : UInt32) : UInt32 :=
  n &&& 31

/-- Applies an operator to two values. -/
def applyBinary (engine : Engine) (op : BinaryOp) (x y : Value) : Eval Value := do
  match op with
  | .add =>
    let a ← toPrimitive engine x .any
    let b ← toPrimitive engine y .any
    return a.add b
  | .sub => arithmetic engine x y Number.sub
  | .mul => arithmetic engine x y Number.mul
  | .div => arithmetic engine x y Number.div
  | .mod => arithmetic engine x y Number.rem
  | .shiftLeft =>
    let a ← toInt32 engine x
    let n ← toUint32 engine y
    return .number (.ofInt32 (a <<< (shiftCount n).toInt32))
  | .shiftRight =>
    let a ← toInt32 engine x
    let n ← toUint32 engine y
    return .number (.ofInt32 (a >>> (shiftCount n).toInt32))
  | .unsignedShiftRight =>
    let a ← toUint32 engine x
    let n ← toUint32 engine y
    return .number (.ofUint32 (a >>> shiftCount n))
  | .bitAnd => bitwise engine x y (· &&& ·)
  | .bitOr => bitwise engine x y (· ||| ·)
  | .bitXor => bitwise engine x y (· ^^^ ·)
  | .equal => return .boolean (← looseEquals engine x y)
  | .notEqual => return .boolean !(← looseEquals engine x y)
  | .strictEqual => return .boolean (x.strictEquals y)
  | .strictNotEqual => return .boolean !(x.strictEquals y)
  | .less => return .boolean ((← lessThan engine x y true) == some true)
  | .greater => return .boolean ((← lessThan engine y x false) == some true)
  | .lessEqual => return .boolean ((← lessThan engine y x false) == some false)
  | .greaterEqual => return .boolean ((← lessThan engine x y true) == some false)
  | .isIn =>
    match y with
    | .object id =>
      let key ← toText engine x
      return .boolean (← askHeap (·.has id key))
    | _ => throwFault (.inNotObject (← displayValue x) (← displayValue y))
  | .instanceOf => return .boolean (← instanceOf engine x y)

end ScriptEngine
