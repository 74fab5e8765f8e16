import ScriptEngine.Machine.Completion
import ScriptEngine.Machine.Objects

/-!
What the steps of evaluation need of each other. Evaluation is recursive all over: a conversion may call
a function, a function runs statements, a statement evaluates expressions. Each definition takes what
it goes back to from an `Engine`, so it is a single step by itself, and the recursion is closed in one
place. The first of these steps reads a property, which if it is a function is called on the value that was asked.
-/

namespace ScriptEngine

/-- The actions that evaluation goes back to. -/
structure Engine where
  /-- The rounds that a loop may take. -/
  rounds : Nat
  evaluate : Expr → Eval Value
  /-- Runs a statement that has some labels. -/
  execute : (labels : List String) → Stmt → Eval Completion
  call : (function this : Value) → (arguments : List Value) → Eval Value
  construct : (constructor : Value) → (arguments : List Value) → Eval Value

/-! ## Reading properties -/

/-- The value of a property for a receiver. -/
def readProperty (engine : Engine) (p : Option Property) (receiver : Value) : Eval Value :=
  match p with
  | none => return .undefined
  | some ⟨.data value _, _, _⟩ => return value
  | some ⟨.accessor (some getter) _, _, _⟩ => engine.call (.object getter) receiver []
  | some ⟨.accessor none _, _, _⟩ => return .undefined

/-- The value of a property of an object. -/
def getProperty (engine : Engine) (id : ObjectId) (key : String) : Eval Value := do
  let p ← askHeap (·.find? (some id) key)
  readProperty engine p (.object id)

/-- The property that a string has by itself: its length or one of its code units. -/
def stringProperty? (text key : String) : Option Value :=
  if key == Object.lengthKey then some (.ofNat (Text.units text).length)
  else do
    let index ← arrayIndex? key
    let unit ← (Text.units text)[index]?
    return .string (Text.ofUnits [unit])

/-- The value of a property of any value. One that is no object is asked in the place of the object
that would wrap it. -/
def getValueProperty (engine : Engine) (base : Value) (key : String) : Eval Value := do
  let inherited (proto : ObjectId) : Eval Value := do
    let p ← askHeap (·.find? (some proto) key)
    readProperty engine p base
  match base with
  | .object id => getProperty engine id key
  | .undefined | .null => throwFault (.readOfNothing key (← displayValue base))
  | .string text =>
    match stringProperty? text key with
    | some value => return value
    | none => inherited (← getIntrinsics).stringPrototype
  | .number _ => inherited (← getIntrinsics).numberPrototype
  | .boolean _ => inherited (← getIntrinsics).booleanPrototype

end ScriptEngine
