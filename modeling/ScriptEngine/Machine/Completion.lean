import ScriptEngine.Value

/-!
How a statement ends when nothing is thrown, and how the ways to end combine. A statement may leave a
value; a list of statements leaves the last one that any of them left.
-/

namespace ScriptEngine

/-- How a statement ends: it goes on to the next one, it returns from the function, or it jumps behind
a statement or to the next round of a loop, perhaps one with a given label. -/
inductive Completion where
  | normal (value : Option Value)
  | returned (value : Value)
  | broke (label : Option String) (value : Option Value)
  | continued (label : Option String) (value : Option Value)
  deriving DecidableEq

namespace Completion

/-- Goes on and leaves no value. -/
def empty : Completion := .normal none

/-- Does anything but go on. -/
def isAbrupt : Completion → Bool
  | normal _ => false
  | _ => true

/-- Leaves undefined where it would go on without a value. -/
def orUndefined : Completion → Completion
  | normal none => normal (some .undefined)
  | c => c

/-- Lets a jump carry a value if it carries none. -/
def fillJump (value : Option Value) : Completion → Completion
  | broke label none => broke label value
  | continued label none => continued label value
  | c => c

/-- A jump without a label, or with one of the labels of a statement, ends at that statement. -/
def owns (labels : List String) (label : Option String) : Bool :=
  label.all labels.contains

end Completion

/-- What a loop does after a round, and the value that was left last. -/
inductive LoopStep where
  | next (value : Option Value)
  | exit (value : Option Value)
  | propagate (c : Completion)

/-- What a loop with some labels, in which `value` was left last, does after its body. -/
def loopStep (labels : List String) (value : Option Value) (c : Completion) : LoopStep :=
  match c with
  | .normal produced => .next (produced <|> value)
  | .continued label produced =>
    if Completion.owns labels label then .next (produced <|> value)
    else .propagate (c.fillJump value)
  | .broke label produced =>
    if Completion.owns labels label then .exit (produced <|> value)
    else .propagate (c.fillJump value)
  | .returned _ => .propagate c

end ScriptEngine
