import ScriptEngine.Syntax.Grammar.Statement
import ScriptEngine.Syntax.Scanning

/-!
Scripts as programs: the recursion of the grammar is closed here, and the tokens of a whole script are
read.
-/

namespace ScriptEngine

namespace Grammar

/-- The rules for a number of levels of nesting. No script is nested more deeply than its levels allow. -/
def rulesFor : Nat → Rules
  | 0 => {
    levels := 0
    assignment := fun _ => broken
    binary := fun _ _ => broken
    unary := broken
    newExpression := broken
    statement := broken
    item := broken }
  | n + 1 => {
    levels := n + 1
    assignment := fun noIn s => assignment (rulesFor n) noIn s
    binary := fun precedence noIn s => binary (rulesFor n) precedence noIn s
    unary := fun s => unary (rulesFor n) s
    newExpression := fun s => newExpression (rulesFor n) s
    statement := fun s => statement (rulesFor n) s
    item := fun s => item (rulesFor n) s }

/-- A token begins at most two levels of nesting. -/
def levelsFor (tokens : List Token) : Nat :=
  2 * tokens.length + 8

/-- The statements of a whole script. -/
def programBody (levels : Nat) : Reader (List Stmt) :=
  bodyItems (rulesFor levels) levels .endOfInput true []

end Grammar

/-- The program that a list of tokens forms. The last of them is the end of the input, so that the list
is not empty. -/
def Program.ofTokens (source : List Char) (strict : Bool) (tokens : List Token) :
    Except Diagnostic Program :=
  match tokens with
  | [] => .error ⟨.parsing, .brokenReader, ⟨0, 0⟩, []⟩
  | first :: rest => do
    let start : Grammar.ReadingState := {
      source
      previous := first
      current := first
      upcoming := rest
      body := .start false strict
      outerBodies := [] }
    let (body, s) ← (Grammar.programBody (Grammar.levelsFor tokens)).run start
    return ⟨body, s.body.strict, s.body.names⟩

/-- Reads a script. The flag makes it strict without a directive. -/
def Program.ofSource (source : String) (strict : Bool) : Except Diagnostic Program := do
  let tokens ← Scanning.tokensOf source
  Program.ofTokens source.toList strict tokens

end ScriptEngine
