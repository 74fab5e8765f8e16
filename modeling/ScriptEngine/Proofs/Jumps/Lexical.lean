import ScriptEngine.Interpreter
import ScriptEngine.Proofs.Jumps.Place

/-!
Statements with the jumps that their text shows. A jump says at once how many of the statements around
it are left before the one at which it ends, which its place decides, and each statement only counts
down. No label is compared while a jump is under way; everything else is as in the execution of
statements by the engine.
-/

namespace ScriptEngine

/-- How a statement ends when a jump knows where it goes: behind a statement around it, or to the next
round of a loop around it, each told by the number of statements that are left before. -/
inductive Exit where
  | normal (value : Option Value)
  | returned (value : Value)
  | leave (depth : Nat) (value : Option Value)
  | again (depth : Nat) (value : Option Value)

namespace Exit

/-- Does anything but go on. -/
def isAbrupt : Exit → Bool
  | normal _ => false
  | _ => true

/-- Leaves undefined where it would go on without a value. -/
def orUndefined : Exit → Exit
  | normal none => normal (some .undefined)
  | exit => exit

/-- Lets a jump carry a value if it carries none. -/
def fillJump (value : Option Value) : Exit → Exit
  | leave depth none => leave depth value
  | again depth none => again depth value
  | exit => exit

/-- How a statement ends around one that ends like this: a jump has one statement less to leave, and a
jump behind the statement itself is over. -/
def outward : Exit → Exit
  | leave 0 value => normal value
  | leave (depth + 1) value => leave depth value
  | again (depth + 1) value => again depth value
  | exit => exit

end Exit

namespace Lexical

variable (engine : Engine)

/-! ## Lists and blocks -/

/-- Runs statements in order up to the first that does not go on. -/
def executeAll (run : Stmt → Eval Exit) (last : Option Value) : List Stmt → Eval Exit
  | [] => return .normal last
  | s :: rest => do
    match ← run s with
    | .normal value => executeAll run (value <|> last) rest
    | exit => return exit.fillJump last

/-- Runs a block, in an environment of its own if it declares names. -/
def executeBlock (run : Stmt → Eval Exit) (b : Block) : Eval Exit := do
  if b.lexical.isEmpty then executeAll run none b.body
  else inEnvironment (← newBlockEnvironment b.lexical) (executeAll run none b.body)

/-! ## Loops -/

/-- The rounds of a `while` loop. -/
def whileRounds (run : Stmt → Eval Exit) (test : Expr) (body : Stmt) (value : Option Value) :
    (rounds : Nat) → Eval Exit
  | 0 => throw .exhausted
  | rounds + 1 => do
    if (← engine.evaluate test).toBoolean then
      match ← run body with
      | .normal produced | .again 0 produced =>
        whileRounds run test body (produced <|> value) rounds
      | exit => return (exit.fillJump value).outward
    else return .normal value

/-- The rounds of a `do` loop. -/
def doRounds (run : Stmt → Eval Exit) (body : Stmt) (test : Expr) (value : Option Value) :
    (rounds : Nat) → Eval Exit
  | 0 => throw .exhausted
  | rounds + 1 => do
    match ← run body with
    | .normal produced | .again 0 produced =>
      let value := produced <|> value
      if (← engine.evaluate test).toBoolean then doRounds run body test value rounds
      else return .normal value
    | exit => return (exit.fillJump value).outward

/-- The rounds of a `for` loop. -/
def forRounds (run : Stmt → Eval Exit) (l : ForLoop) (value : Option Value) :
    (rounds : Nat) → Eval Exit
  | 0 => throw .exhausted
  | rounds + 1 => do
    if ← testHolds engine l.test then
      match ← run l.body with
      | .normal produced | .again 0 produced =>
        freshIteration l.names l.outer
        l.update.forM fun e => discard (engine.evaluate e)
        forRounds run l (produced <|> value) rounds
      | exit => return (exit.fillJump value).outward
    else return .normal value

/-- All rounds of a `for` loop, of which the first has bindings of its own too. -/
def runForLoop (run : Stmt → Eval Exit) (l : ForLoop) : Eval Exit := do
  freshIteration l.names l.outer
  forRounds engine run l none engine.rounds

/-- A `for` statement. -/
def executeFor (run : Stmt → Eval Exit) (labels : List String) (init : Option ForInit)
    (test update : Option Expr) (body : Stmt) : Eval Exit := do
  let outer ← lexicalEnvironment
  let loop (names : List String) : Eval Exit :=
    runForLoop engine run ⟨labels, test, update, body, names, outer⟩
  match init with
  | none => loop []
  | some (.vars declarators) =>
    executeVars engine declarators
    loop []
  | some (.expr e) =>
    discard (engine.evaluate e)
    loop []
  | some (.lexical constant declarators) =>
    let names := declarators.map Declarator.name
    let environment ← newBlockEnvironment (names.map (⟨·, constant⟩))
    inEnvironment environment (executeLexical engine declarators)
    inEnvironment environment (loop (if constant then [] else names))

/-- Gives a key to what a `for`-`in` loop assigns to, and runs its body. -/
def forInBody (run : Stmt → Eval Exit) (target : ForInTarget) (key : Value) (body : Stmt) :
    Eval Exit := do
  match target with
  | .var name =>
    putReference engine (← resolveName name) key
    run body
  | .expr e =>
    putReference engine (← evaluateReference engine e) key
    run body
  | .lexical constant name =>
    let environment ← newBlockEnvironment [⟨name, constant⟩]
    modifyEnvironment environment fun e => (e.initialize? name key).2
    inEnvironment environment (run body)

/-- The rounds of a `for`-`in` loop. -/
def forInRounds (run : Stmt → Eval Exit) (target : ForInTarget) (body : Stmt) (walk : KeyWalk)
    (value : Option Value) : (rounds : Nat) → Eval Exit
  | 0 => throw .exhausted
  | rounds + 1 => do
    match ← askHeap walk.next with
    | (none, _) => return .normal value
    | (some key, walk) =>
      match ← forInBody engine run target (.string key) body with
      | .normal produced | .again 0 produced =>
        forInRounds run target body walk (produced <|> value) rounds
      | exit => return (exit.fillJump value).outward

/-- A `for`-`in` statement. Over a value that stands for nothing there are no keys. -/
def executeForIn (run : Stmt → Eval Exit) (target : ForInTarget) (object : Expr) (body : Stmt) :
    Eval Exit := do
  let subject ← engine.evaluate object
  if subject.isNullish then return .normal none
  let id ← toObject subject
  forInRounds engine run target body (.start id) none engine.rounds

/-! ## Choices and handlers -/

/-- Runs the statements of clauses in order. -/
def executeClauses (run : Stmt → Eval Exit) (last : Option Value) :
    List SwitchClause → Eval Exit
  | [] => return .normal last
  | c :: rest => do
    match ← executeAll run none c.body with
    | .normal value => executeClauses run (value <|> last) rest
    | exit => return exit.fillJump last

/-- Runs the clauses that a value selects; if none, the default one and those behind it. -/
def executeSelected (run : Stmt → Eval Exit) (value : Value) (clauses : List SwitchClause) :
    Eval Exit := do
  let selected ← selectClause engine value clauses
  let selected := if selected.isEmpty then clauses.dropWhile (·.test.isSome) else selected
  executeClauses run none selected

/-- A `switch` statement. -/
def executeSwitch (run : Stmt → Eval Exit) (discriminant : Expr) (clauses : List SwitchClause)
    (names : List LexicalName) : Eval Exit := do
  let value ← engine.evaluate discriminant
  let exit ←
    if names.isEmpty then executeSelected engine run value clauses
    else inEnvironment (← newBlockEnvironment names) (executeSelected engine run value clauses)
  return exit.outward

/-- Runs the handler of a `try` statement for a thrown value. -/
def executeHandler (run : Stmt → Eval Exit) (handler : Handler) (thrown : Value) : Eval Exit := do
  let outer ← lexicalEnvironment
  let environment ←
    newEnvironment ((Environment.declarative (some outer)).declare handler.parameter thrown)
  inEnvironment environment (executeBlock run handler.body)

/-- The outcome of a block after its handler, which only a thrown value reaches. -/
def handled (run : Stmt → Eval Exit) (handler : Option Handler) (outcome : Except Abrupt Exit) :
    Eval (Except Abrupt Exit) :=
  match handler, outcome with
  | some handler, .error (.thrown value) => attempt (executeHandler run handler value)
  | _, _ => return outcome

/-- No script may go on after an outcome. -/
def isFatal (outcome : Except Abrupt Exit) : Bool :=
  match outcome with
  | .error (.thrown _) => false
  | .error _ => true
  | .ok _ => false

/-- A `try` statement. A finalizer that does not go on takes the place of what went before. -/
def executeTry (run : Stmt → Eval Exit) (block : Block) (handler : Option Handler)
    (finalizer : Option Block) : Eval Exit := do
  let outcome ← handled run handler (← attempt (executeBlock run block))
  let settled : Eval Exit := resume (outcome.map Exit.orUndefined)
  match finalizer with
  | none => settled
  | some finalizer =>
    if isFatal outcome then resume outcome
    else
      let last ← executeBlock run finalizer
      if last.isAbrupt then return last else settled

/-! ## Statements -/

/-- Runs a statement at a place; `run` does so for the statements inside it. -/
def executeForm (run : Place → Stmt → Eval Exit) (place : Place) (form : StmtForm) : Eval Exit := do
  match form with
  | .var declarators =>
    executeVars engine declarators
    return .normal none
  | .lexical _ declarators =>
    executeLexical engine declarators
    return .normal none
  | .function _ | .empty | .debugger => return .normal none
  | .expr e => return .normal (some (← engine.evaluate e))
  | .block b => executeBlock (run place.inside) b
  | .cond test yes no =>
    if (← engine.evaluate test).toBoolean then run place.inside yes
    else match no with
      | some no => run place.inside no
      | none => return .normal none
  | .whileLoop test body => whileRounds engine (run place.inLoop) test body none engine.rounds
  | .doWhile body test => doRounds engine (run place.inLoop) body test none engine.rounds
  | .forLoop init test update body =>
    executeFor engine (run place.inLoop) place.labels init test update body
  | .forIn target object body => executeForIn engine (run place.inLoop) target object body
  | .ret none => return .returned .undefined
  | .ret (some e) => return .returned (← engine.evaluate e)
  | .breakTo label => return .leave (place.breakDepth label) none
  | .continueTo label => return .again (place.continueDepth label) none
  | .throw e => throwValue (← engine.evaluate e)
  | .attempt block handler finalizer => executeTry (run place.inside) block handler finalizer
  | .labeled name body => return (← run (place.behind name) body).outward
  | .switch discriminant clauses names =>
    executeSwitch engine (run place.inChoice) discriminant clauses names
  | .withObject object body =>
    let id ← toObject (← engine.evaluate object)
    let environment ← newEnvironment (.ofObject id true (some (← lexicalEnvironment)))
    inEnvironment environment (run place.inside body)

/-- Runs a statement at a place with a number of steps. -/
def executeAt : Nat → Place → Stmt → Eval Exit
  | 0, _, _ => throw .exhausted
  | steps + 1, place, s => fun m => executeForm (engineAt steps) (executeAt steps) place s.form m

end Lexical

end ScriptEngine
