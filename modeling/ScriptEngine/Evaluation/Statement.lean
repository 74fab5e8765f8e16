import ScriptEngine.Evaluation.Expression
import ScriptEngine.KeyWalk

/-!
Execution of statements, one level at a time.
-/

namespace ScriptEngine

/-! ## Lists and blocks -/

/-- Runs statements in order up to the first that does not go on. -/
def executeAll (engine : Engine) (last : Option Value) : List Stmt → Eval Completion
  | [] => return .normal last
  | s :: rest => do
    match ← engine.execute [] s with
    | .normal value => executeAll engine (value <|> last) rest
    | c => return c.fillJump last

/-- A new environment inside the current one that holds names of `let` and `const`. -/
def newBlockEnvironment (names : List LexicalName) : Eval EnvironmentId := do
  newEnvironment ((Environment.declarative (some (← lexicalEnvironment))).createLexical names)

/-- Runs a block, in an environment of its own if it declares names. -/
def executeBlock (engine : Engine) (b : Block) : Eval Completion := do
  if b.lexical.isEmpty then executeAll engine none b.body
  else inEnvironment (← newBlockEnvironment b.lexical) (executeAll engine none b.body)

/-! ## Declarations -/

/-- Gives the names of a `var` statement their values. -/
def executeVars (engine : Engine) (declarators : List Declarator) : Eval Unit :=
  declarators.forM fun d => do
    match d.init with
    | none => return
    | some e =>
      let value ← engine.evaluate e
      putReference engine (← resolveName d.name) value

/-- The first value of a name of `let` or `const`. -/
def initialValue (engine : Engine) (d : Declarator) : Eval Value :=
  match d.init with
  | some e => engine.evaluate e
  | none => return .undefined

/-- Initializes the names of a `let` or `const` declaration in the current environment. -/
def executeLexical (engine : Engine) (declarators : List Declarator) : Eval Unit :=
  declarators.forM fun d => do
    let value ← initialValue engine d
    modifyEnvironment (← lexicalEnvironment) fun e => (e.initialize? d.name value).2

/-! ## Loops -/

/-- The test of a loop is met; one that is left out always is. -/
def testHolds (engine : Engine) (test : Option Expr) : Eval Bool :=
  match test with
  | some e => return (← engine.evaluate e).toBoolean
  | none => return true

/-- The rounds of a `while` loop. -/
def whileRounds (engine : Engine) (labels : List String) (test : Expr) (body : Stmt)
    (value : Option Value) : (rounds : Nat) → Eval Completion
  | 0 => throw .exhausted
  | rounds + 1 => do
    if (← engine.evaluate test).toBoolean then
      match loopStep labels value (← engine.execute [] body) with
      | .next value => whileRounds engine labels test body value rounds
      | .exit value => return .normal value
      | .propagate c => return c
    else return .normal value

/-- The rounds of a `do` loop. -/
def doRounds (engine : Engine) (labels : List String) (body : Stmt) (test : Expr)
    (value : Option Value) : (rounds : Nat) → Eval Completion
  | 0 => throw .exhausted
  | rounds + 1 => do
    match loopStep labels value (← engine.execute [] body) with
    | .next value =>
      if (← engine.evaluate test).toBoolean then doRounds engine labels body test value rounds
      else return .normal value
    | .exit value => return .normal value
    | .propagate c => return c

/-- An environment in which some names have the values that they have in another one. -/
def copyNames (source target : Environment) (names : List String) : Environment :=
  names.foldl (fun e name =>
    e.declare name (((source.binding? name).map Binding.value).getD .undefined)) target

/-- Gives the next round of a loop bindings of its own, with the values of the round before. -/
def freshIteration (names : List String) (outer : EnvironmentId) : Eval Unit := do
  unless names.isEmpty do
    let current ← getEnvironment (← lexicalEnvironment)
    let fresh ← newEnvironment (copyNames current (.declarative (some outer)) names)
    setLexicalEnvironment fresh

/-- The parts of a `for` loop that are the same in each round: the names that each round binds anew,
and the environment around the loop. -/
structure ForLoop where
  labels : List String
  test : Option Expr
  update : Option Expr
  body : Stmt
  names : List String
  outer : EnvironmentId

/-- The rounds of a `for` loop. -/
def forRounds (engine : Engine) (l : ForLoop) (value : Option Value) :
    (rounds : Nat) → Eval Completion
  | 0 => throw .exhausted
  | rounds + 1 => do
    if ← testHolds engine l.test then
      match loopStep l.labels value (← engine.execute [] l.body) with
      | .next value =>
        freshIteration l.names l.outer
        l.update.forM fun e => discard (engine.evaluate e)
        forRounds engine l value rounds
      | .exit value => return .normal value
      | .propagate c => return c
    else return .normal value

/-- All rounds of a `for` loop, of which the first has bindings of its own too. -/
def runForLoop (engine : Engine) (l : ForLoop) : Eval Completion := do
  freshIteration l.names l.outer
  forRounds engine l none engine.rounds

/-- A `for` statement. -/
def executeFor (engine : Engine) (labels : List String) (init : Option ForInit)
    (test update : Option Expr) (body : Stmt) : Eval Completion := do
  let outer ← lexicalEnvironment
  let loop (names : List String) : Eval Completion :=
    runForLoop engine ⟨labels, test, update, body, names, outer⟩
  match init with
  | none => loop []
  | some (.vars declarators) =>
    executeVars engine declarators
    loop []
  | some (.expr e) =>
    discard (engine.evaluate e)
    loop []
  | some (.lexical constant declarators) =>
    let names := declarators.map Declarator.name
    let environment ← newBlockEnvironment (names.map (⟨·, constant⟩))
    inEnvironment environment (executeLexical engine declarators)
    inEnvironment environment (loop (if constant then [] else names))

/-- Gives a key to what a `for`-`in` loop assigns to, and runs its body. -/
def forInBody (engine : Engine) (target : ForInTarget) (key : Value) (body : Stmt) :
    Eval Completion := do
  match target with
  | .var name =>
    putReference engine (← resolveName name) key
    engine.execute [] body
  | .expr e =>
    putReference engine (← evaluateReference engine e) key
    engine.execute [] body
  | .lexical constant name =>
    let environment ← newBlockEnvironment [⟨name, constant⟩]
    modifyEnvironment environment fun e => (e.initialize? name key).2
    inEnvironment environment (engine.execute [] body)

/-- The rounds of a `for`-`in` loop. -/
def forInRounds (engine : Engine) (labels : List String) (target : ForInTarget) (body : Stmt)
    (walk : KeyWalk) (value : Option Value) : (rounds : Nat) → Eval Completion
  | 0 => throw .exhausted
  | rounds + 1 => do
    match ← askHeap walk.next with
    | (none, _) => return .normal value
    | (some key, walk) =>
      match loopStep labels value (← forInBody engine target (.string key) body) with
      | .next value => forInRounds engine labels target body walk value rounds
      | .exit value => return .normal value
      | .propagate c => return c

/-- A `for`-`in` statement. Over a value that stands for nothing there are no keys. -/
def executeForIn (engine : Engine) (labels : List String) (target : ForInTarget) (object : Expr)
    (body : Stmt) : Eval Completion := do
  let subject ← engine.evaluate object
  if subject.isNullish then return .empty
  let id ← toObject subject
  forInRounds engine labels target body (.start id) none engine.rounds

/-! ## Choices and handlers -/

/-- The clauses from the first on whose test gives a value. -/
def selectClause (engine : Engine) (value : Value) : List SwitchClause → Eval (List SwitchClause)
  | [] => return []
  | c :: rest => do
    match c.test with
    | none => selectClause engine value rest
    | some test =>
      if value.strictEquals (← engine.evaluate test) then return c :: rest
      else selectClause engine value rest

/-- Runs the statements of clauses in order. -/
def executeClauses (engine : Engine) (last : Option Value) : List SwitchClause → Eval Completion
  | [] => return .normal last
  | c :: rest => do
    match ← executeAll engine none c.body with
    | .normal value => executeClauses engine (value <|> last) rest
    | c => return c.fillJump last

/-- Runs the clauses that a value selects; if none, the default one and those behind it. -/
def executeSelected (engine : Engine) (value : Value) (clauses : List SwitchClause) :
    Eval Completion := do
  let selected ← selectClause engine value clauses
  let selected := if selected.isEmpty then clauses.dropWhile (·.test.isSome) else selected
  executeClauses engine none selected

/-- A `switch` statement, at which jumps without a label and with one of its labels end. -/
def executeSwitch (engine : Engine) (labels : List String) (discriminant : Expr)
    (clauses : List SwitchClause) (names : List LexicalName) : Eval Completion := do
  let value ← engine.evaluate discriminant
  let completion ←
    if names.isEmpty then executeSelected engine value clauses
    else inEnvironment (← newBlockEnvironment names) (executeSelected engine value clauses)
  match completion with
  | .broke label produced =>
    if Completion.owns labels label then return .normal produced else return completion
  | _ => return completion

/-- Runs the handler of a `try` statement for a thrown value. -/
def executeHandler (engine : Engine) (handler : Handler) (thrown : Value) : Eval Completion := do
  let outer ← lexicalEnvironment
  let environment ←
    newEnvironment ((Environment.declarative (some outer)).declare handler.parameter thrown)
  inEnvironment environment (executeBlock engine handler.body)

/-- The outcome of a block after its handler, which only a thrown value reaches. -/
def handled (engine : Engine) (handler : Option Handler) (outcome : Except Abrupt Completion) :
    Eval (Except Abrupt Completion) :=
  match handler, outcome with
  | some handler, .error (.thrown value) => attempt (executeHandler engine handler value)
  | _, _ => return outcome

/-- No script may go on after an outcome. -/
def isFatal (outcome : Except Abrupt Completion) : Bool :=
  match outcome with
  | .error (.thrown _) => false
  | .error _ => true
  | .ok _ => false

/-- A `try` statement. A finalizer that does not go on takes the place of what went before. -/
def executeTry (engine : Engine) (block : Block) (handler : Option Handler)
    (finalizer : Option Block) : Eval Completion := do
  let outcome ← handled engine handler (← attempt (executeBlock engine block))
  let settled : Eval Completion := resume (outcome.map Completion.orUndefined)
  match finalizer with
  | none => settled
  | some finalizer =>
    if isFatal outcome then resume outcome
    else
      let last ← executeBlock engine finalizer
      if last.isAbrupt then return last else settled

/-! ## Statements -/

/-- Runs a statement that has some labels. -/
def executeForm (engine : Engine) (labels : List String) (form : StmtForm) : Eval Completion := do
  match form with
  | .var declarators =>
    executeVars engine declarators
    return .empty
  | .lexical _ declarators =>
    executeLexical engine declarators
    return .empty
  | .function _ | .empty | .debugger => return .empty
  | .expr e => return .normal (some (← engine.evaluate e))
  | .block b => executeBlock engine b
  | .cond test yes no =>
    if (← engine.evaluate test).toBoolean then engine.execute [] yes
    else match no with
      | some no => engine.execute [] no
      | none => return .empty
  | .whileLoop test body => whileRounds engine labels test body none engine.rounds
  | .doWhile body test => doRounds engine labels body test none engine.rounds
  | .forLoop init test update body => executeFor engine labels init test update body
  | .forIn target object body => executeForIn engine labels target object body
  | .ret none => return .returned .undefined
  | .ret (some e) => return .returned (← engine.evaluate e)
  | .breakTo label => return .broke label none
  | .continueTo label => return .continued label none
  | .throw e => throwValue (← engine.evaluate e)
  | .attempt block handler finalizer => executeTry engine block handler finalizer
  | .labeled label body =>
    match ← engine.execute (label :: labels) body with
    | .broke (some target) value =>
      if target == label then return .normal value else return .broke (some target) value
    | c => return c
  | .switch discriminant clauses names => executeSwitch engine labels discriminant clauses names
  | .withObject object body =>
    let id ← toObject (← engine.evaluate object)
    let environment ← newEnvironment (.ofObject id true (some (← lexicalEnvironment)))
    inEnvironment environment (engine.execute [] body)

end ScriptEngine
