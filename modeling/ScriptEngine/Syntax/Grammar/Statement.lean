import ScriptEngine.Syntax.Grammar.Expression

/-!
The grammar of statements and declarations, with the checks of jumps and labels. Like the rules for
expressions these are single steps over the rules for one level of nesting less.
-/

namespace ScriptEngine.Grammar

/-- An expression between parentheses behind a keyword. -/
def parenthesized (rules : Rules) (opening closing : String) : Reader Expr := do
  expectMark .openParen opening
  let e ← expression rules false
  expectMark .closeParen closing
  return e

/-- Items are left before a closing brace. -/
def ReadingState.beforeBrace (s : ReadingState) : Bool :=
  s.current.kind != .mark .closeBrace && s.current.kind != .endOfInput

/-- A block between braces. -/
def block (rules : Rules) : Reader Block := do
  expectMark .openBrace "`\x7b` to start block"
  let (items, names) ← withBlock (readWhile rules.levels ReadingState.beforeBrace rules.item [])
  expectMark .closeBrace "`\x7d` to close block"
  return ⟨items, names⟩

/-! ## Declarations -/

/-- One name of a `var` statement. -/
def varDeclarator (rules : Rules) (noIn : Bool) : Reader Declarator := do
  let start := (← peek).span.start
  let name ← bindingName "variable name"
  let init ← if ← acceptMark .assign then some <$> rules.assignment noIn else pure none
  modifyBody (·.addVar name)
  return ⟨name, init, ← spanFrom start⟩

def varDeclarators (rules : Rules) (noIn : Bool) : Reader (List Declarator) :=
  readSeparated rules.levels (varDeclarator rules noIn) []

/-- Enters a name of `let` or `const` into the innermost block, which may not hold it yet. -/
def declareLexical (token : Token) (name : LexicalName) : Reader Unit := do
  if (← get).body.innerBlock.any (·.name == name.name) then
    failAt token.span (.duplicateDeclaration name.name)
  modifyBody (·.addLexical name)

/-- One name of a `let` or `const` declaration. The head of a `for` statement declares its names in
no block, and only the head of a `for`-`in` statement may leave a constant without a value. -/
def lexicalDeclarator (rules : Rules) (constant inForHead valueRequired : Bool) :
    Reader Declarator := do
  let token ← peek
  let name ← bindingName "variable name"
  if name == "let" then failAt token.span .letAsName
  let init ← if ← acceptMark .assign then some <$> rules.assignment inForHead else pure none
  if constant && valueRequired && init.isNone then failAt token.span .constWithoutValue
  unless inForHead do declareLexical token ⟨name, constant⟩
  return ⟨name, init, ← spanFrom token.span.start⟩

def lexicalDeclarators (rules : Rules) (constant inForHead valueRequired : Bool) :
    Reader (List Declarator) :=
  readSeparated rules.levels (lexicalDeclarator rules constant inForHead valueRequired) []

/-- A function declaration. -/
def functionDeclaration (rules : Rules) : Reader Stmt := do
  let start := (← advance).span.start
  let code ← functionRest rules .declaration start
  modifyBody (·.addFunction code)
  return ⟨.function code, ← spanFrom start⟩

/-- The keyword of a declaration of block names, and whether they are constants. -/
def lexicalKeyword? (kind : TokenKind) : Option Bool :=
  match kind with
  | .keyword .«let» => some false
  | .keyword .«const» => some true
  | _ => none

/-! ## Loops -/

/-- One loop less is around. -/
def leaveLoop : Reader Unit := do
  match (← get).body.iterationDepth with
  | 0 => broken
  | depth + 1 => modifyBody fun b => { b with iterationDepth := depth }

/-- The body of a loop. -/
def loopBody (rules : Rules) : Reader Stmt := do
  modifyBody fun b => { b with iterationDepth := b.iterationDepth + 1 }
  let body ← rules.statement
  leaveLoop
  return body

/-- The rest of a `for`-`in` statement behind what it assigns to. -/
def forInRest (rules : Rules) (target : ForInTarget) : Reader StmtForm := do
  expectKeyword .«in» "`in`"
  let object ← expression rules false
  expectMark .closeParen "`)` after for-in object"
  return .forIn target object (← loopBody rules)

/-- The one name that the head of a `for`-`in` statement may declare, without a value. -/
def singleBinding (declarators : List Declarator) : Reader String := do
  match declarators with
  | [⟨name, none, _⟩] => return name
  | _ => failHere .badForInBinding

/-- An expression unless a given mark comes next. -/
def optionalExpression (rules : Rules) (stop : Mark) : Reader (Option Expr) := do
  if ← checkMark stop then return none else some <$> expression rules false

/-- The rest of a `for` statement behind what it begins with. -/
def forRest (rules : Rules) (init : Option ForInit) : Reader StmtForm := do
  expectMark .semicolon "`;` after for initializer"
  let test ← optionalExpression rules .semicolon
  expectMark .semicolon "`;` after for condition"
  let update ← optionalExpression rules .closeParen
  expectMark .closeParen "`)` after for clauses"
  return .forLoop init test update (← loopBody rules)

/-- A `for` statement of either kind, behind its keyword. -/
def forStatement (rules : Rules) : Reader StmtForm := do
  expectMark .openParen "`(` after `for`"
  let token ← peek
  if token.kind == .keyword .«var» then
    discard advance
    let declarators ← varDeclarators rules true
    if ← checkKeyword .«in» then forInRest rules (.var (← singleBinding declarators))
    else forRest rules (some (.vars declarators))
  else match lexicalKeyword? token.kind with
  | some constant =>
    discard advance
    let beforeIn := ((← get).tokenAt 1).kind == .keyword .«in»
    let declarators ← lexicalDeclarators rules constant true !beforeIn
    if ← checkKeyword .«in» then forInRest rules (.lexical constant (← singleBinding declarators))
    else forRest rules (some (.lexical constant declarators))
  | none =>
    if token.kind == .mark .semicolon then forRest rules none
    else
      let e ← expression rules true
      if ← checkKeyword .«in» then
        checkTarget e
        forInRest rules (.expr e)
      else forRest rules (some (.expr e))

/-! ## Jumps -/

/-- The label of a jump, on the same line. -/
def optionalLabel : Reader (Option String) := do
  let token ← peek
  if token.kind == .identifier && !token.newlineBefore then
    discard advance
    return some token.lexeme
  else return none

/-- A jump to the next round of a loop around it. -/
def continueStatement : Reader StmtForm := do
  let keyword ← advance
  let label ← optionalLabel
  let body := (← get).body
  match label with
  | some name =>
    match body.labels.find? (·.name == name) with
    | some entry => unless entry.iteration do failAt keyword.span (.labelNotIteration name)
    | none => failAt keyword.span (.undefinedLabel name)
  | none => if body.iterationDepth == 0 then failAt keyword.span .strayContinue
  endStatement
  return .continueTo label

/-- A jump behind a statement around it. -/
def breakStatement : Reader StmtForm := do
  let keyword ← advance
  let label ← optionalLabel
  let body := (← get).body
  match label with
  | some name =>
    unless body.labels.any (·.name == name) do failAt keyword.span (.undefinedLabel name)
  | none =>
    if body.iterationDepth == 0 && body.switchDepth == 0 then failAt keyword.span .strayBreak
  endStatement
  return .breakTo label

/-- Tokens begin with labels, and a loop follows them. -/
def labelsLoop : List Token → Bool
  | [] => false
  | [t] => t.kind == .keyword .«for» || t.kind == .keyword .«while» || t.kind == .keyword .«do»
  | t :: next :: rest =>
    if t.kind == .identifier && next.kind == .mark .colon then labelsLoop rest
    else t.kind == .keyword .«for» || t.kind == .keyword .«while» || t.kind == .keyword .«do»

/-- A statement with a label before it. -/
def labeledStatement (rules : Rules) : Reader StmtForm := do
  let token ← advance
  discard advance
  let label := token.lexeme
  let s ← get
  if s.body.labels.any (·.name == label) then failAt token.span (.duplicateLabel label)
  let entry : LabelEntry := ⟨label, labelsLoop (s.current :: s.upcoming)⟩
  modifyBody fun b => { b with labels := entry :: b.labels }
  let body ← rules.statement
  modifyBody fun b => { b with labels := b.labels.tail }
  return .labeled label body

/-! ## Choices and handlers -/

/-- Statements of a clause are left. -/
def ReadingState.inClause (s : ReadingState) : Bool :=
  s.current.kind != .keyword .«case» && s.current.kind != .keyword .«default» && s.beforeBrace

/-- The clauses of a `switch` statement up to its closing brace. -/
def switchClauses (rules : Rules) (fuel : Nat) (seenDefault : Bool) (done : List SwitchClause) :
    Reader (List SwitchClause) := do
  match fuel with
  | 0 => broken
  | fuel + 1 =>
    unless (← get).beforeBrace do return done.reverse
    let token ← advance
    let test ← match token.kind with
      | .keyword .«case» => some <$> expression rules false
      | .keyword .«default» =>
        if seenDefault then failAt token.span .duplicateDefault
        pure none
      | _ => failAt token.span (.expected "`case` or `default`")
    expectMark .colon "`:` after case"
    let body ← readWhile rules.levels ReadingState.inClause rules.item []
    switchClauses rules fuel (seenDefault || test.isNone) (⟨test, body⟩ :: done)

/-- One `switch` statement less is around. -/
def leaveSwitch : Reader Unit := do
  match (← get).body.switchDepth with
  | 0 => broken
  | depth + 1 => modifyBody fun b => { b with switchDepth := depth }

/-- A `switch` statement behind its keyword. -/
def switchStatement (rules : Rules) : Reader StmtForm := do
  let discriminant ← parenthesized rules "`(` after `switch`" "`)` after switch discriminant"
  expectMark .openBrace "`\x7b` to start switch body"
  modifyBody fun b => { b with switchDepth := b.switchDepth + 1 }
  let (clauses, names) ← withBlock (switchClauses rules rules.levels false [])
  leaveSwitch
  expectMark .closeBrace "`\x7d` to close switch body"
  return .switch discriminant clauses names

/-- A `try` statement, which has a handler or a finalizer or both. -/
def tryStatement (rules : Rules) : Reader StmtForm := do
  let keyword ← advance
  let body ← block rules
  let handler ←
    if ← acceptKeyword .«catch» then
      expectMark .openParen "`(` after `catch`"
      let parameter ← bindingName "catch parameter"
      expectMark .closeParen "`)` after catch parameter"
      pure (some ⟨parameter, ← block rules⟩)
    else pure none
  let finalizer ← if ← acceptKeyword .«finally» then some <$> block rules else pure none
  if handler.isNone && finalizer.isNone then failAt keyword.span .tryAlone
  return .attempt body handler finalizer

/-- A choice between statements, behind its keyword. -/
def ifStatement (rules : Rules) : Reader StmtForm := do
  let test ← parenthesized rules "`(` after `if`" "`)` after condition"
  let yes ← rules.statement
  let no ← if ← acceptKeyword .«else» then some <$> rules.statement else pure none
  return .cond test yes no

/-! ## Statements -/

/-- What a statement is, apart from where it stands; function declarations are read elsewhere. -/
def statementForm (rules : Rules) (token : Token) : Reader StmtForm := do
  match token.kind with
  | .mark .openBrace => return .block (← block rules)
  | .mark .semicolon => discard advance; return .empty
  | .keyword .«var» =>
    discard advance
    let declarators ← varDeclarators rules false
    endStatement
    return .var declarators
  | .keyword .«let» | .keyword .«const» => failAt token.span .declarationAsStatement
  | .keyword .«if» => discard advance; ifStatement rules
  | .keyword .«while» =>
    discard advance
    let test ← parenthesized rules "`(` after `while`" "`)` after loop condition"
    return .whileLoop test (← loopBody rules)
  | .keyword .«do» =>
    discard advance
    let body ← loopBody rules
    expectKeyword .«while» "`while` after `do` body"
    let test ← parenthesized rules "`(` after `while`" "`)` after loop condition"
    discard (acceptMark .semicolon)
    return .doWhile body test
  | .keyword .«for» => discard advance; forStatement rules
  | .keyword .«continue» => continueStatement
  | .keyword .«break» => breakStatement
  | .keyword .«return» =>
    discard advance
    let s ← get
    if s.outerBodies.isEmpty then failAt token.span .returnOutsideFunction
    let value ← if s.atStatementEnd then pure none else some <$> expression rules false
    endStatement
    return .ret value
  | .keyword .«with» =>
    if ← isStrict then failAt token.span .withInStrictCode
    discard advance
    let object ← parenthesized rules "`(` after `with`" "`)` after with object"
    return .withObject object (← rules.statement)
  | .keyword .«switch» => discard advance; switchStatement rules
  | .keyword .«throw» =>
    discard advance
    if (← peek).newlineBefore then failHere .newlineAfterThrow
    let value ← expression rules false
    endStatement
    return .throw value
  | .keyword .«try» => tryStatement rules
  | .keyword .«debugger» =>
    discard advance
    endStatement
    return .debugger
  | kind =>
    if kind == .identifier && ((← get).tokenAt 1).kind == .mark .colon then labeledStatement rules
    else
      let e ← expression rules false
      endStatement
      return .expr e

/-- A statement; a function declaration counts as one. -/
def statement (rules : Rules) : Reader Stmt := do
  let token ← peek
  if token.kind == .keyword .«function» then functionDeclaration rules
  else
    let form ← statementForm rules token
    return ⟨form, ← spanFrom token.span.start⟩

/-- A statement or a declaration of block names. -/
def item (rules : Rules) : Reader Stmt := do
  let token ← peek
  match lexicalKeyword? token.kind with
  | some constant =>
    discard advance
    let declarators ← lexicalDeclarators rules constant false true
    endStatement
    return ⟨.lexical constant declarators, ← spanFrom token.span.start⟩
  | none => statement rules

end ScriptEngine.Grammar
