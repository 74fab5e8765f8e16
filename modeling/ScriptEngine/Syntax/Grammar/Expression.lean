import ScriptEngine.Number.Literal
import ScriptEngine.Number.Text
import ScriptEngine.Syntax.Grammar.State

/-!
The grammar of expressions and of functions. What a rule needs of the rules above it, it takes from a
`Rules`, so that each definition here is a single step; the recursion is closed in one place, where the
rules for `n + 1` levels of nesting are built from those for `n`.
-/

namespace ScriptEngine.Grammar

/-- The rules that others go back to. The flag of an expression says that the operator `in` does not
belong to it, as in the head of a `for` statement. -/
structure Rules where
  /-- The levels of nesting that are left, which also bound the length of a list. -/
  levels : Nat
  assignment : (noIn : Bool) → Reader Expr
  /-- Binary operators of a precedence at least as high as given. -/
  binary : (precedence : Nat) → (noIn : Bool) → Reader Expr
  unary : Reader Expr
  newExpression : Reader Expr
  statement : Reader Stmt
  /-- A statement or a declaration. -/
  item : Reader Stmt

/-! ## Operators -/

/-- An operator between two operands. -/
inductive InfixOp where
  | binary (op : BinaryOp)
  | logical (op : LogicalOp)

/-- The expression that an operator forms with its operands. -/
def InfixOp.apply (op : InfixOp) (left right : Expr) : Expr :=
  ⟨match op with
    | .binary op => .binary op left right
    | .logical op => .logical op left right,
    left.span.cover right.span⟩

/-- The operators between operands and their precedence; higher ones bind more closely. -/
def infixOp? (noIn : Bool) (kind : TokenKind) : Option (Nat × InfixOp) :=
  match kind with
  | .mark .or => some (1, .logical .or)
  | .mark .and => some (2, .logical .and)
  | .mark .bitOr => some (3, .binary .bitOr)
  | .mark .bitXor => some (4, .binary .bitXor)
  | .mark .bitAnd => some (5, .binary .bitAnd)
  | .mark .equal => some (6, .binary .equal)
  | .mark .unequal => some (6, .binary .notEqual)
  | .mark .strictEqual => some (6, .binary .strictEqual)
  | .mark .strictUnequal => some (6, .binary .strictNotEqual)
  | .mark .less => some (7, .binary .less)
  | .mark .lessEqual => some (7, .binary .lessEqual)
  | .mark .greater => some (7, .binary .greater)
  | .mark .greaterEqual => some (7, .binary .greaterEqual)
  | .keyword .«instanceof» => some (7, .binary .instanceOf)
  | .keyword .«in» => if noIn then none else some (7, .binary .isIn)
  | .mark .leftShift => some (8, .binary .shiftLeft)
  | .mark .rightShift => some (8, .binary .shiftRight)
  | .mark .unsignedShift => some (8, .binary .unsignedShiftRight)
  | .mark .plus => some (9, .binary .add)
  | .mark .minus => some (9, .binary .sub)
  | .mark .times => some (10, .binary .mul)
  | .mark .divide => some (10, .binary .div)
  | .mark .modulo => some (10, .binary .mod)
  | _ => none

/-- The operators of assignment, each with the operator that is applied before the value is stored. -/
def assignOp? (kind : TokenKind) : Option (Option BinaryOp) :=
  match kind with
  | .mark .assign => some none
  | .mark .plusAssign => some (some .add)
  | .mark .minusAssign => some (some .sub)
  | .mark .timesAssign => some (some .mul)
  | .mark .divideAssign => some (some .div)
  | .mark .moduloAssign => some (some .mod)
  | .mark .leftShiftAssign => some (some .shiftLeft)
  | .mark .rightShiftAssign => some (some .shiftRight)
  | .mark .unsignedShiftAssign => some (some .unsignedShiftRight)
  | .mark .andAssign => some (some .bitAnd)
  | .mark .orAssign => some (some .bitOr)
  | .mark .xorAssign => some (some .bitXor)
  | _ => none

/-- The operators before their operand. -/
def unaryOp? (kind : TokenKind) : Option UnaryOp :=
  match kind with
  | .keyword .«delete» => some .delete
  | .keyword .«void» => some .void
  | .keyword .«typeof» => some .typeOf
  | .mark .plus => some .plus
  | .mark .minus => some .negate
  | .mark .bitNot => some .bitNot
  | .mark .not => some .not
  | _ => none

/-- The operators that change their operand. -/
def updateOp? (kind : TokenKind) : Option UpdateOp :=
  match kind with
  | .mark .increment => some .increment
  | .mark .decrement => some .decrement
  | _ => none

/-- Only names and properties can be assigned; strict code leaves `eval` and `arguments` alone. -/
def checkTarget (target : Expr) : Reader Unit := do
  match target.form with
  | .identifier name =>
    if (← isStrict) && isRestrictedName name then failAt target.span (.strictName name)
  | .member .. | .index .. => return
  | _ => failAt target.span .badAssignmentTarget

/-- An expression with commas. -/
def expression (rules : Rules) (noIn : Bool) : Reader Expr := do
  let first ← rules.assignment noIn
  unless ← checkMark .comma do return first
  discard advance
  let rest ← readSeparated rules.levels (rules.assignment noIn) []
  return ⟨.sequence (first :: rest), ← spanFrom first.span.start⟩

/-! ## Functions -/

/-- A statement that is a string and nothing else. -/
def isDirective (token : Token) (statement : Stmt) : Bool :=
  match statement.form with
  | .expr ⟨.literal (.string _), span⟩ => span == token.span
  | _ => false

/-- The text between the quotes of a directive. What is shorter than two quotes has none. -/
def directiveText? (text : List Char) : Option (List Char) :=
  if byteLength text < 2 then some [] else Span.slice? ⟨1, byteLength text - 1⟩ text

/-- The directive that makes code strict, written without escapes between quotes of either kind. -/
def strictDirective : List Char :=
  "use strict".toList

/-- Makes the body strict code if a token of it, which is a directive, says so. -/
def obeyDirective (token : Token) : Reader Unit := do
  match (token.span.slice? (← get).source).bind directiveText? with
  | some text => if text == strictDirective then modifyBody fun b => { b with strict := true }
  | none => broken

/-- The statements of a body up to its end. Strings that stand alone at the front are directives. -/
def bodyItems (rules : Rules) (fuel : Nat) (stop : TokenKind) (inPrologue : Bool)
    (done : List Stmt) : Reader (List Stmt) := do
  match fuel with
  | 0 => broken
  | fuel + 1 =>
    let token ← peek
    if token.kind == stop || token.kind == .endOfInput then return done.reverse
    let statement ← rules.item
    let directive := inPrologue && token.kind == .string && isDirective token statement
    if directive then obeyDirective token
    bodyItems rules fuel stop directive (statement :: done)

/-- Parameters with the tokens that name them, between parentheses. -/
def parameterList (rules : Rules) : Reader (List (String × Token)) := do
  expectMark .openParen "`(` before parameters"
  let parameter : Reader (String × Token) := do
    let token ← peek
    return (← bindingName "parameter name", token)
  let parameters ←
    if ← checkMark .closeParen then pure [] else readSeparated rules.levels parameter []
  expectMark .closeParen "`)` after parameters"
  return parameters

/-- Strict functions have distinct parameters, none with a forbidden name. -/
def checkStrictParameters (earlier : List String) : List (String × Token) → Reader Unit
  | [] => return
  | (name, token) :: rest => do
    if isStrictForbidden name then failAt token.span (.strictName name)
    if earlier.contains name then failAt token.span .duplicateParameter
    checkStrictParameters (name :: earlier) rest

/-- The body of a function between braces, and the function that it completes. -/
def functionBody (rules : Rules) (name : Option String) (kind : FunctionKind)
    (parameters : List (String × Token)) (start : Nat) : Reader FunctionCode := do
  expectMark .openBrace "`\x7b` before function body"
  let (statements, body) ← withBody (kind == .arrow) (← isStrict)
    (bodyItems rules rules.levels (.mark .closeBrace) true [])
  expectMark .closeBrace "`\x7d` after function body"
  if body.strict then checkStrictParameters [] parameters
  return {
    name, kind
    parameters := parameters.map Prod.fst
    body := statements
    strict := body.strict
    scope := body.names
    usesArguments := body.usesArguments
    source := ← sourceFrom start
    span := ← spanFrom start }

/-- The rest of a function behind its keyword. Only an expression may leave the name out. -/
def functionRest (rules : Rules) (kind : FunctionKind) (start : Nat) : Reader FunctionCode := do
  let name ←
    if ← check .identifier then some <$> bindingName "function name"
    else if kind == .declaration then failHere .functionWithoutName
    else pure none
  let parameters ← parameterList rules
  functionBody rules name kind parameters start

/-- The rest of an arrow function behind its parameters. A body without braces is the value that it
returns. -/
def arrowRest (rules : Rules) (parameters : List (String × Token)) (start : Nat) :
    Reader Expr := do
  expectMark .arrow "`=>`"
  let code ←
    if ← checkMark .openBrace then functionBody rules none .arrow parameters start
    else
      let strict ← isStrict
      let (value, body) ← withBody true strict (rules.assignment false)
      if strict then checkStrictParameters [] parameters
      pure {
        name := none
        kind := .arrow
        parameters := parameters.map Prod.fst
        body := [⟨.ret (some value), value.span⟩]
        strict
        scope := body.names
        usesArguments := false
        source := ← sourceFrom start
        span := ← spanFrom start : FunctionCode }
  return ⟨.function code, ← spanFrom start⟩

/-- Looks past the parentheses at the front of a list of tokens, `depth` of which are open: the next
token is an arrow on the same line. There is no answer if more are closed than were opened. -/
def arrowFollows? (depth : Nat) : List Token → Option Bool
  | [] => some false
  | t :: rest =>
    match t.kind, depth with
    | .mark .openParen, depth => arrowFollows? (depth + 1) rest
    | .mark .closeParen, 0 => none
    | .mark .closeParen, 1 =>
      some (rest.head?.any fun next => next.kind == .mark .arrow && !next.newlineBefore)
    | .mark .closeParen, depth + 1 => arrowFollows? depth rest
    | .endOfInput, _ => some false
    | _, depth => arrowFollows? depth rest

/-- What comes next is a single parameter with an arrow behind it. -/
def ReadingState.atSingleParameter (s : ReadingState) : Bool :=
  let next := s.tokenAt 1
  s.current.kind == .identifier && next.kind == .mark .arrow && !next.newlineBefore

/-- What comes next is a list of parameters with an arrow behind it. -/
def atParameterList : Reader Bool := do
  let s ← get
  if s.current.kind == .mark .openParen then
    match arrowFollows? 0 (s.current :: s.upcoming) with
    | some follows => return follows
    | none => broken
  else return false

/-! ## Literals -/

/-- The elements of an array up to its closing bracket. -/
def arrayElements (rules : Rules) (fuel : Nat) (done : List (Option Expr)) :
    Reader (List (Option Expr)) := do
  match fuel with
  | 0 => broken
  | fuel + 1 =>
    if ← acceptMark .closeBracket then return done.reverse
    if ← acceptMark .comma then return ← arrayElements rules fuel (none :: done)
    let element ← rules.assignment false
    unless ← checkMark .closeBracket do
      expectMark .comma "`,` or `]` in array literal"
    arrayElements rules fuel (some element :: done)

/-- The name of a property: any word, a string, or a number. -/
def propertyName : Reader String := do
  let token ← advance
  match token.kind with
  | .identifier | .keyword _ | .string => return token.lexeme
  | .number => return toString (Number.ofLiteral token.lexeme)
  | _ => failAt token.span (.expected "property name")

/-- A token that `get` or `set` may stand before without beginning an accessor. -/
def endsPropertyName (kind : TokenKind) : Bool :=
  kind == .mark .colon || kind == .mark .comma || kind == .mark .closeBrace ||
    kind == .mark .openParen

/-- A property of an object literal. -/
def objectEntry (rules : Rules) : Reader Entry := do
  let s ← get
  let token := s.current
  let start := token.span.start
  let isGetter := token.lexeme == "get"
  if token.kind == .identifier && (isGetter || token.lexeme == "set") &&
      !endsPropertyName (s.tokenAt 1).kind then
    discard advance
    let key ← propertyName
    let parameters ← parameterList rules
    if isGetter then
      unless parameters.isEmpty do failAt token.span .getterParameters
    else
      unless parameters.length == 1 do failAt token.span .setterParameters
    let code ← functionBody rules none .expression parameters start
    return ⟨key, if isGetter then .getter code else .setter code, ← spanFrom start⟩
  let key ← propertyName
  expectMark .colon "`:` after property name"
  let value ← rules.assignment false
  return ⟨key, .value value, ← spanFrom start⟩

/-- The properties of an object literal up to its closing brace. -/
def objectEntries (rules : Rules) (fuel : Nat) (done : List Entry) : Reader (List Entry) := do
  match fuel with
  | 0 => broken
  | fuel + 1 =>
    if ← acceptMark .closeBrace then return done.reverse
    let entry ← objectEntry rules
    unless ← checkMark .closeBrace do
      expectMark .comma "`,` or `\x7d` in object literal"
    objectEntries rules fuel (entry :: done)

/-! ## Expressions -/

/-- The smallest expressions: names, literals, functions, and expressions in parentheses. -/
def primary (rules : Rules) : Reader Expr := do
  let token ← peek
  let complete (form : ExprForm) : Reader Expr := return ⟨form, ← spanFrom token.span.start⟩
  match token.kind with
  | .keyword .«this» => discard advance; complete .this
  | .identifier =>
    discard advance
    if token.lexeme == "arguments" then mentionArguments
    complete (.identifier token.lexeme)
  | .number =>
    discard advance
    if token.legacyOctal && (← isStrict) then failAt token.span .octalNumber
    complete (.literal (.number (Number.ofLiteral token.lexeme)))
  | .string =>
    discard advance
    if token.legacyOctal && (← isStrict) then failAt token.span .octalEscape
    complete (.literal (.string token.lexeme))
  | .keyword .«true» => discard advance; complete (.literal (.boolean true))
  | .keyword .«false» => discard advance; complete (.literal (.boolean false))
  | .keyword .«null» => discard advance; complete (.literal .null)
  | .keyword .«function» =>
    discard advance
    complete (.function (← functionRest rules .expression token.span.start))
  | .mark .openParen =>
    discard advance
    let inner ← expression rules false
    expectMark .closeParen "`)` after expression"
    return inner
  | .mark .openBracket =>
    discard advance
    complete (.array (← arrayElements rules rules.levels []))
  | .mark .openBrace =>
    discard advance
    complete (.object (← objectEntries rules rules.levels []))
  | .endOfInput => failAt token.span .unexpectedEnd
  | _ => failAt token.span (.unexpectedToken token.lexeme)

/-- The arguments of a call between parentheses. -/
def argumentList (rules : Rules) : Reader (List Expr) := do
  expectMark .openParen "`(`"
  let items ←
    if ← checkMark .closeParen then pure []
    else readSeparated rules.levels (rules.assignment false) []
  expectMark .closeParen "`)` after arguments"
  return items

/-- A property of an object, by its name behind a point or by a key between brackets. -/
def memberSuffix (rules : Rules) (object : Expr) : Reader Expr := do
  let start := object.span.start
  if ← acceptMark .dot then
    let token ← advance
    match token.kind with
    | .identifier | .keyword _ => return ⟨.member object token.lexeme, ← spanFrom start⟩
    | _ => failAt token.span (.expected "property name after `.`")
  else
    expectMark .openBracket "`[`"
    let key ← expression rules false
    expectMark .closeBracket "`]` after index"
    return ⟨.index object key, ← spanFrom start⟩

/-- The state is at a suffix that names a property. -/
def ReadingState.atMember (s : ReadingState) : Bool :=
  s.current.kind == .mark .dot || s.current.kind == .mark .openBracket

/-- All suffixes of an object that name properties. -/
def memberSuffixes (rules : Rules) (fuel : Nat) (object : Expr) : Reader Expr := do
  match fuel with
  | 0 => broken
  | fuel + 1 =>
    if (← get).atMember then memberSuffixes rules fuel (← memberSuffix rules object)
    else return object

/-- An object made by `new`. The first parentheses behind the constructor hold its arguments. -/
def newExpression (rules : Rules) : Reader Expr := do
  let start := (← advance).span.start
  let head ← if ← checkKeyword .«new» then rules.newExpression else primary rules
  let callee ← memberSuffixes rules rules.levels head
  let items ← if ← checkMark .openParen then argumentList rules else pure []
  return ⟨.construct callee items, ← spanFrom start⟩

/-- All suffixes of an expression: calls and properties. -/
def callSuffixes (rules : Rules) (fuel : Nat) (callee : Expr) : Reader Expr := do
  match fuel with
  | 0 => broken
  | fuel + 1 =>
    if ← checkMark .openParen then
      let items ← argumentList rules
      callSuffixes rules fuel ⟨.call callee items, ← spanFrom callee.span.start⟩
    else if (← get).atMember then callSuffixes rules fuel (← memberSuffix rules callee)
    else return callee

/-- An expression that an update or an assignment may be written behind. -/
def leftHandSide (rules : Rules) : Reader Expr := do
  let head ← if ← checkKeyword .«new» then newExpression rules else primary rules
  callSuffixes rules rules.levels head

/-- An expression with perhaps an update behind it on the same line. -/
def postfixUpdate (rules : Rules) : Reader Expr := do
  let target ← leftHandSide rules
  let token ← peek
  match updateOp? token.kind with
  | some op =>
    if token.newlineBefore then return target
    checkTarget target
    discard advance
    return ⟨.update op false target, ← spanFrom target.span.start⟩
  | none => return target

/-- A name that is not a property. -/
def isName (e : Expr) : Bool :=
  match e.form with
  | .identifier _ => true
  | _ => false

/-- An expression with perhaps operators before it. -/
def unary (rules : Rules) : Reader Expr := do
  let token ← peek
  let start := token.span.start
  match unaryOp? token.kind, updateOp? token.kind with
  | some op, _ =>
    discard advance
    let operand ← rules.unary
    if op == .delete && (← isStrict) && isName operand then failAt token.span .deleteOfName
    return ⟨.unary op operand, ← spanFrom start⟩
  | none, some op =>
    discard advance
    let target ← rules.unary
    checkTarget target
    return ⟨.update op true target, ← spanFrom start⟩
  | none, none => postfixUpdate rules

/-- Goes on with operators of at least a precedence behind a left operand. -/
def binaryRest (rules : Rules) (precedence : Nat) (noIn : Bool) (fuel : Nat) (left : Expr) :
    Reader Expr := do
  match fuel with
  | 0 => broken
  | fuel + 1 =>
    match infixOp? noIn (← peek).kind with
    | none => return left
    | some (p, op) =>
      if p < precedence then return left
      discard advance
      let right ← rules.binary (p + 1) noIn
      binaryRest rules precedence noIn fuel (op.apply left right)

/-- Operands with operators of at least a precedence between them, grouped from the left. -/
def binary (rules : Rules) (precedence : Nat) (noIn : Bool) : Reader Expr := do
  binaryRest rules precedence noIn rules.levels (← unary rules)

/-- A choice between two expressions, or what stands before a question mark alone. -/
def conditional (rules : Rules) (noIn : Bool) : Reader Expr := do
  let test ← binary rules 0 noIn
  unless ← acceptMark .question do return test
  let yes ← rules.assignment false
  expectMark .colon "`:` in conditional expression"
  let no ← rules.assignment noIn
  return ⟨.conditional test yes no, ← spanFrom test.span.start⟩

/-- An expression without commas: an arrow function, an assignment, or a choice. -/
def assignment (rules : Rules) (noIn : Bool) : Reader Expr := do
  let s ← get
  let token := s.current
  let start := token.span.start
  if s.atSingleParameter then
    let name ← bindingName "parameter name"
    return ← arrowRest rules [(name, token)] start
  if ← atParameterList then
    let parameters ← parameterList rules
    return ← arrowRest rules parameters start
  let target ← conditional rules noIn
  match assignOp? (← peek).kind with
  | none => return target
  | some op =>
    checkTarget target
    discard advance
    let value ← rules.assignment noIn
    return ⟨.assign op target value, ← spanFrom start⟩

end ScriptEngine.Grammar
