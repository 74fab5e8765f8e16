import ScriptEngine.Syntax.Diagnostic
import ScriptEngine.Syntax.Token
import ScriptEngine.Syntax.Tree

/-!
The reading of a list of tokens: which token comes next, and what is known about the functions around
it. The first fault ends the reading.
-/

namespace ScriptEngine.Grammar

/-- A label around the place reached, and whether it labels a loop. -/
structure LabelEntry where
  name : String
  iteration : Bool

/-- What is known about a function, or about the program itself, while its body is read. Blocks and
labels are listed from the innermost outward; the last block is the body. -/
structure BodyState where
  isArrow : Bool
  strict : Bool
  vars : List String
  functions : List FunctionCode
  blocks : List (List LexicalName)
  usesArguments : Bool
  labels : List LabelEntry
  iterationDepth : Nat
  switchDepth : Nat

namespace BodyState

/-- Nothing of a body is read. -/
def start (isArrow strict : Bool) : BodyState :=
  ⟨isArrow, strict, [], [], [[]], false, [], 0, 0⟩

/-- The names declared in a body. -/
def names (b : BodyState) : ScopeNames :=
  ⟨b.vars, b.functions, b.blocks.getLast?.getD []⟩

/-- Adds a name of `var`, unless it is there already. -/
def addVar (name : String) (b : BodyState) : BodyState :=
  if b.vars.contains name then b else { b with vars := b.vars ++ [name] }

/-- Adds a function declaration. -/
def addFunction (code : FunctionCode) (b : BodyState) : BodyState :=
  { b with functions := b.functions ++ [code] }

/-- Adds a name of `let` or `const` to the innermost block. -/
def addLexical (name : LexicalName) (b : BodyState) : BodyState :=
  match b.blocks with
  | [] => b
  | inner :: outer => { b with blocks := (inner ++ [name]) :: outer }

/-- The names of the innermost block. -/
def innerBlock (b : BodyState) : List LexicalName :=
  b.blocks.head?.getD []

end BodyState

/-- The place reached in a list of tokens. Before the first token is read it counts as the previous
one. The token at the end of the input is never passed. -/
structure ReadingState where
  source : List Char
  previous : Token
  current : Token
  upcoming : List Token
  body : BodyState
  outerBodies : List BodyState

/-- A step of reading: it goes on to a later place, or reports the first fault. -/
abbrev Reader := StateT ReadingState (Except Diagnostic)

/-! ## Tokens -/

/-- Reports a fault for a part of the script. -/
def failAt {α : Type} (span : Span) (fault : SyntaxFault) : Reader α :=
  throw ⟨.parsing, fault, span, []⟩

/-- Reports a fault for the token that comes next. -/
def failHere {α : Type} (fault : SyntaxFault) : Reader α := do
  failAt (← get).current.span fault

/-- Stops at a point that no reading comes to. -/
def broken {α : Type} : Reader α :=
  failHere .brokenReader

/-- The token that comes next. -/
def peek : Reader Token :=
  return (← get).current

/-- The token `distance` places behind the one that comes next; the last one if there are fewer. -/
def ReadingState.tokenAt (s : ReadingState) (distance : Nat) : Token :=
  match distance with
  | 0 => s.current
  | n + 1 =>
    match s.upcoming[n]? with
    | some t => t
    | none => s.upcoming.getLast?.getD s.current

/-- Passes the token that comes next. -/
def ReadingState.pass (s : ReadingState) : ReadingState :=
  match s.upcoming with
  | [] => s
  | t :: rest => { s with previous := s.current, current := t, upcoming := rest }

/-- Passes the token that comes next, and gives it. At the end of the input it gives the previous one. -/
def advance : Reader Token := do
  modify (·.pass)
  return (← get).previous

/-- The token that comes next is of a kind. -/
def check (kind : TokenKind) : Reader Bool :=
  return (← get).current.kind == kind

/-- The token that comes next is a mark. -/
def checkMark (m : Mark) : Reader Bool :=
  check (.mark m)

/-- The token that comes next is a keyword. -/
def checkKeyword (k : Keyword) : Reader Bool :=
  check (.keyword k)

/-- Passes the token that comes next if it is of a kind. -/
def accept (kind : TokenKind) : Reader Bool := do
  if ← check kind then
    discard advance
    return true
  else return false

def acceptMark (m : Mark) : Reader Bool :=
  accept (.mark m)

def acceptKeyword (k : Keyword) : Reader Bool :=
  accept (.keyword k)

/-- Passes a token that has to be there; `what` names it if it is not. -/
def expect (kind : TokenKind) (what : String) : Reader Unit := do
  unless ← accept kind do failHere (.expected what)

def expectMark (m : Mark) (what : String) : Reader Unit :=
  expect (.mark m) what

def expectKeyword (k : Keyword) (what : String) : Reader Unit :=
  expect (.keyword k) what

/-- From byte `start` to the end of the token passed last. -/
def spanFrom (start : Nat) : Reader Span :=
  return ⟨start, max (← get).previous.span.stop start⟩

/-- The text of the script from byte `start` to the end of the token passed last. -/
def sourceFrom (start : Nat) : Reader String := do
  let s ← get
  match Span.slice? ⟨start, s.previous.span.stop⟩ s.source with
  | some part => return String.ofList part
  | none => broken

/-- A statement may end here without a semicolon. -/
def ReadingState.atStatementEnd (s : ReadingState) : Bool :=
  let t := s.current
  t.kind == .mark .semicolon || t.kind == .mark .closeBrace || t.kind == .endOfInput ||
    t.newlineBefore

/-- The end of a statement: a semicolon, or a place where it may be left out. -/
def endStatement : Reader Unit := do
  unless ← acceptMark .semicolon do
    let s ← get
    unless s.atStatementEnd do failAt s.current.span (.unexpectedToken s.current.lexeme)

/-! ## Bodies -/

/-- Changes what is known about the innermost body. -/
def modifyBody (f : BodyState → BodyState) : Reader Unit :=
  modify fun s => { s with body := f s.body }

/-- The innermost body is strict code. -/
def isStrict : Reader Bool :=
  return (← get).body.strict

/-- Reads inside a new body. What is known about it at its end comes with the result. -/
def withBody {α : Type} (isArrow strict : Bool) (read : Reader α) : Reader (α × BodyState) := do
  modify fun s => { s with body := .start isArrow strict, outerBodies := s.body :: s.outerBodies }
  let result ← read
  let inner := (← get).body
  modify fun s =>
    match s.outerBodies with
    | [] => s
    | body :: outer => { s with body := body, outerBodies := outer }
  return (result, inner)

/-- Reads inside a new block of the innermost body. The names it declares come with the result. -/
def withBlock {α : Type} (read : Reader α) : Reader (α × List LexicalName) := do
  modifyBody fun b => { b with blocks := [] :: b.blocks }
  let result ← read
  let names := (← get).body.innerBlock
  modifyBody fun b => { b with blocks := b.blocks.tail }
  return (result, names)

/-- Notes in the innermost body that is not of an arrow function that it mentions `arguments`. -/
def noteArguments : List BodyState → List BodyState
  | [] => []
  | b :: outer =>
    if b.isArrow then b :: noteArguments outer else { b with usesArguments := true } :: outer

/-- Notes a mention of `arguments`. -/
def mentionArguments : Reader Unit :=
  modify fun s =>
    match noteArguments (s.body :: s.outerBodies) with
    | [] => s
    | body :: outer => { s with body := body, outerBodies := outer }

/-! ## Repetition -/

/-- Reads items as long as the state asks for one. An item takes at least one token, so that `fuel`
lasts if it is more than the number of tokens. -/
def readWhile {α : Type} (fuel : Nat) (more : ReadingState → Bool) (item : Reader α)
    (done : List α) : Reader (List α) := do
  match fuel with
  | 0 => broken
  | fuel + 1 =>
    if more (← get) then readWhile fuel more item ((← item) :: done)
    else return done.reverse

/-- Reads one item, and another one behind each comma. -/
def readSeparated {α : Type} (fuel : Nat) (item : Reader α) (done : List α) : Reader (List α) := do
  match fuel with
  | 0 => broken
  | fuel + 1 =>
    let done := (← item) :: done
    if ← acceptMark .comma then readSeparated fuel item done else return done.reverse

/-! ## Names -/

/-- Words that are names in sloppy code only. -/
def strictReserved : List String :=
  ["implements", "interface", "package", "private", "protected", "public", "static", "yield"]

/-- Names that strict code may neither declare nor assign. -/
def isRestrictedName (name : String) : Bool :=
  name == "eval" || name == "arguments"

/-- Names that strict code may not declare. -/
def isStrictForbidden (name : String) : Bool :=
  isRestrictedName name || strictReserved.contains name

/-- A name that is declared here; `what` says for what it is expected. -/
def bindingName (what : String) : Reader String := do
  let token ← peek
  unless token.kind == .identifier do failAt token.span (.expected what)
  discard advance
  if (← isStrict) && isStrictForbidden token.lexeme then
    failAt token.span (.strictName token.lexeme)
  return token.lexeme

end ScriptEngine.Grammar
