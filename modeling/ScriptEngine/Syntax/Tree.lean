import ScriptEngine.Number.Basic
import ScriptEngine.Syntax.Span

/-!
Programs as trees. Each expression, statement and declaration carries the span of the script that it
was read from, and each function and program carries the names that are declared in it, because they
are bound before its first statement runs.
-/

namespace ScriptEngine

/-- A value written as such. -/
inductive Literal where
  | null
  | boolean (b : Bool)
  | number (n : Number)
  | string (s : String)
  deriving DecidableEq

/-- Operators that apply to the values of two operands. -/
inductive BinaryOp where
  | add | sub | mul | div | mod
  | shiftLeft | shiftRight | unsignedShiftRight
  | bitAnd | bitOr | bitXor
  | equal | notEqual | strictEqual | strictNotEqual
  | less | lessEqual | greater | greaterEqual
  | isIn | instanceOf
  deriving DecidableEq

/-- Operators that may leave their second operand aside. -/
inductive LogicalOp where
  | and | or
  deriving DecidableEq

inductive UnaryOp where
  | negate | plus | not | bitNot | typeOf | void | delete
  deriving DecidableEq

inductive UpdateOp where
  | increment | decrement
  deriving DecidableEq

/-- How a function is written. An arrow function has no `this` and no arguments of its own. -/
inductive FunctionKind where
  | declaration | expression | arrow
  deriving DecidableEq

/-- A name declared in a block by `let` or `const`. -/
structure LexicalName where
  name : String
  constant : Bool
  deriving DecidableEq

mutual

/-- An expression and where it stands. -/
structure Expr where
  form : ExprForm
  span : Span

inductive ExprForm where
  | literal (value : Literal)
  | identifier (name : String)
  | this
  /-- An array; an element may be left out. -/
  | array (elements : List (Option Expr))
  | object (entries : List Entry)
  | function (code : FunctionCode)
  | unary (op : UnaryOp) (operand : Expr)
  /-- An increment or decrement, whose value is the new one when the operator comes first. -/
  | update (op : UpdateOp) (operatorFirst : Bool) (target : Expr)
  | binary (op : BinaryOp) (left right : Expr)
  | logical (op : LogicalOp) (left right : Expr)
  | conditional (test yes no : Expr)
  /-- An assignment; without an operator the value is stored as it is. -/
  | assign (op : Option BinaryOp) (target value : Expr)
  | sequence (items : List Expr)
  | member (object : Expr) (name : String)
  | index (object key : Expr)
  | call (callee : Expr) (arguments : List Expr)
  | construct (callee : Expr) (arguments : List Expr)

/-- A property of an object literal. -/
structure Entry where
  key : String
  value : EntryValue
  span : Span

inductive EntryValue where
  | value (value : Expr)
  | getter (code : FunctionCode)
  | setter (code : FunctionCode)

/-- A function: its parameters and body, with what has to be known to enter it. -/
structure FunctionCode where
  name : Option String
  kind : FunctionKind
  parameters : List String
  body : List Stmt
  strict : Bool
  scope : ScopeNames
  /-- The body, or an arrow function in it, mentions `arguments`. -/
  usesArguments : Bool
  source : String
  span : Span

/-- The names declared in the body of a function or of a program: those of `var`, each once, the
function declarations at any depth outside inner functions, and the `let` and `const` names of the
body itself. -/
structure ScopeNames where
  vars : List String
  functions : List FunctionCode
  lexical : List LexicalName

/-- A declared name with its first value. -/
structure Declarator where
  name : String
  init : Option Expr
  span : Span

structure Block where
  body : List Stmt
  lexical : List LexicalName

/-- What a `for` statement begins with. -/
inductive ForInit where
  | vars (declarators : List Declarator)
  | lexical (constant : Bool) (declarators : List Declarator)
  | expr (e : Expr)

/-- What a `for`-`in` statement assigns the keys to. -/
inductive ForInTarget where
  | var (name : String)
  | lexical (constant : Bool) (name : String)
  | expr (e : Expr)

structure Handler where
  parameter : String
  body : Block

/-- A clause of a `switch` statement; without a test it is the default. -/
structure SwitchClause where
  test : Option Expr
  body : List Stmt

inductive StmtForm where
  | var (declarators : List Declarator)
  | lexical (constant : Bool) (declarators : List Declarator)
  | function (code : FunctionCode)
  | expr (e : Expr)
  | block (b : Block)
  | empty
  | debugger
  | cond (test : Expr) (yes : Stmt) (no : Option Stmt)
  | whileLoop (test : Expr) (body : Stmt)
  | doWhile (body : Stmt) (test : Expr)
  | forLoop (init : Option ForInit) (test update : Option Expr) (body : Stmt)
  | forIn (target : ForInTarget) (object : Expr) (body : Stmt)
  | ret (value : Option Expr)
  | breakTo (label : Option String)
  | continueTo (label : Option String)
  | throw (value : Expr)
  | attempt (block : Block) (handler : Option Handler) (finalizer : Option Block)
  | labeled (label : String) (body : Stmt)
  | switch (discriminant : Expr) (clauses : List SwitchClause) (lexical : List LexicalName)
  | withObject (object : Expr) (body : Stmt)

/-- A statement and where it stands. -/
structure Stmt where
  form : StmtForm
  span : Span

end

/-- A whole script. -/
structure Program where
  body : List Stmt
  strict : Bool
  scope : ScopeNames

/-- An arrow function takes `this` and `arguments` from the code around it. -/
def FunctionCode.isArrow (code : FunctionCode) : Bool :=
  code.kind == .arrow

end ScriptEngine
