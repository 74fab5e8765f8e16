import ScriptEngine.Proofs.Scanning.Boundaries
import ScriptEngine.Syntax.Tree

/-!
The parts of a program that have a place in its script, and what it means that they are nested. The parts directly
inside of a part are told in the order in which the script has them: the condition of a `do` loop behind its body, the
clauses of a `for` statement before it.
-/

namespace ScriptEngine

/-- A part of a program that has a span. -/
inductive Part where
  | expr (e : Expr)
  | stmt (s : Stmt)
  | declarator (d : Declarator)
  | entry (e : Entry)
  | code (code : FunctionCode)

/-! ## What is directly inside -/

/-- The code of a property of an object literal. -/
def EntryValue.part : EntryValue → Part
  | value e => .expr e
  | getter code | setter code => .code code

/-- The parts directly inside an expression. -/
def ExprForm.parts : ExprForm → List Part
  | literal _ | identifier _ | this => []
  | array elements => (elements.filterMap id).map .expr
  | object entries => entries.map .entry
  | function code => [.code code]
  | unary _ e | update _ _ e | member e _ => [.expr e]
  | binary _ left right | logical _ left right | assign _ left right | index left right =>
    [.expr left, .expr right]
  | conditional test yes no => [.expr test, .expr yes, .expr no]
  | sequence items => items.map .expr
  | call callee arguments | construct callee arguments => .expr callee :: arguments.map .expr

/-- The parts directly inside what a `for` statement begins with. -/
def ForInit.parts : ForInit → List Part
  | vars declarators | lexical _ declarators => declarators.map .declarator
  | expr e => [.expr e]

/-- The parts directly inside what a `for`-`in` statement assigns to. -/
def ForInTarget.parts : ForInTarget → List Part
  | var _ | lexical _ _ => []
  | expr e => [.expr e]

/-- The parts directly inside a clause of a `switch` statement. -/
def SwitchClause.parts (clause : SwitchClause) : List Part :=
  clause.test.toList.map .expr ++ clause.body.map .stmt

/-- The parts directly inside a statement. -/
def StmtForm.innerParts : StmtForm → List Part
  | var declarators | lexical _ declarators => declarators.map .declarator
  | function code => [.code code]
  | expr e | throw e => [.expr e]
  | block b => b.body.map .stmt
  | empty | debugger | breakTo _ | continueTo _ => []
  | cond test yes no => .expr test :: .stmt yes :: no.toList.map .stmt
  | whileLoop test body => [.expr test, .stmt body]
  | doWhile body test => [.stmt body, .expr test]
  | forLoop init test update body =>
    init.toList.flatMap ForInit.parts ++ test.toList.map .expr ++ update.toList.map .expr ++ [.stmt body]
  | forIn target object body => target.parts ++ [.expr object, .stmt body]
  | ret value => value.toList.map .expr
  | attempt body handler finalizer =>
    body.body.map .stmt ++ handler.toList.flatMap (·.body.body.map .stmt) ++
      finalizer.toList.flatMap (·.body.map .stmt)
  | labeled _ body => [.stmt body]
  | switch discriminant clauses _ => .expr discriminant :: clauses.flatMap SwitchClause.parts
  | withObject object body => [.expr object, .stmt body]

namespace Part

/-- Where the part stands. -/
def span : Part → Span
  | expr e => e.span
  | stmt s => s.span
  | declarator d => d.span
  | entry e => e.span
  | code c => c.span

/-- The parts directly inside, in the order of the script. -/
def children : Part → List Part
  | expr e => e.form.parts
  | stmt s => s.form.innerParts
  | declarator d => d.init.toList.map .expr
  | entry e => [e.value.part]
  | code c => c.body.map .stmt

/-- Whether the parts directly inside are in strict code, if the part itself is or not. -/
def strictInside (strict : Bool) : Part → Bool
  | code c => c.strict
  | _ => strict

/-- The function that the part consists of, which is written as an expression or a declaration. -/
def function? : Part → Option FunctionCode
  | expr ⟨.function c, _⟩ | stmt ⟨.function c, _⟩ => some c
  | _ => none

/-- Parts stand one behind the other. -/
def Ordered (parts : List Part) : Prop :=
  parts.Pairwise fun first second => first.span.stop ≤ second.span.start

/-- A part stands inside of a span. -/
def Inside (outer : Span) (part : Part) : Prop :=
  outer.start ≤ part.span.start ∧ part.span.stop ≤ outer.stop

/-- A part is nested in its script: it takes up a part of the text, and what is directly inside of it stands there,
one behind the other. A function keeps the text that it takes up. -/
structure Nested (source : List Char) (part : Part) : Prop where
  fits : part.span.Fits source
  inside : ∀ child ∈ part.children, child.Inside part.span
  ordered : Ordered part.children
  text : ∀ c, part = .code c → part.span.slice? source = some c.source.toList

end Part

/-- A part of a program lies in code that is strict or not. For a function this is the code around it. -/
inductive Program.Has (p : Program) : Bool → Part → Prop where
  | body {s : Stmt} (direct : s ∈ p.body) : Has p p.strict (.stmt s)
  | inner {strict : Bool} {part child : Part} (outer : Has p strict part) (direct : child ∈ part.children) :
      Has p (part.strictInside strict) child

end ScriptEngine
