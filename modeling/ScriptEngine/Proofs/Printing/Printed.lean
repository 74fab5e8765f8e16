import ScriptEngine.Number.Literal
import ScriptEngine.Number.Text
import ScriptEngine.Syntax.Token
import ScriptEngine.Syntax.Tree

/-!
How expressions are written as tokens. Each form of expression belongs to a level of the grammar, and each place in an
expression asks for a level. What does not reach it stands in parentheses; further parentheses do not matter. Nothing
is said about spans, nor about the ends of lines, which may be anywhere but before an operator that is written behind
its operand.
-/

namespace ScriptEngine

/-! ## Levels -/

namespace Level

/-- Expressions with commas. -/
abbrev sequence : Nat := 0

abbrev assignment : Nat := 1

abbrev conditional : Nat := 2

/-- Operators between operands, of a precedence from 1 to 10. -/
abbrev operation (precedence : Nat) : Nat := precedence + 2

/-- Operators before their operand. -/
abbrev unary : Nat := 13

/-- Updates behind their operand. -/
abbrev update : Nat := 14

/-- `new` without arguments. -/
abbrev creation : Nat := 15

/-- Calls, and properties of what they give. -/
abbrev call : Nat := 16

/-- `new` with arguments, and properties of anything but a call. -/
abbrev member : Nat := 17

/-- Names, literals, and what stands in parentheses. -/
abbrev primary : Nat := 18

end Level

/-! ## Operators -/

namespace BinaryOp

/-- The token that an operator is written as. -/
def kind : BinaryOp → TokenKind
  | add => .mark .plus
  | sub => .mark .minus
  | mul => .mark .times
  | div => .mark .divide
  | mod => .mark .modulo
  | shiftLeft => .mark .leftShift
  | shiftRight => .mark .rightShift
  | unsignedShiftRight => .mark .unsignedShift
  | bitAnd => .mark .bitAnd
  | bitOr => .mark .bitOr
  | bitXor => .mark .bitXor
  | equal => .mark .equal
  | notEqual => .mark .unequal
  | strictEqual => .mark .strictEqual
  | strictNotEqual => .mark .strictUnequal
  | less => .mark .less
  | lessEqual => .mark .lessEqual
  | greater => .mark .greater
  | greaterEqual => .mark .greaterEqual
  | isIn => .keyword .«in»
  | instanceOf => .keyword .«instanceof»

/-- How closely an operator binds. -/
def precedence : BinaryOp → Nat
  | bitOr => 3
  | bitXor => 4
  | bitAnd => 5
  | equal | notEqual | strictEqual | strictNotEqual => 6
  | less | lessEqual | greater | greaterEqual | isIn | instanceOf => 7
  | shiftLeft | shiftRight | unsignedShiftRight => 8
  | add | sub => 9
  | mul | div | mod => 10

/-- The token of the assignment that applies an operator first, if there is such an assignment. -/
def assignKind? : BinaryOp → Option TokenKind
  | add => some (.mark .plusAssign)
  | sub => some (.mark .minusAssign)
  | mul => some (.mark .timesAssign)
  | div => some (.mark .divideAssign)
  | mod => some (.mark .moduloAssign)
  | shiftLeft => some (.mark .leftShiftAssign)
  | shiftRight => some (.mark .rightShiftAssign)
  | unsignedShiftRight => some (.mark .unsignedShiftAssign)
  | bitAnd => some (.mark .andAssign)
  | bitOr => some (.mark .orAssign)
  | bitXor => some (.mark .xorAssign)
  | _ => none

end BinaryOp

/-- The token of an assignment. -/
def assignmentKind? : Option BinaryOp → Option TokenKind
  | none => some (.mark .assign)
  | some op => op.assignKind?

def LogicalOp.kind : LogicalOp → TokenKind
  | and => .mark .and
  | or => .mark .or

def LogicalOp.precedence : LogicalOp → Nat
  | or => 1
  | and => 2

def UnaryOp.kind : UnaryOp → TokenKind
  | negate => .mark .minus
  | plus => .mark .plus
  | not => .mark .not
  | bitNot => .mark .bitNot
  | typeOf => .keyword .«typeof»
  | void => .keyword .«void»
  | delete => .keyword .«delete»

def UpdateOp.kind : UpdateOp → TokenKind
  | increment => .mark .increment
  | decrement => .mark .decrement

/-! ## Words -/

/-- A token is a literal of a value. -/
def Token.Spells (t : Token) : Literal → Prop
  | .null => t.kind = .keyword .«null»
  | .boolean true => t.kind = .keyword .«true»
  | .boolean false => t.kind = .keyword .«false»
  | .number n => t.kind = .number ∧ Number.ofLiteral t.lexeme = n
  | .string s => t.kind = .string ∧ t.lexeme = s

/-- A token is a word, be it a name or a keyword. -/
def Token.IsWord (t : Token) (text : String) : Prop :=
  (t.kind = .identifier ∨ ∃ k, t.kind = .keyword k) ∧ t.lexeme = text

/-- A token names a property of an object literal. -/
def Token.IsKey (t : Token) (key : String) : Prop :=
  t.IsWord key ∨ t.kind = .string ∧ t.lexeme = key ∨ t.kind = .number ∧ toString (Number.ofLiteral t.lexeme) = key

/-- Names and properties may be assigned and updated. -/
def ExprForm.IsTarget : ExprForm → Prop
  | .identifier _ | .member _ _ | .index _ _ => True
  | _ => False

/-! ## Expressions -/

/-- What is written of an expression. -/
inductive Phrase where
  /-- An expression at a place that asks for a level. -/
  | expr (required : Nat) (e : Expr)
  /-- An expression of a level, without parentheses around it. -/
  | bare (level : Nat) (form : ExprForm)
  /-- An object that is created without arguments. -/
  | creation (form : ExprForm)
  /-- Expressions with commas between them. -/
  | items (items : List Expr)
  /-- The arguments of a call in their parentheses. -/
  | arguments (items : List Expr)
  /-- The elements of an array literal. -/
  | elements (elements : List (Option Expr))
  /-- The properties of an object literal. -/
  | entries (entries : List Entry)

/-- Tokens are a way to write a part of an expression. -/
inductive Printed : Phrase → List Token → Prop where
  | plain {required level : Nat} {e : Expr} {ts : List Token} (reaches : required ≤ level)
      (form : Printed (.bare level e.form) ts) : Printed (.expr required e) ts
  | enclosed {required : Nat} {e : Expr} {opening closing : Token} {ts : List Token}
      (opens : opening.kind = .mark .openParen) (inner : Printed (.expr Level.sequence e) ts)
      (closes : closing.kind = .mark .closeParen) : Printed (.expr required e) (opening :: (ts ++ [closing]))
  | thisWord {t : Token} (word : t.kind = .keyword .«this») : Printed (.bare Level.primary .this) [t]
  | identifier {name : String} {t : Token} (word : t.kind = .identifier) (same : t.lexeme = name) :
      Printed (.bare Level.primary (.identifier name)) [t]
  | literal {value : Literal} {t : Token} (spells : t.Spells value) : Printed (.bare Level.primary (.literal value)) [t]
  | array {elements : List (Option Expr)} {opening closing : Token} {ts : List Token}
      (opens : opening.kind = .mark .openBracket) (inner : Printed (.elements elements) ts)
      (closes : closing.kind = .mark .closeBracket) :
      Printed (.bare Level.primary (.array elements)) (opening :: (ts ++ [closing]))
  | object {entries : List Entry} {opening closing : Token} {ts : List Token}
      (opens : opening.kind = .mark .openBrace) (inner : Printed (.entries entries) ts)
      (closes : closing.kind = .mark .closeBrace) :
      Printed (.bare Level.primary (.object entries)) (opening :: (ts ++ [closing]))
  | member {level : Nat} {object : Expr} {dot name : Token} {text : String} {ts : List Token}
      (either : level = Level.call ∨ level = Level.member) (inner : Printed (.expr level object) ts)
      (point : dot.kind = .mark .dot) (word : name.IsWord text) :
      Printed (.bare level (.member object text)) (ts ++ [dot, name])
  | index {level : Nat} {object key : Expr} {opening closing : Token} {ts us : List Token}
      (either : level = Level.call ∨ level = Level.member) (inner : Printed (.expr level object) ts)
      (opens : opening.kind = .mark .openBracket) (within : Printed (.expr Level.sequence key) us)
      (closes : closing.kind = .mark .closeBracket) :
      Printed (.bare level (.index object key)) (ts ++ opening :: (us ++ [closing]))
  | call {callee : Expr} {items : List Expr} {ts us : List Token} (inner : Printed (.expr Level.call callee) ts)
      (given : Printed (.arguments items) us) : Printed (.bare Level.call (.call callee items)) (ts ++ us)
  | construct {callee : Expr} {items : List Expr} {first : Token} {ts us : List Token}
      (word : first.kind = .keyword .«new») (inner : Printed (.expr Level.member callee) ts)
      (given : Printed (.arguments items) us) :
      Printed (.bare Level.member (.construct callee items)) (first :: (ts ++ us))
  | creation {form : ExprForm} {ts : List Token} (inner : Printed (.creation form) ts) :
      Printed (.bare Level.creation form) ts
  | create {callee : Expr} {first : Token} {ts : List Token} (word : first.kind = .keyword .«new»)
      (inner : Printed (.expr Level.member callee) ts) : Printed (.creation (.construct callee [])) (first :: ts)
  | createAgain {callee : Expr} {first : Token} {ts : List Token} (word : first.kind = .keyword .«new»)
      (inner : Printed (.creation callee.form) ts) : Printed (.creation (.construct callee [])) (first :: ts)
  /-- Between the operand and the operator no line ends. -/
  | updateBehind {op : UpdateOp} {target : Expr} {t : Token} {ts : List Token} (isTarget : target.form.IsTarget)
      (inner : Printed (.expr Level.creation target) ts) (operator : t.kind = op.kind)
      (sameLine : t.newlineBefore = false) : Printed (.bare Level.update (.update op false target)) (ts ++ [t])
  | updateBefore {op : UpdateOp} {target : Expr} {t : Token} {ts : List Token} (isTarget : target.form.IsTarget)
      (operator : t.kind = op.kind) (inner : Printed (.expr Level.unary target) ts) :
      Printed (.bare Level.unary (.update op true target)) (t :: ts)
  | unary {op : UnaryOp} {operand : Expr} {t : Token} {ts : List Token} (operator : t.kind = op.kind)
      (inner : Printed (.expr Level.unary operand) ts) : Printed (.bare Level.unary (.unary op operand)) (t :: ts)
  | binary {op : BinaryOp} {left right : Expr} {t : Token} {ts us : List Token}
      (first : Printed (.expr (Level.operation op.precedence) left) ts) (operator : t.kind = op.kind)
      (second : Printed (.expr (Level.operation (op.precedence + 1)) right) us) :
      Printed (.bare (Level.operation op.precedence) (.binary op left right)) (ts ++ t :: us)
  | logical {op : LogicalOp} {left right : Expr} {t : Token} {ts us : List Token}
      (first : Printed (.expr (Level.operation op.precedence) left) ts) (operator : t.kind = op.kind)
      (second : Printed (.expr (Level.operation (op.precedence + 1)) right) us) :
      Printed (.bare (Level.operation op.precedence) (.logical op left right)) (ts ++ t :: us)
  | conditional {test yes no : Expr} {question colon : Token} {ts us vs : List Token}
      (first : Printed (.expr (Level.operation 1) test) ts) (asks : question.kind = .mark .question)
      (second : Printed (.expr Level.assignment yes) us) (parts : colon.kind = .mark .colon)
      (third : Printed (.expr Level.assignment no) vs) :
      Printed (.bare Level.conditional (.conditional test yes no)) (ts ++ question :: (us ++ colon :: vs))
  | assign {op : Option BinaryOp} {target value : Expr} {t : Token} {ts us : List Token}
      (isTarget : target.form.IsTarget) (first : Printed (.expr Level.creation target) ts)
      (operator : assignmentKind? op = some t.kind) (second : Printed (.expr Level.assignment value) us) :
      Printed (.bare Level.assignment (.assign op target value)) (ts ++ t :: us)
  | sequence {first : Expr} {rest : List Expr} {comma : Token} {ts us : List Token}
      (begins : Printed (.expr Level.assignment first) ts) (separates : comma.kind = .mark .comma)
      (goesOn : Printed (.items rest) us) :
      Printed (.bare Level.sequence (.sequence (first :: rest))) (ts ++ comma :: us)
  | oneItem {e : Expr} {ts : List Token} (only : Printed (.expr Level.assignment e) ts) : Printed (.items [e]) ts
  | moreItems {e : Expr} {rest : List Expr} {comma : Token} {ts us : List Token}
      (begins : Printed (.expr Level.assignment e) ts) (separates : comma.kind = .mark .comma)
      (goesOn : Printed (.items rest) us) : Printed (.items (e :: rest)) (ts ++ comma :: us)
  | noArguments {opening closing : Token} (opens : opening.kind = .mark .openParen)
      (closes : closing.kind = .mark .closeParen) : Printed (.arguments []) [opening, closing]
  | someArguments {items : List Expr} {opening closing : Token} {ts : List Token}
      (opens : opening.kind = .mark .openParen) (inner : Printed (.items items) ts)
      (closes : closing.kind = .mark .closeParen) : Printed (.arguments items) (opening :: (ts ++ [closing]))
  | noElements : Printed (.elements []) []
  | elision {rest : List (Option Expr)} {comma : Token} {us : List Token} (separates : comma.kind = .mark .comma)
      (goesOn : Printed (.elements rest) us) : Printed (.elements (none :: rest)) (comma :: us)
  | lastElement {e : Expr} {ts : List Token} (only : Printed (.expr Level.assignment e) ts) :
      Printed (.elements [some e]) ts
  | moreElements {e : Expr} {rest : List (Option Expr)} {comma : Token} {ts us : List Token}
      (begins : Printed (.expr Level.assignment e) ts) (separates : comma.kind = .mark .comma)
      (goesOn : Printed (.elements rest) us) : Printed (.elements (some e :: rest)) (ts ++ comma :: us)
  | noEntries : Printed (.entries []) []
  | lastEntry {key : String} {e : Expr} {span : Span} {name colon : Token} {ts : List Token} (names : name.IsKey key)
      (parts : colon.kind = .mark .colon) (only : Printed (.expr Level.assignment e) ts) :
      Printed (.entries [⟨key, .value e, span⟩]) (name :: colon :: ts)
  | moreEntries {key : String} {e : Expr} {span : Span} {rest : List Entry} {name colon comma : Token}
      {ts us : List Token} (names : name.IsKey key) (parts : colon.kind = .mark .colon)
      (begins : Printed (.expr Level.assignment e) ts) (separates : comma.kind = .mark .comma)
      (goesOn : Printed (.entries rest) us) :
      Printed (.entries (⟨key, .value e, span⟩ :: rest)) (name :: colon :: (ts ++ comma :: us))

/-! ## Spans -/

mutual

/-- An expression without its spans. Functions, which are not written here, are left as they are. -/
def Expr.erased : Expr → Expr
  | ⟨form, _⟩ => ⟨form.erased, ⟨0, 0⟩⟩

def ExprForm.erased : ExprForm → ExprForm
  | .array elements => .array (erasedElements elements)
  | .object entries => .object (erasedEntries entries)
  | .unary op operand => .unary op operand.erased
  | .update op operatorFirst target => .update op operatorFirst target.erased
  | .binary op left right => .binary op left.erased right.erased
  | .logical op left right => .logical op left.erased right.erased
  | .conditional test yes no => .conditional test.erased yes.erased no.erased
  | .assign op target value => .assign op target.erased value.erased
  | .sequence items => .sequence (erasedItems items)
  | .member object name => .member object.erased name
  | .index object key => .index object.erased key.erased
  | .call callee arguments => .call callee.erased (erasedItems arguments)
  | .construct callee arguments => .construct callee.erased (erasedItems arguments)
  | form => form

def erasedItems : List Expr → List Expr
  | [] => []
  | e :: rest => e.erased :: erasedItems rest

def erasedElements : List (Option Expr) → List (Option Expr)
  | [] => []
  | none :: rest => none :: erasedElements rest
  | some e :: rest => some e.erased :: erasedElements rest

def erasedEntries : List Entry → List Entry
  | [] => []
  | ⟨key, .value value, _⟩ :: rest => ⟨key, .value value.erased, ⟨0, 0⟩⟩ :: erasedEntries rest
  | ⟨key, value, _⟩ :: rest => ⟨key, value, ⟨0, 0⟩⟩ :: erasedEntries rest

end

/-- An expression is of a form, up to spans. -/
def Expr.Matches (e : Expr) (form : ExprForm) : Prop :=
  e.form.erased = form.erased

theorem Expr.erased_eq (e : Expr) : e.erased = ⟨e.form.erased, ⟨0, 0⟩⟩ := by
  cases e
  rfl

theorem Expr.Matches.erased {e other : Expr} (same : e.Matches other.form) : e.erased = other.erased := by
  rw [erased_eq, erased_eq, same]

theorem target_erased (form : ExprForm) : form.erased.IsTarget ↔ form.IsTarget := by
  cases form <;> exact Iff.rfl

theorem Expr.Matches.target {e : Expr} {form : ExprForm} (same : e.Matches form) (isTarget : form.IsTarget) :
    e.form.IsTarget := by
  rw [← target_erased, same, target_erased]
  exact isTarget

end ScriptEngine
