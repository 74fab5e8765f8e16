import ScriptEngine.Syntax.Grammar.State

/-!
Programs without the places of their parts. Two scripts that say the same at different places are read as the same
parts but for the spans of these, which are set to nothing here throughout. The text that a function keeps is left as it
is.
-/

namespace ScriptEngine

/-- The span that stands for any other. -/
def Span.nowhere : Span :=
  ⟨0, 0⟩

mutual

/-- An expression without the places of its parts. -/
def Expr.unplaced : Expr → Expr
  | ⟨form, _⟩ => ⟨form.unplaced, .nowhere⟩

def ExprForm.unplaced : ExprForm → ExprForm
  | .literal value => .literal value
  | .identifier name => .identifier name
  | .this => .this
  | .array elements => .array (unplacedElements elements)
  | .object entries => .object (unplacedEntries entries)
  | .function code => .function code.unplaced
  | .unary op operand => .unary op operand.unplaced
  | .update op operatorFirst target => .update op operatorFirst target.unplaced
  | .binary op left right => .binary op left.unplaced right.unplaced
  | .logical op left right => .logical op left.unplaced right.unplaced
  | .conditional test yes no => .conditional test.unplaced yes.unplaced no.unplaced
  | .assign op target value => .assign op target.unplaced value.unplaced
  | .sequence items => .sequence (unplacedExprs items)
  | .member object name => .member object.unplaced name
  | .index object key => .index object.unplaced key.unplaced
  | .call callee arguments => .call callee.unplaced (unplacedExprs arguments)
  | .construct callee arguments => .construct callee.unplaced (unplacedExprs arguments)

def Entry.unplaced : Entry → Entry
  | ⟨key, value, _⟩ => ⟨key, value.unplaced, .nowhere⟩

def EntryValue.unplaced : EntryValue → EntryValue
  | .value e => .value e.unplaced
  | .getter code => .getter code.unplaced
  | .setter code => .setter code.unplaced

def FunctionCode.unplaced : FunctionCode → FunctionCode
  | ⟨name, kind, parameters, body, strict, scope, usesArguments, source, _⟩ =>
    ⟨name, kind, parameters, unplacedStmts body, strict, scope.unplaced, usesArguments, source, .nowhere⟩

def ScopeNames.unplaced : ScopeNames → ScopeNames
  | ⟨vars, functions, lexical⟩ => ⟨vars, unplacedCodes functions, lexical⟩

def Declarator.unplaced : Declarator → Declarator
  | ⟨name, init, _⟩ => ⟨name, unplacedExpr? init, .nowhere⟩

def Block.unplaced : Block → Block
  | ⟨body, lexical⟩ => ⟨unplacedStmts body, lexical⟩

def ForInit.unplaced : ForInit → ForInit
  | .vars declarators => .vars (unplacedDeclarators declarators)
  | .lexical constant declarators => .lexical constant (unplacedDeclarators declarators)
  | .expr e => .expr e.unplaced

def ForInTarget.unplaced : ForInTarget → ForInTarget
  | .var name => .var name
  | .lexical constant name => .lexical constant name
  | .expr e => .expr e.unplaced

def Handler.unplaced : Handler → Handler
  | ⟨parameter, body⟩ => ⟨parameter, body.unplaced⟩

def SwitchClause.unplaced : SwitchClause → SwitchClause
  | ⟨test, body⟩ => ⟨unplacedExpr? test, unplacedStmts body⟩

def StmtForm.unplaced : StmtForm → StmtForm
  | .var declarators => .var (unplacedDeclarators declarators)
  | .lexical constant declarators => .lexical constant (unplacedDeclarators declarators)
  | .function code => .function code.unplaced
  | .expr e => .expr e.unplaced
  | .block b => .block b.unplaced
  | .empty => .empty
  | .debugger => .debugger
  | .cond test yes no => .cond test.unplaced yes.unplaced (unplacedStmt? no)
  | .whileLoop test body => .whileLoop test.unplaced body.unplaced
  | .doWhile body test => .doWhile body.unplaced test.unplaced
  | .forLoop init test update body =>
    .forLoop (unplacedInit? init) (unplacedExpr? test) (unplacedExpr? update) body.unplaced
  | .forIn target object body => .forIn target.unplaced object.unplaced body.unplaced
  | .ret value => .ret (unplacedExpr? value)
  | .breakTo label => .breakTo label
  | .continueTo label => .continueTo label
  | .throw value => .throw value.unplaced
  | .attempt block handler finalizer => .attempt block.unplaced (unplacedHandler? handler) (unplacedBlock? finalizer)
  | .labeled label body => .labeled label body.unplaced
  | .switch discriminant clauses lexical => .switch discriminant.unplaced (unplacedClauses clauses) lexical
  | .withObject object body => .withObject object.unplaced body.unplaced

def Stmt.unplaced : Stmt → Stmt
  | ⟨form, _⟩ => ⟨form.unplaced, .nowhere⟩

def unplacedExprs : List Expr → List Expr
  | [] => []
  | e :: rest => e.unplaced :: unplacedExprs rest

def unplacedExpr? : Option Expr → Option Expr
  | none => none
  | some e => some e.unplaced

def unplacedElements : List (Option Expr) → List (Option Expr)
  | [] => []
  | e :: rest => unplacedExpr? e :: unplacedElements rest

def unplacedEntries : List Entry → List Entry
  | [] => []
  | e :: rest => e.unplaced :: unplacedEntries rest

def unplacedStmts : List Stmt → List Stmt
  | [] => []
  | s :: rest => s.unplaced :: unplacedStmts rest

def unplacedStmt? : Option Stmt → Option Stmt
  | none => none
  | some s => some s.unplaced

def unplacedCodes : List FunctionCode → List FunctionCode
  | [] => []
  | code :: rest => code.unplaced :: unplacedCodes rest

def unplacedDeclarators : List Declarator → List Declarator
  | [] => []
  | d :: rest => d.unplaced :: unplacedDeclarators rest

def unplacedInit? : Option ForInit → Option ForInit
  | none => none
  | some init => some init.unplaced

def unplacedHandler? : Option Handler → Option Handler
  | none => none
  | some handler => some handler.unplaced

def unplacedBlock? : Option Block → Option Block
  | none => none
  | some b => some b.unplaced

def unplacedClauses : List SwitchClause → List SwitchClause
  | [] => []
  | clause :: rest => clause.unplaced :: unplacedClauses rest

end

/-! ## Parts of programs without places -/

theorem unplaced_exprs (items : List Expr) : unplacedExprs items = items.map Expr.unplaced := by
  induction items with
  | nil => rfl
  | cons e rest ih => rw [unplacedExprs, ih, List.map_cons]

theorem unplaced_elements (elements : List (Option Expr)) :
    unplacedElements elements = elements.map unplacedExpr? := by
  induction elements with
  | nil => rfl
  | cons e rest ih => rw [unplacedElements, ih, List.map_cons]

theorem unplaced_entries (entries : List Entry) : unplacedEntries entries = entries.map Entry.unplaced := by
  induction entries with
  | nil => rfl
  | cons e rest ih => rw [unplacedEntries, ih, List.map_cons]

theorem unplaced_stmts (body : List Stmt) : unplacedStmts body = body.map Stmt.unplaced := by
  induction body with
  | nil => rfl
  | cons s rest ih => rw [unplacedStmts, ih, List.map_cons]

theorem unplaced_codes (codes : List FunctionCode) : unplacedCodes codes = codes.map FunctionCode.unplaced := by
  induction codes with
  | nil => rfl
  | cons code rest ih => rw [unplacedCodes, ih, List.map_cons]

theorem unplaced_declarators (declarators : List Declarator) :
    unplacedDeclarators declarators = declarators.map Declarator.unplaced := by
  induction declarators with
  | nil => rfl
  | cons d rest ih => rw [unplacedDeclarators, ih, List.map_cons]

theorem unplaced_clauses (clauses : List SwitchClause) :
    unplacedClauses clauses = clauses.map SwitchClause.unplaced := by
  induction clauses with
  | nil => rfl
  | cons clause rest ih => rw [unplacedClauses, ih, List.map_cons]

namespace ExprForm

theorem unplaced_array (elements : List (Option Expr)) :
    (array elements).unplaced = array (elements.map unplacedExpr?) :=
  congrArg array (unplaced_elements elements)

theorem unplaced_object (entries : List Entry) : (object entries).unplaced = object (entries.map Entry.unplaced) :=
  congrArg object (unplaced_entries entries)

theorem unplaced_sequence (items : List Expr) : (sequence items).unplaced = sequence (items.map Expr.unplaced) :=
  congrArg sequence (unplaced_exprs items)

theorem unplaced_call (callee : Expr) (arguments : List Expr) :
    (call callee arguments).unplaced = call callee.unplaced (arguments.map Expr.unplaced) :=
  congrArg (call callee.unplaced) (unplaced_exprs arguments)

theorem unplaced_construct (callee : Expr) (arguments : List Expr) :
    (construct callee arguments).unplaced = construct callee.unplaced (arguments.map Expr.unplaced) :=
  congrArg (construct callee.unplaced) (unplaced_exprs arguments)

end ExprForm

namespace StmtForm

theorem unplaced_var (declarators : List Declarator) :
    (var declarators).unplaced = var (declarators.map Declarator.unplaced) :=
  congrArg var (unplaced_declarators declarators)

theorem unplaced_lexical (constant : Bool) (declarators : List Declarator) :
    (lexical constant declarators).unplaced = lexical constant (declarators.map Declarator.unplaced) :=
  congrArg (lexical constant) (unplaced_declarators declarators)

theorem unplaced_switch (discriminant : Expr) (clauses : List SwitchClause) (names : List LexicalName) :
    (switch discriminant clauses names).unplaced =
      switch discriminant.unplaced (clauses.map SwitchClause.unplaced) names :=
  congrArg (switch discriminant.unplaced · names) (unplaced_clauses clauses)

end StmtForm

/-- What is known about a function, without the places of the functions declared in it. -/
def Grammar.BodyState.unplaced (b : BodyState) : BodyState :=
  { b with functions := unplacedCodes b.functions }

end ScriptEngine
