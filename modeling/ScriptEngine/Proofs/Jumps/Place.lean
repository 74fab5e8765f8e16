import ScriptEngine.Machine.Completion
import ScriptEngine.Syntax.Tree

/-!
Where the jumps of a program end and which names its blocks declare, told from its text alone. Each
statement stands at a place: inside some statements at which jumps end, and behind the labels directly
before it. A jump ends at the innermost of the statements around it that takes it, and functions begin
with no statements around them.
-/

namespace ScriptEngine

/-! ## Places -/

/-- A statement at which jumps end, with the labels directly before it. -/
inductive JumpScope where
  | loop (labels : List String)
  | choice (labels : List String)
  | labelled (name : String)
  deriving DecidableEq

namespace JumpScope

/-- A `break` with this label, or without one, may end here. -/
def endsBreak (label : Option String) : JumpScope → Bool
  | loop labels => Completion.owns labels label
  | choice labels => Completion.owns labels label
  | labelled name => label == some name

/-- A `continue` with this label, or without one, may end here. -/
def endsContinue (label : Option String) : JumpScope → Bool
  | loop labels => Completion.owns labels label
  | choice _ => false
  | labelled _ => false

/-- A statement is the innermost of some that takes a jump; `depth` others lie inside of it. -/
structure Innermost (takes : JumpScope → Bool) (scopes : List JumpScope) (depth : Nat)
    (scope : JumpScope) : Prop where
  found : scopes[depth]? = some scope
  taken : takes scope = true
  passed : ∀ inner ∈ scopes.take depth, takes inner = false

/-- If any statement takes a jump, then one of them is the innermost. -/
theorem innermost_of_exists {takes : JumpScope → Bool} {scopes : List JumpScope}
    (offered : ∃ scope ∈ scopes, takes scope) :
    ∃ scope, Innermost takes scopes (scopes.findIdx takes) scope := by
  have bound : scopes.findIdx takes < scopes.length := List.findIdx_lt_length_of_exists offered
  refine ⟨scopes[scopes.findIdx takes], List.getElem?_eq_getElem bound, List.findIdx_getElem, ?_⟩
  intro inner mem
  obtain ⟨i, lower, rfl⟩ := List.mem_take_iff_getElem.mp mem
  exact List.not_of_lt_findIdx (Nat.lt_of_lt_of_le lower (Nat.min_le_left _ _))

end JumpScope

/-- Where a statement stands: in a function or in the program itself, inside statements at which jumps
end, from the innermost outward, and directly behind labels. -/
structure Place where
  inFunction : Bool
  scopes : List JumpScope
  labels : List String
  deriving DecidableEq

namespace Place

/-- The place of the statements of a script. -/
def script : Place := ⟨false, [], []⟩

/-- The place of the statements of a function. -/
def function : Place := ⟨true, [], []⟩

/-- The place inside a statement at which no jumps end. -/
def inside (place : Place) : Place :=
  { place with labels := [] }

/-- The place inside a loop. -/
def inLoop (place : Place) : Place :=
  { place with scopes := .loop place.labels :: place.scopes, labels := [] }

/-- The place inside the clauses of a `switch` statement. -/
def inChoice (place : Place) : Place :=
  { place with scopes := .choice place.labels :: place.scopes, labels := [] }

/-- The place behind a label. -/
def behind (name : String) (place : Place) : Place :=
  { place with scopes := .labelled name :: place.scopes, labels := name :: place.labels }

/-- How many statements a `break` leaves before the one at which it ends. -/
def breakDepth (place : Place) (label : Option String) : Nat :=
  place.scopes.findIdx (·.endsBreak label)

/-- How many statements a `continue` leaves before the one at which it ends. -/
def continueDepth (place : Place) (label : Option String) : Nat :=
  place.scopes.findIdx (·.endsContinue label)

end Place

/-! ## Declared names -/

/-- The names that a statement declares in the block, function or script in whose list it stands. -/
def StmtForm.declared : StmtForm → List LexicalName
  | .lexical constant declarators => declarators.map fun d => ⟨d.name, constant⟩
  | _ => []

/-- The names that the statements of a list declare. -/
def declaredNames (body : List Stmt) : List LexicalName :=
  body.flatMap (·.form.declared)

theorem declared_names_concat (body : List Stmt) (s : Stmt) :
    declaredNames (body ++ [s]) = declaredNames body ++ s.form.declared := by
  simp [declaredNames]

theorem declared_names_append (body rest : List Stmt) :
    declaredNames (body ++ rest) = declaredNames body ++ declaredNames rest :=
  List.flatMap_append

/-- Names are told apart by their texts. -/
def DistinctNames (names : List LexicalName) : Prop :=
  (names.map LexicalName.name).Nodup

/-- Names are the ones that a list of statements declares, each of them once. -/
structure Declares (names : List LexicalName) (body : List Stmt) : Prop where
  same : names = declaredNames body
  distinct : DistinctNames names

/-- The names of a block are the ones that its statements declare. -/
def Block.InPlace (b : Block) : Prop :=
  Declares b.lexical b.body

/-! ## Statements where they stand -/

/-- A statement may stand where it does. A jump has somewhere to end: a `break` or `continue` a statement
around it that takes it, and a `return` a function. What has names of its own has those that are declared
directly in it, and a statement that is no member of a list declares none. -/
def StmtForm.InPlace (place : Place) : StmtForm → Prop
  | .breakTo label => ∃ scope ∈ place.scopes, scope.endsBreak label
  | .continueTo label => ∃ scope ∈ place.scopes, scope.endsContinue label
  | .ret _ => place.inFunction = true
  | .block b => b.InPlace
  | .attempt guarded handler finalizer =>
    guarded.InPlace ∧ (∀ h ∈ handler, h.body.InPlace) ∧ ∀ b ∈ finalizer, b.InPlace
  | .switch _ clauses names => Declares names (clauses.flatMap SwitchClause.body)
  | .cond _ yes no => yes.form.declared = [] ∧ ∀ s ∈ no, s.form.declared = []
  | .whileLoop _ body | .doWhile body _ | .forLoop _ _ _ body | .forIn _ _ body | .labeled _ body
  | .withObject _ body => body.form.declared = []
  | _ => True

/-! ## Parts of a program -/

/-- A part of a program, a statement together with its place. -/
inductive Node where
  | expr (e : Expr)
  | code (code : FunctionCode)
  | stmt (place : Place) (s : Stmt)

/-- The code of a property of an object literal. -/
def EntryValue.node : EntryValue → Node
  | value e => .expr e
  | getter code => .code code
  | setter code => .code code

/-- The parts directly inside an expression. -/
def ExprForm.children : ExprForm → List Node
  | literal _ | identifier _ | this => []
  | array elements => elements.filterMap (·.map .expr)
  | object entries => entries.map fun entry => entry.value.node
  | function code => [.code code]
  | unary _ e | update _ _ e | member e _ => [.expr e]
  | binary _ left right | logical _ left right | assign _ left right | index left right =>
    [.expr left, .expr right]
  | conditional test yes no => [.expr test, .expr yes, .expr no]
  | sequence items => items.map .expr
  | call callee arguments | construct callee arguments => .expr callee :: arguments.map .expr

/-- The first values of declared names. -/
def declaratorNodes (declarators : List Declarator) : List Node :=
  declarators.filterMap (·.init.map .expr)

/-- The parts directly inside what a `for` statement begins with. -/
def ForInit.nodes : ForInit → List Node
  | vars declarators | lexical _ declarators => declaratorNodes declarators
  | expr e => [.expr e]

/-- The parts directly inside what a `for`-`in` statement assigns to. -/
def ForInTarget.nodes : ForInTarget → List Node
  | var _ | lexical _ _ => []
  | expr e => [.expr e]

/-- Statements that stand at the same place. -/
def Place.nodes (place : Place) (body : List Stmt) : List Node :=
  body.map (.stmt place)

/-- The parts directly inside a clause of a `switch` statement. -/
def SwitchClause.nodes (place : Place) (clause : SwitchClause) : List Node :=
  clause.test.toList.map .expr ++ place.nodes clause.body

/-- The parts directly inside a statement that stands at a place. -/
def StmtForm.children (place : Place) : StmtForm → List Node
  | var declarators | lexical _ declarators => declaratorNodes declarators
  | function code => [.code code]
  | expr e | throw e => [.expr e]
  | block b => place.inside.nodes b.body
  | empty | debugger | breakTo _ | continueTo _ => []
  | cond test yes no => .expr test :: place.inside.nodes (yes :: no.toList)
  | whileLoop test body | doWhile body test => [.expr test, .stmt place.inLoop body]
  | forLoop init test update body =>
    init.toList.flatMap ForInit.nodes ++ (test.toList ++ update.toList).map .expr ++
      [.stmt place.inLoop body]
  | forIn target object body => target.nodes ++ [.expr object, .stmt place.inLoop body]
  | ret value => value.toList.map .expr
  | attempt guarded handler finalizer =>
    place.inside.nodes guarded.body ++ handler.toList.flatMap (place.inside.nodes ·.body.body) ++
      finalizer.toList.flatMap (place.inside.nodes ·.body)
  | labeled name body => [.stmt (place.behind name) body]
  | switch discriminant clauses _ =>
    .expr discriminant :: clauses.flatMap (SwitchClause.nodes place.inChoice)
  | withObject object body => [.expr object, .stmt place.inside body]

/-- The statements of a function and the functions that are bound when it is entered. -/
def FunctionCode.children (code : FunctionCode) : List Node :=
  Place.function.nodes code.body ++ code.scope.functions.map .code

/-- The parts directly inside a part of a program. -/
def Node.children : Node → List Node
  | expr e => e.form.children
  | code c => c.children
  | stmt place s => s.form.children place

/-- The statements of a script and the functions that are bound before they run. -/
def Program.children (p : Program) : List Node :=
  Place.script.nodes p.body ++ p.scope.functions.map .code

/-- A part of a program lies in another one, at any depth. -/
inductive Node.Within : Node → Node → Prop where
  | here (n : Node) : Within n n
  | deeper {n child outer : Node} (inner : Within n child) (direct : child ∈ outer.children) :
      Within n outer

/-- A part of a program, at any depth and inside of any function. -/
def Program.Contains (p : Program) (n : Node) : Prop :=
  ∃ outer ∈ p.children, n.Within outer

/-! ## Sound parts -/

/-- A statement may stand where it does, and a function has the names that its body declares. -/
def Node.InPlace : Node → Prop
  | stmt place s => s.form.InPlace place
  | code c => Declares c.scope.lexical c.body
  | expr _ => True

/-- Every part of a part of a program, at any depth, is where it may be. -/
inductive Node.Sound : Node → Prop where
  | intro {n : Node} (inPlace : n.InPlace) (inner : ∀ child ∈ n.children, Sound child) : Sound n

theorem Node.sound_iff (n : Node) : n.Sound ↔ n.InPlace ∧ ∀ child ∈ n.children, child.Sound := by
  constructor
  · rintro ⟨inPlace, inner⟩
    exact ⟨inPlace, inner⟩
  · rintro ⟨inPlace, inner⟩
    exact ⟨inPlace, inner⟩

/-- What lies in a sound part is sound. -/
theorem Node.Sound.within {n outer : Node} (sound : outer.Sound) (within : n.Within outer) :
    n.Sound := by
  induction within with
  | here => exact sound
  | deeper _ direct ih => exact ih ((sound_iff _).mp sound |>.2 _ direct)

end ScriptEngine
