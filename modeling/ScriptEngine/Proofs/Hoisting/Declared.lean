import ScriptEngine.Proofs.Jumps.Place

/-!
The names that a body declares, and whether it mentions `arguments`, told from its tree alone. A name of `var` and a
function declaration belong to the function around them, at whatever depth of statements they stand, but not to
functions further out. An arrow function takes `arguments` from around it, any other function has its own.
-/

namespace ScriptEngine

/-! ## Statements in a body -/

/-- The statements directly inside a statement, in order. -/
def StmtForm.inner : StmtForm → List Stmt
  | block b => b.body
  | cond _ yes no => yes :: no.toList
  | whileLoop _ body | doWhile body _ | forLoop _ _ _ body | forIn _ _ body | labeled _ body
  | withObject _ body => [body]
  | attempt guarded handler finalizer =>
    guarded.body ++ handler.toList.flatMap (·.body.body) ++ finalizer.toList.flatMap (·.body)
  | switch _ clauses _ => clauses.flatMap SwitchClause.body
  | _ => []

theorem size_of_block {b : Block} {t : Stmt} (mem : t ∈ b.body) : sizeOf t < sizeOf b := by
  obtain ⟨body, names⟩ := b
  have smaller : sizeOf t < sizeOf body := List.sizeOf_lt_of_mem mem
  simp only [Block.mk.sizeOf_spec]
  omega

theorem size_of_inner {s t : Stmt} (direct : t ∈ s.form.inner) : sizeOf t < sizeOf s := by
  obtain ⟨form, span⟩ := s
  suffices inside : sizeOf t < sizeOf form by
    simp only [Stmt.mk.sizeOf_spec]
    omega
  cases form with
  | block b =>
    have smaller := size_of_block direct
    simp only [StmtForm.block.sizeOf_spec]
    omega
  | cond test yes no =>
    cases no with
    | none =>
      obtain rfl : t = yes := by simpa [StmtForm.inner] using direct
      simp only [StmtForm.cond.sizeOf_spec]
      omega
    | some no =>
      obtain rfl | rfl : t = yes ∨ t = no := by simpa [StmtForm.inner] using direct
      all_goals
        simp only [StmtForm.cond.sizeOf_spec, Option.some.sizeOf_spec]
        omega
  | whileLoop test body | doWhile body test | forLoop init test update body | forIn target object body
  | labeled label body | withObject object body =>
    obtain rfl : t = body := by simpa [StmtForm.inner] using direct
    simp only [StmtForm.whileLoop.sizeOf_spec, StmtForm.doWhile.sizeOf_spec, StmtForm.forLoop.sizeOf_spec,
      StmtForm.forIn.sizeOf_spec, StmtForm.labeled.sizeOf_spec, StmtForm.withObject.sizeOf_spec]
    omega
  | attempt guarded handler finalizer =>
    simp only [StmtForm.inner, List.mem_append, List.mem_flatMap, Option.mem_toList] at direct
    simp only [StmtForm.attempt.sizeOf_spec]
    rcases direct with (inBlock | ⟨h, rfl, inHandler⟩) | ⟨b, rfl, inFinalizer⟩
    · have smaller := size_of_block inBlock
      omega
    · have smaller := size_of_block inHandler
      obtain ⟨parameter, body⟩ := h
      simp only [Option.some.sizeOf_spec, Handler.mk.sizeOf_spec] at smaller ⊢
      omega
    · have smaller := size_of_block inFinalizer
      simp only [Option.some.sizeOf_spec]
      omega
  | switch discriminant clauses names =>
    obtain ⟨⟨test, body⟩, among, mem⟩ := List.mem_flatMap.mp direct
    have inClause : sizeOf t < sizeOf body := List.sizeOf_lt_of_mem mem
    have smaller := List.sizeOf_lt_of_mem among
    simp only [SwitchClause.mk.sizeOf_spec, StmtForm.switch.sizeOf_spec] at smaller ⊢
    omega
  | _ => cases direct

/-- A statement and those inside of it at any depth, in order, without the ones of functions in it. -/
def Stmt.parts (s : Stmt) : List Stmt :=
  s :: s.form.inner.attach.flatMap fun t => t.1.parts
termination_by sizeOf s
decreasing_by exact size_of_inner t.2

theorem parts_eq (s : Stmt) : s.parts = s :: s.form.inner.flatMap Stmt.parts := by
  rw [Stmt.parts, List.flatMap_subtype (g := Stmt.parts) (by simp)]
  simp

/-- The names that a statement itself declares by `var`, be it in the head of a loop. -/
def StmtForm.vars : StmtForm → List String
  | var declarators | forLoop (some (.vars declarators)) _ _ _ => declarators.map (·.name)
  | forIn (.var name) _ _ => [name]
  | _ => []

/-- The function that a statement itself declares. -/
def StmtForm.functions : StmtForm → List FunctionCode
  | function code => [code]
  | _ => []

/-- The names that are declared by `var` anywhere in a body, as often as they are. -/
def varNames (body : List Stmt) : List String :=
  (body.flatMap Stmt.parts).flatMap (·.form.vars)

/-- The functions that are declared anywhere in a body. -/
def declaredFunctions (body : List Stmt) : List FunctionCode :=
  (body.flatMap Stmt.parts).flatMap (·.form.functions)

theorem var_names_single (s : Stmt) :
    varNames [s] = s.form.vars ++ s.form.inner.flatMap fun t => varNames [t] := by
  simp [varNames, parts_eq s, List.flatMap_assoc]

theorem declared_functions_single (s : Stmt) :
    declaredFunctions [s] = s.form.functions ++ s.form.inner.flatMap fun t => declaredFunctions [t] := by
  simp [declaredFunctions, parts_eq s, List.flatMap_assoc]

/-! ## Mentions of `arguments` -/

/-- A part of a program has the name `arguments` in it, as an expression. What is inside of a function counts if the
function is an arrow. -/
inductive Node.Mentions : Node → Prop where
  | name {span : Span} : Mentions (.expr ⟨.identifier "arguments", span⟩)
  | expr {e : Expr} {child : Node} (direct : child ∈ e.form.children) (inner : Mentions child) : Mentions (.expr e)
  | stmt {place : Place} {s : Stmt} {child : Node} (direct : child ∈ s.form.children place)
      (inner : Mentions child) : Mentions (.stmt place s)
  | arrow {code : FunctionCode} {s : Stmt} (arrow : code.isArrow) (direct : s ∈ code.body)
      (inner : Mentions (.stmt .function s)) : Mentions (.code code)

/-- A body mentions `arguments`. -/
def MentionsArguments (body : List Stmt) : Prop :=
  ∃ s ∈ body, (Node.stmt .function s).Mentions

theorem mentions_expr_iff (form : ExprForm) (span : Span) : (Node.expr ⟨form, span⟩).Mentions ↔
    form = .identifier "arguments" ∨ ∃ child ∈ form.children, child.Mentions := by
  constructor
  · intro mentioned
    cases mentioned with
    | name => exact .inl rfl
    | expr direct inner => exact .inr ⟨_, direct, inner⟩
  · rintro (rfl | ⟨child, direct, inner⟩)
    · exact .name
    · exact .expr direct inner

theorem mentions_stmt_iff (place : Place) (s : Stmt) :
    (Node.stmt place s).Mentions ↔ ∃ child ∈ s.form.children place, child.Mentions := by
  constructor
  · intro mentioned
    cases mentioned with
    | stmt direct inner => exact ⟨_, direct, inner⟩
  · rintro ⟨child, direct, inner⟩
    exact .stmt direct inner

theorem mentions_code_iff (code : FunctionCode) :
    (Node.code code).Mentions ↔ code.isArrow ∧ MentionsArguments code.body := by
  constructor
  · intro mentioned
    cases mentioned with
    | arrow arrow direct inner => exact ⟨arrow, _, direct, inner⟩
  · rintro ⟨arrow, s, direct, inner⟩
    exact .arrow arrow direct inner

/-! ## What is known of a body -/

/-- The names that are bound when a body is entered are those that are declared in it: by `var` in the order in which
they first occur, each of them once, and the functions in order. -/
structure ScopeNames.Hoists (scope : ScopeNames) (body : List Stmt) : Prop where
  vars : scope.vars = (varNames body).eraseDups
  functions : scope.functions = declaredFunctions body

/-- The names of a function are those of its body, and it knows whether the body mentions `arguments`, unless it is an
arrow. -/
structure FunctionCode.Described (code : FunctionCode) : Prop where
  names : code.scope.Hoists code.body
  mentions : code.isArrow = false → (code.usesArguments = true ↔ MentionsArguments code.body)

/-- All functions in a part of a program are described, at any depth. -/
inductive Node.Described : Node → Prop where
  | intro {n : Node} (here : ∀ code, n = .code code → code.Described)
      (inner : ∀ child ∈ n.children, child.Described) : Described n

theorem Node.described_iff (n : Node) :
    n.Described ↔ (∀ code, n = .code code → code.Described) ∧ ∀ child ∈ n.children, child.Described := by
  constructor
  · rintro ⟨here, inner⟩
    exact ⟨here, inner⟩
  · rintro ⟨here, inner⟩
    exact .intro here inner

/-- What lies in a described part is described. -/
theorem Node.Described.within {n outer : Node} (described : outer.Described) (within : n.Within outer) :
    n.Described := by
  induction within with
  | here => exact described
  | deeper inner direct ih => exact ih ((Node.described_iff _).mp described |>.2 _ direct)

/-! ## Names by parts -/

/-- What is told of statements, of a part of a program. -/
def Node.collect {α : Type} (f : Stmt → List α) : Node → List α
  | .stmt _ s => f s
  | _ => []

section

variable {α : Type} (f : Stmt → List α)

theorem collect_exprs (items : List Expr) : (items.map Node.expr).flatMap (Node.collect f) = [] := by
  simp [Node.collect]

theorem collect_declarators (declarators : List Declarator) :
    (declaratorNodes declarators).flatMap (Node.collect f) = [] := by
  simp only [declaratorNodes, List.flatMap_eq_nil_iff, List.mem_filterMap, Option.map_eq_some_iff]
  rintro _ ⟨d, -, e, -, rfl⟩
  rfl

theorem collect_nodes (place : Place) (body : List Stmt) :
    (place.nodes body).flatMap (Node.collect f) = body.flatMap f := by
  simp [Place.nodes, Node.collect, List.flatMap_map]

/-- No statement lies directly in an expression. -/
theorem collect_expr_children (form : ExprForm) : form.children.flatMap (Node.collect f) = [] := by
  cases form with
  | array elements =>
    simp only [ExprForm.children, List.flatMap_eq_nil_iff, List.mem_filterMap, Option.map_eq_some_iff]
    rintro _ ⟨element, -, e, -, rfl⟩
    rfl
  | object entries =>
    simp only [ExprForm.children, List.flatMap_eq_nil_iff, List.mem_map]
    rintro _ ⟨entry, -, rfl⟩
    cases entry.value <;> rfl
  | sequence items => exact collect_exprs f items
  | call callee items | construct callee items => exact collect_exprs f (callee :: items)
  | _ => rfl

/-- The statements directly in a statement are its parts that are statements. -/
theorem collect_stmt_children (place : Place) (form : StmtForm) :
    (form.children place).flatMap (Node.collect f) = form.inner.flatMap f := by
  cases form with
  | var declarators => exact collect_declarators f declarators
  | lexical constant declarators => exact collect_declarators f declarators
  | block b => exact collect_nodes f _ b.body
  | cond test yes no => exact collect_nodes f place.inside (yes :: no.toList)
  | forLoop init test update body =>
    have head : (init.toList.flatMap ForInit.nodes).flatMap (Node.collect f) = [] := by
      cases init with
      | none => rfl
      | some init => cases init <;> simp [ForInit.nodes, collect_declarators, Node.collect]
    rw [StmtForm.children, List.flatMap_append, List.flatMap_append, head, collect_exprs]
    rfl
  | forIn target object body => cases target <;> rfl
  | ret value => exact collect_exprs f value.toList
  | attempt guarded handler finalizer =>
    simp only [StmtForm.children, StmtForm.inner, List.flatMap_append, List.flatMap_assoc, collect_nodes]
  | switch discriminant clauses names =>
    simp [StmtForm.children, StmtForm.inner, SwitchClause.nodes, List.flatMap_assoc, collect_nodes, collect_exprs,
      Node.collect]
  | _ => rfl

end

end ScriptEngine
