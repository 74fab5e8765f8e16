import ScriptEngine.Proofs.Hoisting.Harvest
import ScriptEngine.Syntax.Grammar.Expression

/-!
The rules for expressions harvest what their expressions tell: no names, but a mention of `arguments` exactly if there
is one outside of functions that are no arrows. The functions that they complete are described.
-/

namespace ScriptEngine

/-- The names of `var` in a part of a program. -/
abbrev Node.vars : Node → List String :=
  Node.collect fun s => varNames [s]

/-- The functions declared in a part of a program. -/
abbrev Node.functions : Node → List FunctionCode :=
  Node.collect fun s => declaredFunctions [s]

namespace Grammar

/-- A harvest is what parts of a program tell, behind something of its own. -/
structure Harvest.Tells (h own : Harvest) (nodes : List Node) : Prop where
  vars : h.vars = own.vars ++ nodes.flatMap Node.vars
  functions : h.functions = own.functions ++ nodes.flatMap Node.functions
  mentioned : h.mentioned = true ↔ ∃ n ∈ nodes, n.Mentions
  described : ∀ n ∈ nodes, n.Described
  noted : ∀ code ∈ h.functions, (Node.code code).Described

/-- A harvest is what an expression tells. -/
abbrev TellsExpr (h : Harvest) (e : Expr) : Prop :=
  h.Tells .none [.expr e]

/-- A harvest is what expressions tell in order. -/
abbrev TellsExprs (h : Harvest) (items : List Expr) : Prop :=
  h.Tells .none (items.map Node.expr)

/-- A harvest is what a property of an object literal tells. -/
abbrev TellsEntry (h : Harvest) (entry : Entry) : Prop :=
  h.Tells .none [entry.value.node]

/-- A harvest is what a function tells to those around it. -/
abbrev TellsCode (h : Harvest) (code : FunctionCode) : Prop :=
  h.Tells .none [.code code]

/-- A harvest is what a statement tells wherever it stands. -/
def TellsStmt (h : Harvest) (s : Stmt) : Prop :=
  ∀ place, h.Tells .none [.stmt place s]

/-- The rules harvest what they read. -/
structure Rules.Harvest (rules : Rules) : Prop where
  assignment : ∀ noIn, Harvests (rules.assignment noIn) TellsExpr
  binary : ∀ precedence noIn, Harvests (rules.binary precedence noIn) TellsExpr
  unary : Harvests rules.unary TellsExpr
  newExpression : Harvests rules.newExpression TellsExpr
  statement : Harvests rules.statement TellsStmt
  item : Harvests rules.item TellsStmt

/-! ## What parts tell together -/

theorem tells_nothing : Harvest.none.Tells .none [] where
  vars := rfl
  functions := rfl
  mentioned := by simp [Harvest.none]
  described := List.forall_mem_nil _
  noted := List.forall_mem_nil _

section

variable {h k own also : Harvest} {nodes others : List Node}

/-- What parts in order tell, where the first ones tell no names or the others have nothing of their own. -/
theorem Harvest.Tells.and (first : h.Tells own nodes) (second : k.Tells also others)
    (quiet : also = .none ∨ nodes.flatMap Node.vars = [] ∧ nodes.flatMap Node.functions = []) :
    (h.and k).Tells (own.and also) (nodes ++ others) := by
  refine ⟨?_, ?_, ?_, ?_, ?_⟩
  · rw [Harvest.and, first.vars, second.vars]
    rcases quiet with rfl | ⟨vars, functions⟩
    · simp [Harvest.and, Harvest.none]
    · simp [Harvest.and, vars]
  · rw [Harvest.and, first.functions, second.functions]
    rcases quiet with rfl | ⟨vars, functions⟩
    · simp [Harvest.and, Harvest.none]
    · simp [Harvest.and, functions]
  · rw [Harvest.and, Bool.or_eq_true, first.mentioned, second.mentioned]
    simp only [List.mem_append, or_and_right, exists_or]
  · intro n mem
    rcases List.mem_append.mp mem with left | right
    · exact first.described n left
    · exact second.described n right
  · intro code mem
    rcases List.mem_append.mp mem with left | right
    · exact first.noted code left
    · exact second.noted code right

theorem Harvest.Tells.behind (first : h.Tells own nodes) (second : k.Tells .none others) :
    (h.and k).Tells own (nodes ++ others) := by
  have both := first.and second (.inl rfl)
  rwa [Harvest.and_none] at both

/-- Parts that tell no names may as well come first. -/
theorem Harvest.Tells.behind_quiet (told : h.Tells own (nodes ++ others))
    (quiet : others.flatMap Node.vars = [] ∧ others.flatMap Node.functions = []) : h.Tells own (others ++ nodes) where
  vars := by
    rw [told.vars, List.flatMap_append, List.flatMap_append, quiet.1]
    simp
  functions := by
    rw [told.functions, List.flatMap_append, List.flatMap_append, quiet.2]
    simp
  mentioned := by
    rw [told.mentioned]
    simp only [List.mem_append, or_comm]
  described n mem := told.described n (List.mem_append.mpr (List.mem_append.mp mem).symm)
  noted := told.noted

/-- An expression other than the name `arguments` tells what the parts directly inside of it tell. -/
theorem tells_expr {form : ExprForm} {span : Span} (told : h.Tells .none form.children)
    (plain : form ≠ .identifier "arguments") : TellsExpr h ⟨form, span⟩ where
  vars := by rw [told.vars, collect_expr_children]; rfl
  functions := by rw [told.functions, collect_expr_children]; rfl
  mentioned := by
    rw [told.mentioned]
    simp only [List.mem_singleton, exists_eq_left, mentions_expr_iff, plain, false_or]
  described := List.forall_mem_singleton.mpr (.intro nofun told.described)
  noted := told.noted

/-- Without parts there is nothing to tell. -/
theorem tells_leaf {form : ExprForm} {span : Span} (leaf : form.children = [])
    (plain : form ≠ .identifier "arguments") : TellsExpr .none ⟨form, span⟩ :=
  tells_expr (leaf ▸ tells_nothing) plain

theorem tells_name (name : String) (span : Span) :
    TellsExpr ⟨[], [], name == "arguments"⟩ ⟨.identifier name, span⟩ where
  vars := rfl
  functions := rfl
  mentioned := by simp [mentions_expr_iff, ExprForm.children]
  described := List.forall_mem_singleton.mpr (.intro nofun (List.forall_mem_nil _))
  noted := List.forall_mem_nil _

theorem tells_operation {op : InfixOp} {left right : Expr} (first : TellsExpr h left) (second : TellsExpr k right) :
    TellsExpr (h.and k) (op.apply left right) := by
  cases op <;> exact tells_expr (first.behind second) (by simp)

/-- A statement tells what it declares itself and what the parts directly inside of it tell. -/
theorem tells_stmt {place : Place} {form : StmtForm} {span : Span}
    (told : h.Tells ⟨form.vars, form.functions, false⟩ (form.children place)) :
    h.Tells .none [.stmt place ⟨form, span⟩] where
  vars := by
    rw [told.vars, collect_stmt_children]
    simp [Node.collect, var_names_single ⟨form, span⟩, Harvest.none]
  functions := by
    rw [told.functions, collect_stmt_children]
    simp [Node.collect, declared_functions_single ⟨form, span⟩, Harvest.none]
  mentioned := by
    rw [told.mentioned]
    simp only [List.mem_singleton, exists_eq_left, mentions_stmt_iff]
  described := List.forall_mem_singleton.mpr (.intro nofun told.described)
  noted := told.noted

section

variable {scope : ScopeNames} {body : List Stmt} (told : ∀ place : Place, h.Tells .none (place.nodes body))
  (functions : scope.functions = h.functions)

include told functions

/-- Names that were noted while a body was read are those that are declared in it. -/
theorem hoists_of_told (vars : scope.vars = h.vars.eraseDups) : scope.Hoists body where
  vars := by
    rw [vars, (told .function).vars, collect_nodes]
    simp [varNames, Harvest.none, List.flatMap_assoc]
  functions := by
    rw [functions, (told .function).functions, collect_nodes]
    simp [declaredFunctions, Harvest.none, List.flatMap_assoc]

/-- What is inside of a body is described, and so are the functions that are bound when it is entered. -/
theorem described_of_told (place : Place) :
    ∀ child ∈ place.nodes body ++ scope.functions.map .code, child.Described := by
  intro child mem
  rcases List.mem_append.mp mem with inBody | bound
  · exact (told place).described child inBody
  · obtain ⟨code, among, rfl⟩ := List.mem_map.mp bound
    exact (told place).noted code (functions ▸ among)

end

/-- A function takes the names of its body, and tells of a mention only if it is an arrow. -/
theorem tells_code {code : FunctionCode} {isArrow : Bool} (arrow : code.isArrow = isArrow)
    (body : ∀ place : Place, h.Tells .none (place.nodes code.body))
    (vars : code.scope.vars = h.vars.eraseDups) (functions : code.scope.functions = h.functions)
    (mentions : isArrow = false → code.usesArguments = h.mentioned) :
    TellsCode ⟨[], [], isArrow && h.mentioned⟩ code := by
  subst arrow
  have mentioned : h.mentioned = true ↔ MentionsArguments code.body := by
    rw [(body .function).mentioned]
    simp [MentionsArguments, Place.nodes]
  have here : code.Described :=
    ⟨hoists_of_told body functions vars, fun own => by rw [mentions own, mentioned]⟩
  refine ⟨rfl, rfl, ?_, List.forall_mem_singleton.mpr (.intro ?_ ?_), List.forall_mem_nil _⟩
  · rw [Bool.and_eq_true, mentioned]
    simp only [List.mem_singleton, exists_eq_left, mentions_code_iff]
  · rintro _ ⟨⟩
    exact here
  · exact described_of_told body functions .function

end

variable {rules : Rules}

/-! ## Targets and parameters -/

theorem silent_check_target (target : Expr) : Silent (checkTarget target) := by
  unfold checkTarget
  split
  · exact .silent_bind silent_is_strict fun _ => .ite (.fail _ _) (.pure rfl)
  · exact .pure rfl
  · exact .pure rfl
  · exact .fail _ _

/-- Of items that are read in silence nothing is added. -/
theorem silent_separated {α : Type} {item : Reader α} (silent : Silent item) (fuel : Nat) (done : List α) :
    Silent (readSeparated fuel item done) := by
  have more (h k : Harvest) (a : α) (items : List α) (first : h = .none) (rest : k = .none) : h.and k = .none := by
    rw [first, rest, Harvest.and_none]
  exact (harvests_separated silent rfl more fuel done).weaken fun h items there => there.elim fun _ both => both.2

theorem silent_parameter_list (rules : Rules) : Silent (parameterList rules) := by
  refine .silent_bind (silent_expect _ _) fun _ => ?_
  extract_lets parameter finish
  have finished (parameters : List (String × Token)) : Silent (finish parameters) :=
    .silent_bind (silent_expect _ _) fun _ => .pure rfl
  have named : Silent parameter :=
    .silent_bind silent_peek fun token => .silent_bind (silent_binding_name _) fun _ => .pure rfl
  refine .silent_bind (silent_check _) fun closed => .ite ?_ ?_
  · exact .silent_bind (.pure rfl) finished
  · exact .silent_bind (silent_separated named _ _) finished

theorem silent_check_strict_parameters (earlier : List String) (parameters : List (String × Token)) :
    Silent (checkStrictParameters earlier parameters) := by
  induction parameters generalizing earlier with
  | nil => exact .pure rfl
  | cons parameter rest ih => exact .ite (.fail_then _ _) (.ite (.fail_then _ _) (ih _))

theorem silent_property_name : Silent propertyName := by
  refine .silent_bind silent_advance fun token => ?_
  split
  · exact .pure rfl
  · exact .pure rfl
  · exact .pure rfl
  · exact .pure rfl
  · exact .fail _ _

theorem silent_obey_directive (token : Token) : Silent (obeyDirective token) := by
  refine .silent_bind .get fun s => ?_
  split
  · exact .ite (silent_modify_body fun _ => rfl) (.pure rfl)
  · exact .broken

theorem silent_at_parameter_list : Silent atParameterList := by
  refine .silent_bind .get fun s => .ite ?_ (.pure rfl)
  split
  · exact .pure rfl
  · exact .broken

/-- Nothing is added where a result is given. -/
theorem gives {α : Type} {good : Harvest → α → Prop} {h : Harvest} {a : α} (holds : good h a) :
    Harvests (pure a) fun k b => good (h.and k) b :=
  .pure (by rwa [Harvest.and_none])

section

variable (harvest : rules.Harvest)

include harvest

/-- Expressions that commas separate tell one behind the other. -/
theorem harvests_expressions (noIn : Bool) (fuel : Nat) :
    Harvests (readSeparated fuel (rules.assignment noIn) []) TellsExprs := by
  have more (h k : Harvest) (e : Expr) (items : List Expr) (first : TellsExpr h e) (rest : TellsExprs k items) :
      TellsExprs (h.and k) (e :: items) := first.behind rest
  refine (harvests_separated (harvest.assignment noIn) tells_nothing more fuel []).weaken fun h items there => ?_
  obtain ⟨later, rfl, told⟩ := there
  exact told

theorem harvests_expression (noIn : Bool) : Harvests (expression rules noIn) TellsExpr := by
  refine .bind (harvest.assignment noIn) fun h first told => .silent_bind (silent_check _) fun comma => ?_
  refine .ite (.silent_bind silent_pass fun _ => ?_) (.pure ?_)
  · refine .bind (harvests_expressions harvest noIn _) fun k rest others => ?_
    refine .silent_bind (silent_span_from _) fun span => .pure ?_
    rw [Harvest.and_none]
    exact tells_expr (told.behind others) (by simp)
  · rwa [Harvest.and_none]

/-! ## Functions -/

theorem harvests_body_items (fuel : Nat) (stop : TokenKind) (inPrologue : Bool) (done : List Stmt) :
    Harvests (bodyItems rules fuel stop inPrologue done) fun h body =>
      ∃ later, body = done.reverse ++ later ∧ ∀ place : Place, h.Tells .none (place.nodes later) := by
  induction fuel generalizing inPrologue done with
  | zero => exact .broken
  | succ fuel ih =>
    refine .silent_bind silent_peek fun token => .ite (.pure ⟨[], by simp, fun _ => tells_nothing⟩) ?_
    refine .bind harvest.item fun h s told => ?_
    extract_lets directive rest
    have later : Harvests (rest ()) fun k body =>
        ∃ later, body = done.reverse ++ later ∧ ∀ place : Place, (h.and k).Tells .none (place.nodes later) := by
      refine (ih directive (s :: done)).weaken fun k body there => ?_
      obtain ⟨later, rfl, others⟩ := there
      exact ⟨s :: later, by simp, fun place => (told place).behind (others place)⟩
    exact .ite (.silent_bind (silent_obey_directive _) fun _ => later) later

theorem harvests_function_body (name : Option String) (kind : FunctionKind) (parameters : List (String × Token))
    (start : Nat) : Harvests (functionBody rules name kind parameters start) TellsCode := by
  refine .silent_bind (silent_expect _ _) fun _ => .silent_bind silent_is_strict fun strict => ?_
  refine .bind (harvests_with_body _ _ (harvests_body_items harvest _ _ _ _)) ?_
  rintro h ⟨statements, body⟩ ⟨inner, ⟨_, rfl, told⟩, vars, functions, mentions, rfl⟩
  dsimp -zeta only at vars functions mentions ⊢
  refine .silent_bind (silent_expect _ _) fun _ => ?_
  extract_lets finish
  have finished : Harvests (finish ()) fun k code =>
      TellsCode (Harvest.and ⟨[], [], kind == .arrow && inner.mentioned⟩ k) code := by
    refine .silent_bind (silent_source_from _) fun _ => .silent_bind (silent_span_from _) fun _ => .pure ?_
    rw [Harvest.and_none]
    refine tells_code rfl ?_ ?_ ?_ ?_
    · exact told
    · exact vars
    · exact functions
    · exact mentions
  exact .ite (.silent_bind (silent_check_strict_parameters _ _) fun _ => finished) finished

theorem harvests_function_rest (kind : FunctionKind) (start : Nat) :
    Harvests (functionRest rules kind start) TellsCode := by
  unfold functionRest
  extract_lets finish
  have finished (name : Option String) : Harvests (finish name) TellsCode :=
    .silent_bind (silent_parameter_list rules) fun parameters =>
      harvests_function_body harvest _ _ parameters start
  refine .silent_bind (silent_check _) fun named => .ite ?_ (.ite ?_ ?_)
  · exact .silent_bind (.map some (silent_binding_name _) fun _ _ => id) finished
  · exact .silent_bind (fails_here _) finished
  · exact .silent_bind (.pure rfl) finished

theorem harvests_arrow_rest (parameters : List (String × Token)) (start : Nat) :
    Harvests (arrowRest rules parameters start) TellsExpr := by
  refine .silent_bind (silent_expect _ _) fun _ => ?_
  extract_lets finish
  have finished (h : Harvest) (code : FunctionCode) (told : TellsCode h code) :
      Harvests (finish code) fun k e => TellsExpr (h.and k) e := by
    refine .silent_bind (silent_span_from _) fun _ => .pure ?_
    rw [Harvest.and_none]
    exact tells_expr told (by simp)
  refine .silent_bind (silent_check _) fun braces => .ite ?_ ?_
  · exact .bind (harvests_function_body harvest _ _ parameters start) finished
  · refine .silent_bind silent_is_strict fun strict => ?_
    refine .bind (harvests_with_body _ _ (harvest.assignment false)) ?_
    rintro _ ⟨value, body⟩ ⟨h, told, vars, functions, -, rfl⟩
    dsimp -zeta only at vars functions ⊢
    extract_lets complete
    have returns (place : Place) : h.Tells .none (place.nodes [⟨.ret (some value), value.span⟩]) := tells_stmt told
    have completed : Harvests (complete ()) fun k e => TellsExpr (Harvest.and ⟨[], [], true && h.mentioned⟩ k) e := by
      refine .silent_bind (silent_source_from _) fun source => .silent_bind (silent_span_from _) fun span => ?_
      have given (code : FunctionCode) : Harvests (pure code) fun k c => k = .none ∧ c = code := .pure ⟨rfl, rfl⟩
      refine (given _).bind fun k code both => ?_
      obtain ⟨rfl, rfl⟩ := both
      simp only [Harvest.none_and]
      refine finished _ _ (tells_code rfl ?_ ?_ ?_ ?_)
      · exact returns
      · exact vars
      · exact functions
      · exact nofun
    exact .ite (.silent_bind (silent_check_strict_parameters _ _) fun _ => completed) completed

/-! ## Literals -/

theorem harvests_array_elements (fuel : Nat) (done : List (Option Expr)) :
    Harvests (arrayElements rules fuel done) fun h elements => ∃ later, elements = done.reverse ++ later ∧
      h.Tells .none (later.filterMap (·.map .expr)) := by
  induction fuel generalizing done with
  | zero => exact .broken
  | succ fuel ih =>
    refine .silent_bind (silent_accept _) fun closed => .ite (.pure ⟨[], by simp, tells_nothing⟩) ?_
    refine .silent_bind (silent_accept _) fun comma => .ite ?_ ?_
    · refine (ih (none :: done)).weaken fun h elements there => ?_
      obtain ⟨later, rfl, told⟩ := there
      exact ⟨none :: later, by simp, told⟩
    · refine .bind (harvest.assignment false) fun h element told => .silent_bind (silent_check _) fun last => ?_
      extract_lets rest
      have later : Harvests (rest ()) fun k elements => ∃ later, elements = done.reverse ++ later ∧
          (h.and k).Tells .none (later.filterMap (·.map .expr)) := by
        refine (ih (some element :: done)).weaken fun k elements there => ?_
        obtain ⟨later, rfl, others⟩ := there
        exact ⟨some element :: later, by simp, told.behind others⟩
      exact .ite later (.silent_bind (silent_expect _ _) fun _ => later)

theorem harvests_object_entry : Harvests (objectEntry rules) TellsEntry := by
  refine .silent_bind .get fun s => ?_
  extract_lets token start isGetter
  refine .ite ?_ ?_
  · refine .silent_bind silent_pass fun _ => .silent_bind silent_property_name fun key => ?_
    refine .silent_bind (silent_parameter_list rules) fun parameters => ?_
    extract_lets finish
    have finished : Harvests (finish ()) TellsEntry := by
      refine .bind (harvests_function_body harvest _ _ parameters start) fun h code told => ?_
      have accessor (span : Span) :
          TellsEntry h ⟨key, if isGetter then .getter code else .setter code, span⟩ := by
        unfold TellsEntry
        split <;> exact told
      exact .silent_bind (silent_span_from _) fun span => gives (accessor span)
    exact .ite (.ite finished (.fail_then _ _)) (.ite finished (.fail_then _ _))
  · refine .silent_bind silent_property_name fun key => .silent_bind (silent_expect _ _) fun _ => ?_
    refine .bind (harvest.assignment false) fun h value told => ?_
    exact .silent_bind (silent_span_from _) fun span => gives told

theorem harvests_object_entries (fuel : Nat) (done : List Entry) :
    Harvests (objectEntries rules fuel done) fun h entries => ∃ later, entries = done.reverse ++ later ∧
      h.Tells .none (later.map (·.value.node)) := by
  induction fuel generalizing done with
  | zero => exact .broken
  | succ fuel ih =>
    refine .silent_bind (silent_accept _) fun closed => .ite (.pure ⟨[], by simp, tells_nothing⟩) ?_
    refine .bind (harvests_object_entry harvest) fun h entry told => .silent_bind (silent_check _) fun last => ?_
    extract_lets rest
    have later : Harvests (rest ()) fun k entries => ∃ later, entries = done.reverse ++ later ∧
        (h.and k).Tells .none (later.map (·.value.node)) := by
      refine (ih (entry :: done)).weaken fun k entries there => ?_
      obtain ⟨later, rfl, others⟩ := there
      exact ⟨entry :: later, by simp, told.behind others⟩
    exact .ite later (.silent_bind (silent_expect _ _) fun _ => later)

/-! ## Expressions -/

theorem harvests_primary : Harvests (primary rules) TellsExpr := by
  refine .silent_bind silent_peek fun token => ?_
  extract_lets complete name number string
  have completed {h : Harvest} (form : ExprForm) (told : ∀ span, TellsExpr h ⟨form, span⟩) :
      Harvests (complete form) fun k e => TellsExpr (h.and k) e :=
    .silent_bind (silent_span_from _) fun span => gives (told span)
  have leaf (form : ExprForm) (leaf : form.children = []) (plain : form ≠ .identifier "arguments") :
      Harvests (complete form) TellsExpr := by
    simpa only [Harvest.none_and] using completed form fun span => tells_leaf leaf plain
  split
  · exact .silent_bind silent_pass fun _ => leaf _ rfl (by simp)
  · refine .silent_bind silent_pass fun _ => ?_
    have named : Harvests (name ()) fun k e => TellsExpr (Harvest.and ⟨[], [], token.lexeme == "arguments"⟩ k) e :=
      completed _ fun span => tells_name token.lexeme span
    split
    · next same =>
      rw [same] at named
      refine .bind harvests_mention_arguments fun h _ mentioned => ?_
      subst mentioned
      exact named
    · next other =>
      rw [Bool.eq_false_iff.mpr other] at named
      exact named.weaken fun k e told => (congrArg (TellsExpr · e) (Harvest.none_and k)).mp told
  · have read : Harvests (number ()) TellsExpr := leaf _ rfl (by simp)
    exact .silent_bind silent_pass fun _ => .silent_bind silent_is_strict fun _ => .ite (.fail_then _ _) read
  · have read : Harvests (string ()) TellsExpr := leaf _ rfl (by simp)
    exact .silent_bind silent_pass fun _ => .silent_bind silent_is_strict fun _ => .ite (.fail_then _ _) read
  · exact .silent_bind silent_pass fun _ => leaf _ rfl (by simp)
  · exact .silent_bind silent_pass fun _ => leaf _ rfl (by simp)
  · exact .silent_bind silent_pass fun _ => leaf _ rfl (by simp)
  · refine .silent_bind silent_pass fun _ => .bind (harvests_function_rest harvest _ _) fun h code told => ?_
    exact completed _ fun span => tells_expr told (by simp)
  · refine .silent_bind silent_pass fun _ => .bind (harvests_expression harvest false) fun h inner told => ?_
    exact .silent_bind (silent_expect _ _) fun _ => gives told
  · refine .silent_bind silent_pass fun _ => .bind (harvests_array_elements harvest _ _) fun h elements there => ?_
    obtain ⟨_, rfl, told⟩ := there
    exact completed _ fun span => tells_expr told (by simp)
  · refine .silent_bind silent_pass fun _ => .bind (harvests_object_entries harvest _ _) fun h entries there => ?_
    obtain ⟨_, rfl, told⟩ := there
    exact completed _ fun span => tells_expr told (by simp)
  · exact .fail _ _
  · exact .fail _ _

theorem harvests_argument_list :
    Harvests (argumentList rules) TellsExprs := by
  refine .silent_bind (silent_expect _ _) fun _ => ?_
  extract_lets finish
  have finished (h : Harvest) (items : List Expr) (told : TellsExprs h items) :
      Harvests (finish items) fun k items => TellsExprs (h.and k) items :=
    .silent_bind (silent_expect _ _) fun _ => gives told
  refine .silent_bind (silent_check _) fun closed => .ite ?_ ?_
  · have none : Harvests (pure []) TellsExprs := .pure tells_nothing
    exact none.bind finished
  · exact .bind (harvests_expressions harvest false _) finished

theorem harvests_member_suffix {h : Harvest} {object : Expr} (told : TellsExpr h object) :
    Harvests (memberSuffix rules object) fun k e => TellsExpr (h.and k) e := by
  refine .silent_bind (silent_accept _) fun dot => .ite ?_ ?_
  · refine .silent_bind silent_advance fun token => ?_
    split
    · exact .silent_bind (silent_span_from _) fun span => gives (tells_expr told (by simp))
    · exact .silent_bind (silent_span_from _) fun span => gives (tells_expr told (by simp))
    · exact .fail _ _
  · refine .silent_bind (silent_expect _ _) fun _ => .bind (harvests_expression harvest false) fun k key others => ?_
    refine .silent_bind (silent_expect _ _) fun _ => .silent_bind (silent_span_from _) fun span => .pure ?_
    rw [Harvest.and_none]
    exact tells_expr (told.behind others) (by simp)

theorem harvests_member_suffixes (fuel : Nat) {h : Harvest} {object : Expr} (told : TellsExpr h object) :
    Harvests (memberSuffixes rules fuel object) fun k e => TellsExpr (h.and k) e := by
  induction fuel generalizing h object with
  | zero => exact .broken
  | succ fuel ih =>
    refine .silent_bind .get fun s => .ite ?_ (gives told)
    refine .bind (harvests_member_suffix harvest told) fun k e both => ?_
    simpa only [Harvest.and_assoc] using ih both

theorem harvests_new_expression : Harvests (newExpression rules) TellsExpr := by
  refine .silent_bind silent_advance fun token => ?_
  extract_lets start finish
  have finished (h : Harvest) (head : Expr) (told : TellsExpr h head) :
      Harvests (finish head) fun k e => TellsExpr (h.and k) e := by
    refine .bind (harvests_member_suffixes harvest _ told) fun k callee both => ?_
    refine .silent_bind (silent_check _) fun called => ?_
    extract_lets complete
    have completed (l : Harvest) (items : List Expr) (others : TellsExprs l items) :
        Harvests (complete items) fun m e => TellsExpr (h.and (k.and (l.and m))) e := by
      refine .silent_bind (silent_span_from _) fun span => .pure ?_
      rw [Harvest.and_none, ← Harvest.and_assoc]
      exact tells_expr (both.behind others) (by simp)
    have none : Harvests (pure []) TellsExprs := .pure tells_nothing
    exact .ite (.bind (harvests_argument_list harvest) completed) (none.bind completed)
  refine .silent_bind (silent_check _) fun nested => .ite ?_ ?_
  · exact .bind harvest.newExpression finished
  · exact .bind (harvests_primary harvest) finished

theorem harvests_call_suffixes (fuel : Nat) {h : Harvest} {callee : Expr} (told : TellsExpr h callee) :
    Harvests (callSuffixes rules fuel callee) fun k e => TellsExpr (h.and k) e := by
  induction fuel generalizing h callee with
  | zero => exact .broken
  | succ fuel ih =>
    refine .silent_bind (silent_check _) fun called => .ite ?_ ?_
    · refine .bind (harvests_argument_list harvest) fun k items others => ?_
      have both (span : Span) : TellsExpr (h.and k) ⟨.call callee items, span⟩ :=
        tells_expr (told.behind others) (by simp)
      refine .silent_bind (silent_span_from _) fun span => ?_
      simpa only [Harvest.and_assoc] using ih (both span)
    · refine .silent_bind .get fun s => .ite ?_ (gives told)
      refine .bind (harvests_member_suffix harvest told) fun k e both => ?_
      simpa only [Harvest.and_assoc] using ih both

theorem harvests_left_hand_side : Harvests (leftHandSide rules) TellsExpr := by
  refine .silent_bind (silent_check _) fun constructs => .ite ?_ ?_
  · exact .bind (harvests_new_expression harvest) fun h e told => harvests_call_suffixes harvest _ told
  · exact .bind (harvests_primary harvest) fun h e told => harvests_call_suffixes harvest _ told

theorem harvests_postfix_update : Harvests (postfixUpdate rules) TellsExpr := by
  refine .bind (harvests_left_hand_side harvest) fun h target told => .silent_bind silent_peek fun token => ?_
  split
  · refine .ite (gives told) ?_
    refine .silent_bind (silent_check_target _) fun _ => .silent_bind silent_pass fun _ => ?_
    exact .silent_bind (silent_span_from _) fun span => gives (tells_expr told (by simp))
  · exact gives told

theorem harvests_unary : Harvests (unary rules) TellsExpr := by
  refine .silent_bind silent_peek fun token => ?_
  extract_lets start
  split
  · refine .silent_bind silent_pass fun _ => .bind harvest.unary fun h operand told => ?_
    refine .silent_bind silent_is_strict fun strict => ?_
    extract_lets finish
    have finished : Harvests (finish ()) fun k e => TellsExpr (h.and k) e :=
      .silent_bind (silent_span_from _) fun span => gives (tells_expr told (by simp))
    exact .ite (.fail_then _ _) finished
  · refine .silent_bind silent_pass fun _ => .bind harvest.unary fun h target told => ?_
    refine .silent_bind (silent_check_target _) fun _ => .silent_bind (silent_span_from _) fun span => ?_
    exact gives (tells_expr told (by simp))
  · exact harvests_postfix_update harvest

theorem harvests_binary_rest (precedence : Nat) (noIn : Bool) (fuel : Nat) {h : Harvest} {left : Expr}
    (told : TellsExpr h left) :
    Harvests (binaryRest rules precedence noIn fuel left) fun k e => TellsExpr (h.and k) e := by
  induction fuel generalizing h left with
  | zero => exact .broken
  | succ fuel ih =>
    refine .silent_bind silent_peek fun token => ?_
    split
    · exact gives told
    · refine .ite (gives told) (.silent_bind silent_pass fun _ => ?_)
      refine .bind (harvest.binary _ _) fun k right others => ?_
      simpa only [Harvest.and_assoc] using ih (tells_operation told others)

theorem harvests_binary (precedence : Nat) (noIn : Bool) : Harvests (binary rules precedence noIn) TellsExpr :=
  .bind (harvests_unary harvest) fun _ _ told => harvests_binary_rest harvest precedence noIn _ told

theorem harvests_conditional (noIn : Bool) : Harvests (conditional rules noIn) TellsExpr := by
  refine .bind (harvests_binary harvest 0 noIn) fun h test told => .silent_bind (silent_accept _) fun chosen => ?_
  refine .ite ?_ (gives told)
  refine .bind (harvest.assignment _) fun k yes first => .silent_bind (silent_expect _ _) fun _ => ?_
  refine .bind (harvest.assignment _) fun l no second => .silent_bind (silent_span_from _) fun span => .pure ?_
  rw [Harvest.and_none]
  exact tells_expr (told.behind (first.behind second)) (by simp)

theorem harvests_assignment (noIn : Bool) : Harvests (assignment rules noIn) TellsExpr := by
  refine .silent_bind .get fun s => ?_
  extract_lets token start
  refine .ite ?_ (.silent_bind silent_at_parameter_list fun parameters => .ite ?_ ?_)
  · exact .silent_bind (silent_binding_name _) fun name => harvests_arrow_rest harvest _ _
  · exact .silent_bind (silent_parameter_list rules) fun parameters => harvests_arrow_rest harvest _ _
  · refine .bind (harvests_conditional harvest noIn) fun h target told => .silent_bind silent_peek fun token => ?_
    split
    · exact gives told
    · refine .silent_bind (silent_check_target _) fun _ => .silent_bind silent_pass fun _ => ?_
      refine .bind (harvest.assignment _) fun k value others => .silent_bind (silent_span_from _) fun span => .pure ?_
      rw [Harvest.and_none]
      exact tells_expr (told.behind others) (by simp)

end

end Grammar
end ScriptEngine
