import ScriptEngine.Proofs.Hoisting.ReadExpression
import ScriptEngine.Syntax.Grammar.Statement

/-!
The rules for statements harvest what their statements tell: the names of `var` that a statement or the head of a loop
declares, the function of a declaration, and what is inside at any depth.
-/

namespace ScriptEngine.Grammar

/-! ## What statements tell -/

/-- A harvest is what a list of statements tells wherever it stands. -/
def TellsBody (h : Harvest) (body : List Stmt) : Prop :=
  ∀ place : Place, h.Tells .none (place.nodes body)

/-- A harvest is what a form of statement tells. -/
def TellsForm (h : Harvest) (form : StmtForm) : Prop :=
  ∀ span, TellsStmt h ⟨form, span⟩

/-- A harvest is what an expression tells that may be left out. -/
abbrev TellsOption (h : Harvest) (e : Option Expr) : Prop :=
  h.Tells .none (e.toList.map Node.expr)

/-- A harvest is what first values of declared names tell, and the names themselves. -/
abbrev TellsVars (h : Harvest) (declarators : List Declarator) : Prop :=
  h.Tells ⟨declarators.map (·.name), [], false⟩ (declaratorNodes declarators)

/-- A harvest is what first values of declared names tell. -/
abbrev TellsValues (h : Harvest) (declarators : List Declarator) : Prop :=
  h.Tells .none (declaratorNodes declarators)

/-- A harvest is what clauses of a `switch` statement tell wherever it stands. -/
def TellsClauses (h : Harvest) (clauses : List SwitchClause) : Prop :=
  ∀ place : Place, h.Tells .none (clauses.flatMap (SwitchClause.nodes place))

/-- A harvest is what the handler of a `try` statement tells, which may be left out. -/
def TellsHandler (h : Harvest) (handler : Option Handler) : Prop :=
  ∀ place : Place, h.Tells .none (handler.toList.flatMap (place.nodes ·.body.body))

/-- A harvest is what the finalizer of a `try` statement tells, which may be left out. -/
def TellsFinalizer (h : Harvest) (finalizer : Option Block) : Prop :=
  ∀ place : Place, h.Tells .none (finalizer.toList.flatMap (place.nodes ·.body))

variable {h k : Harvest} {rules : Rules}

theorem declarator_nodes_append (first rest : List Declarator) :
    declaratorNodes (first ++ rest) = declaratorNodes first ++ declaratorNodes rest :=
  List.filterMap_append

theorem declarator_nodes_single (name : String) (init : Option Expr) (span : Span) :
    declaratorNodes [⟨name, init, span⟩] = init.toList.map Node.expr := by
  cases init <;> rfl

/-- What a part declares itself. -/
theorem tells_own {own : Harvest} (silent : own.mentioned = false)
    (described : ∀ code ∈ own.functions, (Node.code code).Described) : own.Tells own [] where
  vars := by simp
  functions := by simp
  mentioned := by simp [silent]
  described := List.forall_mem_nil _
  noted := described

theorem tells_option_none : TellsOption .none none :=
  tells_nothing

/-- Expressions tell no names. -/
theorem quiet_exprs (items : List Expr) :
    (items.map Node.expr).flatMap Node.vars = [] ∧ (items.map Node.expr).flatMap Node.functions = [] :=
  ⟨collect_exprs _ items, collect_exprs _ items⟩

theorem quiet_declarators (declarators : List Declarator) :
    (declaratorNodes declarators).flatMap Node.vars = [] ∧ (declaratorNodes declarators).flatMap Node.functions = [] :=
  ⟨collect_declarators _ declarators, collect_declarators _ declarators⟩

theorem tells_vars_cons {d : Declarator} {rest : List Declarator} (first : TellsVars h [d])
    (others : TellsVars k rest) : TellsVars (h.and k) (d :: rest) := by
  have both := first.and others (.inr (quiet_declarators _))
  rwa [← declarator_nodes_append] at both

theorem tells_values_cons {d : Declarator} {rest : List Declarator} (first : TellsValues h [d])
    (others : TellsValues k rest) : TellsValues (h.and k) (d :: rest) := by
  have both := first.behind others
  rwa [← declarator_nodes_append] at both

theorem silent_single_binding (declarators : List Declarator) :
    Harvests (singleBinding declarators) fun h name => h = .none ∧ ∃ span, declarators = [⟨name, none, span⟩] := by
  unfold singleBinding
  split
  · exact .pure ⟨rfl, _, rfl⟩
  · exact fails_here _

theorem silent_leave_loop : Silent leaveLoop := by
  refine .silent_bind .get fun s => ?_
  split
  · exact .broken
  · exact silent_modify_body fun _ => rfl

theorem silent_leave_switch : Silent leaveSwitch := by
  refine .silent_bind .get fun s => ?_
  split
  · exact .broken
  · exact silent_modify_body fun _ => rfl

theorem silent_declare_lexical (token : Token) (name : LexicalName) : Silent (declareLexical token name) := by
  refine .silent_bind .get fun s => .ite (.fail_then _ _) (silent_modify_body fun b => ?_)
  unfold BodyState.addLexical
  split <;> rfl

theorem silent_optional_label : Silent optionalLabel :=
  .silent_bind silent_peek fun _ => .ite (.silent_bind silent_pass fun _ => .pure rfl) (.pure rfl)

/-- A statement that declares no names itself tells what the parts directly inside of it tell. -/
theorem tells_form {form : StmtForm} (vars : form.vars = []) (functions : form.functions = [])
    (told : ∀ place, h.Tells .none (form.children place)) : TellsForm h form := by
  intro span place
  refine tells_stmt ?_
  rw [vars, functions]
  exact told place

theorem harvests_continue_statement : Harvests continueStatement TellsForm := by
  refine .silent_bind silent_advance fun token => .silent_bind silent_optional_label fun label => ?_
  refine .silent_bind .get fun s => ?_
  extract_lets body finish
  have finished : Harvests (finish ()) TellsForm :=
    .silent_bind silent_end_statement fun _ => .pure (tells_form rfl rfl fun _ => tells_nothing)
  split
  · split
    · exact .ite finished (.fail_then _ _)
    · exact .fail_then _ _
  · exact .ite (.fail_then _ _) finished

theorem harvests_break_statement : Harvests breakStatement TellsForm := by
  refine .silent_bind silent_advance fun token => .silent_bind silent_optional_label fun label => ?_
  refine .silent_bind .get fun s => ?_
  extract_lets body finish
  have finished : Harvests (finish ()) TellsForm :=
    .silent_bind silent_end_statement fun _ => .pure (tells_form rfl rfl fun _ => tells_nothing)
  split
  · exact .ite finished (.fail_then _ _)
  · exact .ite (.fail_then _ _) finished

section

variable (harvest : rules.Harvest)

include harvest

theorem harvests_parenthesized (opening closing : String) :
    Harvests (parenthesized rules opening closing) TellsExpr := by
  refine .silent_bind (silent_expect _ _) fun _ => .bind (harvests_expression harvest false) fun h e told => ?_
  exact .silent_bind (silent_expect _ _) fun _ => gives told

theorem harvests_items (more : ReadingState → Bool) (fuel : Nat) :
    Harvests (readWhile fuel more rules.item []) TellsBody := by
  have next (h k : Harvest) (s : Stmt) (items : List Stmt) (first : TellsStmt h s) (rest : TellsBody k items) :
      TellsBody (h.and k) (s :: items) := fun place => (first place).behind (rest place)
  refine (harvests_while harvest.item (fun _ => tells_nothing) next fuel more []).weaken fun h items there => ?_
  obtain ⟨later, rfl, told⟩ := there
  exact told

theorem harvests_block : Harvests (block rules) fun h b => TellsBody h b.body := by
  refine .silent_bind (silent_expect _ _) fun _ => ?_
  refine .bind (harvests_with_block (harvests_items harvest _ _)) fun h read told => ?_
  refine .silent_bind (silent_expect _ _) fun _ => .pure ?_
  rwa [Harvest.and_none]

/-! ## Declarations -/

/-- A declared name is followed by its first value if a sign of equality announces one. -/
theorem harvests_first_value {good : Harvest → Declarator → Prop} {finish : Option Expr → Reader Declarator}
    (noIn : Bool) (finished : ∀ h init, TellsOption h init → Harvests (finish init) fun k d => good (h.and k) d) :
    Harvests (acceptMark .assign >>= fun given =>
      if given then (some <$> rules.assignment noIn) >>= finish else pure none >>= finish) good := by
  refine .silent_bind (silent_accept _) fun given => .ite ?_ ?_
  · have read : Harvests (some <$> rules.assignment noIn) TellsOption :=
      .map some (harvest.assignment noIn) fun h e told => told
    exact read.bind finished
  · have read : Harvests (pure none) TellsOption := .pure tells_option_none
    exact read.bind finished

theorem harvests_var_declarator (noIn : Bool) :
    Harvests (varDeclarator rules noIn) fun h d => TellsVars h [d] := by
  refine .silent_bind silent_peek fun token => ?_
  extract_lets start
  refine .silent_bind (silent_binding_name _) fun name => ?_
  extract_lets finish
  refine harvests_first_value harvest noIn fun h init told => ?_
  refine .bind (harvests_add_var name) fun k _ added => .silent_bind (silent_span_from _) fun span => .pure ?_
  subst added
  have own : Harvest.Tells ⟨[name], [], false⟩ ⟨[name], [], false⟩ [] := tells_own rfl (List.forall_mem_nil _)
  have both := told.and own (.inr (quiet_exprs _))
  rwa [Harvest.none_and, List.append_nil, ← declarator_nodes_single name init span] at both

theorem harvests_var_declarators (noIn : Bool) : Harvests (varDeclarators rules noIn) TellsVars := by
  have more (h k : Harvest) (d : Declarator) (rest : List Declarator) (first : TellsVars h [d])
      (others : TellsVars k rest) : TellsVars (h.and k) (d :: rest) := tells_vars_cons first others
  refine (harvests_separated (harvests_var_declarator harvest noIn) tells_nothing more rules.levels
    []).weaken fun h declarators there => ?_
  obtain ⟨later, rfl, told⟩ := there
  exact told

theorem harvests_lexical_declarator (constant inForHead valueRequired : Bool) :
    Harvests (lexicalDeclarator rules constant inForHead valueRequired) fun h d => TellsValues h [d] := by
  refine .silent_bind silent_peek fun token => .silent_bind (silent_binding_name _) fun name => ?_
  extract_lets finish declare
  have finished (h : Harvest) (init : Option Expr) (told : TellsOption h init) :
      Harvests (finish init) fun k d => TellsValues (h.and k) [d] := by
    have complete : Harvests (do return ⟨name, init, ← spanFrom token.span.start⟩) fun k d =>
        TellsValues (h.and k) [d] := by
      refine .silent_bind (silent_span_from _) fun span => .pure ?_
      rwa [Harvest.and_none, TellsValues, declarator_nodes_single]
    refine .ite (.fail_then _ _) (.ite complete ?_)
    exact .silent_bind (silent_declare_lexical _ _) fun _ => complete
  exact .ite (.fail_then _ _) (harvests_first_value harvest inForHead finished)

theorem harvests_lexical_declarators (constant inForHead valueRequired : Bool) :
    Harvests (lexicalDeclarators rules constant inForHead valueRequired) TellsValues := by
  have more (h k : Harvest) (d : Declarator) (rest : List Declarator) (first : TellsValues h [d])
      (others : TellsValues k rest) : TellsValues (h.and k) (d :: rest) := tells_values_cons first others
  refine (harvests_separated (harvests_lexical_declarator harvest constant inForHead valueRequired) tells_nothing more
    rules.levels []).weaken fun h declarators there => ?_
  obtain ⟨later, rfl, told⟩ := there
  exact told

theorem harvests_function_declaration : Harvests (functionDeclaration rules) TellsStmt := by
  refine .silent_bind silent_advance fun token => .bind (harvests_function_rest harvest _ _) fun h code told => ?_
  refine .bind (harvests_add_function code) fun k _ added => .silent_bind (silent_span_from _) fun span => .pure ?_
  subst added
  have described : ∀ c ∈ [code], (Node.code c).Described :=
    List.forall_mem_singleton.mpr (told.described _ (.head _))
  have own : Harvest.Tells ⟨[], [code], false⟩ ⟨[], [code], false⟩ [] := tells_own rfl described
  have both := told.and own (.inr ⟨rfl, rfl⟩)
  rw [Harvest.and_none]
  exact fun place => tells_stmt both

/-! ## Loops -/

theorem harvests_loop_body : Harvests (loopBody rules) TellsStmt := by
  refine .silent_bind (silent_modify_body fun _ => rfl) fun _ => .bind harvest.statement fun h body told => ?_
  refine .silent_bind silent_leave_loop fun _ => gives told

/-- The rest of a `for`-`in` statement, of which it is known what the target tells. -/
theorem harvests_for_in_rest {target : ForInTarget} {names : List String}
    (own : ∀ object body, (StmtForm.forIn target object body).vars = names)
    (told : h.Tells ⟨names, [], false⟩ target.nodes) :
    Harvests (forInRest rules target) fun k form => TellsForm (h.and k) form := by
  refine .silent_bind (silent_expect _ _) fun _ => .bind (harvests_expression harvest false) fun k object second => ?_
  refine .silent_bind (silent_expect _ _) fun _ => .bind (harvests_loop_body harvest) fun l body third => .pure ?_
  rw [Harvest.and_none]
  intro span place
  refine tells_stmt ?_
  rw [own]
  exact told.behind (second.behind (third place.inLoop))

theorem harvests_optional_expression (stop : Mark) : Harvests (optionalExpression rules stop) TellsOption := by
  refine .silent_bind (silent_check _) fun stops => .ite (.pure tells_option_none) ?_
  exact .map some (harvests_expression harvest false) fun h e told => told

/-- The rest of a `for` statement, of which it is known what its begin tells. -/
theorem harvests_for_rest {init : Option ForInit} {names : List String}
    (own : ∀ test update body, (StmtForm.forLoop init test update body).vars = names)
    (told : h.Tells ⟨names, [], false⟩ (init.toList.flatMap ForInit.nodes)) :
    Harvests (forRest rules init) fun k form => TellsForm (h.and k) form := by
  refine .silent_bind (silent_expect _ _) fun _ => ?_
  refine .bind (harvests_optional_expression harvest _) fun k test second => ?_
  refine .silent_bind (silent_expect _ _) fun _ => ?_
  refine .bind (harvests_optional_expression harvest _) fun l update third => ?_
  refine .silent_bind (silent_expect _ _) fun _ => .bind (harvests_loop_body harvest) fun m body fourth => .pure ?_
  rw [Harvest.and_none]
  intro span place
  have clauses := told.behind (second.behind (third.behind (fourth place.inLoop)))
  have functions : (StmtForm.forLoop init test update body).functions = [] := rfl
  refine tells_stmt ?_
  rw [own, functions]
  simpa only [StmtForm.children, List.map_append, List.append_assoc] using clauses

theorem harvests_for_statement : Harvests (forStatement rules) TellsForm := by
  refine .silent_bind (silent_expect _ _) fun _ => .silent_bind silent_peek fun token => ?_
  refine .ite ?_ ?_
  · refine .silent_bind silent_pass fun _ => .bind (harvests_var_declarators harvest true) fun h declarators told => ?_
    refine .silent_bind (silent_check _) fun ranges => .ite ?_ ?_
    · refine .bind (silent_single_binding _) fun k name single => ?_
      obtain ⟨rfl, span, rfl⟩ := single
      have target : h.Tells ⟨[name], [], false⟩ (ForInTarget.var name).nodes := told
      simpa only [Harvest.none_and] using harvests_for_in_rest harvest (fun _ _ => rfl) target
    · exact harvests_for_rest harvest (fun _ _ _ => rfl) (by simpa [ForInit.nodes] using told)
  · split
    · rename_i constant lexical
      refine .silent_bind silent_pass fun _ => .silent_bind .get fun s => ?_
      refine .bind (harvests_lexical_declarators harvest _ _ _) fun h declarators told => ?_
      refine .silent_bind (silent_check _) fun ranges => .ite ?_ ?_
      · refine .bind (silent_single_binding _) fun k name single => ?_
        obtain ⟨rfl, span, rfl⟩ := single
        have target : h.Tells ⟨[], [], false⟩ (ForInTarget.lexical constant name).nodes := told
        simpa only [Harvest.none_and] using harvests_for_in_rest harvest (fun _ _ => rfl) target
      · have begins : h.Tells ⟨[], [], false⟩ ((some (ForInit.lexical constant declarators)).toList.flatMap
            ForInit.nodes) := by
          rw [Option.toList_some, List.flatMap_singleton]
          exact told
        exact harvests_for_rest harvest (fun _ _ _ => rfl) begins
    · refine .ite ?_ ?_
      · have begins : Harvest.none.Tells ⟨[], [], false⟩ ((none : Option ForInit).toList.flatMap ForInit.nodes) :=
          tells_nothing
        simpa only [Harvest.none_and] using harvests_for_rest harvest (fun _ _ _ => rfl) begins
      · refine .bind (harvests_expression harvest true) fun h e told => .silent_bind (silent_check _) fun ranges => ?_
        refine .ite (.silent_bind (silent_check_target _) fun _ => ?_) ?_
        · have target : h.Tells ⟨[], [], false⟩ (ForInTarget.expr e).nodes := told
          exact harvests_for_in_rest harvest (fun _ _ => rfl) target
        · have begins : h.Tells ⟨[], [], false⟩ ((some (ForInit.expr e)).toList.flatMap ForInit.nodes) := told
          exact harvests_for_rest harvest (fun _ _ _ => rfl) begins

/-! ## Labels, choices and handlers -/

theorem harvests_labeled_statement : Harvests (labeledStatement rules) TellsForm := by
  refine .silent_bind silent_advance fun token => .silent_bind silent_pass fun _ => ?_
  extract_lets label
  refine .silent_bind .get fun s => ?_
  extract_lets entry finish
  have finished : Harvests (finish ()) TellsForm := by
    refine .silent_bind (silent_modify_body fun _ => rfl) fun _ => .bind harvest.statement fun h body told => ?_
    refine .silent_bind (silent_modify_body fun _ => rfl) fun _ => gives ?_
    exact tells_form rfl rfl fun place => told (place.behind label)
  exact .ite (.fail_then _ _) finished

theorem harvests_switch_clauses (fuel : Nat) (seenDefault : Bool) (done : List SwitchClause) :
    Harvests (switchClauses rules fuel seenDefault done) fun h clauses =>
      ∃ later, clauses = done.reverse ++ later ∧ TellsClauses h later := by
  induction fuel generalizing seenDefault done with
  | zero => exact .broken
  | succ fuel ih =>
    refine .silent_bind .get fun s => .ite ?_ (.pure ⟨[], by simp, fun _ => tells_nothing⟩)
    refine .silent_bind silent_advance fun token => ?_
    extract_lets finish
    have finished (h : Harvest) (test : Option Expr) (told : TellsOption h test) :
        Harvests (finish test) fun k clauses =>
          ∃ later, clauses = done.reverse ++ later ∧ TellsClauses (h.and k) later := by
      refine .silent_bind (silent_expect _ _) fun _ => .bind (harvests_items harvest _ _) fun k body inside => ?_
      refine (ih _ (⟨test, body⟩ :: done)).weaken fun l clauses there => ?_
      obtain ⟨later, rfl, others⟩ := there
      refine ⟨⟨test, body⟩ :: later, by simp, fun place => ?_⟩
      have clauses := told.behind ((inside place).behind (others place))
      rwa [← List.append_assoc] at clauses
    have noTest : Harvests (pure none) TellsOption := .pure tells_option_none
    split
    · have test : Harvests (some <$> expression rules false) TellsOption :=
        .map some (harvests_expression harvest false) fun h e told => told
      exact test.bind finished
    · exact .ite (.fail_then _ _) (noTest.bind finished)
    · exact .fail_then _ _

theorem harvests_switch_statement : Harvests (switchStatement rules) TellsForm := by
  refine .bind (harvests_parenthesized harvest _ _) fun h discriminant first => ?_
  refine .silent_bind (silent_expect _ _) fun _ => .silent_bind (silent_modify_body fun _ => rfl) fun _ => ?_
  refine .bind (harvests_with_block (harvests_switch_clauses harvest _ _ _)) ?_
  rintro k ⟨clauses, names⟩ ⟨_, rfl, told⟩
  refine .silent_bind silent_leave_switch fun _ => .silent_bind (silent_expect _ _) fun _ => .pure ?_
  rw [Harvest.and_none]
  exact tells_form rfl rfl fun place => first.behind (told place.inChoice)

theorem harvests_try_statement : Harvests (tryStatement rules) TellsForm := by
  refine .silent_bind silent_advance fun keyword => .bind (harvests_block harvest) fun h guarded first => ?_
  extract_lets last
  have ends (k : Harvest) (handler : Option Handler) (second : TellsHandler k handler) :
      Harvests (last handler) fun l form => TellsForm (h.and (k.and l)) form := by
    refine .silent_bind (silent_accept _) fun final => ?_
    extract_lets finish
    have finished (l : Harvest) (finalizer : Option Block) (third : TellsFinalizer l finalizer) :
        Harvests (finish finalizer) fun m form => TellsForm (h.and (k.and (l.and m))) form := by
      refine .ite (.fail_then _ _) (.pure ?_)
      rw [Harvest.and_none]
      refine tells_form rfl rfl fun place => ?_
      have blocks := (first place.inside).behind ((second place.inside).behind (third place.inside))
      rwa [← List.append_assoc] at blocks
    refine .ite ?_ ?_
    · have read : Harvests (some <$> block rules) TellsFinalizer := by
        refine .map some (harvests_block harvest) fun l b told place => ?_
        rw [Option.toList_some, List.flatMap_singleton]
        exact told place
      exact read.bind finished
    · have read : Harvests (pure none) TellsFinalizer := .pure fun _ => tells_nothing
      exact read.bind finished
  refine .silent_bind (silent_accept _) fun caught => .ite ?_ ?_
  · refine .silent_bind (silent_expect _ _) fun _ => .silent_bind (silent_binding_name _) fun parameter => ?_
    refine .silent_bind (silent_expect _ _) fun _ => .bind (harvests_block harvest) fun k b told => ?_
    refine ends k (some ⟨parameter, b⟩) fun place => ?_
    rw [Option.toList_some, List.flatMap_singleton]
    exact told place
  · have read : Harvests (pure none) TellsHandler := .pure fun _ => tells_nothing
    exact read.bind ends

theorem harvests_if_statement : Harvests (ifStatement rules) TellsForm := by
  refine .bind (harvests_parenthesized harvest _ _) fun h test first => .bind harvest.statement fun k yes second => ?_
  extract_lets finish
  have finished (l : Harvest) (no : Option Stmt) (third : TellsBody l no.toList) :
      Harvests (finish no) fun m form => TellsForm (h.and (k.and (l.and m))) form := by
    refine .pure ?_
    rw [Harvest.and_none]
    exact tells_form rfl rfl fun place => first.behind ((second place.inside).behind (third place.inside))
  refine .silent_bind (silent_accept _) fun otherwise => .ite ?_ ?_
  · have read : Harvests (some <$> rules.statement) fun l no => TellsBody l no.toList :=
      .map some harvest.statement fun l s told => told
    exact read.bind finished
  · have read : Harvests (pure none) fun l (no : Option Stmt) => TellsBody l no.toList :=
      .pure fun _ => tells_nothing
    exact read.bind finished

/-! ## Statements -/

omit harvest in
/-- A statement whose end is checked tells what its parts tell. -/
theorem harvests_end {form : StmtForm} (told : TellsForm h form) :
    Harvests (do endStatement; return form) fun k form => TellsForm (h.and k) form :=
  .silent_bind silent_end_statement fun _ => gives told

theorem harvests_statement_form (token : Token) : Harvests (statementForm rules token) TellsForm := by
  unfold statementForm
  split
  · refine .bind (harvests_block harvest) fun h b told => gives ?_
    exact tells_form rfl rfl fun place => told place.inside
  · exact .silent_bind silent_pass fun _ => .pure (tells_form rfl rfl fun _ => tells_nothing)
  · refine .silent_bind silent_pass fun _ => .bind (harvests_var_declarators harvest false) fun h declarators told => ?_
    exact harvests_end fun span place => tells_stmt told
  · exact .fail _ _
  · exact .fail _ _
  · exact .silent_bind silent_pass fun _ => harvests_if_statement harvest
  · refine .silent_bind silent_pass fun _ => .bind (harvests_parenthesized harvest _ _) fun h test first => ?_
    refine .bind (harvests_loop_body harvest) fun k body second => .pure ?_
    rw [Harvest.and_none]
    exact tells_form rfl rfl fun place => first.behind (second place.inLoop)
  · refine .silent_bind silent_pass fun _ => .bind (harvests_loop_body harvest) fun h body first => ?_
    refine .silent_bind (silent_expect _ _) fun _ => .bind (harvests_parenthesized harvest _ _) fun k test second => ?_
    refine .silent_bind (.map _ (silent_accept _) fun _ _ => id) fun _ => .pure ?_
    rw [Harvest.and_none]
    exact tells_form rfl rfl fun place => ((first place.inLoop).behind second).behind_quiet (quiet_exprs [test])
  · exact .silent_bind silent_pass fun _ => harvests_for_statement harvest
  · exact harvests_continue_statement
  · exact harvests_break_statement
  · refine .silent_bind silent_pass fun _ => .silent_bind .get fun s => ?_
    extract_lets finish last
    have finished (h : Harvest) (value : Option Expr) (told : TellsOption h value) :
        Harvests (finish value) fun k form => TellsForm (h.and k) form :=
      harvests_end (tells_form rfl rfl fun _ => told)
    have valued : Harvests (last ()) TellsForm := by
      refine .ite ?_ ?_
      · have read : Harvests (pure none) TellsOption := .pure tells_option_none
        exact read.bind finished
      · have read : Harvests (some <$> expression rules false) TellsOption :=
          .map some (harvests_expression harvest false) fun h e told => told
        exact read.bind finished
    exact .ite (.fail_then _ _) valued
  · refine .silent_bind silent_is_strict fun strict => .ite (.fail_then _ _) (.silent_bind silent_pass fun _ => ?_)
    refine .bind (harvests_parenthesized harvest _ _) fun h object first => ?_
    refine .bind harvest.statement fun k body second => .pure ?_
    rw [Harvest.and_none]
    exact tells_form rfl rfl fun place => first.behind (second place.inside)
  · exact .silent_bind silent_pass fun _ => harvests_switch_statement harvest
  · refine .silent_bind silent_pass fun _ => .silent_bind silent_peek fun next => ?_
    extract_lets last
    have finished : Harvests (last ()) TellsForm := by
      refine .bind (harvests_expression harvest false) fun h value told => ?_
      exact harvests_end (tells_form rfl rfl fun _ => told)
    have nothing : Silent (failHere .newlineAfterThrow : Reader Unit) := fails_here _
    exact .ite (nothing.silent_bind fun _ => finished) finished
  · exact harvests_try_statement harvest
  · refine .silent_bind silent_pass fun _ => .silent_bind silent_end_statement fun _ => .pure ?_
    exact tells_form rfl rfl fun _ => tells_nothing
  · refine .silent_bind .get fun s => .ite (harvests_labeled_statement harvest) ?_
    refine .bind (harvests_expression harvest false) fun h e told => ?_
    exact harvests_end (tells_form rfl rfl fun _ => told)

theorem harvests_statement : Harvests (statement rules) TellsStmt := by
  refine .silent_bind silent_peek fun token => .ite (harvests_function_declaration harvest) ?_
  refine .bind (harvests_statement_form harvest token) fun h form told => ?_
  exact .silent_bind (silent_span_from _) fun span => gives (told span)

theorem harvests_item : Harvests (item rules) TellsStmt := by
  refine .silent_bind silent_peek fun token => ?_
  split
  · next constant _ =>
    refine .silent_bind silent_pass fun _ => ?_
    refine .bind (harvests_lexical_declarators harvest _ _ _) fun h declarators told => ?_
    refine .silent_bind silent_end_statement fun _ => .silent_bind (silent_span_from _) fun span => gives ?_
    have form : TellsForm h (.lexical constant declarators) := tells_form rfl rfl fun _ => told
    exact form span
  · exact harvests_statement harvest

end

end ScriptEngine.Grammar
