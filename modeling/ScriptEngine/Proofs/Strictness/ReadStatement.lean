import ScriptEngine.Proofs.Strictness.ReadExpression
import ScriptEngine.Syntax.Grammar.Statement

/-!
The rules for statements find what their statements may be, wherever these stand. A statement begins at the token at
which it is read, by which a directive can be told from its string in parentheses.
-/

namespace ScriptEngine.Grammar.Script

/-! ## What statements are made of -/

/-- Statements were read between two tokens, wherever they stand. -/
def FoundItems (script : Script) (strict : Bool) (i : Nat) (body : List Stmt) (j : Nat) : Prop :=
  ∀ place : Place, script.Found strict i j (place.nodes body)

/-- What a statement is was read between two tokens. -/
def FoundForm (script : Script) (strict : Bool) (i : Nat) (form : StmtForm) (j : Nat) : Prop :=
  ∀ place span, script.Found strict i j [.stmt place ⟨form, span⟩]

/-- An expression that may be left out was read between two tokens. -/
abbrev FoundOption (script : Script) (strict : Bool) (i : Nat) (e : Option Expr) (j : Nat) : Prop :=
  script.FoundExprs strict i e.toList j

/-- Declared names were read between two tokens with their first values. -/
structure FoundNames (script : Script) (strict : Bool) (i : Nat) (declarators : List Declarator) (j : Nat) :
    Prop where
  found : script.Found strict i j (declaratorNodes declarators)
  allowed : strict = true → ∀ name ∈ declarators.map (·.name), isStrictForbidden name = false

/-- Clauses of a `switch` statement were read between two tokens. -/
def FoundClauses (script : Script) (strict : Bool) (i : Nat) (clauses : List SwitchClause) (j : Nat) : Prop :=
  ∀ place : Place, script.Found strict i j (clauses.flatMap (SwitchClause.nodes place))

/-- The handler of a `try` statement was read between two tokens, or left out. -/
structure FoundHandler (script : Script) (strict : Bool) (i : Nat) (handler : Option Handler) (j : Nat) : Prop where
  found : ∀ place : Place, script.Found strict i j (handler.toList.flatMap (place.nodes ·.body.body))
  allowed : strict = true → ∀ h ∈ handler, isStrictForbidden h.parameter = false

/-- The finalizer of a `try` statement was read between two tokens, or left out. -/
def FoundFinalizer (script : Script) (strict : Bool) (i : Nat) (finalizer : Option Block) (j : Nat) : Prop :=
  ∀ place : Place, script.Found strict i j (finalizer.toList.flatMap (place.nodes ·.body))

variable {script : Script} {rules : Rules} {strict : Bool} {outer codes : List Bool} {i j k : Nat} {t : Token}

/-- A statement is found by what it is of itself and by what the parts directly inside of it are. -/
theorem found_form {form : StmtForm} (found : ∀ place, script.Found strict i j (form.children place))
    (own : strict = true → form.Strict) (noFunctions : form.functions = []) : script.FoundForm strict i form j := by
  refine fun place span => found_stmt (found place) own ?_
  rw [noFunctions]
  exact List.forall_mem_nil _

theorem FoundForm.behind {form : StmtForm} (found : script.FoundForm strict j form k) (plain : script.Plain i j) :
    script.FoundForm strict i form k :=
  fun place span => (found place span).behind plain

theorem FoundForm.before {form : StmtForm} (found : script.FoundForm strict i form j) (plain : script.Plain j k) :
    script.FoundForm strict i form k :=
  fun place span => (found place span).before plain

theorem found_no_names : script.FoundNames strict i [] i :=
  ⟨found_nothing, fun _ => List.forall_mem_nil _⟩

theorem FoundNames.and {first rest : List Declarator} (found : script.FoundNames strict i first j)
    (others : script.FoundNames strict j rest k) : script.FoundNames strict i (first ++ rest) k where
  found := by
    have nodes : declaratorNodes (first ++ rest) = declaratorNodes first ++ declaratorNodes rest :=
      List.filterMap_append
    rw [nodes]
    exact found.found.and others.found
  allowed always name mem := by
    rw [List.map_append] at mem
    exact (List.mem_append.mp mem).elim (found.allowed always name) (others.allowed always name)

theorem FoundNames.behind {declarators : List Declarator} (found : script.FoundNames strict j declarators k)
    (plain : script.Plain i j) : script.FoundNames strict i declarators k :=
  ⟨found.found.behind plain, found.allowed⟩

theorem FoundNames.before {declarators : List Declarator} (found : script.FoundNames strict i declarators j)
    (plain : script.Plain j k) : script.FoundNames strict i declarators k :=
  ⟨found.found.before plain, found.allowed⟩

/-- A declared name with perhaps a first value. -/
theorem found_name {name : String} {init : Option Expr} {span : Span} (found : script.FoundOption strict i init j)
    (allowed : strict = true → isStrictForbidden name = false) :
    script.FoundNames strict i [⟨name, init, span⟩] j where
  found := by
    cases init <;> exact found
  allowed always := List.forall_mem_singleton.mpr (allowed always)

theorem covers_single_binding (declarators : List Declarator) :
    script.Covers codes i (singleBinding declarators) fun name j =>
      j = i ∧ ∃ span, declarators = [⟨name, none, span⟩] := by
  unfold singleBinding
  split
  · exact .give ⟨rfl, _, rfl⟩
  · exact covers_fail_here _

theorem covers_leave_loop : script.Covers codes i leaveLoop fun _ j => j = i := by
  refine .bind .get fun s j here => ?_
  obtain ⟨rfl, -⟩ := here
  split
  · exact .broken
  · exact covers_modify_body fun _ => rfl

theorem covers_leave_switch : script.Covers codes i leaveSwitch fun _ j => j = i := by
  refine .bind .get fun s j here => ?_
  obtain ⟨rfl, -⟩ := here
  split
  · exact .broken
  · exact covers_modify_body fun _ => rfl

theorem covers_add_var (name : String) : script.Covers codes i (modifyBody (·.addVar name)) fun _ j => j = i := by
  refine covers_modify_body fun b => ?_
  unfold BodyState.addVar
  split <;> rfl

theorem covers_declare_lexical (token : Token) (name : LexicalName) :
    script.Covers codes i (declareLexical token name) fun _ j => j = i := by
  refine .bind .get fun s j here => ?_
  obtain ⟨rfl, -⟩ := here
  refine .ite (fun _ => .fail_then _ _) fun _ => covers_modify_body fun b => ?_
  unfold BodyState.addLexical
  split <;> rfl

theorem covers_optional_label : script.Covers codes i optionalLabel fun _ j => script.Plain i j := by
  refine .bind covers_peek fun token j there => ?_
  obtain ⟨rfl, found⟩ := there
  refine .ite (fun named => ?_) fun _ => .give between_here
  have kind : token.kind = .identifier := by
    rw [Bool.and_eq_true] at named
    exact beq_iff_eq.mp named.1
  exact .bind (covers_skip found (plain_of_kind (by simp [kind]) (by simp [kind]))) fun _ _ passed => .give passed

/-- A form without parts, names and targets. -/
theorem found_bare {form : StmtForm} (plain : script.Plain i j) (noChildren : ∀ place, form.children place = [])
    (own : form.Strict) (noFunctions : form.functions = []) : script.FoundForm strict i form j :=
  found_form (fun place => by rw [noChildren]; exact plain.found) (fun _ => own) noFunctions

theorem covers_continue_statement (found : script.tokens[i]? = some t) (plain : ¬ t.IsOctal) :
    script.Covers (strict :: outer) i continueStatement (script.FoundForm strict i) := by
  refine .bind (covers_advance_plain found plain) fun keyword j first => ?_
  refine .bind covers_optional_label fun label k second => ?_
  refine .bind .get fun s l here => ?_
  obtain ⟨rfl, -⟩ := here
  extract_lets body finish
  have finished : script.Covers (strict :: outer) l (finish ()) (script.FoundForm strict i) := by
    refine .bind covers_end_statement fun _ m third => .give ?_
    exact found_bare ((first.before second).before third) (fun _ => rfl) (.of_bare rfl rfl rfl) rfl
  split
  · split
    · exact .ite (fun _ => finished) fun _ => .fail_then _ _
    · exact .fail_then _ _
  · exact .ite (fun _ => .fail_then _ _) fun _ => finished

theorem covers_break_statement (found : script.tokens[i]? = some t) (plain : ¬ t.IsOctal) :
    script.Covers (strict :: outer) i breakStatement (script.FoundForm strict i) := by
  refine .bind (covers_advance_plain found plain) fun keyword j first => ?_
  refine .bind covers_optional_label fun label k second => ?_
  refine .bind .get fun s l here => ?_
  obtain ⟨rfl, -⟩ := here
  extract_lets body finish
  have finished : script.Covers (strict :: outer) l (finish ()) (script.FoundForm strict i) := by
    refine .bind covers_end_statement fun _ m third => .give ?_
    exact found_bare ((first.before second).before third) (fun _ => rfl) (.of_bare rfl rfl rfl) rfl
  split
  · exact .ite (fun _ => finished) fun _ => .fail_then _ _
  · exact .ite (fun _ => .fail_then _ _) fun _ => finished

section

variable (covered : script.Covered rules)

include covered

theorem covers_parenthesized (opening closing : String) :
    script.Covers (strict :: outer) i (parenthesized rules opening closing) (script.FoundExpr strict i) := by
  refine .bind (covers_expect_mark _ _) fun _ j opens => .bind (covers_expression covered false) fun e k found => ?_
  exact .bind (covers_expect_mark _ _) fun _ l closes => .give ((found.behind opens).before closes)

theorem covers_items (more : ReadingState → Bool) (fuel : Nat) :
    script.Covers (strict :: outer) i (readWhile fuel more rules.item []) (script.FoundItems strict i) := by
  have next (i j k : Nat) (s : Stmt) (items : List Stmt) (first : script.FoundStmt strict i s j)
      (rest : script.FoundItems strict j items k) : script.FoundItems strict i (s :: items) k :=
    fun place => (first.found place).and (rest place)
  refine (covers_while (script.FoundItems strict) (covered.item strict outer) (fun _ _ => found_nothing) next fuel more
    []).weaken fun items j there => ?_
  obtain ⟨later, rfl, found⟩ := there
  exact found

theorem covers_block :
    script.Covers (strict :: outer) i (block rules) fun b => script.FoundItems strict i b.body := by
  refine .bind (covers_expect_mark _ _) fun _ j opens => ?_
  refine .bind (covers_with_block (covers_items covered _ _)) fun result k found => ?_
  refine .bind (covers_expect_mark _ _) fun _ l closes => .give fun place => ?_
  exact ((found place).behind opens).before closes

/-! ## Declarations -/

/-- A declared name is followed by its first value if a sign of equality announces one. -/
theorem covers_first_value {goal : Declarator → Nat → Prop} {finish : Option Expr → Reader Declarator} (noIn : Bool)
    (finished : ∀ init j, script.FoundOption strict i init j → script.Covers (strict :: outer) j (finish init) goal) :
    script.Covers (strict :: outer) i (acceptMark .assign >>= fun given =>
      if given then (some <$> rules.assignment noIn) >>= finish else pure none >>= finish) goal := by
  refine .bind (covers_accept_mark _) fun given j sign => .ite (fun _ => ?_) fun _ => ?_
  · have read : script.Covers (strict :: outer) j (some <$> rules.assignment noIn) (script.FoundOption strict i) :=
      .map some (covered.assignment _ _ _ _) fun e k found => found.behind sign
    exact read.bind finished
  · have read : script.Covers (strict :: outer) j (pure none) (script.FoundOption strict i) := .give sign.found
    exact read.bind finished

theorem covers_var_declarator (noIn : Bool) :
    script.Covers (strict :: outer) i (varDeclarator rules noIn) fun d => script.FoundNames strict i [d] := by
  refine .bind covers_peek fun token j there => ?_
  obtain ⟨rfl, -⟩ := there
  extract_lets start
  refine .bind (covers_binding_name _) fun name k there => ?_
  obtain ⟨first, allowed⟩ := there
  extract_lets finish
  refine covers_first_value covered noIn fun init l found => ?_
  refine .bind (covers_add_var name) fun _ m same => .bind (covers_span_from _) fun span n there => .give ?_
  obtain ⟨rfl, -⟩ := there
  subst same
  exact (found_name found allowed).behind first

omit covered in
/-- Declared names that commas separate are found one behind the other. -/
theorem covers_declarators {declarator : Reader Declarator} (fuel : Nat)
    (each : ∀ i, script.Covers (strict :: outer) i declarator fun d => script.FoundNames strict i [d]) :
    script.Covers (strict :: outer) i (readSeparated fuel declarator []) (script.FoundNames strict i) := by
  have more (i j k l : Nat) (d : Declarator) (rest : List Declarator) (first : script.FoundNames strict i [d] j)
      (comma : script.Plain j k) (others : script.FoundNames strict k rest l) :
      script.FoundNames strict i (d :: rest) l := (first.before comma).and others
  refine (covers_separated (script.FoundNames strict) each (fun _ => found_no_names) more fuel
    []).weaken fun declarators j there => ?_
  obtain ⟨later, rfl, found⟩ := there
  exact found

theorem covers_lexical_declarator (constant inForHead valueRequired : Bool) :
    script.Covers (strict :: outer) i (lexicalDeclarator rules constant inForHead valueRequired) fun d =>
      script.FoundNames strict i [d] := by
  refine .bind covers_peek fun token j there => ?_
  obtain ⟨rfl, -⟩ := there
  refine .bind (covers_binding_name _) fun name k there => ?_
  obtain ⟨first, allowed⟩ := there
  extract_lets finish declare
  have finished (init : Option Expr) (l : Nat) (found : script.FoundOption strict k init l) :
      script.Covers (strict :: outer) l (finish init) fun d => script.FoundNames strict j [d] := by
    have complete : script.Covers (strict :: outer) l (do return ⟨name, init, ← spanFrom token.span.start⟩)
        fun d => script.FoundNames strict j [d] := by
      refine .bind (covers_span_from _) fun span n there => .give ?_
      obtain ⟨rfl, -⟩ := there
      exact (found_name found allowed).behind first
    refine .ite (fun _ => .fail_then _ _) fun _ => .ite (fun _ => complete) fun _ => ?_
    refine .bind (covers_declare_lexical _ _) fun _ n same => ?_
    subst same
    exact complete
  exact .ite (fun _ => .fail_then _ _) fun _ => covers_first_value covered inForHead finished

theorem covers_function_declaration (found : script.tokens[i]? = some t) (kind : t.kind = .keyword .function) :
    script.Covers (strict :: outer) i (functionDeclaration rules) (script.FoundStmt strict i) := by
  refine .bind (covers_take found (by simp [kind])) fun token j there => ?_
  obtain ⟨rfl, rfl⟩ := there
  have first : script.Plain i (i + 1) := between_next found (plain_of_kind (by simp [kind]) (by simp [kind]))
  refine .bind (covers_function_rest covered found (Nat.lt_succ_self i) first _) fun code k given => ?_
  refine .bind (covers_modify_body fun _ => rfl) fun _ l same => .bind (covers_span_from _) fun span m there => .give ?_
  obtain ⟨rfl, rfl⟩ := there
  subst same
  refine ⟨(start_at found).symm, fun place => ?_⟩
  refine found_stmt (given.found.behind first) (fun _ => .of_bare rfl rfl rfl) ?_
  exact List.forall_mem_singleton.mpr given.accounts

/-! ## Loops -/

theorem covers_loop_body : script.Covers (strict :: outer) i (loopBody rules) (script.FoundStmt strict i) := by
  refine .bind (covers_modify_body fun _ => rfl) fun _ j same => ?_
  subst same
  refine .bind (covered.statement _ _ _) fun body k found => .bind covers_leave_loop fun _ l same => .give ?_
  subst same
  exact found

/-- The rest of a `for`-`in` statement behind what it assigns to. -/
theorem covers_for_in_rest {target : ForInTarget} (found : script.Found strict i j target.nodes)
    (own : strict = true → ∀ object body, (StmtForm.forIn target object body).Strict) :
    script.Covers (strict :: outer) j (forInRest rules target) (script.FoundForm strict i) := by
  refine .bind (covers_expect_keyword _ _) fun _ k first => ?_
  refine .bind (covers_expression covered false) fun object l second => ?_
  refine .bind (covers_expect_mark _ _) fun _ m third => .bind (covers_loop_body covered) fun body n fourth => .give ?_
  refine found_form (fun place => ?_) (fun always => own always object body) rfl
  exact (found.before first).and ((second.before third).and (fourth.found place.inLoop))

theorem covers_optional_expression (stop : Mark) :
    script.Covers (strict :: outer) i (optionalExpression rules stop) (script.FoundOption strict i) := by
  refine .bind (covers_check _) fun stops j there => ?_
  obtain ⟨rfl, -⟩ := there
  refine .ite (fun _ => .give found_nothing) fun _ => ?_
  exact .map some (covers_expression covered false) fun _ _ found => found

/-- The rest of a `for` statement behind what it begins with. -/
theorem covers_for_rest {init : Option ForInit} (found : script.Found strict i j (init.toList.flatMap ForInit.nodes))
    (own : strict = true → ∀ test update body, (StmtForm.forLoop init test update body).Strict) :
    script.Covers (strict :: outer) j (forRest rules init) (script.FoundForm strict i) := by
  refine .bind (covers_expect_mark _ _) fun _ k first => ?_
  refine .bind (covers_optional_expression covered _) fun test l tested => ?_
  refine .bind (covers_expect_mark _ _) fun _ m second => ?_
  refine .bind (covers_optional_expression covered _) fun update n updated => ?_
  refine .bind (covers_expect_mark _ _) fun _ o third => .bind (covers_loop_body covered) fun body p last => .give ?_
  refine found_form (fun place => ?_) (fun always => own always test update body) rfl
  have clauses := (found.before first).and ((tested.before second).and ((updated.before third).and
    (last.found place.inLoop)))
  simpa only [StmtForm.children, List.map_append, List.append_assoc] using clauses

theorem covers_for_statement :
    script.Covers (strict :: outer) i (forStatement rules) (script.FoundForm strict i) := by
  refine .bind (covers_expect_mark _ _) fun _ j opens => .bind covers_peek fun token k there => ?_
  obtain ⟨rfl, found⟩ := there
  apply Covers.ite
  · intro keyword
    have kind := beq_iff_eq.mp keyword
    refine .bind (covers_skip found (plain_of_kind (by simp [kind]) (by simp [kind]))) fun _ l first => ?_
    refine .bind (covers_declarators _ fun _ => covers_var_declarator covered true) fun declarators m names => ?_
    have declared := (names.behind first).behind opens
    refine .bind (covers_check _) fun ranges n there => ?_
    obtain ⟨rfl, -⟩ := there
    refine .ite (fun _ => .bind (covers_single_binding _) fun name o there => ?_) fun _ => ?_
    · obtain ⟨rfl, span, rfl⟩ := there
      refine covers_for_in_rest covered declared.found fun always object body => ?_
      exact .of_names (declared.allowed always) rfl rfl
    · refine covers_for_rest covered (by simpa [ForInit.nodes] using declared.found) fun always test update body => ?_
      exact .of_names (declared.allowed always) rfl rfl
  · intro _
    split
    · next constant keyword =>
      have word : ¬ token.IsOctal := plain_of_operator keyword rfl rfl
      refine .bind (covers_skip found word) fun _ l first => .bind .get fun s m here => ?_
      obtain ⟨rfl, -⟩ := here
      refine .bind (covers_declarators _ fun _ => covers_lexical_declarator covered _ _ _) fun declarators n names => ?_
      have declared := (names.behind first).behind opens
      refine .bind (covers_check _) fun ranges o there => ?_
      obtain ⟨rfl, -⟩ := there
      refine .ite (fun _ => .bind (covers_single_binding _) fun name p there => ?_) fun _ => ?_
      · obtain ⟨rfl, span, rfl⟩ := there
        refine covers_for_in_rest covered declared.found fun always object body => ?_
        exact .of_names (declared.allowed always) rfl rfl
      · refine covers_for_rest covered (by simpa [ForInit.nodes] using declared.found) fun always test update body => ?_
        exact .of_names (declared.allowed always) rfl rfl
    · apply Covers.ite
      · intro _
        exact covers_for_rest covered opens.found fun _ test update body => .of_bare rfl rfl rfl
      · intro _
        refine .bind (covers_expression covered true) fun e l begun => .bind (covers_check _) fun ranges m there => ?_
        obtain ⟨rfl, -⟩ := there
        have target := begun.behind opens
        refine .ite (fun _ => .bind (covers_check_target _) fun _ n there => ?_) fun _ => ?_
        · obtain ⟨rfl, allowed⟩ := there
          refine covers_for_in_rest covered target fun always object body => ⟨List.forall_mem_nil _, ?_, rfl⟩
          rintro other ⟨⟩
          exact allowed always
        · exact covers_for_rest covered target fun _ test update body => .of_bare rfl rfl rfl

/-! ## Labels, choices and handlers -/

theorem covers_labeled_statement (found : script.tokens[i]? = some t) (kind : t.kind = .identifier)
    (colon : script.kindAt (i + 1) = some (.mark .colon)) :
    script.Covers (strict :: outer) i (labeledStatement rules) (script.FoundForm strict i) := by
  refine .bind (covers_take found (by simp [kind])) fun token j there => ?_
  obtain ⟨rfl, rfl⟩ := there
  have name : script.Plain i (i + 1) := between_next found (plain_of_kind (by simp [kind]) (by simp [kind]))
  refine .bind (covers_skip_kind colon (by simp) (by simp)) fun _ k second => ?_
  extract_lets label
  refine .bind .get fun s l here => ?_
  obtain ⟨rfl, -⟩ := here
  extract_lets entry finish
  have finished : script.Covers (strict :: outer) l (finish ()) (script.FoundForm strict i) := by
    refine .bind (covers_modify_body fun _ => rfl) fun _ m same => ?_
    subst same
    refine .bind (covered.statement _ _ _) fun body n found => .bind (covers_modify_body fun _ => rfl) fun _ o same => ?_
    subst same
    refine .give (found_form (fun place => ?_) (fun _ => .of_bare rfl rfl rfl) rfl)
    exact ((found.found (place.behind label)).behind second).behind name
  exact .ite (fun _ => .fail_then _ _) fun _ => finished

theorem covers_switch_clauses (fuel : Nat) (seenDefault : Bool) (done : List SwitchClause) :
    script.Covers (strict :: outer) i (switchClauses rules fuel seenDefault done) fun clauses j =>
      ∃ later, clauses = done.reverse ++ later ∧ script.FoundClauses strict i later j := by
  induction fuel generalizing i seenDefault done with
  | zero => exact .broken
  | succ fuel ih =>
    refine .bind .get fun s j here => ?_
    obtain ⟨rfl, -⟩ := here
    refine .ite (fun _ => ?_) fun _ => .give ⟨[], by simp, fun _ => found_nothing⟩
    refine .bind covers_advance_word fun token k word => ?_
    extract_lets finish
    have finished (test : Option Expr) (l : Nat) (found : script.FoundOption strict j test l) :
        script.Covers (strict :: outer) l (finish test) fun clauses m =>
          ∃ later, clauses = done.reverse ++ later ∧ script.FoundClauses strict j later m := by
      refine .bind (covers_expect_mark _ _) fun _ m colon => .bind (covers_items covered _ _) fun body n items => ?_
      refine (ih _ (⟨test, body⟩ :: done)).weaken fun clauses o there => ?_
      obtain ⟨later, rfl, others⟩ := there
      refine ⟨⟨test, body⟩ :: later, by simp, fun place => ?_⟩
      have clauses := (found.before colon).and ((items place).and (others place))
      rwa [← List.append_assoc] at clauses
    split
    · next kind =>
      have case := word (by simp [kind]) (by simp [kind])
      have test : script.Covers (strict :: outer) k (some <$> expression rules false) (script.FoundOption strict j) :=
        .map some (covers_expression covered false) fun e l found => found.behind case
      exact test.bind finished
    · next kind =>
      have case := word (by simp [kind]) (by simp [kind])
      have noTest : script.Covers (strict :: outer) k (pure none) (script.FoundOption strict j) := .give case.found
      exact .ite (fun _ => .fail_then _ _) fun _ => noTest.bind finished
    · exact .fail_then _ _

theorem covers_switch_statement :
    script.Covers (strict :: outer) i (switchStatement rules) (script.FoundForm strict i) := by
  refine .bind (covers_parenthesized covered _ _) fun discriminant j first => ?_
  refine .bind (covers_expect_mark _ _) fun _ k opens => .bind (covers_modify_body fun _ => rfl) fun _ l same => ?_
  subst same
  refine .bind (covers_with_block (covers_switch_clauses covered _ _ _)) fun result m there => ?_
  obtain ⟨clauses, names⟩ := result
  obtain ⟨_, rfl, found⟩ := there
  refine .bind covers_leave_switch fun _ n same => .bind (covers_expect_mark _ _) fun _ o closes => .give ?_
  subst same
  refine found_form (fun place => ?_) (fun _ => .of_bare rfl rfl rfl) rfl
  exact (first.before opens).and ((found place.inChoice).before closes)

theorem covers_if_statement :
    script.Covers (strict :: outer) i (ifStatement rules) (script.FoundForm strict i) := by
  refine .bind (covers_parenthesized covered _ _) fun test j first => ?_
  refine .bind (covered.statement _ _ _) fun yes k second => ?_
  extract_lets finish
  have finished (no : Option Stmt) (l : Nat) (third : script.FoundItems strict k no.toList l) :
      script.Covers (strict :: outer) l (finish no) (script.FoundForm strict i) := by
    refine .give (found_form (fun place => ?_) (fun _ => .of_bare rfl rfl rfl) rfl)
    exact first.and ((second.found place.inside).and (third place.inside))
  refine .bind (covers_accept_keyword _) fun otherwise l keyword => .ite (fun _ => ?_) fun _ => ?_
  · have read : script.Covers (strict :: outer) l (some <$> rules.statement) fun no =>
        script.FoundItems strict k no.toList :=
      .map some (covered.statement _ _ _) fun s m found place => (found.found place).behind keyword
    exact read.bind finished
  · have read : script.Covers (strict :: outer) l (pure none) fun (no : Option Stmt) =>
        script.FoundItems strict k no.toList := .give fun _ => keyword.found
    exact read.bind finished

theorem covers_try_statement (found : script.tokens[i]? = some t) (plain : ¬ t.IsOctal) :
    script.Covers (strict :: outer) i (tryStatement rules) (script.FoundForm strict i) := by
  refine .bind (covers_advance_plain found plain) fun keyword j word => .bind (covers_block covered) fun guarded k first => ?_
  extract_lets last
  have ends (handler : Option Handler) (l : Nat) (second : script.FoundHandler strict k handler l) :
      script.Covers (strict :: outer) l (last handler) (script.FoundForm strict i) := by
    refine .bind (covers_accept_keyword _) fun final m keyword => ?_
    extract_lets finish
    have finished (finalizer : Option Block) (n : Nat) (third : script.FoundFinalizer strict l finalizer n) :
        script.Covers (strict :: outer) n (finish finalizer) (script.FoundForm strict i) := by
      refine .ite (fun _ => .fail_then _ _) fun _ => .give (found_form (fun place => ?_) (fun always => ?_) rfl)
      · have blocks := ((first place.inside).behind word).and ((second.found place.inside).and (third place.inside))
        rwa [← List.append_assoc] at blocks
      · refine .of_names (fun name mem => ?_) rfl rfl
        cases handler with
        | none => cases mem
        | some h =>
          obtain rfl := List.mem_singleton.mp mem
          exact second.allowed always h rfl
    apply Covers.ite
    · intro _
      have read : script.Covers (strict :: outer) m (some <$> block rules) (script.FoundFinalizer strict l) := by
        refine .map some (covers_block covered) fun b n found place => ?_
        rw [Option.toList_some, List.flatMap_singleton]
        exact (found place).behind keyword
      exact read.bind finished
    · intro _
      have read : script.Covers (strict :: outer) m (pure none) (script.FoundFinalizer strict l) :=
        .give fun _ => keyword.found
      exact read.bind finished
  refine .bind (covers_accept_keyword _) fun caught l keyword => .ite (fun _ => ?_) fun _ => ?_
  · refine .bind (covers_expect_mark _ _) fun _ m opens => .bind (covers_binding_name _) fun parameter n there => ?_
    obtain ⟨name, allowed⟩ := there
    refine .bind (covers_expect_mark _ _) fun _ o closes => .bind (covers_block covered) fun b p found => ?_
    refine ends (some ⟨parameter, b⟩) p ⟨fun place => ?_, fun always h same => ?_⟩
    · rw [Option.toList_some, List.flatMap_singleton]
      exact ((((found place).behind closes).behind name).behind opens).behind keyword
    · obtain rfl := Option.some.inj same
      exact allowed always
  · have read : script.Covers (strict :: outer) l (pure none) (script.FoundHandler strict k) :=
      .give ⟨fun _ => keyword.found, fun _ h mem => absurd mem (Option.not_mem_none h)⟩
    exact read.bind ends

/-! ## Statements -/

omit covered in
/-- A statement may end with a semicolon. -/
theorem covers_end {form : StmtForm} (found : script.FoundForm strict i form j) :
    script.Covers (strict :: outer) j (do endStatement; return form) (script.FoundForm strict i) :=
  .bind covers_end_statement fun _ _ ends => .give (found.before ends)

theorem covers_statement_form (found : script.tokens[i]? = some t) :
    script.Covers (strict :: outer) i (statementForm rules t) (script.FoundForm strict i) := by
  have skip (number : t.kind ≠ .number) (string : t.kind ≠ .string) :
      script.Covers (strict :: outer) i (discard advance) fun _ k => script.Plain i k :=
    covers_skip found (plain_of_kind number string)
  unfold statementForm
  split
  · refine .bind (covers_block covered) fun b j items => .give ?_
    exact found_form (fun place => items place.inside) (fun _ => .of_bare rfl rfl rfl) rfl
  · next kind =>
    refine .bind (skip (by simp [kind]) (by simp [kind])) fun _ j passed => .give ?_
    exact found_bare passed (fun _ => rfl) (.of_bare rfl rfl rfl) rfl
  · next kind =>
    refine .bind (skip (by simp [kind]) (by simp [kind])) fun _ j passed => ?_
    refine .bind (covers_declarators _ fun _ => covers_var_declarator covered false) fun declarators k names => ?_
    refine covers_end (found_form (fun _ => names.found.behind passed) (fun always => ?_) rfl)
    exact .of_names (names.allowed always) rfl rfl
  · exact .fail _ _
  · exact .fail _ _
  · next kind =>
    refine .bind (skip (by simp [kind]) (by simp [kind])) fun _ j passed => ?_
    exact (covers_if_statement covered).weaken fun form k form => form.behind passed
  · next kind =>
    refine .bind (skip (by simp [kind]) (by simp [kind])) fun _ j passed => ?_
    refine .bind (covers_parenthesized covered _ _) fun test k first => ?_
    refine .bind (covers_loop_body covered) fun body l second => .give ?_
    refine found_form (fun place => ?_) (fun _ => .of_bare rfl rfl rfl) rfl
    exact (first.behind passed).and (second.found place.inLoop)
  · next kind =>
    refine .bind (skip (by simp [kind]) (by simp [kind])) fun _ j passed => ?_
    refine .bind (covers_loop_body covered) fun body k first => .bind (covers_expect_keyword _ _) fun _ l keyword => ?_
    refine .bind (covers_parenthesized covered _ _) fun test m second => ?_
    have semicolon : script.Covers (strict :: outer) m (discard (acceptMark .semicolon)) fun _ n => script.Plain m n :=
      .map _ (covers_accept_mark _) fun _ _ ends => ends
    refine semicolon.bind fun _ n ends => .give ?_
    refine found_form (fun place => ?_) (fun _ => .of_bare rfl rfl rfl) rfl
    have both := (((first.found place.inLoop).behind passed).before keyword).and (second.before ends)
    exact both.of_mem_iff fun n => by simp [StmtForm.children, or_comm]
  · next kind =>
    refine .bind (skip (by simp [kind]) (by simp [kind])) fun _ j passed => ?_
    exact (covers_for_statement covered).weaken fun form k form => form.behind passed
  · next kind => exact covers_continue_statement found (plain_of_kind (by simp [kind]) (by simp [kind]))
  · next kind => exact covers_break_statement found (plain_of_kind (by simp [kind]) (by simp [kind]))
  · next kind =>
    refine .bind (skip (by simp [kind]) (by simp [kind])) fun _ j passed => .bind .get fun s k here => ?_
    obtain ⟨rfl, -⟩ := here
    extract_lets finish last
    have finished (value : Option Expr) (l : Nat) (given : script.FoundOption strict k value l) :
        script.Covers (strict :: outer) l (finish value) (script.FoundForm strict i) :=
      covers_end (found_form (fun _ => given.behind passed) (fun _ => .of_bare rfl rfl rfl) rfl)
    have valued : script.Covers (strict :: outer) k (last ()) (script.FoundForm strict i) := by
      apply Covers.ite
      · intro _
        have read : script.Covers (strict :: outer) k (pure none) (script.FoundOption strict k) := .give found_nothing
        exact read.bind finished
      · intro _
        have read : script.Covers (strict :: outer) k (some <$> expression rules false) (script.FoundOption strict k) :=
          .map some (covers_expression covered false) fun _ _ found => found
        exact read.bind finished
    exact .ite (fun _ => .fail_then _ _) fun _ => valued
  · next kind =>
    refine .bind covers_is_strict fun around j there => ?_
    obtain ⟨rfl, rfl⟩ := there
    refine .ite (fun _ => .fail_then _ _) fun sloppy => ?_
    refine .bind (skip (by simp [kind]) (by simp [kind])) fun _ k passed => ?_
    refine .bind (covers_parenthesized covered _ _) fun object l first => ?_
    refine .bind (covered.statement _ _ _) fun body m second => .give ?_
    refine found_form (fun place => ?_) (fun always => absurd always sloppy) rfl
    exact (first.behind passed).and (second.found place.inside)
  · next kind =>
    refine .bind (skip (by simp [kind]) (by simp [kind])) fun _ j passed => ?_
    exact (covers_switch_statement covered).weaken fun form k form => form.behind passed
  · next kind =>
    refine .bind (skip (by simp [kind]) (by simp [kind])) fun _ j passed => .bind covers_peek fun next k there => ?_
    obtain ⟨rfl, -⟩ := there
    extract_lets last
    have finished : script.Covers (strict :: outer) k (last ()) (script.FoundForm strict i) := by
      refine .bind (covers_expression covered false) fun value l given => ?_
      exact covers_end (found_form (fun _ => given.behind passed) (fun _ => .of_bare rfl rfl rfl) rfl)
    have nothing : script.Covers (strict :: outer) k (failHere .newlineAfterThrow) fun (_ : Unit) _ => False :=
      covers_fail_here _
    exact .ite (fun _ => nothing.bind fun _ _ => False.elim) fun _ => finished
  · next kind => exact covers_try_statement covered found (plain_of_kind (by simp [kind]) (by simp [kind]))
  · next kind =>
    refine .bind (skip (by simp [kind]) (by simp [kind])) fun _ j passed => ?_
    refine .bind covers_end_statement fun _ k ends => .give ?_
    exact found_bare (passed.before ends) (fun _ => rfl) (.of_bare rfl rfl rfl) rfl
  · refine .bind .get fun s j here => ?_
    obtain ⟨rfl, here⟩ := here
    apply Covers.ite
    · intro labeled
      rw [Bool.and_eq_true, beq_iff_eq, beq_iff_eq] at labeled
      obtain ⟨kind, colon⟩ := labeled
      obtain rfl : s.current = t := Option.some.inj (here.current.symm.trans found)
      refine covers_labeled_statement covered found kind ?_
      rw [kind_at (here.behind (by simp [kind])), colon]
    · intro _
      refine .bind (covers_expression covered false) fun e k given => ?_
      exact covers_end (found_form (fun _ => given) (fun _ => .of_bare rfl rfl rfl) rfl)

theorem covers_statement : script.Covers (strict :: outer) i (statement rules) (script.FoundStmt strict i) := by
  refine .bind covers_peek fun token j there => ?_
  obtain ⟨rfl, found⟩ := there
  apply Covers.ite
  · intro keyword
    exact covers_function_declaration covered found (beq_iff_eq.mp keyword)
  · intro _
    refine .bind (covers_statement_form covered found) fun form k form => ?_
    refine .bind (covers_span_from _) fun span l there => .give ?_
    obtain ⟨rfl, rfl⟩ := there
    exact ⟨(start_at found).symm, fun place => form place _⟩

theorem covers_item : script.Covers (strict :: outer) i (item rules) (script.FoundStmt strict i) := by
  refine .bind covers_peek fun token j there => ?_
  obtain ⟨rfl, found⟩ := there
  split
  · next constant keyword =>
    refine .bind (covers_skip found (plain_of_operator keyword rfl rfl)) fun _ k passed => ?_
    refine .bind (covers_declarators _ fun _ => covers_lexical_declarator covered _ _ _) fun declarators l names => ?_
    refine .bind covers_end_statement fun _ m ends => .bind (covers_span_from _) fun span n there => .give ?_
    obtain ⟨rfl, rfl⟩ := there
    have declared := (names.behind passed).before ends
    refine ⟨(start_at found).symm, fun place => ?_⟩
    exact found_stmt declared.found (fun always => .of_names (declared.allowed always) rfl rfl) (List.forall_mem_nil _)
  · exact covers_statement covered

end

end ScriptEngine.Grammar.Script
