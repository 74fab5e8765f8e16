import ScriptEngine.Proofs.Spans.ReadExpression
import ScriptEngine.Proofs.Strictness.ReadStatement

/-!
The rules for statements read nested parts. Labels are looked through for a loop behind them before the statement is
read, so that it is told of each statement that it goes on behind its labels.
-/

namespace ScriptEngine.Grammar.Script

/-- What a statement is was read between two tokens. It is neither a function nor an expression alone. -/
structure FormRow (script : Script) (strict : Bool) (i : Nat) (form : StmtForm) (j : Nat) : Prop where
  row : script.Row strict i j form.innerParts
  noFunction : ∀ code, form ≠ .function code
  noExpression : ∀ e, form ≠ .expr e

/-- An expression that may be left out was read between two tokens. -/
abbrev OptionRow (script : Script) (strict : Bool) (i : Nat) (e : Option Expr) (j : Nat) : Prop :=
  script.Row strict i j (e.toList.map .expr)

variable {script : Script} {rules : Rules} {strict : Bool} {outer codes : List Bool} {i j k : Nat} {t : Token}

theorem FormRow.behind {form : StmtForm} (row : script.FormRow strict j form k) (before : script.Balanced i j) :
    script.FormRow strict i form k :=
  ⟨row.row.behind before, row.noFunction, row.noExpression⟩

theorem FormRow.before {form : StmtForm} (row : script.FormRow strict i form j) (behind : script.Balanced j k) :
    script.FormRow strict i form k :=
  ⟨row.row.before behind, row.noFunction, row.noExpression⟩

/-- A statement that is no function has none to be traced. -/
theorem traced_of_form {form : StmtForm} {span : Span} (noFunction : ∀ code, form ≠ .function code) :
    ∀ code ∈ Part.function? (.stmt ⟨form, span⟩), script.Traced strict code := by
  intro code mem
  cases form with
  | function other => exact absurd rfl (noFunction other)
  | _ => cases mem

/-- A statement that no label comes before. -/
theorem Row.unlabeled {s : Stmt} (row : script.Row strict i j [.stmt s])
    (unlabeled : ¬ (script.kindAt i = some .identifier ∧ script.kindAt (i + 1) = some (.mark .colon))) (n : Nat)
    (labels : ∀ m < n, script.kindAt (i + 2 * m) = some .identifier ∧
      script.kindAt (i + 2 * m + 1) = some (.mark .colon)) : i + 2 * n < j := by
  cases n with
  | zero => exact row.order
  | succ n => exact absurd (labels 0 (Nat.succ_pos n)) unlabeled

/-- A statement goes from its token to the end of what is read. -/
theorem FormRow.stmt {form : StmtForm} (row : script.FormRow strict i form j) (order : i < j)
    (found : script.tokens[i]? = some t) (word : t.kind ≠ .identifier) :
    script.StmtRow strict i ⟨form, ⟨t.span.start, max (script.stopAt (j - 1)) t.span.start⟩⟩ j := by
  have whole : script.Row strict i j [.stmt ⟨form, ⟨t.span.start, max (script.stopAt (j - 1)) t.span.start⟩⟩] :=
    Row.from_token row.row order found rfl (traced_of_form row.noFunction) nofun
  refine ⟨whole, whole.unlabeled ?_, fun e _ same => absurd same (row.noExpression e)⟩
  rw [kind_at found]
  rintro ⟨same, -⟩
  exact word (Option.some.inj same)

theorem nests_optional_label : script.Covers codes i optionalLabel fun _ j => script.Balanced i j := by
  refine .bind covers_peek fun token j there => ?_
  obtain ⟨rfl, found⟩ := there
  refine .ite (fun named => ?_) fun _ => .give (balanced_here (List.getElem?_eq_some_iff.mp found).1)
  have kind : token.kind = .identifier := by
    rw [Bool.and_eq_true] at named
    exact beq_iff_eq.mp named.1
  exact .bind (nests_skip found (by rw [kind]; decide)) fun _ _ passed => .give passed

theorem nests_continue_statement (found : script.tokens[i]? = some t) (flat : t.kind.IsFlat) :
    script.Covers (strict :: outer) i continueStatement fun form j => script.FormRow strict i form j ∧ i < j := by
  refine .bind (covers_take found flat.ends) fun keyword j there => ?_
  obtain ⟨rfl, rfl⟩ := there
  have first : script.Balanced i (i + 1) := balanced_next (kind_at found) flat
  refine .bind nests_optional_label fun label k second => .bind .get fun s l here => ?_
  obtain ⟨rfl, -⟩ := here
  extract_lets body finish
  have finished : script.Covers (strict :: outer) l (finish ())
      fun form j => script.FormRow strict i form j ∧ i < j := by
    refine .bind nests_end_statement fun _ m third => .give ?_
    have rest := second.and third
    exact ⟨⟨(first.and rest).row, nofun, nofun⟩, rest.forward⟩
  split
  · split
    · exact .ite (fun _ => finished) fun _ => .fail_then _ _
    · exact .fail_then _ _
  · exact .ite (fun _ => .fail_then _ _) fun _ => finished

theorem nests_break_statement (found : script.tokens[i]? = some t) (flat : t.kind.IsFlat) :
    script.Covers (strict :: outer) i breakStatement fun form j => script.FormRow strict i form j ∧ i < j := by
  refine .bind (covers_take found flat.ends) fun keyword j there => ?_
  obtain ⟨rfl, rfl⟩ := there
  have first : script.Balanced i (i + 1) := balanced_next (kind_at found) flat
  refine .bind nests_optional_label fun label k second => .bind .get fun s l here => ?_
  obtain ⟨rfl, -⟩ := here
  extract_lets body finish
  have finished : script.Covers (strict :: outer) l (finish ())
      fun form j => script.FormRow strict i form j ∧ i < j := by
    refine .bind nests_end_statement fun _ m third => .give ?_
    have rest := second.and third
    exact ⟨⟨(first.and rest).row, nofun, nofun⟩, rest.forward⟩
  split
  · exact .ite (fun _ => finished) fun _ => .fail_then _ _
  · exact .ite (fun _ => .fail_then _ _) fun _ => finished

section

variable (nests : script.Nests rules)

include nests

theorem nests_parenthesized (opening closing : String) :
    script.Covers (strict :: outer) i (parenthesized rules opening closing) fun e j =>
      script.Row strict i j [.expr e] := by
  refine .bind (nests_expect_exact (by simp) _) fun _ j there => .bind (nests_expression nests false) fun e k row => ?_
  obtain ⟨rfl, opens⟩ := there
  refine .bind (nests_expect_exact (by simp) _) fun _ l there => .give ?_
  obtain ⟨rfl, closes⟩ := there
  exact row.row.enclosed opens closes

theorem nests_items (more : ReadingState → Bool) (fuel : Nat) :
    script.Covers (strict :: outer) i (readWhile fuel more rules.item []) fun items j =>
      script.Row strict i j (items.map .stmt) :=
  nests_while (fun i => (nests.item strict outer i).weaken fun _ _ row => row.row) fuel more

theorem nests_block :
    script.Covers (strict :: outer) i (block rules) fun b j => script.Row strict i j (b.body.map .stmt) ∧ i < j := by
  refine .bind (nests_expect (by decide) _) fun _ j opens => ?_
  refine .bind (covers_with_block (nests_items nests _ _)) fun result k row => ?_
  refine .bind (nests_expect (by decide) _) fun _ l closes => .give ⟨(row.behind opens.1).before closes.1, ?_⟩
  have forward := (row.before closes.1).balanced.forward
  exact Nat.lt_of_lt_of_le opens.2 forward

/-! ## Declarations -/

/-- A declared name is followed by its first value if a sign of equality announces one. -/
theorem nests_first_value {goal : Declarator → Nat → Prop} {finish : Option Expr → Reader Declarator} (noIn : Bool)
    (finished : ∀ init j, script.OptionRow strict i init j → script.Covers (strict :: outer) j (finish init) goal) :
    script.Covers (strict :: outer) i (acceptMark .assign >>= fun given =>
      if given then (some <$> rules.assignment noIn) >>= finish else pure none >>= finish) goal := by
  refine .bind (nests_accept (by decide)) fun given j sign => .ite (fun _ => ?_) fun _ => ?_
  · have read : script.Covers (strict :: outer) j (some <$> rules.assignment noIn) (script.OptionRow strict i) :=
      .map some (nests.assignment _ _ _ _) fun e k row => row.row.behind sign.1
    exact read.bind finished
  · have read : script.Covers (strict :: outer) j (pure none) (script.OptionRow strict i) := .give sign.1.row
    exact read.bind finished

omit nests in
/-- A declared name begins with its token and goes to the end of its first value. -/
theorem nests_complete_declarator {name : String} {init : Option Expr} (begins : script.tokens[i]? = some t)
    (row : script.OptionRow strict i init j) (order : i < j) :
    script.Covers codes j (do return ⟨name, init, ← spanFrom t.span.start⟩) fun d l =>
      script.Row strict i l [.declarator d] := by
  refine .bind (covers_span_from _) fun span l there => .give ?_
  obtain ⟨rfl, rfl⟩ := there
  exact Row.from_token row order begins rfl nofun nofun

theorem nests_var_declarator (noIn : Bool) :
    script.Covers (strict :: outer) i (varDeclarator rules noIn) fun d j => script.Row strict i j [.declarator d] := by
  refine .bind covers_peek fun token j there => ?_
  obtain ⟨rfl, begins⟩ := there
  extract_lets start
  refine .bind (nests_binding_name _) fun name k first => ?_
  extract_lets finish
  refine nests_first_value nests noIn fun init l row => ?_
  refine .bind (covers_add_var name) fun _ m same => ?_
  subst same
  exact nests_complete_declarator begins (row.behind first.1) (Nat.lt_of_lt_of_le first.2 row.balanced.forward)

omit nests in
/-- Declared names that commas separate are in a row. -/
theorem nests_declarators {declarator : Reader Declarator} (fuel : Nat)
    (each : ∀ i, script.Covers (strict :: outer) i declarator fun d j => script.Row strict i j [.declarator d]) :
    script.Covers (strict :: outer) i (readSeparated fuel declarator []) fun declarators j =>
      script.Row strict i j (declarators.map .declarator) := by
  refine (nests_separated each fuel []).weaken fun declarators j there => ?_
  obtain ⟨later, rfl, row⟩ := there
  exact row

theorem nests_lexical_declarator (constant inForHead valueRequired : Bool) :
    script.Covers (strict :: outer) i (lexicalDeclarator rules constant inForHead valueRequired) fun d j =>
      script.Row strict i j [.declarator d] := by
  refine .bind covers_peek fun token j there => ?_
  obtain ⟨rfl, begins⟩ := there
  refine .bind (nests_binding_name _) fun name k first => ?_
  extract_lets finish declare
  have finished (init : Option Expr) (l : Nat) (row : script.OptionRow strict k init l) :
      script.Covers (strict :: outer) l (finish init) fun d m => script.Row strict j m [.declarator d] := by
    have order := Nat.lt_of_lt_of_le first.2 row.balanced.forward
    have complete : script.Covers (strict :: outer) l (do return ⟨name, init, ← spanFrom token.span.start⟩)
        fun d m => script.Row strict j m [.declarator d] :=
      nests_complete_declarator begins (row.behind first.1) order
    refine .ite (fun _ => .fail_then _ _) fun _ => .ite (fun _ => complete) fun _ => ?_
    refine .bind (covers_declare_lexical _ _) fun _ n same => ?_
    subst same
    exact complete
  exact .ite (fun _ => .fail_then _ _) fun _ => nests_first_value nests inForHead finished

theorem nests_function_declaration (found : script.tokens[i]? = some t) (kind : t.kind = .keyword .function) :
    script.Covers (strict :: outer) i (functionDeclaration rules) (script.StmtRow strict i) := by
  refine .bind (covers_take found (by simp [kind])) fun token j there => ?_
  obtain ⟨rfl, rfl⟩ := there
  refine .bind (nests_function_rest nests found kind .declaration nofun) fun code k there => ?_
  obtain ⟨given, traced⟩ := there
  refine .bind (covers_modify_body fun _ => rfl) fun _ l same => .bind (covers_span_from _) fun span m there => .give ?_
  obtain ⟨rfl, rfl⟩ := there
  subst same
  have whole : script.Row strict i m
      [.stmt ⟨.function code, ⟨token.span.start, max (script.stopAt (m - 1)) token.span.start⟩⟩] := by
    refine Row.from_token given.row given.row.order found rfl ?_ nofun
    rintro other ⟨⟩
    exact traced
  refine ⟨whole, whole.unlabeled ?_, nofun⟩
  rw [kind_at found, kind]
  rintro ⟨⟨⟩, -⟩

/-! ## Loops -/

theorem nests_loop_body : script.Covers (strict :: outer) i (loopBody rules) fun s j =>
    script.Row strict i j [.stmt s] := by
  refine .bind (covers_modify_body fun _ => rfl) fun _ j same => ?_
  subst same
  refine .bind (nests.statement _ _ _) fun body k row => .bind covers_leave_loop fun _ l same => .give ?_
  subst same
  exact row.row

/-- The rest of a `for`-`in` statement closes the parenthesis before it. -/
theorem nests_for_in_rest {target : ForInTarget} (opens : script.kindAt i = some (.mark .openParen))
    (head : script.Row strict (i + 1) j target.parts) :
    script.Covers (strict :: outer) j (forInRest rules target) (script.FormRow strict i) := by
  refine .bind (nests_expect (by decide) _) fun _ k keyword => ?_
  refine .bind (nests_expression nests false) fun object l row => ?_
  refine .bind (nests_expect_exact (by simp) _) fun _ m there => ?_
  refine .bind (nests_loop_body nests) fun body n last => .give ?_
  obtain ⟨rfl, closes⟩ := there
  refine ⟨?_, nofun, nofun⟩
  have all := ((head.before keyword.1).and row.row).enclosed opens closes
  have whole := all.and last
  rwa [List.append_assoc] at whole

theorem nests_optional_expression (stop : Mark) :
    script.Covers (strict :: outer) i (optionalExpression rules stop) (script.OptionRow strict i) := by
  refine .bind (covers_check _) fun stops j there => ?_
  obtain ⟨rfl, -⟩ := there
  refine .ite (fun _ => ?_) fun _ => .map some (nests_expression nests false) fun e k row => row.row
  exact (nests_nothing none).weaken fun e k there => by rw [there.1]; exact there.2.row

/-- So does the rest of a `for` statement. -/
theorem nests_for_rest {init : Option ForInit} (opens : script.kindAt i = some (.mark .openParen))
    (head : script.Row strict (i + 1) j (init.toList.flatMap ForInit.parts)) :
    script.Covers (strict :: outer) j (forRest rules init) (script.FormRow strict i) := by
  refine .bind (nests_expect (by decide) _) fun _ k first => ?_
  refine .bind (nests_optional_expression nests _) fun test l second => ?_
  refine .bind (nests_expect (by decide) _) fun _ m third => ?_
  refine .bind (nests_optional_expression nests _) fun update n fourth => ?_
  refine .bind (nests_expect_exact (by simp) _) fun _ o there => ?_
  refine .bind (nests_loop_body nests) fun body p last => .give ?_
  obtain ⟨rfl, closes⟩ := there
  refine ⟨?_, nofun, nofun⟩
  have clauses := ((head.before first.1).and (second.before third.1)).and fourth
  exact (clauses.enclosed opens closes).and last

theorem nests_for_statement :
    script.Covers (strict :: outer) i (forStatement rules) (script.FormRow strict i) := by
  refine .bind (nests_expect_exact (by simp) _) fun _ j there => .bind covers_peek fun token k at_ => ?_
  obtain ⟨rfl, opens⟩ := there
  obtain ⟨rfl, found⟩ := at_
  apply Covers.ite
  · intro keyword
    refine .bind (nests_skip found (by rw [beq_iff_eq.mp keyword]; decide)) fun _ l first => ?_
    refine .bind (nests_declarators _ fun _ => nests_var_declarator nests true) fun declarators m names => ?_
    have declared := names.behind first
    refine .bind (covers_check _) fun ranges n there => ?_
    obtain ⟨rfl, -⟩ := there
    refine .ite (fun _ => .bind (covers_single_binding _) fun name o there => ?_) fun _ => ?_
    · obtain ⟨rfl, -⟩ := there
      exact nests_for_in_rest nests opens declared.balanced.row
    · exact nests_for_rest nests opens (by simpa [ForInit.parts] using declared)
  · intro _
    split
    · next constant keyword =>
      refine .bind (nests_skip found (flat_of_operator keyword rfl rfl rfl)) fun _ l first => ?_
      refine .bind .get fun s m here => ?_
      obtain ⟨rfl, -⟩ := here
      refine .bind (nests_declarators _ fun _ => nests_lexical_declarator nests _ _ _) fun declarators n names => ?_
      have declared := names.behind first
      refine .bind (covers_check _) fun ranges o there => ?_
      obtain ⟨rfl, -⟩ := there
      refine .ite (fun _ => .bind (covers_single_binding _) fun name p there => ?_) fun _ => ?_
      · obtain ⟨rfl, -⟩ := there
        exact nests_for_in_rest nests opens declared.balanced.row
      · exact nests_for_rest nests opens (by simpa [ForInit.parts] using declared)
    · apply Covers.ite
      · intro _
        exact nests_for_rest nests opens (balanced_here (List.getElem?_eq_some_iff.mp found).1).row
      · intro _
        refine .bind (nests_expression nests true) fun e l row => .bind (covers_check _) fun ranges m there => ?_
        obtain ⟨rfl, -⟩ := there
        refine .ite (fun _ => .bind (covers_check_target _) fun _ n there => ?_) fun _ => ?_
        · obtain ⟨rfl, -⟩ := there
          exact nests_for_in_rest nests opens row.row
        · exact nests_for_rest nests opens row.row

/-! ## Labels, choices and handlers -/

/-- A label takes two tokens, and the labels behind it are those of the statement that it is written before. -/
theorem nests_labeled_statement (found : script.tokens[i]? = some t) (kind : t.kind = .identifier)
    (colon : script.kindAt (i + 1) = some (.mark .colon)) :
    script.Covers (strict :: outer) i (labeledStatement rules) fun form j => script.FormRow strict i form j ∧
      ∀ n, (∀ m < n, script.kindAt (i + 2 * m) = some .identifier ∧
        script.kindAt (i + 2 * m + 1) = some (.mark .colon)) → i + 2 * n < j := by
  obtain ⟨second, mark, flat⟩ := Option.map_eq_some_iff.mp colon
  refine .bind (covers_take found (by simp [kind])) fun token j there => ?_
  obtain ⟨rfl, rfl⟩ := there
  refine .bind (covers_pass mark (by rw [flat]; decide)) fun _ k same => ?_
  subst same
  have first : script.Balanced i (i + 1 + 1) :=
    (balanced_next (kind_at found) (by rw [kind]; decide)).and (balanced_next colon (by decide))
  extract_lets label
  refine .bind .get fun s l here => ?_
  obtain ⟨rfl, -⟩ := here
  extract_lets entry finish
  refine .ite (fun _ => .fail_then _ _) fun _ => .bind (covers_modify_body fun _ => rfl) fun _ m same => ?_
  subst same
  refine .bind (nests.statement _ _ _) fun body n row => .bind (covers_modify_body fun _ => rfl) fun _ o same => ?_
  subst same
  refine .give ⟨⟨row.row.behind first, nofun, nofun⟩, fun count labels => ?_⟩
  cases count with
  | zero =>
    have order := row.row.order
    omega
  | succ count =>
    have later := row.labels count fun m before => by
      have next := labels (m + 1) (Nat.succ_lt_succ before)
      have place : i + 2 * (m + 1) = i + 1 + 1 + 2 * m := by omega
      rwa [place] at next
    omega

theorem nests_switch_clauses (fuel : Nat) (seenDefault : Bool) (done : List SwitchClause) :
    script.Covers (strict :: outer) i (switchClauses rules fuel seenDefault done) fun clauses j =>
      ∃ later, clauses = done.reverse ++ later ∧ script.Row strict i j (later.flatMap SwitchClause.parts) := by
  induction fuel generalizing i seenDefault done with
  | zero => exact .broken
  | succ fuel ih =>
    refine .within fun inside => .bind .get fun s j here => ?_
    obtain ⟨rfl, -⟩ := here
    refine .ite (fun _ => ?_) fun _ => .give ⟨[], by simp, (balanced_here inside).row⟩
    refine .bind nests_advance_word fun token k word => ?_
    extract_lets finish
    have finished (test : Option Expr) (l : Nat) (row : script.OptionRow strict j test l) :
        script.Covers (strict :: outer) l (finish test) fun clauses m =>
          ∃ later, clauses = done.reverse ++ later ∧ script.Row strict j m (later.flatMap SwitchClause.parts) := by
      refine .bind (nests_expect (by decide) _) fun _ m colon => .bind (nests_items nests _ _) fun body n items => ?_
      refine (ih _ (⟨test, body⟩ :: done)).weaken fun clauses o there => ?_
      obtain ⟨later, rfl, others⟩ := there
      exact ⟨⟨test, body⟩ :: later, by simp, ((row.before colon.1).and items).and others⟩
    split
    · next kind =>
      have case := word (by rw [kind]; decide)
      have test : script.Covers (strict :: outer) k (some <$> expression rules false) (script.OptionRow strict j) :=
        .map some (nests_expression nests false) fun e l row => row.row.behind case
      exact test.bind finished
    · next kind =>
      have case := word (by rw [kind]; decide)
      have noTest : script.Covers (strict :: outer) k (pure none) (script.OptionRow strict j) := .give case.row
      exact .ite (fun _ => .fail_then _ _) fun _ => noTest.bind finished
    · exact .fail_then _ _

theorem nests_switch_statement :
    script.Covers (strict :: outer) i (switchStatement rules) (script.FormRow strict i) := by
  refine .bind (nests_parenthesized nests _ _) fun discriminant j first => ?_
  refine .bind (nests_expect (by decide) _) fun _ k opens => .bind (covers_modify_body fun _ => rfl) fun _ l same => ?_
  subst same
  refine .bind (covers_with_block (nests_switch_clauses nests _ _ _)) fun result m there => ?_
  obtain ⟨clauses, names⟩ := result
  obtain ⟨_, rfl, row⟩ := there
  refine .bind covers_leave_switch fun _ n same => .bind (nests_expect (by decide) _) fun _ o closes => .give ?_
  subst same
  exact ⟨(first.before opens.1).cons (row.before closes.1), nofun, nofun⟩

theorem nests_if_statement :
    script.Covers (strict :: outer) i (ifStatement rules) (script.FormRow strict i) := by
  refine .bind (nests_parenthesized nests _ _) fun test j first => ?_
  refine .bind (nests.statement _ _ _) fun yes k second => ?_
  extract_lets finish
  have finished (no : Option Stmt) (l : Nat) (third : script.Row strict k l (no.toList.map .stmt)) :
      script.Covers (strict :: outer) l (finish no) (script.FormRow strict i) :=
    .give ⟨first.cons (second.row.cons third), nofun, nofun⟩
  refine .bind (nests_accept (by decide)) fun otherwise l keyword => .ite (fun _ => ?_) fun _ => ?_
  · have read : script.Covers (strict :: outer) l (some <$> rules.statement) fun no m =>
        script.Row strict k m (no.toList.map .stmt) :=
      .map some (nests.statement _ _ _) fun s m row => row.row.behind keyword.1
    exact read.bind finished
  · have read : script.Covers (strict :: outer) l (pure none) fun (no : Option Stmt) m =>
        script.Row strict k m (no.toList.map .stmt) := .give keyword.1.row
    exact read.bind finished

theorem nests_try_statement (found : script.tokens[i]? = some t) (flat : t.kind.IsFlat) :
    script.Covers (strict :: outer) i (tryStatement rules) fun form j => script.FormRow strict i form j ∧ i < j := by
  refine .bind (covers_take found flat.ends) fun keyword j there => .bind (nests_block nests) fun guarded k first => ?_
  obtain ⟨rfl, rfl⟩ := there
  have begun := first.1.behind (balanced_next (kind_at found) flat)
  extract_lets last
  have ends (handler : Option Handler) (l : Nat)
      (second : script.Row strict k l (handler.toList.flatMap (·.body.body.map .stmt))) :
      script.Covers (strict :: outer) l (last handler) fun form j => script.FormRow strict i form j ∧ i < j := by
    refine .bind (nests_accept (by decide)) fun final m keyword => ?_
    extract_lets finish
    have finished (finalizer : Option Block) (n : Nat)
        (third : script.Row strict l n (finalizer.toList.flatMap (·.body.map .stmt))) :
        script.Covers (strict :: outer) n (finish finalizer) fun form j => script.FormRow strict i form j ∧ i < j := by
      refine .ite (fun _ => .fail_then _ _) fun _ => .give ⟨⟨(begun.and second).and third, nofun, nofun⟩, ?_⟩
      have later := (second.and third).balanced.forward
      have order := first.2
      omega
    apply Covers.ite
    · intro _
      have read : script.Covers (strict :: outer) m (some <$> block rules) fun finalizer n =>
          script.Row strict l n (finalizer.toList.flatMap (·.body.map .stmt)) := by
        refine .map some (nests_block nests) fun b n row => ?_
        rw [Option.toList_some, List.flatMap_singleton]
        exact row.1.behind keyword.1
      exact read.bind finished
    · intro _
      have read : script.Covers (strict :: outer) m (pure none) fun (finalizer : Option Block) n =>
          script.Row strict l n (finalizer.toList.flatMap (·.body.map .stmt)) := .give keyword.1.row
      exact read.bind finished
  refine .bind (nests_accept (by decide)) fun caught l keyword => .ite (fun _ => ?_) fun _ => ?_
  · refine .bind (nests_expect_exact (by simp) _) fun _ m there => ?_
    refine .bind (nests_binding_name _) fun parameter n name => ?_
    obtain ⟨rfl, opens⟩ := there
    refine .bind (nests_expect_exact (by simp) _) fun _ o there => .bind (nests_block nests) fun b p row => ?_
    obtain ⟨rfl, closes⟩ := there
    refine ends (some ⟨parameter, b⟩) p ?_
    rw [Option.toList_some, List.flatMap_singleton]
    exact (row.1.behind (name.1.enclosed opens closes)).behind keyword.1
  · have read : script.Covers (strict :: outer) l (pure none) fun (handler : Option Handler) n =>
        script.Row strict k n (handler.toList.flatMap (·.body.body.map .stmt)) := .give keyword.1.row
    exact read.bind ends

/-! ## Statements -/

omit nests in
/-- A statement may end with a semicolon. -/
theorem nests_end {form : StmtForm} (row : script.FormRow strict i form j) :
    script.Covers (strict :: outer) j (do endStatement; return form) (script.FormRow strict i) :=
  .bind nests_end_statement fun _ _ ends => .give (row.before ends)

omit nests in
/-- A statement that begins with a word of its own. -/
theorem nests_behind_word {read : Reader StmtForm} (found : script.tokens[i]? = some t) (flat : t.kind.IsFlat)
    (word : t.kind ≠ .identifier)
    (covers : script.Covers (strict :: outer) (i + 1) read (script.FormRow strict (i + 1))) :
    script.Covers (strict :: outer) i (discard advance >>= fun _ => read) fun form j =>
      script.StmtRow strict i ⟨form, ⟨t.span.start, max (script.stopAt (j - 1)) t.span.start⟩⟩ j := by
  refine .bind (covers_pass found flat.ends) fun _ k same => ?_
  subst same
  refine covers.weaken fun form j row => (row.behind (balanced_next (kind_at found) flat)).stmt ?_ found word
  exact row.row.balanced.forward

/-- An expression that is a statement. -/
theorem nests_expression_statement (found : script.tokens[i]? = some t)
    (unlabeled : ¬ (script.kindAt i = some .identifier ∧ script.kindAt (i + 1) = some (.mark .colon))) :
    script.Covers (strict :: outer) i (do let e ← expression rules false; endStatement; return .expr e) fun form j =>
      script.StmtRow strict i ⟨form, ⟨t.span.start, max (script.stopAt (j - 1)) t.span.start⟩⟩ j := by
  refine .bind (nests_expression nests false) fun e k row => .bind nests_end_statement fun _ l ends => .give ?_
  have inner := row.row.before ends
  have whole : script.Row strict i l [.stmt ⟨.expr e, ⟨t.span.start, max (script.stopAt (l - 1)) t.span.start⟩⟩] :=
    Row.from_token inner inner.order found rfl nofun nofun
  refine ⟨whole, whole.unlabeled unlabeled, fun other value same => ?_⟩
  obtain rfl : e = other := StmtForm.expr.inj same
  exact row.literal value

/-- What a statement is decides what it is as a whole, since it goes from its token to the end of what is read. -/
theorem nests_statement_form (found : script.tokens[i]? = some t) :
    script.Covers (strict :: outer) i (statementForm rules t) fun form j =>
      script.StmtRow strict i ⟨form, ⟨t.span.start, max (script.stopAt (j - 1)) t.span.start⟩⟩ j := by
  unfold statementForm
  split
  · next kind =>
    refine .bind (nests_block nests) fun b j row => .give ?_
    have form : script.FormRow strict i (.block b) j := ⟨row.1, nofun, nofun⟩
    exact form.stmt row.2 found (by simp [kind])
  · next kind =>
    refine nests_behind_word found (by rw [kind]; decide) (by simp [kind]) (.within fun inside => .give ?_)
    exact ⟨(balanced_here inside).row, nofun, nofun⟩
  · next kind =>
    refine nests_behind_word found (by rw [kind]; decide) (by simp [kind]) ?_
    refine .bind (nests_declarators _ fun _ => nests_var_declarator nests false) fun declarators k names => ?_
    exact nests_end ⟨names, nofun, nofun⟩
  · exact .fail _ _
  · exact .fail _ _
  · next kind =>
    exact nests_behind_word found (by rw [kind]; decide) (by simp [kind]) (nests_if_statement nests)
  · next kind =>
    refine nests_behind_word found (by rw [kind]; decide) (by simp [kind]) ?_
    refine .bind (nests_parenthesized nests _ _) fun test k first => ?_
    refine .bind (nests_loop_body nests) fun body l second => ?_
    exact .give ⟨first.cons second, nofun, nofun⟩
  · next kind =>
    refine nests_behind_word found (by rw [kind]; decide) (by simp [kind]) ?_
    refine .bind (nests_loop_body nests) fun body k first => .bind (nests_expect (by decide) _) fun _ l keyword => ?_
    refine .bind (nests_parenthesized nests _ _) fun test m second => ?_
    have semicolon : script.Covers (strict :: outer) m (discard (acceptMark .semicolon))
        fun _ n => script.Balanced m n :=
      .map _ (nests_accept (by decide)) fun _ _ ends => ends.1
    refine semicolon.bind fun _ n ends => .give ⟨?_, nofun, nofun⟩
    exact (first.before keyword.1).cons (second.before ends)
  · next kind =>
    exact nests_behind_word found (by rw [kind]; decide) (by simp [kind]) (nests_for_statement nests)
  · next kind =>
    have flat : t.kind.IsFlat := by
      rw [kind]
      decide
    exact (nests_continue_statement found flat).weaken fun form j there => there.1.stmt there.2 found (by simp [kind])
  · next kind =>
    have flat : t.kind.IsFlat := by
      rw [kind]
      decide
    exact (nests_break_statement found flat).weaken fun form j there => there.1.stmt there.2 found (by simp [kind])
  · next kind =>
    refine nests_behind_word found (by rw [kind]; decide) (by simp [kind]) (.within fun inside => ?_)
    refine .bind .get fun s k here => ?_
    obtain ⟨rfl, -⟩ := here
    extract_lets finish last
    have finished (value : Option Expr) (l : Nat) (given : script.OptionRow strict (i + 1) value l) :
        script.Covers (strict :: outer) l (finish value) (script.FormRow strict (i + 1)) :=
      nests_end ⟨given, nofun, nofun⟩
    refine .ite (fun _ => .fail_then _ _) fun _ => .ite (fun _ => ?_) fun _ => ?_
    · have read : script.Covers (strict :: outer) (i + 1) (pure none) (script.OptionRow strict (i + 1)) :=
        .give (balanced_here inside).row
      exact read.bind finished
    · have read : script.Covers (strict :: outer) (i + 1) (some <$> expression rules false)
          (script.OptionRow strict (i + 1)) :=
        .map some (nests_expression nests false) fun _ _ row => row.row
      exact read.bind finished
  · next kind =>
    refine .bind covers_is_strict fun around j there => ?_
    obtain ⟨rfl, rfl⟩ := there
    refine .ite (fun _ => .fail_then _ _) fun _ => ?_
    refine nests_behind_word found (by rw [kind]; decide) (by simp [kind]) ?_
    refine .bind (nests_parenthesized nests _ _) fun object l first => ?_
    refine .bind (nests.statement _ _ _) fun body m second => ?_
    exact .give ⟨first.cons second.row, nofun, nofun⟩
  · next kind =>
    exact nests_behind_word found (by rw [kind]; decide) (by simp [kind]) (nests_switch_statement nests)
  · next kind =>
    refine nests_behind_word found (by rw [kind]; decide) (by simp [kind]) (.bind covers_peek fun next k there => ?_)
    obtain ⟨rfl, -⟩ := there
    extract_lets last
    have finished : script.Covers (strict :: outer) (i + 1) (last ()) (script.FormRow strict (i + 1)) :=
      .bind (nests_expression nests false) fun value l given => nests_end ⟨given.row, nofun, nofun⟩
    have nothing : script.Covers (strict :: outer) (i + 1) (failHere .newlineAfterThrow) fun (_ : Unit) _ => False :=
      covers_fail_here _
    exact .ite (fun _ => nothing.bind fun _ _ => False.elim) fun _ => finished
  · next kind =>
    have flat : t.kind.IsFlat := by
      rw [kind]
      decide
    exact (nests_try_statement nests found flat).weaken fun form j there =>
      there.1.stmt there.2 found (by simp [kind])
  · next kind =>
    refine nests_behind_word found (by rw [kind]; decide) (by simp [kind]) ?_
    exact .bind nests_end_statement fun _ k ends => .give ⟨ends.row, nofun, nofun⟩
  · refine .bind .get fun s j here => ?_
    obtain ⟨rfl, here⟩ := here
    obtain rfl : s.current = t := Option.some.inj (here.current.symm.trans found)
    have colon (kind : s.current.kind = .identifier) : script.kindAt (j + 1) = some (s.tokenAt 1).kind :=
      kind_at (here.behind (by simp [kind]))
    apply Covers.ite
    · intro labeled
      rw [Bool.and_eq_true, beq_iff_eq, beq_iff_eq] at labeled
      obtain ⟨kind, mark⟩ := labeled
      refine (nests_labeled_statement nests found kind (by rw [colon kind, mark])).weaken fun form k there => ?_
      obtain ⟨row, labels⟩ := there
      have whole : script.Row strict j k
          [.stmt ⟨form, ⟨s.current.span.start, max (script.stopAt (k - 1)) s.current.span.start⟩⟩] :=
        Row.from_token row.row (labels 0 (by omega)) found rfl (traced_of_form row.noFunction) nofun
      exact ⟨whole, labels, fun e _ same => absurd same (row.noExpression e)⟩
    · intro other
      refine nests_expression_statement nests found ?_
      rintro ⟨first, second⟩
      rw [kind_at found, Option.some.injEq] at first
      rw [colon first, Option.some.injEq] at second
      exact other (by rw [first, second]; rfl)

theorem nests_statement : script.Covers (strict :: outer) i (statement rules) (script.StmtRow strict i) := by
  refine .bind covers_peek fun token j there => ?_
  obtain ⟨rfl, found⟩ := there
  apply Covers.ite
  · intro keyword
    exact nests_function_declaration nests found (beq_iff_eq.mp keyword)
  · intro _
    refine .bind (nests_statement_form nests found) fun form k row => .bind (covers_span_from _) fun span l there => ?_
    obtain ⟨rfl, rfl⟩ := there
    exact .give row

theorem nests_item : script.Covers (strict :: outer) i (item rules) (script.StmtRow strict i) := by
  refine .bind covers_peek fun token j there => ?_
  obtain ⟨rfl, found⟩ := there
  split
  · next constant keyword =>
    have flat : token.kind.IsFlat := flat_of_operator keyword rfl rfl rfl
    have word : token.kind ≠ .identifier := by
      intro same
      rw [same] at keyword
      cases keyword
    refine .bind (covers_pass found flat.ends) fun _ k same => ?_
    subst same
    refine .bind (nests_declarators _ fun _ => nests_lexical_declarator nests _ _ _) fun declarators l names => ?_
    refine .bind nests_end_statement fun _ m ends => .bind (covers_span_from _) fun span n there => .give ?_
    obtain ⟨rfl, rfl⟩ := there
    have declared := names.before ends
    have form : script.FormRow strict (j + 1) (.lexical constant declarators) n := ⟨declared, nofun, nofun⟩
    exact (form.behind (balanced_next (kind_at found) flat)).stmt declared.balanced.forward found word
  · exact nests_statement nests

end

end ScriptEngine.Grammar.Script
