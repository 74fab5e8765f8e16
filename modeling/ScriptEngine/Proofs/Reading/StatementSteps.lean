import ScriptEngine.Proofs.Reading.ExpressionSteps
import ScriptEngine.Syntax.Grammar.Statement

/-!
The rules for statements never break. A statement takes a token at least, and behind a loop or a choice there are
as many around as before it, so that none is left that was not entered.
-/

namespace ScriptEngine.Grammar

namespace Script

variable {script : Script} {rules : Rules} {depths : List (Nat × Nat)} {i : Nat}

/-! ## Loops and choices -/

/-- One loop more is around. -/
theorem enters_loop {loops choices : Nat} :
    script.Safe (script.At ((loops, choices) :: depths) i)
      (modifyBody fun b => { b with iterationDepth := b.iterationDepth + 1 })
      fun _ => script.At ((loops + 1, choices) :: depths) i := by
  refine Safe.of_ok fun s here => ⟨(), _, rfl, here.source, here.left, here.previous, ?_⟩
  obtain ⟨here, outer⟩ := List.cons.inj here.depths
  obtain ⟨loops, choices⟩ := Prod.mk.inj here
  simp [ReadingState.depths, outer, loops, choices]

theorem leaves_loop {loops choices : Nat} :
    script.Safe (script.At ((loops + 1, choices) :: depths) i) leaveLoop
      fun _ => script.At ((loops, choices) :: depths) i := by
  refine Safe.of_ok fun s here => ?_
  obtain ⟨around, outer⟩ := List.cons.inj here.depths
  obtain ⟨depth, choices⟩ := Prod.mk.inj around
  refine ⟨(), { s with body := { s.body with iterationDepth := loops } }, ?_, ?_⟩
  · obtain ⟨source, previous, current, upcoming, body, outerBodies⟩ := s
    obtain ⟨isArrow, strict, vars, functions, blocks, usesArguments, labels, iterationDepth, switchDepth⟩ := body
    obtain rfl : iterationDepth = loops + 1 := depth
    rfl
  · exact ⟨here.source, here.left, here.previous, by simp [ReadingState.depths, outer, choices]⟩

/-- One choice more is around. -/
theorem enters_choice {loops choices : Nat} :
    script.Safe (script.At ((loops, choices) :: depths) i)
      (modifyBody fun b => { b with switchDepth := b.switchDepth + 1 })
      fun _ => script.At ((loops, choices + 1) :: depths) i := by
  refine Safe.of_ok fun s here => ⟨(), _, rfl, here.source, here.left, here.previous, ?_⟩
  obtain ⟨here, outer⟩ := List.cons.inj here.depths
  obtain ⟨loops, choices⟩ := Prod.mk.inj here
  simp [ReadingState.depths, outer, loops, choices]

theorem leaves_choice {loops choices : Nat} :
    script.Safe (script.At ((loops, choices + 1) :: depths) i) leaveSwitch
      fun _ => script.At ((loops, choices) :: depths) i := by
  refine Safe.of_ok fun s here => ?_
  obtain ⟨around, outer⟩ := List.cons.inj here.depths
  obtain ⟨loops, depth⟩ := Prod.mk.inj around
  refine ⟨(), { s with body := { s.body with switchDepth := choices } }, ?_, ?_⟩
  · obtain ⟨source, previous, current, upcoming, body, outerBodies⟩ := s
    obtain ⟨isArrow, strict, vars, functions, blocks, usesArguments, labels, iterationDepth, switchDepth⟩ := body
    obtain rfl : switchDepth = choices + 1 := depth
    rfl
  · exact ⟨here.source, here.left, here.previous, by simp [ReadingState.depths, outer, loops]⟩

/-! ## Declared names -/

theorem steps_declare_lexical {token : Token} (name : LexicalName) (fits : token.span.Fits script.source) :
    script.Steps depths i (declareLexical token name) fun _ j => j = i := by
  refine .bind .get fun s j _ there => ?_
  obtain ⟨rfl, -⟩ := there
  have kept (b : BodyState) : (b.addLexical name).iterationDepth = b.iterationDepth ∧
      (b.addLexical name).switchDepth = b.switchDepth := by
    unfold BodyState.addLexical
    split <;> exact ⟨rfl, rfl⟩
  exact .ite (fun _ => .fail_then (by simp) fits) fun _ => steps_modify_body kept

theorem steps_single_binding (declarators : List Declarator) :
    script.Steps depths i (singleBinding declarators) fun _ j => j = i := by
  unfold singleBinding
  split
  · exact .give rfl
  · exact steps_fail_here (by simp)

theorem steps_declarators {item : Reader Declarator} (lasts : script.size ≤ i + rules.levels)
    (steps : ∀ k, i ≤ k → script.Steps depths k item fun _ l => k < l) :
    script.Steps depths i (readSeparated rules.levels item []) fun _ j => i < j := by
  have each (k : Nat) (later : i ≤ k) : script.Steps depths k item fun _ l => k < l ∧ True :=
    (steps k later).weaken fun _ l _ forward => ⟨forward, trivial⟩
  exact (steps_separated _ each (by simp) lasts).weaken fun _ j _ there => there.1

/-! ## Jumps -/

theorem steps_optional_label : script.Steps depths i optionalLabel fun _ j => i ≤ j := by
  refine .bind steps_peek fun token j _ there => ?_
  obtain ⟨rfl, found⟩ := there
  refine .ite (fun name => ?_) fun _ => .give (Nat.le_refl j)
  have goesOn : script.kindAt j ≠ some .endOfInput := by
    simp only [Bool.and_eq_true, beq_iff_eq] at name
    simp [kind_at found, name.1]
  refine .bind (steps_pass goesOn) fun _ k _ there => .give ?_
  omega

theorem steps_continue_statement (keyword : script.kindAt i = some (.keyword .continue)) :
    script.Steps depths i continueStatement fun _ j => i < j := by
  refine .bind (steps_advance (by simp [keyword])) fun token j _ there => ?_
  obtain ⟨rfl, found⟩ := there
  have fits := token_fits found
  refine .bind steps_optional_label fun label j _ forward => .bind .get fun s k _ there => ?_
  obtain ⟨rfl, -⟩ := there
  extract_lets body finish
  have finished : script.Steps depths k (finish ()) fun _ l => i < l :=
    .bind steps_end_statement fun _ l _ later => .give (by omega)
  split
  · split
    · exact .ite (fun _ => finished) fun _ => .fail_then (by simp) fits
    · exact .fail_then (by simp) fits
  · exact .ite (fun _ => .fail_then (by simp) fits) fun _ => finished

theorem steps_break_statement (keyword : script.kindAt i = some (.keyword .break)) :
    script.Steps depths i breakStatement fun _ j => i < j := by
  refine .bind (steps_advance (by simp [keyword])) fun token j _ there => ?_
  obtain ⟨rfl, found⟩ := there
  have fits := token_fits found
  refine .bind steps_optional_label fun label j _ forward => .bind .get fun s k _ there => ?_
  obtain ⟨rfl, -⟩ := there
  extract_lets body finish
  have finished : script.Steps depths k (finish ()) fun _ l => i < l :=
    .bind steps_end_statement fun _ l _ later => .give (by omega)
  split
  · exact .ite (fun _ => finished) fun _ => .fail_then (by simp) fits
  · exact .ite (fun _ => .fail_then (by simp) fits) fun _ => finished

section

variable (steady : script.Steady rules)

include steady

theorem steps_loop_body (room : 2 * script.size + 1 ≤ rules.levels + 2 * i) :
    script.Steps depths i (loopBody rules) fun _ j => i < j := by
  cases depths with
  | nil => exact .of_at fun s here => absurd here.depths (List.cons_ne_nil _ _)
  | cons around depths =>
    refine enters_loop.bind fun _ => Safe.bind (steady.statement _ i room) fun body => ?_
    refine .of_there fun j forward => leaves_loop.bind fun _ => ?_
    have ends : script.Steps (around :: depths) j (pure body) fun _ k => i < k := .give forward
    exact ends

theorem steps_parenthesized (opening closing : String) (room : 2 * script.size ≤ rules.levels + 2 * i) :
    script.Steps depths i (parenthesized rules opening closing) fun _ j => i < j := by
  refine .bind (steps_expect_mark _ _) fun _ j _ there => ?_
  subst there
  refine .bind (takes_expression steady false (by omega)) fun e j _ there => ?_
  obtain ⟨forward, -⟩ := there
  exact .bind (steps_expect_mark _ _) fun _ k _ there => .give (by omega)

theorem steps_items (more : ReadingState → Bool) (room : 2 * script.size + 1 ≤ rules.levels + 2 * i)
    (inside : i < script.size) :
    script.Steps depths i (readWhile rules.levels more rules.item []) fun _ j => i ≤ j :=
  steps_while _ _ (fun k _ => steady.item _ k (by omega)) (by omega)

theorem steps_block (room : 2 * script.size ≤ rules.levels + 2 * i) :
    script.Steps depths i (block rules) fun _ j => i < j := by
  refine .bind (steps_expect_mark _ _) fun _ j inside there => ?_
  subst there
  refine .bind (steps_with_block (steps_items steady _ (by omega) inside)) fun result j _ forward => ?_
  exact .bind (steps_expect_mark _ _) fun _ k _ there => .give (by omega)

/-! ## Declarations -/

/-- A declared name is followed by its first value if a sign of equality announces one. -/
theorem steps_first_value {finish : Option Expr → Reader Declarator} (noIn : Bool)
    (room : 2 * script.size ≤ rules.levels + 2 * i)
    (finished : ∀ init j, j < script.size → i ≤ j → script.Steps depths j (finish init) fun _ k => i ≤ k) :
    script.Steps depths i (acceptMark .assign >>= fun given =>
      if given then (some <$> rules.assignment noIn) >>= finish else pure none >>= finish) fun _ j => i ≤ j := by
  refine .bind (steps_accept_mark _) fun given j _ there => .ite (fun holds => ?_) fun left => ?_
  · obtain ⟨rfl, -⟩ := there.1 holds
    have read : script.Steps depths (i + 1) (some <$> rules.assignment noIn) fun _ k => i ≤ k :=
      .map some (steady.assignment _ _ noIn (by omega)) fun _ k _ there => by omega
    exact read.bind finished
  · obtain rfl := there.2 (Bool.eq_false_iff.mpr left)
    have read : script.Steps depths j (pure none) fun (_ : Option Expr) k => j ≤ k := .give (Nat.le_refl j)
    exact read.bind finished

theorem steps_var_declarator (noIn : Bool) (room : 2 * script.size ≤ rules.levels + 2 * i) :
    script.Steps depths i (varDeclarator rules noIn) fun _ j => i < j := by
  refine .bind steps_peek fun token j _ there => ?_
  obtain ⟨rfl, -⟩ := there
  extract_lets start
  refine .bind (steps_binding_name _) fun name k _ there => ?_
  subst there
  extract_lets finish
  refine steps_first_value steady noIn (by omega) fun init k _ forward => ?_
  have kept (b : BodyState) : (b.addVar name).iterationDepth = b.iterationDepth ∧
      (b.addVar name).switchDepth = b.switchDepth := by
    unfold BodyState.addVar
    split <;> exact ⟨rfl, rfl⟩
  refine .bind (steps_modify_body kept) fun _ l _ there => ?_
  subst there
  refine .bind (steps_any_span _) fun span m _ there => .give ?_
  omega

theorem steps_lexical_declarator (constant inForHead valueRequired : Bool)
    (room : 2 * script.size ≤ rules.levels + 2 * i) :
    script.Steps depths i (lexicalDeclarator rules constant inForHead valueRequired) fun _ j => i < j := by
  refine .bind steps_peek fun token j _ there => ?_
  obtain ⟨rfl, found⟩ := there
  have fits := token_fits found
  refine .bind (steps_binding_name _) fun name k _ there => ?_
  subst there
  extract_lets finish declare
  have complete (init : Option Expr) (k : Nat) (forward : j + 1 ≤ k) :
      script.Steps depths k (do return ⟨name, init, ← spanFrom token.span.start⟩) fun (_ : Declarator) l =>
        j + 1 ≤ l :=
    .bind (steps_any_span _) fun span l _ there => .give (by omega)
  refine .ite (fun _ => .fail_then (by simp) fits) fun _ => ?_
  refine steps_first_value steady inForHead (by omega) fun init k _ forward => ?_
  refine .ite (fun _ => .fail_then (by simp) fits) fun _ => .ite (fun _ => ?_) fun _ => ?_
  · exact complete init k forward
  · refine .bind (steps_declare_lexical _ fits) fun _ l _ there => ?_
    subst there
    exact complete init l forward

theorem steps_var_declarators (noIn : Bool) (_ : i < script.size)
    (room : 2 * script.size ≤ rules.levels + 2 * i) :
    script.Steps depths i (varDeclarators rules noIn) fun _ j => i < j :=
  steps_declarators (by omega) fun _ _ => steps_var_declarator steady noIn (by omega)

theorem steps_lexical_declarators (constant inForHead valueRequired : Bool) (_ : i < script.size)
    (room : 2 * script.size ≤ rules.levels + 2 * i) :
    script.Steps depths i (lexicalDeclarators rules constant inForHead valueRequired) fun _ j => i < j :=
  steps_declarators (by omega) fun _ _ =>
    steps_lexical_declarator steady constant inForHead valueRequired (by omega)

theorem steps_function_declaration (keyword : script.kindAt i = some (.keyword .function))
    (room : 2 * script.size ≤ rules.levels + 2 * i) :
    script.Steps depths i (functionDeclaration rules) fun _ j => i < j := by
  refine .bind (steps_advance (by simp [keyword])) fun token j inside there => ?_
  obtain ⟨rfl, found⟩ := there
  have begins := begins_at found inside (Nat.lt_succ_self i)
  refine .bind (steps_function_rest steady _ begins (by omega)) fun code k _ forward => ?_
  refine .bind (steps_modify_body fun _ => ⟨rfl, rfl⟩) fun _ l _ there => ?_
  subst there
  exact .bind (steps_any_span _) fun span m _ there => .give (by omega)

/-! ## Loops -/

theorem steps_for_in_rest (target : ForInTarget) (room : 2 * script.size ≤ rules.levels + 2 * i) :
    script.Steps depths i (forInRest rules target) fun _ j => i < j := by
  refine .bind (steps_expect_keyword _ _) fun _ j _ there => ?_
  subst there
  refine .bind (takes_expression steady false (by omega)) fun object j _ there => ?_
  obtain ⟨forward, -⟩ := there
  refine .bind (steps_expect_mark _ _) fun _ k _ there => ?_
  subst there
  exact .bind (steps_loop_body steady (by omega)) fun body k _ last => .give (by omega)

theorem steps_optional_expression (stop : Mark) (room : 2 * script.size ≤ rules.levels + 2 * i) :
    script.Steps depths i (optionalExpression rules stop) fun _ j => i ≤ j := by
  refine .bind (steps_check _) fun stops j _ there => ?_
  obtain ⟨rfl, -⟩ := there
  refine .ite (fun _ => .give (Nat.le_refl j)) fun _ => ?_
  exact .map some (takes_expression steady false room) fun _ k _ there => Nat.le_of_lt there.1

theorem steps_for_rest (init : Option ForInit) (room : 2 * script.size ≤ rules.levels + 2 * i) :
    script.Steps depths i (forRest rules init) fun _ j => i < j := by
  refine .bind (steps_expect_mark _ _) fun _ j _ there => ?_
  subst there
  refine .bind (steps_optional_expression steady _ (by omega)) fun test j _ forward => ?_
  refine .bind (steps_expect_mark _ _) fun _ k _ there => ?_
  subst there
  refine .bind (steps_optional_expression steady _ (by omega)) fun update k _ later => ?_
  refine .bind (steps_expect_mark _ _) fun _ l _ there => ?_
  subst there
  exact .bind (steps_loop_body steady (by omega)) fun body l _ last => .give (by omega)

theorem steps_for_statement (room : 2 * script.size ≤ rules.levels + 2 * i) :
    script.Steps depths i (forStatement rules) fun _ j => i < j := by
  refine .bind (steps_expect_mark _ _) fun _ j _ there => ?_
  subst there
  refine .bind steps_peek fun token j _ there => ?_
  obtain ⟨rfl, found⟩ := there
  have kind := kind_at found
  have inRest (target : ForInTarget) (k : Nat) (forward : i < k) :
      script.Steps depths k (forInRest rules target) fun _ l => i < l :=
    (steps_for_in_rest steady target (by omega)).weaken fun _ l _ later => by omega
  have plainRest (init : Option ForInit) (k : Nat) (forward : i < k) :
      script.Steps depths k (forRest rules init) fun _ l => i < l :=
    (steps_for_rest steady init (by omega)).weaken fun _ l _ later => by omega
  -- Behind the names that it declares the statement goes on in either way.
  have declared {declarators : List Declarator} {target : String → ForInTarget} {init : ForInit} (k : Nat)
      (forward : i < k) : script.Steps depths k (do
        if ← checkKeyword .«in» then forInRest rules (target (← singleBinding declarators))
        else forRest rules (some init)) fun _ l => i < l := by
    refine .bind (steps_check _) fun ranges l _ there => ?_
    obtain ⟨rfl, -⟩ := there
    refine .ite (fun _ => ?_) fun _ => plainRest _ l forward
    refine .bind (steps_single_binding _) fun name m _ there => ?_
    subst there
    exact inRest _ m forward
  refine .ite (fun vars => ?_) fun _ => ?_
  · refine .bind (steps_pass (by simp [kind, beq_iff_eq.mp vars])) fun _ k inside there => ?_
    subst there
    refine .bind (steps_var_declarators steady true inside (by omega)) fun declarators k _ forward => ?_
    exact declared k (by omega)
  · split
    · next constant lexical =>
      refine .bind (steps_pass (goes_on_of_operator rfl found lexical)) fun _ k inside there => ?_
      subst there
      refine .bind .get fun s k _ there => ?_
      obtain ⟨rfl, -⟩ := there
      refine .bind (steps_lexical_declarators steady _ _ _ inside (by omega)) fun declarators k _ forward => ?_
      exact declared k (by omega)
    · refine .ite (fun _ => plainRest none _ (Nat.lt_succ_self i)) fun _ => ?_
      refine .bind (takes_expression steady true (by omega)) fun e k _ there => ?_
      obtain ⟨forward, lies⟩ := there
      refine .bind (steps_check _) fun ranges l _ there => ?_
      obtain ⟨rfl, -⟩ := there
      refine .ite (fun _ => ?_) fun _ => plainRest _ l (by omega)
      refine .bind (steps_check_target lies.fits) fun _ m _ there => ?_
      subst there
      exact inRest _ m (by omega)

theorem steps_labeled_statement (name : script.kindAt i = some .identifier)
    (room : 2 * script.size ≤ rules.levels + 2 * i) :
    script.Steps depths i (labeledStatement rules) fun _ j => i < j := by
  refine .bind (steps_advance (by simp [name])) fun token j _ there => ?_
  obtain ⟨rfl, found⟩ := there
  have passed : script.Steps depths (i + 1) (discard advance) fun _ k => i + 1 ≤ k :=
    .map _ steps_advance_any fun _ k _ there => there.1
  refine .bind passed fun _ j _ forward => ?_
  extract_lets label
  refine .bind .get fun s k _ there => ?_
  obtain ⟨rfl, -⟩ := there
  extract_lets entry finish
  have finished : script.Steps depths k (finish ()) fun _ l => i < l := by
    refine .bind (steps_modify_body fun _ => ⟨rfl, rfl⟩) fun _ l _ there => ?_
    subst there
    refine .bind (steady.statement _ l (by omega)) fun body m _ later => ?_
    refine .bind (steps_modify_body fun _ => ⟨rfl, rfl⟩) fun _ n _ there => .give ?_
    omega
  exact .ite (fun _ => .fail_then (by simp) (token_fits found)) fun _ => finished

/-! ## Choices and handlers -/

theorem steps_switch_clauses (fuel : Nat) (seenDefault : Bool) (done : List SwitchClause)
    (room : 2 * script.size ≤ rules.levels + 2 * i) (lasts : script.size ≤ i + fuel) :
    script.Steps depths i (switchClauses rules fuel seenDefault done) fun _ j => i ≤ j := by
  induction fuel generalizing i seenDefault done with
  | zero => exact .of_at fun s here => absurd here.inside (by omega)
  | succ fuel ih =>
    refine .bind .get fun s j _ there => ?_
    obtain ⟨rfl, here⟩ := there
    refine .ite (fun left => ?_) fun _ => .give (Nat.le_refl j)
    have goesOn : script.kindAt j ≠ some .endOfInput := by
      simp only [ReadingState.beforeBrace, Bool.and_eq_true, bne_iff_ne] at left
      simpa [here.kind] using left.2
    refine .bind (steps_advance goesOn) fun token k _ there => ?_
    obtain ⟨rfl, found⟩ := there
    have fits := token_fits found
    extract_lets finish
    have finished (test : Option Expr) (k : Nat) (_ : k < script.size) (forward : j + 1 ≤ k) :
        script.Steps depths k (finish test) fun _ l => j ≤ l := by
      refine .bind (steps_expect_mark _ _) fun _ l inside there => ?_
      subst there
      refine .bind (steps_items steady _ (by omega) inside) fun body l _ later => ?_
      exact (ih _ _ (by omega) (by omega)).weaken fun _ m _ last => by omega
    have none : script.Steps depths (j + 1) (pure none) fun (_ : Option Expr) k => j + 1 ≤ k :=
      .give (Nat.le_refl _)
    split
    · have test : script.Steps depths (j + 1) (some <$> expression rules false) fun _ k => j + 1 ≤ k :=
        .map some (takes_expression steady false (by omega)) fun _ k _ there => Nat.le_of_lt there.1
      exact test.bind finished
    · exact .ite (fun _ => .fail_then (by simp) fits) fun _ => none.bind finished
    · exact .fail_then (by simp) fits

theorem steps_switch_statement (room : 2 * script.size ≤ rules.levels + 2 * i) :
    script.Steps depths i (switchStatement rules) fun _ j => i < j := by
  refine .bind (steps_parenthesized steady _ _ room) fun discriminant j _ forward => ?_
  refine .bind (steps_expect_mark _ _) fun _ k inside there => ?_
  subst there
  cases depths with
  | nil => exact .of_at fun s here => absurd here.depths (List.cons_ne_nil _ _)
  | cons around depths =>
    have clauses (depths : List (Nat × Nat)) : script.Steps depths (j + 1)
        (switchClauses rules rules.levels false []) fun _ k => j + 1 ≤ k :=
      steps_switch_clauses steady _ _ _ (by omega) (by omega)
    refine enters_choice.bind fun _ => Safe.bind (steps_with_block (clauses _)) fun result => ?_
    refine .of_there fun k later => leaves_choice.bind fun _ => ?_
    have ends : script.Steps (around :: depths) k (do
        expectMark .closeBrace "`\x7d` to close switch body"
        return StmtForm.switch discriminant result.1 result.2) fun _ l => i < l :=
      .bind (steps_expect_mark _ _) fun _ l _ there => .give (by omega)
    exact ends

theorem steps_try_statement (keyword : script.kindAt i = some (.keyword .try))
    (room : 2 * script.size ≤ rules.levels + 2 * i) :
    script.Steps depths i (tryStatement rules) fun _ j => i < j := by
  refine .bind (steps_advance (by simp [keyword])) fun token j _ there => ?_
  obtain ⟨rfl, found⟩ := there
  have fits := token_fits found
  refine .bind (steps_block steady (by omega)) fun body j _ forward => ?_
  extract_lets last
  have ends (handler : Option Handler) (k : Nat) (_ : k < script.size) (later : i < k) :
      script.Steps depths k (last handler) fun _ l => i < l := by
    refine .bind (steps_accept_keyword _) fun final l _ there => ?_
    extract_lets finish
    have finished (finalizer : Option Block) (m : Nat) (_ : m < script.size) (further : i < m) :
        script.Steps depths m (finish finalizer) fun _ n => i < n :=
      .ite (fun _ => .fail_then (by simp) fits) fun _ => .give further
    refine .ite (fun holds => ?_) fun left => ?_
    · obtain ⟨rfl, -⟩ := there.1 holds
      have read : script.Steps depths (k + 1) (some <$> block rules) fun _ m => i < m :=
        .map some (steps_block steady (by omega)) fun _ m _ further => by omega
      exact read.bind finished
    · obtain rfl := there.2 (Bool.eq_false_iff.mpr left)
      have read : script.Steps depths l (pure none) fun (_ : Option Block) m => i < m := .give later
      exact read.bind finished
  refine .bind (steps_accept_keyword _) fun caught k _ there => .ite (fun holds => ?_) fun left => ?_
  · obtain ⟨rfl, -⟩ := there.1 holds
    refine .bind (steps_expect_mark _ _) fun _ k _ there => .bind (steps_binding_name _) fun parameter l _ also => ?_
    subst there also
    refine .bind (steps_expect_mark _ _) fun _ k _ there => ?_
    subst there
    refine .bind (steps_block steady (by omega)) fun handler k _ later => ?_
    have read : script.Steps depths k (pure (some ⟨parameter, handler⟩)) fun (_ : Option Handler) l => i < l :=
      .give (by omega)
    exact read.bind ends
  · obtain rfl := there.2 (Bool.eq_false_iff.mpr left)
    have read : script.Steps depths k (pure none) fun (_ : Option Handler) l => i < l := .give (by omega)
    exact read.bind ends

theorem steps_if_statement (room : 2 * script.size ≤ rules.levels + 2 * i) :
    script.Steps depths i (ifStatement rules) fun _ j => i < j := by
  refine .bind (steps_parenthesized steady _ _ room) fun test j _ forward => ?_
  refine .bind (steady.statement _ j (by omega)) fun yes k _ later => ?_
  extract_lets finish
  have finished (no : Option Stmt) (l : Nat) (_ : l < script.size) (further : i < l) :
      script.Steps depths l (finish no) fun _ m => i < m := .give further
  refine .bind (steps_accept_keyword _) fun otherwise l _ there => .ite (fun holds => ?_) fun left => ?_
  · obtain ⟨rfl, -⟩ := there.1 holds
    have read : script.Steps depths (k + 1) (some <$> rules.statement) fun _ m => i < m :=
      .map some (steady.statement _ _ (by omega)) fun _ m _ last => by omega
    exact read.bind finished
  · obtain rfl := there.2 (Bool.eq_false_iff.mpr left)
    have read : script.Steps depths l (pure none) fun (_ : Option Stmt) m => i < m := .give (by omega)
    exact read.bind finished

/-! ## Statements -/

theorem steps_statement_form {token : Token} (found : script.tokens[i]? = some token)
    (room : 2 * script.size ≤ rules.levels + 2 * i) :
    script.Steps depths i (statementForm rules token) fun _ j => i < j := by
  have kind := kind_at found
  have fits := token_fits found
  have passed (proper : token.kind ≠ .endOfInput) {rest : Unit → Reader StmtForm}
      (steps : i + 1 < script.size → script.Steps depths (i + 1) (rest ()) fun _ j => i < j) :
      script.Steps depths i (discard advance >>= rest) fun _ j => i < j := by
    refine .bind (steps_pass (by simpa [kind] using proper)) fun _ j inside there => ?_
    subst there
    exact steps inside
  have ended (form : StmtForm) (j : Nat) (forward : i < j) :
      script.Steps depths j (do endStatement; return form) fun _ k => i < k :=
    .bind steps_end_statement fun _ k _ later => .give (by omega)
  have after {read : Reader StmtForm} {j : Nat} (later : i ≤ j)
      (steps : script.Steps depths j read fun _ k => j < k) : script.Steps depths j read fun _ k => i < k :=
    steps.weaken fun _ k _ forward => by omega
  unfold statementForm
  split
  · exact .bind (steps_block steady room) fun b j _ forward => .give forward
  · next same => exact passed (by simp [same]) fun _ => .give (Nat.lt_succ_self i)
  · next same =>
    refine passed (by simp [same]) fun inside => ?_
    refine .bind (steps_var_declarators steady false inside (by omega)) fun declarators j _ forward => ?_
    exact ended _ j (by omega)
  · exact .fail (by simp) fits
  · exact .fail (by simp) fits
  · next same =>
    exact passed (by simp [same]) fun _ => after (Nat.le_succ i) (steps_if_statement steady (by omega))
  · next same =>
    refine passed (by simp [same]) fun _ => ?_
    refine .bind (steps_parenthesized steady _ _ (by omega)) fun test j _ forward => ?_
    exact .bind (steps_loop_body steady (by omega)) fun body k _ later => .give (by omega)
  · next same =>
    refine passed (by simp [same]) fun _ => ?_
    refine .bind (steps_loop_body steady (by omega)) fun body j _ forward => ?_
    refine .bind (steps_expect_keyword _ _) fun _ k _ there => ?_
    subst there
    refine .bind (steps_parenthesized steady _ _ (by omega)) fun test k _ later => ?_
    have closed : script.Steps depths k (discard (acceptMark .semicolon)) fun _ l => k ≤ l := by
      refine .map _ (steps_accept_mark _) fun found l _ there => ?_
      cases found with
      | true => have := (there.1 rfl).1; omega
      | false => exact Nat.le_of_eq (there.2 rfl).symm
    exact closed.bind fun _ l _ last => .give (by omega)
  · next same =>
    exact passed (by simp [same]) fun _ => after (Nat.le_succ i) (steps_for_statement steady (by omega))
  · next same => exact steps_continue_statement (by rw [kind, same])
  · next same => exact steps_break_statement (by rw [kind, same])
  · next same =>
    refine passed (by simp [same]) fun _ => .bind .get fun s j _ there => ?_
    obtain ⟨rfl, -⟩ := there
    extract_lets finish last
    have finished : script.Steps depths (i + 1) (last ()) fun _ j => i < j := by
      refine .ite (fun _ => ?_) fun _ => ?_
      · have none : script.Steps depths (i + 1) (pure none) fun (_ : Option Expr) j => i < j :=
          .give (Nat.lt_succ_self i)
        exact none.bind fun value j _ forward => ended _ j forward
      · have value : script.Steps depths (i + 1) (some <$> expression rules false) fun _ j => i < j :=
          .map some (takes_expression steady false (by omega)) fun _ j _ there => by omega
        exact value.bind fun value j _ forward => ended _ j forward
    exact .ite (fun _ => .fail_then (by simp) fits) fun _ => finished
  · next same =>
    refine .bind steps_is_strict fun strict j _ there => ?_
    subst there
    refine .ite (fun _ => .fail_then (by simp) fits) fun _ => passed (by simp [same]) fun _ => ?_
    refine .bind (steps_parenthesized steady _ _ (by omega)) fun object k _ forward => ?_
    exact .bind (steady.statement _ k (by omega)) fun body l _ later => .give (by omega)
  · next same =>
    exact passed (by simp [same]) fun _ => after (Nat.le_succ i) (steps_switch_statement steady (by omega))
  · next same =>
    refine passed (by simp [same]) fun _ => .bind steps_peek fun next j _ there => ?_
    obtain ⟨rfl, -⟩ := there
    extract_lets last
    have finished : script.Steps depths (i + 1) (last ()) fun _ j => i < j :=
      .bind (takes_expression steady false (by omega)) fun value j _ there => ended _ j (by omega)
    refine .ite (fun _ => ?_) fun _ => finished
    have nothing : script.Steps depths (i + 1) (failHere .newlineAfterThrow) fun (_ : Unit) _ => False :=
      steps_fail_here (by simp)
    exact nothing.bind fun _ _ _ => False.elim
  · next same => exact steps_try_statement steady (by rw [kind, same]) room
  · next same => exact passed (by simp [same]) fun _ => ended _ (i + 1) (Nat.lt_succ_self i)
  · refine .bind .get fun s j _ there => ?_
    obtain ⟨rfl, -⟩ := there
    refine .ite (fun labelled => ?_) fun _ => ?_
    · have name : token.kind = .identifier := by
        simp only [Bool.and_eq_true, beq_iff_eq] at labelled
        exact labelled.1
      exact steps_labeled_statement steady (by rw [kind, name]) room
    · exact .bind (takes_expression steady false room) fun e k _ there => ended _ k there.1

theorem steps_statement (room : 2 * script.size ≤ rules.levels + 2 * i) :
    script.Steps depths i (statement rules) fun _ j => i < j := by
  refine .bind steps_peek fun token j _ there => ?_
  obtain ⟨rfl, found⟩ := there
  refine .ite (fun function => ?_) fun _ => ?_
  · exact steps_function_declaration steady (by rw [kind_at found, beq_iff_eq.mp function]) room
  · refine .bind (steps_statement_form steady found room) fun form k _ forward => ?_
    exact .bind (steps_any_span _) fun span l _ there => .give (by omega)

theorem steps_item (room : 2 * script.size ≤ rules.levels + 2 * i) :
    script.Steps depths i (item rules) fun _ j => i < j := by
  refine .bind steps_peek fun token j _ there => ?_
  obtain ⟨rfl, found⟩ := there
  split
  · next constant lexical =>
    refine .bind (steps_pass (goes_on_of_operator rfl found lexical)) fun _ k inside there => ?_
    subst there
    refine .bind (steps_lexical_declarators steady _ _ _ inside (by omega)) fun declarators k _ forward => ?_
    refine .bind steps_end_statement fun _ l _ later => ?_
    exact .bind (steps_any_span _) fun span m _ there => .give (by omega)
  · exact steps_statement steady room

end

end Script
end ScriptEngine.Grammar
