import ScriptEngine.Proofs.Excerpts.Arrows
import ScriptEngine.Syntax.Grammar.Statement

/-!
The rules for statements read the same from tokens that two scripts share. A statement may end without a semicolon
before a brace or the end of the input, so that one that ends with the shared tokens ends there in both scripts.
-/

namespace ScriptEngine.Grammar.Excerpt

variable {x : Excerpt} {rules rules' : Rules} {depth k l : Nat} {t u : Token} (echoed : x.Echoed rules rules')

include echoed

theorem echoes_parenthesized (opening closing : String) :
    x.Echoes true (depth + 1) k 1 Expr.unplaced (parenthesized rules opening closing)
      (parenthesized rules' opening closing) := by
  refine .bind_first (.expect (by simp) _) fun _ _ l _ _ => .moving ?_
  refine .bind_first (echoes_expression echoed false).lax fun e e' m _ same => ?_
  exact .bind (.expect (by simp) _) fun _ _ _ _ _ => .give same

theorem echoes_items {wanted : ReadingState → Bool} (asks : TokenKind → Bool)
    (asked : ∀ s, wanted s = asks s.current.kind) (stops : ∀ kind ∈ closing true, asks kind = false) :
    x.Echoes true (depth + 1) k 0 (List.map Stmt.unplaced) (readWhile rules.levels wanted rules.item [])
      (readWhile rules'.levels wanted rules'.item []) :=
  .while_wanted asks asked stops (fun l _ => echoed.item depth l) _ _ [] [] rfl

/-- Items are read until a brace closes, or the input ends. -/
def goesOnInside (kind : TokenKind) : Bool :=
  kind != .mark .closeBrace && kind != .endOfInput

theorem echoes_block : x.Echoes true (depth + 1) k 1 Block.unplaced (block rules) (block rules') := by
  refine .bind_first (.expect (by simp) _) fun _ _ l _ _ => ?_
  refine .bind (.with_block (echoes_items echoed goesOnInside (fun _ => rfl) (by decide)))
    fun result result' m _ same => ?_
  obtain ⟨items, names⟩ := result
  obtain ⟨items', names'⟩ := result'
  obtain ⟨inside, declared⟩ := Prod.mk.inj same
  refine .bind (.expect (by simp) _) fun _ _ _ _ _ => .give ?_
  rw [Block.unplaced, Block.unplaced, unplaced_stmts, unplaced_stmts, inside]
  exact congrArg _ declared

/-! ## Declarations -/

omit echoed in
theorem declarator_unplaced {name name' : String} {init init' : Option Expr} {span span' : Span} (names : name = name')
    (value : unplacedExpr? init = unplacedExpr? init') :
    Declarator.unplaced ⟨name, init, span⟩ = Declarator.unplaced ⟨name', init', span'⟩ := by
  rw [Declarator.unplaced, Declarator.unplaced, names, value]

omit echoed in
theorem is_none_of_unplaced {e e' : Option Expr} (same : unplacedExpr? e = unplacedExpr? e') :
    e.isNone = e'.isNone := by
  have kept (e : Option Expr) : (unplacedExpr? e).isNone = e.isNone := by cases e <;> rfl
  rw [← kept e, same, kept e']

/-- A declared name may have a first value. -/
theorem echoes_first_value {finish finish' : Option Expr → Reader Declarator} (noIn : Bool)
    (finished : ∀ init init' l, k ≤ l → unplacedExpr? init = unplacedExpr? init' →
      x.Echoes true (depth + 1) l 0 Declarator.unplaced (finish init) (finish' init')) :
    x.Echoes true (depth + 1) k 0 Declarator.unplaced
      (do finish (← if ← acceptMark .assign then some <$> rules.assignment noIn else pure none))
      (do finish' (← if ← acceptMark .assign then some <$> rules'.assignment noIn else pure none)) := by
  refine .accept (by decide) (fun _ => ?_) (finished none none k (Nat.le_refl k) rfl)
  have value : x.Echoes true (depth + 1) (k + 1) 1 unplacedExpr? (some <$> rules.assignment noIn)
      (some <$> rules'.assignment noIn) := .map (echoed.assignment depth _ noIn).lax fun _ _ same => congrArg some same
  exact .bind value fun init init' l order same => finished init init' l (by omega) same

omit echoed in
theorem add_var_unplaced (name : String) (b : BodyState) : (b.addVar name).unplaced = b.unplaced.addVar name := by
  unfold BodyState.addVar
  exact apply_ite BodyState.unplaced _ _ _

omit echoed in
theorem add_lexical_unplaced (name : LexicalName) (b : BodyState) :
    (b.addLexical name).unplaced = b.unplaced.addLexical name := by
  obtain ⟨isArrow, strict, vars, functions, blocks, uses, labels, iterations, switches⟩ := b
  cases blocks <;> rfl

omit echoed in
theorem add_function_unplaced {code code' : FunctionCode} {b b' : BodyState} (code_ : code.unplaced = code'.unplaced)
    (body : b.unplaced = b'.unplaced) : (b.addFunction code).unplaced = (b'.addFunction code').unplaced := by
  have functions : unplacedCodes b.functions = unplacedCodes b'.functions := congrArg BodyState.functions body
  have added (b : BodyState) (code : FunctionCode) : (b.addFunction code).unplaced =
      { b.unplaced with functions := unplacedCodes b.functions ++ [code.unplaced] } := by
    unfold BodyState.addFunction BodyState.unplaced
    dsimp only
    rw [unplaced_codes, unplaced_codes, List.map_append, List.map_singleton]
  rw [added, added, functions, body, code_]

theorem echoes_var_declarator (noIn : Bool) :
    x.Echoes true (depth + 1) k 1 Declarator.unplaced (varDeclarator rules noIn) (varDeclarator rules' noIn) := by
  refine .peek fun t u _ twin => .bind_first (.binding_name _) fun name name' l _ names => ?_
  obtain rfl : name = name' := names
  refine echoes_first_value echoed noIn fun init init' m _ same => ?_
  refine .stay (.note (add_var_unplaced name)) fun _ _ _ => .stay (.span_from _ _) fun _ _ _ => ?_
  exact .give (declarator_unplaced rfl same)

theorem echoes_var_declarators (noIn : Bool) :
    x.Echoes true (depth + 1) k 1 (List.map Declarator.unplaced) (varDeclarators rules noIn)
      (varDeclarators rules' noIn) :=
  .separated (fun _ _ => echoes_var_declarator echoed noIn) _ _ [] [] rfl

omit echoed in
theorem stays_declare_lexical (t u : Token) (name : LexicalName) :
    x.Stays (depth + 1) (fun _ => ()) (declareLexical t name) (declareLexical u name) := by
  refine .bind .look fun s s' same => .ite ?_ (fun _ => .fail_then _ _) fun _ => .note (add_lexical_unplaced name)
  have names : s.body.unplaced.innerBlock = s'.body.unplaced.innerBlock := congrArg (fun r => r.1.innerBlock) same
  have names : s.body.innerBlock = s'.body.innerBlock := names
  rw [names]

theorem echoes_lexical_declarator (constant inForHead valueRequired : Bool) :
    x.Echoes true (depth + 1) k 1 Declarator.unplaced (lexicalDeclarator rules constant inForHead valueRequired)
      (lexicalDeclarator rules' constant inForHead valueRequired) := by
  refine .peek fun t u _ twin => .bind_first (.binding_name _) fun name name' l _ names => ?_
  obtain rfl : name = name' := names
  refine .ite Iff.rfl (fun _ => .fail_then _ _) fun _ => ?_
  refine echoes_first_value echoed inForHead fun init init' m _ same => ?_
  have given := is_none_of_unplaced same
  have complete : x.Echoes true (depth + 1) m 0 Declarator.unplaced
      (do return ⟨name, init, ← spanFrom t.span.start⟩) (do return ⟨name, init', ← spanFrom u.span.start⟩) :=
    .stay (.span_from _ _) fun _ _ _ => .give (declarator_unplaced rfl same)
  refine .ite (by rw [given]) (fun _ => .fail_then _ _) fun _ => .ite Iff.rfl (fun _ => complete) fun _ => ?_
  exact .stay (stays_declare_lexical t u _) fun _ _ _ => complete

theorem echoes_lexical_declarators (constant inForHead valueRequired : Bool) :
    x.Echoes true (depth + 1) k 1 (List.map Declarator.unplaced)
      (lexicalDeclarators rules constant inForHead valueRequired)
      (lexicalDeclarators rules' constant inForHead valueRequired) :=
  .separated (fun _ _ => echoes_lexical_declarator echoed constant inForHead valueRequired) _ _ [] [] rfl

omit echoed in
/-- A statement is complete when its span is known. -/
theorem echoes_complete_statement {form form' : StmtForm} {start start' : Nat} (same : form.unplaced = form'.unplaced) :
    x.Echoes true depth k 0 Stmt.unplaced (do return ⟨form, ← spanFrom start⟩)
      (do return ⟨form', ← spanFrom start'⟩) :=
  .stay (.span_from _ _) fun _ _ _ => .give (congrArg (fun form => (⟨form, .nowhere⟩ : Stmt)) same)

theorem echoes_function_declaration (found : x.whole.tokens[x.first + k]? = some t) (goesOn : t.kind ≠ .endOfInput) :
    x.Echoes true (depth + 1) k 1 Stmt.unplaced (functionDeclaration rules) (functionDeclaration rules') := by
  refine .take found goesOn fun u twin => ?_
  refine .bind (echoes_function_rest echoed .declaration twin.start) fun code code' l _ same => ?_
  refine .stay (.modify_body fun b b' alike => add_function_unplaced same alike) fun _ _ _ => ?_
  exact echoes_complete_statement (congrArg StmtForm.function same)

/-! ## Loops -/

omit echoed in
theorem stays_leave_loop : x.Stays (depth + 1) (fun _ => ()) leaveLoop leaveLoop := by
  refine .bind .look fun s s' same => ?_
  have around : s.body.unplaced.iterationDepth = s'.body.unplaced.iterationDepth :=
    congrArg (fun r => r.1.iterationDepth) same
  have around : s.body.iterationDepth = s'.body.iterationDepth := around
  rw [around]
  cases s'.body.iterationDepth with
  | zero => exact .fail_here _
  | succ depth => exact .note fun _ => rfl

theorem echoes_loop_body : x.Echoes true (depth + 1) k 1 Stmt.unplaced (loopBody rules) (loopBody rules') := by
  refine .stay (.note fun _ => rfl) fun _ _ _ => .bind_first (echoed.statement depth k) fun body body' l _ same => ?_
  exact .stay stays_leave_loop fun _ _ _ => .give same

theorem echoes_for_in_rest {target target' : ForInTarget} (same : target.unplaced = target'.unplaced) :
    x.Echoes true (depth + 1) k 1 StmtForm.unplaced (forInRest rules target) (forInRest rules' target') := by
  refine .bind_first (.expect (by simp) _) fun _ _ l _ _ => ?_
  refine .bind (echoes_expression echoed false).lax fun object object' m _ first => ?_
  refine .bind (.expect (by simp) _) fun _ _ n _ _ => ?_
  refine .bind (echoes_loop_body echoed) fun body body' _ _ second => .give ?_
  change StmtForm.forIn _ _ _ = .forIn _ _ _
  rw [same, first, second]

omit echoed in
theorem stays_single_binding {declarators declarators' : List Declarator}
    (same : declarators.map Declarator.unplaced = declarators'.map Declarator.unplaced) :
    x.Stays depth id (singleBinding declarators) (singleBinding declarators') := by
  obtain _ | ⟨⟨name, init, span⟩, _ | ⟨second, rest⟩⟩ := declarators
  · exact .fail_here _
  · cases init with
    | some e => exact .fail_here _
    | none =>
      obtain _ | ⟨⟨name', init', span'⟩, _ | ⟨second', rest'⟩⟩ := declarators'
      · cases same
      · obtain ⟨alike, -⟩ := List.cons.inj same
        obtain ⟨names, value, -⟩ := Declarator.mk.inj alike
        subst names
        cases init' with
        | none => exact .give rfl
        | some e => cases value
      · exact absurd (congrArg List.length same) (by simp)
  · cases init <;> exact .fail_here _

theorem echoes_optional_expression {α γ : Type} {view : α → γ} {more : Nat} {rest rest' : Option Expr → Reader α}
    (stop : Mark) (each : ∀ e e' l, k ≤ l → unplacedExpr? e = unplacedExpr? e' →
      x.Echoes true (depth + 1) l (more + 1) view (rest e) (rest' e')) :
    x.Echoes true (depth + 1) k (more + 1) view (optionalExpression rules stop >>= rest)
      (optionalExpression rules' stop >>= rest') := by
  unfold optionalExpression
  rw [bind_assoc, bind_assoc]
  refine .check_inner fun stopped _ => ?_
  cases stopped with
  | true => exact each none none k (Nat.le_refl k) rfl
  | false =>
    have read : x.Echoes true (depth + 1) k 1 unplacedExpr? (some <$> expression rules false)
        (some <$> expression rules' false) :=
      .map (echoes_expression echoed false).lax fun _ _ same => congrArg some same
    exact .bind read fun e e' l order same => each e e' l (by omega) same

theorem echoes_for_rest {init init' : Option ForInit} (same : unplacedInit? init = unplacedInit? init') :
    x.Echoes true (depth + 1) k 1 StmtForm.unplaced (forRest rules init) (forRest rules' init') := by
  refine .bind_first (.expect (by simp) _) fun _ _ l _ _ => .moving ?_
  refine echoes_optional_expression echoed .semicolon fun test test' m _ first => ?_
  refine .bind (.expect (by simp) _) fun _ _ n _ _ => ?_
  refine echoes_optional_expression echoed .closeParen fun update update' o _ second => ?_
  refine .bind_first (.expect (by simp) _) fun _ _ p _ _ => ?_
  refine .bind (echoes_loop_body echoed) fun body body' _ _ third => .give ?_
  change StmtForm.forLoop _ _ _ _ = .forLoop _ _ _ _
  rw [same, first, second, third]

/-- The rest of a `for` statement that declares block names. The token behind the first name tells whether it takes a
value. -/
def lexicalForRest (rules : Rules) (constant : Bool) (next : Token) : Reader StmtForm := do
  let declarators ← lexicalDeclarators rules constant true !(next.kind == .keyword .«in»)
  if ← checkKeyword .«in» then forInRest rules (.lexical constant (← singleBinding declarators))
  else forRest rules (some (.lexical constant declarators))

theorem echoes_lexical_for_rest (constant : Bool) {next next' : Token} (same : next'.kind = next.kind) :
    x.Echoes true (depth + 1) k 2 StmtForm.unplaced (lexicalForRest rules constant next)
      (lexicalForRest rules' constant next') := by
  unfold lexicalForRest
  rw [same]
  refine .bind_two (echoes_lexical_declarators echoed constant true _) fun declarators declarators' l _ alike => ?_
  refine .check_inner fun inside _ => .ite Iff.rfl (fun _ => ?_) fun _ => ?_
  · refine .stay (stays_single_binding alike) fun name name' names => echoes_for_in_rest echoed ?_
    exact congrArg (ForInTarget.lexical constant) names
  · refine echoes_for_rest echoed (congrArg (fun init => some (ForInit.lexical constant init)) ?_)
    rw [unplaced_declarators, unplaced_declarators, alike]

theorem echoes_for_statement :
    x.Echoes true (depth + 1) k 1 StmtForm.unplaced (forStatement rules) (forStatement rules') := by
  refine .bind_first (.expect (by simp) _) fun _ _ l _ _ => .moving (.peek fun t u found twin => ?_)
  rw [twin.kind]
  refine .ite Iff.rfl (fun var => ?_) fun _ => ?_
  · refine .pass found (by simp [beq_iff_eq.mp var]) ?_
    refine .bind (echoes_var_declarators echoed true) fun declarators declarators' m _ same => ?_
    refine .moving (.check_inner fun inside _ => .ite Iff.rfl (fun _ => ?_) fun _ => ?_)
    · refine .stay (stays_single_binding same) fun name name' names => echoes_for_in_rest echoed ?_
      exact congrArg ForInTarget.var names
    · refine echoes_for_rest echoed (congrArg (fun init => some (ForInit.vars init)) ?_)
      rw [unplaced_declarators, unplaced_declarators, same]
  · cases keyword : lexicalKeyword? t.kind with
    | some constant =>
      have known : t.kind ≠ .endOfInput := (Script.flat_of_operator keyword rfl rfl rfl).ends
      let behind (rules : Rules) (_ next : Token) : Reader StmtForm := lexicalForRest rules constant next
      have looks : x.Echoes true (depth + 1) (l + 1) 2 StmtForm.unplaced
          (do let s ← get; behind rules s.current (s.tokenAt 1))
          (do let s ← get; behind rules' s.current (s.tokenAt 1)) := by
        refine .look_ahead fun t next u next' _ _ _ alike => ?_
        rcases alike with kinds | ⟨beyond, -⟩
        · exact echoes_lexical_for_rest echoed constant kinds
        · exact (echoes_lexical_for_rest echoed constant rfl).past beyond
      exact .pass found known looks.idle
    | none =>
      refine .ite Iff.rfl (fun _ => echoes_for_rest echoed rfl) fun _ => ?_
      refine .bind_first (echoes_expression echoed true).lax fun e e' m _ same => ?_
      refine .moving (.check_inner fun inside _ => .ite Iff.rfl (fun _ => ?_) fun _ => ?_)
      · refine .stay (stays_check_target same) fun _ _ _ => echoes_for_in_rest echoed ?_
        exact congrArg ForInTarget.expr same
      · exact echoes_for_rest echoed (congrArg (fun e => some (ForInit.expr e)) same)

/-! ## Jumps -/

omit echoed in
theorem echoes_optional_label (behind : 0 < k) : x.Echoes true depth k 0 id optionalLabel optionalLabel := by
  refine .peek_edge (fun t u found twin _ => ?_) fun t u found last closes => ?_
  · rw [twin.kind, twin.lexeme, twin.newline behind]
    refine .ite Iff.rfl (fun label => ?_) fun _ => .give rfl
    rw [Bool.and_eq_true, beq_iff_eq] at label
    exact .moving (.pass found (by simp [label.1]) (.give rfl))
  · have other : (u.kind == .identifier) = false := by
      refine beq_eq_false_iff_ne.mpr fun same => ?_
      rw [same] at closes
      revert closes
      decide
    rw [other, Bool.false_and]
    by_cases label : (t.kind == .identifier && !t.newlineBefore) = true
    · rw [if_pos label]
      rw [Bool.and_eq_true, beq_iff_eq] at label
      have taken : x.Echoes true depth k 1 id (do discard advance; return some t.lexeme)
          (do discard advance; return some t.lexeme) := .pass found (by simp [label.1]) (.give rfl)
      exact (taken.past (by omega)).moving
    · rw [if_neg label]
      exact .give rfl

omit echoed in
theorem echoes_continue_statement (found : x.whole.tokens[x.first + k]? = some t) (goesOn : t.kind ≠ .endOfInput) :
    x.Echoes true (depth + 1) k 1 StmtForm.unplaced continueStatement continueStatement := by
  refine .take found goesOn fun u twin => ?_
  refine .bind (echoes_optional_label (Nat.succ_pos k)) fun label label' l order same => ?_
  obtain rfl : label = label' := same
  refine .stay .look fun s s' known => ?_
  extract_lets body finish body'
  have finished : x.Echoes true (depth + 1) l 0 StmtForm.unplaced (finish ()) (finish ()) :=
    .bind (.end_statement (by omega)) fun _ _ _ _ _ => .give rfl
  have labels : body.unplaced.labels = body'.unplaced.labels := congrArg (fun r => r.1.labels) known
  have labels : body.labels = body'.labels := labels
  have around : body.unplaced.iterationDepth = body'.unplaced.iterationDepth :=
    congrArg (fun r => r.1.iterationDepth) known
  have around : body.iterationDepth = body'.iterationDepth := around
  rw [labels, around]
  cases label with
  | none => exact .ite Iff.rfl (fun _ => .fail_then _ _) fun _ => finished
  | some name =>
    dsimp only
    cases body'.labels.find? (·.name == name) with
    | none => exact .fail_then _ _
    | some entry => exact .ite Iff.rfl (fun _ => finished) fun _ => .fail_then _ _

omit echoed in
theorem echoes_break_statement (found : x.whole.tokens[x.first + k]? = some t) (goesOn : t.kind ≠ .endOfInput) :
    x.Echoes true (depth + 1) k 1 StmtForm.unplaced breakStatement breakStatement := by
  refine .take found goesOn fun u twin => ?_
  refine .bind (echoes_optional_label (Nat.succ_pos k)) fun label label' l order same => ?_
  obtain rfl : label = label' := same
  refine .stay .look fun s s' known => ?_
  extract_lets body finish body'
  have finished : x.Echoes true (depth + 1) l 0 StmtForm.unplaced (finish ()) (finish ()) :=
    .bind (.end_statement (by omega)) fun _ _ _ _ _ => .give rfl
  have labels : body.unplaced.labels = body'.unplaced.labels := congrArg (fun r => r.1.labels) known
  have labels : body.labels = body'.labels := labels
  have loops : body.unplaced.iterationDepth = body'.unplaced.iterationDepth :=
    congrArg (fun r => r.1.iterationDepth) known
  have loops : body.iterationDepth = body'.iterationDepth := loops
  have switches : body.unplaced.switchDepth = body'.unplaced.switchDepth := congrArg (fun r => r.1.switchDepth) known
  have switches : body.switchDepth = body'.switchDepth := switches
  rw [labels, loops, switches]
  cases label with
  | none => exact .ite Iff.rfl (fun _ => .fail_then _ _) fun _ => finished
  | some name => exact .ite Iff.rfl (fun _ => finished) fun _ => .fail_then _ _

/-! ## Labels -/

omit echoed in
theorem labels_loop_step (t next : Token) (rest : List Token) : labelsLoop (t :: next :: rest) =
    if t.kind == .identifier && next.kind == .mark .colon then labelsLoop rest
    else t.kind == .keyword .«for» || t.kind == .keyword .«while» || t.kind == .keyword .«do» :=
  rfl

omit echoed in
theorem drop_two {α : Type} {items : List α} {n : Nat} {a b : α} (first : items[n]? = some a)
    (second : items[n + 1]? = some b) : items.drop n = a :: b :: items.drop (n + 2) := by
  obtain ⟨inside, rfl⟩ := List.getElem?_eq_some_iff.mp first
  obtain ⟨inside', rfl⟩ := List.getElem?_eq_some_iff.mp second
  rw [List.drop_eq_getElem_cons inside, List.drop_eq_getElem_cons inside']

omit echoed in
/-- Labels are followed by a loop in both scripts, if they lie in the shared tokens with what comes behind them. -/
theorem labels_shared (k : Nat) (far : ∀ n, (∀ m < n, x.whole.kindAt (x.first + k + 2 * m) = some .identifier ∧
      x.whole.kindAt (x.first + k + 2 * m + 1) = some (.mark .colon)) → k + 2 * n < x.count) :
    labelsLoop (x.part.tokens.drop (x.place + k)) = labelsLoop (x.whole.tokens.drop (x.first + k)) := by
  have more := x.goesOn
  have shared : k < x.count := far 0 fun m before => absurd before (Nat.not_lt_zero m)
  have inside : x.first + k < x.whole.size := by omega
  have inside' : x.first + k + 1 < x.whole.size := by omega
  obtain ⟨t, found⟩ := Script.exists_token inside
  obtain ⟨next, behind⟩ := Script.exists_token inside'
  obtain ⟨u, twin, there⟩ := exists_twin found
  have further (label : (t.kind == .identifier && next.kind == .mark .colon) = true) : k + 2 < x.count := by
    rw [Bool.and_eq_true, beq_iff_eq, beq_iff_eq] at label
    refine far 1 fun m before => ?_
    obtain rfl : m = 0 := by omega
    exact ⟨(Script.kind_at found).trans (congrArg some label.1), (Script.kind_at behind).trans (congrArg some label.2)⟩
  have second : ∃ next', x.part.tokens[x.place + k + 1]? = some next' ∧
      (u.kind == .identifier && next'.kind == .mark .colon) = (t.kind == .identifier && next.kind == .mark .colon) := by
    rcases Nat.lt_or_eq_of_le (Nat.succ_le_of_lt shared) with before | last
    · rw [Nat.add_assoc] at behind
      obtain ⟨next', twin', there'⟩ := exists_twin behind
      exact ⟨next', there' before, by rw [twin.kind, twin'.kind]⟩
    · obtain ⟨next', there', closes⟩ := x.edge
      rw [← last] at there'
      refine ⟨next', there', ?_⟩
      have other : (next'.kind == .mark .colon) = false := by
        refine beq_eq_false_iff_ne.mpr fun same => ?_
        rw [same] at closes
        revert closes
        decide
      rw [other, Bool.and_false, eq_comm, Bool.eq_false_iff]
      exact fun label => absurd (further label) (by omega)
  obtain ⟨next', behind', labels⟩ := second
  rw [drop_two found behind, drop_two (there shared) behind', labels_loop_step, labels_loop_step, labels, twin.kind]
  by_cases label : (t.kind == .identifier && next.kind == .mark .colon) = true
  · rw [if_pos label, if_pos label]
    have later := further label
    rw [Bool.and_eq_true, beq_iff_eq, beq_iff_eq] at label
    refine labels_shared (k + 2) fun n labels => ?_
    have all := far (n + 1) fun m before => ?_
    · omega
    · cases m with
      | zero =>
        exact ⟨(Script.kind_at found).trans (congrArg some label.1),
          (Script.kind_at behind).trans (congrArg some label.2)⟩
      | succ m =>
        have place : x.first + k + 2 * (m + 1) = x.first + (k + 2) + 2 * m := by omega
        rw [place]
        exact labels m (Nat.lt_of_succ_lt_succ before)
  · rw [if_neg label, if_neg label]
termination_by x.count - k

theorem echoes_labeled_statement (found : x.whole.tokens[x.first + k]? = some t) (kind : t.kind = .identifier)
    (colon : x.whole.kindAt (x.first + k + 1) = some (.mark .colon)) :
    x.Echoes true (depth + 1) k 2 StmtForm.unplaced (labeledStatement rules) (labeledStatement rules') := by
  let far (l : Nat) : Prop := ∀ n, (∀ m < n, x.whole.kindAt (x.first + k + 2 * m) = some .identifier ∧
    x.whole.kindAt (x.first + k + 2 * m + 1) = some (.mark .colon)) → k + 2 * n < l
  obtain ⟨second, behind, mark⟩ := Option.map_eq_some_iff.mp colon
  have goesOn : second.kind ≠ .endOfInput := by simp [mark]
  have first (m : Nat) (before : m < 1) : x.whole.kindAt (x.first + k + 2 * m) = some .identifier ∧
      x.whole.kindAt (x.first + k + 2 * m + 1) = some (.mark .colon) := by
    obtain rfl : m = 0 := by omega
    exact ⟨(Script.kind_at found).trans (congrArg some kind), colon⟩
  refine .foresee (m := 1) far (fun s a s' here done => ?_) fun l labels reached => ?_
  · obtain ⟨_, j, there, -, labels⟩ := run_of_covers
      (fun _ _ => Script.nests_labeled_statement echoed.nests found kind colon) here done
    have order := labels 1 first
    obtain ⟨l, rfl⟩ := Nat.exists_eq_add_of_le (show x.first ≤ j by omega)
    refine ⟨l, by omega, there, fun n known => ?_⟩
    have later := labels n known
    omega
  · have inside := reached.inside
    have two := labels 1 first
    refine .take found (by simp [kind]) fun u twin => .moving (.pass behind goesOn ?_)
    extract_lets label label'
    have names : label = label' := twin.lexeme.symm
    refine .look_here (by omega) fun s s' here here' same => ?_
    have around : s.body.unplaced.labels = s'.body.unplaced.labels := congrArg BodyState.labels same
    have around : s.body.labels = s'.body.labels := around
    have loops : labelsLoop (s'.current :: s'.upcoming) = labelsLoop (s.current :: s.upcoming) := by
      rw [← here.left, ← here'.left]
      refine labels_shared (k + 1 + 1) fun n known => ?_
      have later := labels (n + 1) fun m before => ?_
      · omega
      · cases m with
        | zero => exact first 0 Nat.one_pos
        | succ m =>
          have place : x.first + k + 2 * (m + 1) = x.first + (k + 1 + 1) + 2 * m := by omega
          rw [place]
          exact known m (Nat.lt_of_succ_lt_succ before)
    rw [loops, around, names]
    refine .ite Iff.rfl (fun _ => .fail_then _ _) fun _ => .stay (.note fun _ => rfl) fun _ _ _ => ?_
    refine .bind (echoed.statement depth _) fun body body' _ _ alike => .stay (.note fun _ => rfl) fun _ _ _ => .give ?_
    exact congrArg (StmtForm.labeled label') alike

/-! ## Choices and handlers -/

/-- Statements of a clause are read until the next clause begins, or a brace closes. -/
def goesOnInClause (kind : TokenKind) : Bool :=
  kind != .keyword .«case» && kind != .keyword .«default» && goesOnInside kind

theorem echoes_switch_clauses (fuel fuel' : Nat) (seenDefault : Bool) (done done' : List SwitchClause)
    (same : done.map SwitchClause.unplaced = done'.map SwitchClause.unplaced) :
    x.Echoes true (depth + 1) k 0 (List.map SwitchClause.unplaced) (switchClauses rules fuel seenDefault done)
      (switchClauses rules' fuel' seenDefault done') := by
  induction fuel generalizing k fuel' seenDefault done done' with
  | zero => exact .broken
  | succ fuel ih =>
    refine .of_fuel (fun fuel' => switchClauses rules' fuel' seenDefault done') rfl (fun fuel' => ?_) fuel'
    refine .ask_state goesOnInside (fun _ => rfl) (by decide) (fun t found more => ?_) (.give ?_)
    · have goesOn : t.kind ≠ .endOfInput := fun ended => by rw [ended] at more; cases more
      refine .take found goesOn fun u twin => ?_
      extract_lets finish others finish' others'
      have finished (test test' : Option Expr) (l : Nat) (alike : unplacedExpr? test = unplacedExpr? test') :
          x.Echoes true (depth + 1) l 0 (List.map SwitchClause.unplaced) (finish test) (finish' test') := by
        refine .bind (.expect (by simp) _) fun _ _ m _ _ => ?_
        refine .bind (echoes_items echoed goesOnInClause (fun _ => rfl) (by decide)) fun body body' n _ items => ?_
        rw [is_none_of_unplaced alike]
        refine ih fuel' _ _ _ (congrArg₂ List.cons ?_ same)
        rw [SwitchClause.unplaced, SwitchClause.unplaced, unplaced_stmts, unplaced_stmts, alike, items]
      rw [twin.kind]
      cases t.kind with
      | keyword word =>
        cases word with
        | case =>
          have test : x.Echoes true (depth + 1) (k + 1) 1 unplacedExpr? (some <$> expression rules false)
              (some <$> expression rules' false) :=
            .map (echoes_expression echoed false).lax fun _ _ same => congrArg some same
          exact .bind test fun test test' l _ alike => finished test test' l alike
        | default => exact .ite Iff.rfl (fun _ => .fail_then _ _) fun _ => finished none none _ rfl
        | _ => exact .fail_then _ _
      | _ => exact .fail_then _ _
    · rw [List.map_reverse, List.map_reverse, same]

omit echoed in
theorem stays_leave_switch : x.Stays (depth + 1) (fun _ => ()) leaveSwitch leaveSwitch := by
  refine .bind .look fun s s' same => ?_
  have around : s.body.unplaced.switchDepth = s'.body.unplaced.switchDepth := congrArg (fun r => r.1.switchDepth) same
  have around : s.body.switchDepth = s'.body.switchDepth := around
  rw [around]
  cases s'.body.switchDepth with
  | zero => exact .fail_here _
  | succ depth => exact .note fun _ => rfl

theorem echoes_switch_statement :
    x.Echoes true (depth + 1) k 1 StmtForm.unplaced (switchStatement rules) (switchStatement rules') := by
  refine .bind_first (echoes_parenthesized echoed _ _) fun discriminant discriminant' l _ first => ?_
  refine .bind (.expect (by simp) _) fun _ _ m _ _ => .stay (.note fun _ => rfl) fun _ _ _ => ?_
  refine .bind (.with_block (echoes_switch_clauses echoed _ _ false [] [] rfl)) fun result result' n _ second => ?_
  obtain ⟨clauses, names⟩ := result
  obtain ⟨clauses', names'⟩ := result'
  obtain ⟨inside, declared⟩ := Prod.mk.inj second
  obtain rfl : names = names' := declared
  refine .stay stays_leave_switch fun _ _ _ => .bind (.expect (by simp) _) fun _ _ _ _ _ => .give ?_
  rw [StmtForm.unplaced_switch, StmtForm.unplaced_switch, first, inside]

theorem echoes_if_statement :
    x.Echoes true (depth + 1) k 1 StmtForm.unplaced (ifStatement rules) (ifStatement rules') := by
  refine .bind_first (echoes_parenthesized echoed _ _) fun test test' l _ first => ?_
  refine .bind (echoed.statement depth l) fun yes yes' m _ second => ?_
  extract_lets finish finish'
  have finished (no no' : Option Stmt) (n : Nat) (third : unplacedStmt? no = unplacedStmt? no') :
      x.Echoes true (depth + 1) n 0 StmtForm.unplaced (finish no) (finish' no') := by
    refine .give ?_
    change StmtForm.cond _ _ _ = .cond _ _ _
    rw [first, second, third]
  refine .accept (by decide) (fun _ => ?_) (finished none none m rfl)
  have read : x.Echoes true (depth + 1) (m + 1) 1 unplacedStmt? (some <$> rules.statement)
      (some <$> rules'.statement) := .map (echoed.statement depth _) fun _ _ same => congrArg some same
  exact .bind read fun no no' n _ third => finished no no' n third

theorem echoes_try_statement (found : x.whole.tokens[x.first + k]? = some t) (goesOn : t.kind ≠ .endOfInput) :
    x.Echoes true (depth + 1) k 1 StmtForm.unplaced (tryStatement rules) (tryStatement rules') := by
  refine .take found goesOn fun u twin => .bind (echoes_block echoed) fun body body' l _ first => ?_
  extract_lets last last'
  let finish (span : Span) (body : Block) (handler : Option Handler) (finalizer : Option Block) : Reader StmtForm := do
    if handler.isNone && finalizer.isNone then failAt span .tryAlone
    return .attempt body handler finalizer
  have ends (handler handler' : Option Handler) (m : Nat)
      (second : unplacedHandler? handler = unplacedHandler? handler') :
      x.Echoes true (depth + 1) m 0 StmtForm.unplaced (last handler) (last' handler') := by
    have finished (finalizer finalizer' : Option Block) (n : Nat)
        (third : unplacedBlock? finalizer = unplacedBlock? finalizer') :
        x.Echoes true (depth + 1) n 0 StmtForm.unplaced (finish t.span body handler finalizer)
          (finish u.span body' handler' finalizer') := by
      have handled (handler : Option Handler) : (unplacedHandler? handler).isNone = handler.isNone := by
        cases handler <;> rfl
      have finalized (finalizer : Option Block) : (unplacedBlock? finalizer).isNone = finalizer.isNone := by
        cases finalizer <;> rfl
      have alone : (handler.isNone && finalizer.isNone) = (handler'.isNone && finalizer'.isNone) := by
        rw [← handled, ← finalized, second, third, handled, finalized]
      refine .ite (by rw [alone]) (fun _ => .fail_then _ _) fun _ => .give ?_
      change StmtForm.attempt _ _ _ = .attempt _ _ _
      rw [first, second, third]
    refine .accept (by decide) (fun _ => ?_) (finished none none m rfl)
    have read : x.Echoes true (depth + 1) (m + 1) 1 unplacedBlock? (some <$> block rules) (some <$> block rules') :=
      .map (echoes_block echoed) fun _ _ same => congrArg some same
    exact .bind read fun finalizer finalizer' n _ third => finished finalizer finalizer' n third
  refine .accept (by decide) (fun _ => ?_) (ends none none l rfl)
  refine .bind (.expect (by simp) _) fun _ _ m _ _ => .bind (.binding_name _) fun name name' n _ names => ?_
  obtain rfl : name = name' := names
  refine .bind (.expect (by simp) _) fun _ _ o _ _ => .bind (echoes_block echoed) fun b b' p _ second => ?_
  exact ends (some ⟨name, b⟩) (some ⟨name, b'⟩) p (congrArg (fun b => some (⟨name, b⟩ : Handler)) second)

/-! ## Statements -/

theorem echoes_expression_statement :
    x.Echoes true (depth + 1) k 1 StmtForm.unplaced
      (do let e ← expression rules false
          endStatement
          return .expr e)
      (do let e ← expression rules' false
          endStatement
          return .expr e) := by
  refine .bind_first (echoes_expression echoed false).lax fun e e' l order same => ?_
  exact .bind (.end_statement (by omega)) fun _ _ _ _ _ => .give (congrArg StmtForm.expr same)

/-- A name may be a label. -/
theorem echoes_name_statement (found : x.whole.tokens[x.first + k]? = some t) :
    x.Echoes true (depth + 1) k 1 StmtForm.unplaced
      (do if t.kind == .identifier && ((← get).tokenAt 1).kind == .mark .colon then labeledStatement rules
          else
            let e ← expression rules false
            endStatement
            return .expr e)
      (do if t.kind == .identifier && ((← get).tokenAt 1).kind == .mark .colon then labeledStatement rules'
          else
            let e ← expression rules' false
            endStatement
            return .expr e) := by
  let behind (rules : Rules) (_ next : Token) : Reader StmtForm :=
    if t.kind == .identifier && next.kind == .mark .colon then labeledStatement rules
    else do
      let e ← expression rules false
      endStatement
      return .expr e
  have looks : x.Echoes true (depth + 1) k 1 StmtForm.unplaced
      (do let s ← get; behind rules s.current (s.tokenAt 1))
      (do let s ← get; behind rules' s.current (s.tokenAt 1)) := by
    refine .look_ahead fun other next u next' there _ second alike => ?_
    obtain rfl := Option.some.inj (found.symm.trans there)
    have labels (label : (t.kind == .identifier && next.kind == .mark .colon) = true) :
        x.Echoes true (depth + 1) k 2 StmtForm.unplaced (labeledStatement rules) (labeledStatement rules') := by
      rw [Bool.and_eq_true, beq_iff_eq, beq_iff_eq] at label
      refine echoes_labeled_statement echoed found label.1 ?_
      rw [Script.kind_at (second (by simp [label.1])), label.2]
    rcases alike with kinds | ⟨beyond, closes⟩
    · refine .ite (by rw [kinds]) (fun label => (labels label).fewer (by omega)) fun _ => ?_
      exact echoes_expression_statement echoed
    · have other : (next'.kind == .mark .colon) = false := by
        refine beq_eq_false_iff_ne.mpr fun same => ?_
        rw [same] at closes
        revert closes
        decide
      unfold behind
      rw [other, Bool.and_false]
      by_cases label : (t.kind == .identifier && next.kind == .mark .colon) = true
      · rw [if_pos label]
        exact ((labels label).past (by omega)).fewer (by omega)
      · rw [if_neg label]
        exact echoes_expression_statement echoed
  exact looks

theorem echoes_statement_form (found : x.whole.tokens[x.first + k]? = some t) (twin : x.Twins k t u) :
    x.Echoes true (depth + 1) k 1 StmtForm.unplaced (statementForm rules t) (statementForm rules' u) := by
  unfold statementForm
  rw [twin.kind]
  have pass (goesOn : t.kind ≠ .endOfInput) {read read' : Reader StmtForm}
      (rest : x.Echoes true (depth + 1) (k + 1) 0 StmtForm.unplaced read read') := Echoes.pass found goesOn rest
  have name := @echoes_name_statement _ _ _ depth _ _ echoed found
  cases kind : t.kind with
  | keyword word =>
    have goesOn : t.kind ≠ .endOfInput := by simp [kind]
    cases word with
    | «var» =>
      refine pass goesOn (.bind (echoes_var_declarators echoed false) fun declarators declarators' l order same => ?_)
      refine .bind (.end_statement (by omega)) fun _ _ _ _ _ => .give ?_
      rw [StmtForm.unplaced_var, StmtForm.unplaced_var, same]
    | «let» => exact .fail _ _
    | «const» => exact .fail _ _
    | «if» => exact pass goesOn (echoes_if_statement echoed).moving
    | «while» =>
      refine pass goesOn (.bind (echoes_parenthesized echoed _ _) fun test test' l _ first => ?_)
      refine .bind (echoes_loop_body echoed) fun body body' _ _ second => .give ?_
      exact congrArg₂ StmtForm.whileLoop first second
    | «do» =>
      refine pass goesOn (.bind (echoes_loop_body echoed) fun body body' l _ first => ?_)
      refine .bind (.expect (by simp) _) fun _ _ m _ _ => ?_
      refine .bind (echoes_parenthesized echoed _ _) fun test test' n _ second => ?_
      rw [Echoes.discard_then, Echoes.discard_then]
      have form := congrArg₂ StmtForm.doWhile first second
      exact .accept (by decide) (fun _ => .give form) (.give form)
    | «for» => exact pass goesOn (echoes_for_statement echoed).moving
    | «continue» => exact echoes_continue_statement found goesOn
    | «break» => exact echoes_break_statement found goesOn
    | «return» =>
      refine pass goesOn (.look_edge fun s s' around found next => ?_)
      refine .ite (by rw [around]) (fun _ => .fail_then _ _) fun _ => ?_
      have finished (value value' : Option Expr) (l : Nat) (order : k < l)
          (same : unplacedExpr? value = unplacedExpr? value') : x.Echoes true (depth + 1) l 0 StmtForm.unplaced
            (do endStatement; return .ret value) (do endStatement; return .ret value') :=
        .bind (.end_statement (by omega)) fun _ _ _ _ _ => .give (congrArg StmtForm.ret same)
      have valued : x.Echoes true (depth + 1) (k + 1) 1 StmtForm.unplaced
          (do let value ← some <$> expression rules false; endStatement; return .ret value)
          (do let value ← some <$> expression rules' false; endStatement; return .ret value) := by
        have read : x.Echoes true (depth + 1) (k + 1) 1 unplacedExpr? (some <$> expression rules false)
            (some <$> expression rules' false) :=
          .map (echoes_expression echoed false).lax fun _ _ same => congrArg some same
        exact .bind_first read fun value value' l order same => finished value value' l (by omega) same
      have ends (s : ReadingState) : s.atStatementEnd = Echoes.endsBefore s.current := rfl
      rw [ends, ends]
      rcases next with twin | ⟨last, closes⟩
      · rw [Echoes.ends_before_of_twin twin (Nat.succ_pos k)]
        exact .ite Iff.rfl (fun _ => finished none none _ (Nat.lt_succ_self k) rfl) fun _ => valued.moving
      · rw [Echoes.ends_before_closing closes rfl]
        by_cases done : Echoes.endsBefore s.current = true
        · rw [if_pos done]
          exact finished none none _ (Nat.lt_succ_self k) rfl
        · rw [if_neg done]
          exact (valued.past (by omega)).moving
    | «with» =>
      refine .stay .is_strict fun strict strict' flag => ?_
      obtain rfl : strict = strict' := flag
      refine .ite Iff.rfl (fun _ => .fail_then _ _) fun _ => ?_
      refine pass goesOn (.bind (echoes_parenthesized echoed _ _) fun object object' l _ first => ?_)
      refine .bind (echoed.statement depth l) fun body body' _ _ second => .give ?_
      exact congrArg₂ StmtForm.withObject first second
    | «switch» => exact pass goesOn (echoes_switch_statement echoed).moving
    | «throw» =>
      refine pass goesOn (.moving (.peek fun next next' _ there => ?_))
      rw [there.newline (Nat.succ_pos k)]
      refine .ite Iff.rfl (fun _ => .fail_here_then _) fun _ => ?_
      refine .bind_first (echoes_expression echoed false).lax fun value value' l order same => ?_
      exact .bind (.end_statement (by omega)) fun _ _ _ _ _ => .give (congrArg StmtForm.throw same)
    | «try» => exact echoes_try_statement echoed found goesOn
    | «debugger» => exact pass goesOn (.bind (.end_statement (Nat.succ_pos k)) fun _ _ _ _ _ => .give rfl)
    | _ => 
      rw [kind] at name
      exact name
  | mark m =>
    have goesOn : t.kind ≠ .endOfInput := by simp [kind]
    cases m with
    | openBrace =>
      exact .bind_first (echoes_block echoed) fun b b' _ _ same => .give (congrArg StmtForm.block same)
    | semicolon => exact pass goesOn (.give rfl)
    | _ => 
      rw [kind] at name
      exact name
  | _ => 
    rw [kind] at name
    exact name

theorem echoes_statement : x.Echoes true (depth + 1) k 1 Stmt.unplaced (statement rules) (statement rules') := by
  refine .peek fun t u found twin => ?_
  refine .ite (by rw [twin.kind]) (fun function => ?_) fun _ => ?_
  · exact echoes_function_declaration echoed found (by simp [beq_iff_eq.mp function])
  · refine .bind_first (echoes_statement_form echoed found twin) fun form form' l _ same => ?_
    exact echoes_complete_statement same

theorem echoes_item : x.Echoes true (depth + 1) k 1 Stmt.unplaced (item rules) (item rules') := by
  refine .peek fun t u found twin => ?_
  rw [twin.kind]
  cases keyword : lexicalKeyword? t.kind with
  | some constant =>
    have goesOn : t.kind ≠ .endOfInput := (Script.flat_of_operator keyword rfl rfl rfl).ends
    refine .pass found goesOn (.bind (echoes_lexical_declarators echoed constant false true) ?_)
    intro declarators declarators' l order same
    refine .bind (.end_statement (by omega)) fun _ _ _ _ _ => echoes_complete_statement ?_
    rw [StmtForm.unplaced_lexical, StmtForm.unplaced_lexical, same]
  | none => exact echoes_statement echoed

/-! ## All rules -/

omit echoed in
/-- The rules for any numbers of levels read the same. -/
theorem echoed_rules (levels levels' : Nat) : x.Echoed (rulesFor levels) (rulesFor levels') := by
  induction levels generalizing levels' with
  | zero =>
    exact {
      levels := ⟨0, rfl⟩
      levels' := ⟨levels', rfl⟩
      assignment := fun _ _ _ => .broken
      binary := fun _ _ _ _ => .broken
      unary := fun _ _ => .broken
      newExpression := fun _ _ _ => .broken
      statement := fun _ _ => .broken
      item := fun _ _ => .broken }
  | succ levels ih =>
    have inner (levels' : Nat) : x.Echoed (rulesFor (levels + 1)) (rulesFor (levels' + 1)) := {
      levels := ⟨levels + 1, rfl⟩
      levels' := ⟨levels' + 1, rfl⟩
      assignment := fun _ _ noIn => echoes_assignment (ih levels') noIn
      binary := fun _ _ precedence noIn => echoes_binary (ih levels') precedence noIn
      unary := fun _ _ => echoes_unary (ih levels')
      newExpression := fun _ _ keyword => echoes_new_expression (ih levels') keyword
      statement := fun _ _ => echoes_statement (ih levels')
      item := fun _ _ => echoes_item (ih levels') }
    cases levels' with
    | zero =>
      exact {
        levels := ⟨levels + 1, rfl⟩
        levels' := ⟨0, rfl⟩
        assignment := fun depth k noIn => ((inner 0).assignment depth k noIn).breaks
        binary := fun depth k precedence noIn => ((inner 0).binary depth k precedence noIn).breaks
        unary := fun depth k => ((inner 0).unary depth k).breaks
        newExpression := fun depth k keyword => ((inner 0).newExpression depth k keyword).breaks
        statement := fun depth k => ((inner 0).statement depth k).breaks
        item := fun depth k => ((inner 0).item depth k).breaks }
    | succ levels' => exact inner levels'

end ScriptEngine.Grammar.Excerpt
