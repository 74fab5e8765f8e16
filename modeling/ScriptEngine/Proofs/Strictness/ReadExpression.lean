import ScriptEngine.Proofs.Strictness.Parts

/-!
The rules for expressions find what their expressions may be. The names of functions and parameters are read in the
code around, and the parameters are checked again when it is known whether the function is strict.
-/

namespace ScriptEngine.Grammar.Script

/-- The rules find what they read, in whatever functions they do. -/
structure Covered (script : Script) (rules : Rules) : Prop where
  assignment : ∀ strict outer i noIn,
    script.Covers (strict :: outer) i (rules.assignment noIn) (script.FoundExpr strict i)
  binary : ∀ strict outer i precedence noIn,
    script.Covers (strict :: outer) i (rules.binary precedence noIn) (script.FoundExpr strict i)
  unary : ∀ strict outer i, script.Covers (strict :: outer) i rules.unary (script.FoundExpr strict i)
  newExpression : ∀ strict outer i, script.kindAt i = some (.keyword .new) →
    script.Covers (strict :: outer) i rules.newExpression (script.FoundExpr strict i)
  statement : ∀ strict outer i, script.Covers (strict :: outer) i rules.statement (script.FoundStmt strict i)
  item : ∀ strict outer i, script.Covers (strict :: outer) i rules.item (script.FoundStmt strict i)

variable {script : Script} {rules : Rules} {strict : Bool} {outer codes : List Bool} {i j k : Nat} {t : Token}

/-! ## Targets and parameters -/

theorem covers_check_target (target : Expr) :
    script.Covers (strict :: outer) i (checkTarget target) fun _ j =>
      j = i ∧ (strict = true → ¬ target.Restricted) := by
  unfold checkTarget
  split
  · next name form =>
    refine .bind covers_is_strict fun answer j there => ?_
    obtain ⟨rfl, rfl⟩ := there
    refine .ite (fun _ => .fail _ _) fun allowed => .give ⟨rfl, fun always => ?_⟩
    rintro ⟨other, same, restricted⟩
    rw [form] at same
    cases same
    exact allowed (by rw [always, restricted]; rfl)
  · next form => exact .give ⟨rfl, fun _ restricted => by simp [Expr.Restricted, form] at restricted⟩
  · next form => exact .give ⟨rfl, fun _ restricted => by simp [Expr.Restricted, form] at restricted⟩
  · exact .fail _ _

theorem covers_parameter_list (rules : Rules) :
    script.Covers (strict :: outer) i (parameterList rules) fun _ j => script.Plain i j := by
  refine .bind (covers_expect_mark _ _) fun _ j first => ?_
  extract_lets parameter finish
  have finished {k : Nat} (parameters : List (String × Token)) (passed : script.Plain i k) :
      script.Covers (strict :: outer) k (finish parameters) fun _ j => script.Plain i j :=
    .bind (covers_expect_mark _ _) fun _ _ closed => .give (passed.before closed)
  have named (k : Nat) : script.Covers (strict :: outer) k parameter fun _ l => script.Plain k l := by
    refine .bind covers_peek fun token l there => ?_
    obtain ⟨rfl, -⟩ := there
    exact .bind (covers_binding_name _) fun name m there => .give there.1
  refine .bind (covers_check _) fun closed k there => ?_
  obtain ⟨rfl, -⟩ := there
  apply Covers.ite
  · intro _
    have none : script.Covers (strict :: outer) k (pure []) fun (_ : List (String × Token)) l => script.Plain i l :=
      .give first
    exact none.bind fun parameters l passed => finished parameters passed
  · intro _
    have all : script.Covers (strict :: outer) k (readSeparated rules.levels parameter []) fun items l =>
        ∃ later, items = [].reverse ++ later ∧ script.Plain k l :=
      covers_separated (fun k _ l => script.Plain k l) named (fun _ => between_here)
        (fun _ _ _ _ _ _ first comma rest => (rest.behind comma).behind first) _ _
    refine all.bind fun parameters l there => ?_
    obtain ⟨_, -, passed⟩ := there
    exact finished parameters (passed.behind first)

/-- Parameters of strict code are distinct, and none of them has a name that is ruled out. -/
theorem covers_check_strict_parameters (earlier : List String) (parameters : List (String × Token)) :
    script.Covers codes i (checkStrictParameters earlier parameters) fun _ j => j = i ∧
      (∀ name ∈ parameters.map Prod.fst, isStrictForbidden name = false ∧ name ∉ earlier) ∧
        (parameters.map Prod.fst).Nodup := by
  induction parameters generalizing earlier with
  | nil => exact .give ⟨rfl, List.forall_mem_nil _, List.nodup_nil⟩
  | cons parameter rest ih =>
    obtain ⟨name, token⟩ := parameter
    refine .ite (fun _ => .fail_then _ _) fun allowed => .ite (fun _ => .fail_then _ _) fun fresh => ?_
    refine (ih (name :: earlier)).weaken fun _ j there => ?_
    obtain ⟨same, others, distinct⟩ := there
    refine ⟨same, ?_, ?_⟩
    · refine List.forall_mem_cons.mpr ⟨⟨by simpa using allowed, by simpa using fresh⟩, fun other mem => ?_⟩
      obtain ⟨allowed, new⟩ := others other mem
      exact ⟨allowed, fun before => new (.tail _ before)⟩
    · exact List.nodup_cons.mpr ⟨fun mem => (others name mem).2 (.head _), distinct⟩

/-- What is read behind the parameters of a function that may be strict relies on them where it is. -/
theorem covers_with_checked {α : Type} {goal : α → Nat → Prop} {finish : Reader α} {isStrict : Bool}
    (parameters : List (String × Token))
    (finished : (isStrict = true → (parameters.map Prod.fst).Nodup ∧
      ∀ name ∈ parameters.map Prod.fst, isStrictForbidden name = false) → script.Covers codes i finish goal) :
    script.Covers codes i
      (if isStrict = true then checkStrictParameters [] parameters >>= fun _ => finish else finish) goal := by
  by_cases always : isStrict = true
  · rw [if_pos always]
    refine .bind (covers_check_strict_parameters _ _) fun _ j there => ?_
    obtain ⟨rfl, names, distinct⟩ := there
    exact finished fun _ => ⟨distinct, fun name mem => (names name mem).1⟩
  · rw [if_neg always]
    exact finished fun strict => absurd strict always

/-- The name of a property takes a token at most. -/
theorem covers_property_name {place : Token → Prop} (placed : ∀ t, script.tokens[i]? = some t → place t) :
    script.Covers codes i propertyName fun _ j => script.Between i j place := by
  refine .bind covers_advance fun token j there => ?_
  have between : script.Between i j place := by
    rcases there with ⟨rfl, found⟩ | ⟨rfl, -⟩
    · exact between_next found fun _ => placed token found
    · exact between_here
  split
  · exact .give between
  · exact .give between
  · exact .give between
  · exact .give between
  · exact .fail _ _

theorem covers_at_parameter_list : script.Covers codes i atParameterList fun _ j => j = i := by
  refine .bind .get fun s j here => ?_
  obtain ⟨rfl, -⟩ := here
  refine .ite (fun _ => ?_) fun _ => .give rfl
  split
  · exact .give rfl
  · exact .broken

/-- An expression is complete when its span is known. -/
theorem covers_complete {form : ExprForm} {start : Nat} (found : ∀ span, script.FoundExpr strict i ⟨form, span⟩ j) :
    script.Covers codes j (do return ⟨form, ← spanFrom start⟩) (script.FoundExpr strict i) := by
  refine .bind (covers_span_from _) fun span k there => .give ?_
  rw [there.1]
  exact found span

section

variable (covered : script.Covered rules)

include covered

/-- Expressions that commas separate are found one behind the other. -/
theorem covers_expressions (noIn : Bool) (fuel : Nat) :
    script.Covers (strict :: outer) i (readSeparated fuel (rules.assignment noIn) [])
      (script.FoundExprs strict i) := by
  have more (i j k l : Nat) (e : Expr) (items : List Expr) (first : script.FoundExpr strict i e j)
      (comma : script.Plain j k) (rest : script.FoundExprs strict k items l) :
      script.FoundExprs strict i (e :: items) l := (first.before comma).and rest
  refine (covers_separated (script.FoundExprs strict) (fun i => covered.assignment strict outer i noIn)
    (fun _ => found_nothing) more fuel []).weaken fun items j there => ?_
  obtain ⟨later, rfl, found⟩ := there
  exact found

theorem covers_expression (noIn : Bool) :
    script.Covers (strict :: outer) i (expression rules noIn) (script.FoundExpr strict i) := by
  refine .bind (covered.assignment strict outer i noIn) fun first j found => .bind (covers_check _) fun comma k there => ?_
  obtain ⟨rfl, comma⟩ := there
  refine .ite (fun more => ?_) fun _ => .give found
  refine .bind (covers_skip_kind (comma.mp more) (by simp) (by simp)) fun _ l passed => ?_
  refine .bind (covers_expressions covered noIn _) fun rest m others => ?_
  exact covers_complete fun span => found_plain ((found.before passed).and others) rfl rfl nofun

/-! ## Functions -/

/-- A body lies in the function that it belongs to, whatever that is in the end. -/
theorem covers_function_body {first : Nat} {opening : Token} {other : Token → Prop}
    (begins : script.tokens[first]? = some opening) (order : first < i) (front : script.Between first i other)
    {name : Option String} (named : strict = true → ∀ n ∈ name, isStrictForbidden n = false) (kind : FunctionKind)
    (parameters : List (String × Token)) :
    script.Covers (strict :: outer) i (functionBody rules name kind parameters opening.span.start)
      (script.FoundCode other strict i) := by
  refine .bind (covers_expect_mark _ _) fun _ j brace => .bind covers_is_strict fun around k there => ?_
  obtain ⟨rfl, rfl⟩ := there
  have inside : script.Covers (around :: outer) k
      (withBody (kind == .arrow) around (bodyItems rules rules.levels (.mark .closeBrace) true [])) fun result l =>
        script.FoundBody .function around result.2.strict true k l result.1 := by
    refine covers_with_body (fun items ended l => script.FoundBody .function around ended true k l items) _ around ?_
    intro s body next read here
    have items := leads_body_items (fun strict i => covered.item strict (around :: outer) i) .function _ _ _ s body
      next read here
    obtain ⟨⟨ended, l, there, -, later, rfl, found⟩, -⟩ := items
    exact ⟨⟨ended, l, there, found⟩, trivial⟩
  refine inside.bind fun result l found => ?_
  obtain ⟨statements, body⟩ := result
  dsimp -zeta only at found ⊢
  refine .bind (covers_expect_mark _ _) fun _ m closed => ?_
  extract_lets finish
  have finished (allowed : body.strict = true → (parameters.map Prod.fst).Nodup ∧
      ∀ name ∈ parameters.map Prod.fst, isStrictForbidden name = false) :
      script.Covers (around :: outer) m (finish ()) (script.FoundCode other around i) := by
    refine .bind (covers_source_from _) fun source n same => .bind (covers_span_from _) fun span o there => .give ?_
    obtain ⟨rfl, rfl⟩ := there
    subst same
    exact found_code begins order front brace found closed
      ⟨named, fun always => (allowed always).2, fun always => (allowed always).1⟩ rfl
  exact covers_with_checked parameters finished

theorem covers_function_rest {first : Nat} {opening : Token} (begins : script.tokens[first]? = some opening)
    (order : first < i) (front : script.Plain first i) (kind : FunctionKind) :
    script.Covers (strict :: outer) i (functionRest rules kind opening.span.start)
      (script.FoundCode (fun _ => False) strict i) := by
  unfold functionRest
  extract_lets finish
  have finished (name : Option String) (j : Nat) (passed : script.Plain i j)
      (named : strict = true → ∀ n ∈ name, isStrictForbidden n = false) :
      script.Covers (strict :: outer) j (finish name) (script.FoundCode (fun _ => False) strict i) := by
    refine .bind (covers_parameter_list rules) fun parameters k listed => ?_
    have before := passed.before listed
    refine (covers_function_body covered begins (Nat.lt_of_lt_of_le order before.forward) (front.before before)
      named kind parameters).weaken fun code l found => ?_
    exact ⟨found.found.behind before, found.accounts⟩
  refine .bind (covers_check _) fun named j there => ?_
  obtain ⟨rfl, -⟩ := there
  refine .ite (fun _ => ?_) fun _ => .ite (fun _ => ?_) fun _ => ?_
  · have name : script.Covers (strict :: outer) j (some <$> bindingName "function name") fun name k =>
        script.Plain j k ∧ (strict = true → ∀ n ∈ name, isStrictForbidden n = false) := by
      refine .map some (covers_binding_name _) fun name k there => ⟨there.1, fun always n same => ?_⟩
      obtain rfl := Option.some.inj same
      exact there.2 always
    exact name.bind fun name k there => finished name k there.1 there.2
  · have nothing : script.Covers (strict :: outer) j (failHere .functionWithoutName) fun (_ : Option String) _ => False :=
      covers_fail_here _
    exact nothing.bind fun _ _ => False.elim
  · have unnamed : script.Covers (strict :: outer) j (pure none) fun (name : Option String) k =>
        k = j ∧ name = none := .give ⟨rfl, rfl⟩
    refine unnamed.bind fun name k there => ?_
    obtain ⟨rfl, rfl⟩ := there
    exact finished none k between_here fun _ => nofun

theorem covers_arrow_rest {first : Nat} {opening : Token} (begins : script.tokens[first]? = some opening)
    (front : script.Plain first i) (parameters : List (String × Token)) :
    script.Covers (strict :: outer) i (arrowRest rules parameters opening.span.start)
      (script.FoundExpr strict first) := by
  refine .bind (covers_expect (by simp) (by simp) (by simp) _) fun _ j there => ?_
  obtain ⟨arrow, forward⟩ := there
  have before := front.before arrow
  extract_lets finish
  have finished (code : FunctionCode) (k : Nat) (found : script.FoundCode (fun _ => False) strict j code k) :
      script.Covers (strict :: outer) k (finish code) (script.FoundExpr strict first) :=
    covers_complete fun span => found_function ⟨found.found.behind before, found.accounts⟩
  have order : first < j := Nat.lt_of_le_of_lt front.forward forward
  refine .bind (covers_check _) fun braces k there => ?_
  obtain ⟨rfl, -⟩ := there
  apply Covers.ite
  · intro _
    exact .bind (covers_function_body covered begins order before (by simp) _ parameters) finished
  · intro _
    refine .bind covers_is_strict fun around l there => ?_
    obtain ⟨rfl, rfl⟩ := there
    have inside : script.Covers (around :: outer) l (withBody true around (rules.assignment false)) fun result m =>
        script.FoundExpr around l result.1 m := by
      refine covers_with_body (fun value _ m => script.FoundExpr around l value m) _ _ ?_
      intro s value next read here
      obtain ⟨⟨m, there, found⟩, -⟩ := covered.assignment around (around :: outer) l false s value next read here
      exact ⟨⟨around, m, there, found⟩, trivial⟩
    refine inside.bind fun result m found => ?_
    obtain ⟨value, body⟩ := result
    dsimp -zeta only at found ⊢
    extract_lets complete
    have completed (allowed : around = true → (parameters.map Prod.fst).Nodup ∧
        ∀ name ∈ parameters.map Prod.fst, isStrictForbidden name = false) :
        script.Covers (around :: outer) m (complete ()) (script.FoundExpr around first) := by
      refine .bind (covers_source_from _) fun source n same => .bind (covers_span_from _) fun span o there => ?_
      obtain ⟨rfl, rfl⟩ := there
      subst same
      have given (code : FunctionCode) (found : script.FoundCode (fun _ => False) around l code o) :
          script.Covers (around :: outer) o (pure code) (script.FoundCode (fun _ => False) around l) := .give found
      refine (given _ ?_).bind finished
      exact found_code begins order before between_here (found_return found) between_here
        ⟨by simp, fun always => (allowed always).2, fun always => (allowed always).1⟩ rfl
    exact covers_with_checked parameters completed

/-! ## Literals -/

theorem covers_array_elements (fuel : Nat) (done : List (Option Expr)) :
    script.Covers (strict :: outer) i (arrayElements rules fuel done) fun elements j =>
      ∃ later, elements = done.reverse ++ later ∧ script.Found strict i j (later.filterMap (·.map .expr)) := by
  induction fuel generalizing i done with
  | zero => exact .broken
  | succ fuel ih =>
    refine .bind (covers_accept_mark _) fun closed j first => ?_
    refine .ite (fun _ => .give ⟨[], by simp, first.found⟩) fun _ => ?_
    refine .bind (covers_accept_mark _) fun comma k second => .ite (fun _ => ?_) fun _ => ?_
    · refine (ih (none :: done)).weaken fun elements l there => ?_
      obtain ⟨later, rfl, found⟩ := there
      exact ⟨none :: later, by simp, (found.behind second).behind first⟩
    · refine .bind (covered.assignment _ _ _ _) fun element l found => .bind (covers_check _) fun last m there => ?_
      obtain ⟨rfl, -⟩ := there
      extract_lets rest
      have later (n : Nat) (passed : script.Plain m n) : script.Covers (strict :: outer) n (rest ()) fun elements j =>
          ∃ later, elements = done.reverse ++ later ∧ script.Found strict i j (later.filterMap (·.map .expr)) := by
        refine (ih (some element :: done)).weaken fun elements o there => ?_
        obtain ⟨later, rfl, others⟩ := there
        exact ⟨some element :: later, by simp, (((found.before passed).and others).behind second).behind first⟩
      exact .ite (fun _ => later m between_here) fun _ => .bind (covers_expect_mark _ _) fun _ n passed => later n passed

theorem covers_object_entry :
    script.Covers (strict :: outer) i (objectEntry rules) fun entry => script.FoundEntries strict i [entry] := by
  refine .bind .get fun s j here => ?_
  obtain ⟨rfl, here⟩ := here
  extract_lets token start isGetter
  have found : script.tokens[j]? = some token := here.current
  apply Covers.ite
  · intro accessor
    have kind : token.kind = .identifier := by
      rw [Bool.and_eq_true, Bool.and_eq_true] at accessor
      exact beq_iff_eq.mp accessor.1.1
    refine .bind (covers_pass found (by simp [kind])) fun _ k same => ?_
    subst same
    refine .bind (covers_property_name fun t there => there) fun key k name => ?_
    refine .bind (covers_parameter_list rules) fun parameters l listed => ?_
    have word : script.Plain j (j + 1) := between_next found (plain_of_kind (by simp [kind]) (by simp [kind]))
    have front := (name.behind word).before listed
    extract_lets finish
    have finished : script.Covers (strict :: outer) l (finish ()) fun entry => script.FoundEntries strict j [entry] := by
      have order : j < l := by
        have named := name.forward
        have passed := listed.forward
        omega
      refine .bind (covers_function_body covered found order front (by simp) _ parameters) fun code m given => ?_
      refine .bind (covers_span_from _) fun span n there => .give ?_
      obtain ⟨rfl, rfl⟩ := there
      refine found_accessor ?_ found rfl front given
      by_cases getter : isGetter = true
      · exact .inl (if_pos getter)
      · exact .inr (if_neg getter)
    exact .ite (fun _ => .ite (fun _ => finished) fun _ => .fail_then _ _) fun _ =>
      .ite (fun _ => finished) fun _ => .fail_then _ _
  · intro _
    refine .bind (covers_property_name fun t there => there) fun key k name => ?_
    refine .bind (covers_expect_mark _ _) fun _ l colon => .bind (covered.assignment _ _ _ _) fun value m given => ?_
    refine .bind (covers_span_from _) fun span n there => .give ?_
    obtain ⟨rfl, rfl⟩ := there
    have own := (name.weaken fun t _ _ there => (Option.some.inj (there.symm.trans found) : t = token)).before colon
    exact found_value_entry found rfl own given

theorem covers_object_entries (fuel : Nat) (done : List Entry) :
    script.Covers (strict :: outer) i (objectEntries rules fuel done) fun entries j =>
      ∃ later, entries = done.reverse ++ later ∧ script.FoundEntries strict i later j := by
  induction fuel generalizing i done with
  | zero => exact .broken
  | succ fuel ih =>
    refine .bind (covers_accept_mark _) fun closed j first => ?_
    refine .ite (fun _ => .give ⟨[], by simp, found_no_entries.before first⟩) fun _ => ?_
    refine .bind (covers_object_entry covered) fun entry k found => .bind (covers_check _) fun last l there => ?_
    obtain ⟨rfl, -⟩ := there
    extract_lets rest
    have later (m : Nat) (passed : script.Plain l m) : script.Covers (strict :: outer) m (rest ()) fun entries j =>
        ∃ later, entries = done.reverse ++ later ∧ script.FoundEntries strict i later j := by
      refine (ih (entry :: done)).weaken fun entries n there => ?_
      obtain ⟨later, rfl, others⟩ := there
      exact ⟨entry :: later, by simp, ((found.before passed).and others).behind first⟩
    exact .ite (fun _ => later l between_here) fun _ => .bind (covers_expect_mark _ _) fun _ m passed => later m passed

/-! ## Expressions -/

theorem covers_primary : script.Covers (strict :: outer) i (primary rules) (script.FoundExpr strict i) := by
  refine .bind covers_peek fun token j there => ?_
  obtain ⟨rfl, found⟩ := there
  extract_lets complete name number string
  have completed {k : Nat} (form : ExprForm) (good : ∀ span, script.FoundExpr strict j ⟨form, span⟩ k) :
      script.Covers (strict :: outer) k (complete form) (script.FoundExpr strict j) := covers_complete good
  have leaf {k : Nat} (form : ExprForm) (passed : script.Plain j k) (noChildren : form.children = [])
      (noTarget : form.target? = none) (noFunctions : form.functions = []) (noUnary : ∀ op e, form ≠ .unary op e) :
      script.Covers (strict :: outer) k (complete form) (script.FoundExpr strict j) :=
    completed form fun span => found_plain (by rw [noChildren]; exact passed.found) noTarget noFunctions noUnary
  have skip (number : token.kind ≠ .number) (string : token.kind ≠ .string) :
      script.Covers (strict :: outer) j (discard advance) fun _ k => script.Plain j k :=
    covers_skip found (plain_of_kind number string)
  -- The span of a literal is the one of its token, so that the token has its place there.
  have literal (value : Literal) (sloppy : token.IsOctal → strict = false) :
      script.Covers (strict :: outer) (j + 1) (complete (.literal value)) (script.FoundExpr strict j) := by
    refine .bind (covers_span_from _) fun span k there => .give ?_
    obtain ⟨rfl, rfl⟩ := there
    have ordered := (token_fits found).ordered
    rw [Nat.add_sub_cancel, stop_at found, Nat.max_eq_left ordered]
    exact found_literal found sloppy
  have guarded (goesOn : token.kind ≠ .endOfInput) (fault : SyntaxFault) (value : Literal) :
      script.Covers (strict :: outer) j (do
        discard advance
        if token.legacyOctal && (← isStrict) then failAt token.span fault
        complete (.literal value)) (script.FoundExpr strict j) := by
    refine .bind (covers_pass found goesOn) fun _ k same => .bind covers_is_strict fun around l there => ?_
    subst same
    obtain ⟨rfl, rfl⟩ := there
    refine .ite (fun _ => .fail_then _ _) fun allowed => literal value fun octal => ?_
    simpa [octal.2] using allowed
  split
  · next kind => exact .bind (skip (by simp [kind]) (by simp [kind])) fun _ k passed => leaf _ passed rfl rfl rfl nofun
  · next kind =>
    refine .bind (skip (by simp [kind]) (by simp [kind])) fun _ k passed => ?_
    have named : script.Covers (strict :: outer) k (name ()) (script.FoundExpr strict j) :=
      leaf _ passed rfl rfl rfl nofun
    refine .ite (fun _ => .bind covers_mention_arguments fun _ l same => ?_) fun _ => named
    rwa [same]
  · next kind => exact guarded (by simp [kind]) .octalNumber _
  · next kind => exact guarded (by simp [kind]) .octalEscape _
  · next kind => exact .bind (skip (by simp [kind]) (by simp [kind])) fun _ k passed => leaf _ passed rfl rfl rfl nofun
  · next kind => exact .bind (skip (by simp [kind]) (by simp [kind])) fun _ k passed => leaf _ passed rfl rfl rfl nofun
  · next kind => exact .bind (skip (by simp [kind]) (by simp [kind])) fun _ k passed => leaf _ passed rfl rfl rfl nofun
  · next kind =>
    refine .bind (covers_pass found (by simp [kind])) fun _ k same => ?_
    subst same
    have keyword : script.Plain j (j + 1) := between_next found (plain_of_kind (by simp [kind]) (by simp [kind]))
    refine .bind (covers_function_rest covered found (Nat.lt_succ_self j) keyword _) fun code k given => ?_
    exact completed _ fun span => found_function ⟨given.found.behind keyword, given.accounts⟩
  · next kind =>
    refine .bind (skip (by simp [kind]) (by simp [kind])) fun _ k opened => ?_
    refine .bind (covers_expression covered false) fun inner l found => ?_
    exact .bind (covers_expect_mark _ _) fun _ m closed => .give ((found.behind opened).before closed)
  · next kind =>
    refine .bind (skip (by simp [kind]) (by simp [kind])) fun _ k opened => ?_
    refine .bind (covers_array_elements covered _ _) fun elements l there => ?_
    obtain ⟨_, rfl, found⟩ := there
    exact completed _ fun span => found_plain (found.behind opened) rfl rfl nofun
  · next kind =>
    refine .bind (skip (by simp [kind]) (by simp [kind])) fun _ k opened => ?_
    refine .bind (covers_object_entries covered _ _) fun entries l there => ?_
    obtain ⟨_, rfl, found⟩ := there
    exact completed _ fun span => found_object (found.behind opened)
  · exact .fail _ _
  · exact .fail _ _

theorem covers_argument_list :
    script.Covers (strict :: outer) i (argumentList rules) (script.FoundExprs strict i) := by
  refine .bind (covers_expect_mark _ _) fun _ j opened => ?_
  extract_lets finish
  have finished (items : List Expr) (k : Nat) (found : script.FoundExprs strict j items k) :
      script.Covers (strict :: outer) k (finish items) (script.FoundExprs strict i) :=
    .bind (covers_expect_mark _ _) fun _ l closed => .give ((found.behind opened).before closed)
  refine .bind (covers_check _) fun closed k there => ?_
  obtain ⟨rfl, -⟩ := there
  apply Covers.ite
  · intro _
    have none : script.Covers (strict :: outer) k (pure []) (script.FoundExprs strict k) := .give found_nothing
    exact none.bind finished
  · intro _
    exact .bind (covers_expressions covered false _) finished

theorem covers_member_suffix {object : Expr} (found : script.FoundExpr strict i object j) :
    script.Covers (strict :: outer) j (memberSuffix rules object) (script.FoundExpr strict i) := by
  refine .bind (covers_accept_mark _) fun dot k first => .ite (fun _ => ?_) fun _ => ?_
  · refine .bind covers_advance_word fun token l name => ?_
    split
    · next kind =>
      exact covers_complete fun span =>
        found_plain ((found.before first).before (name (by simp [kind]) (by simp [kind]))) rfl rfl nofun
    · next kind =>
      exact covers_complete fun span =>
        found_plain ((found.before first).before (name (by simp [kind]) (by simp [kind]))) rfl rfl nofun
    · exact .fail _ _
  · refine .bind (covers_expect_mark _ _) fun _ l opened => .bind (covers_expression covered false) fun key m others => ?_
    refine .bind (covers_expect_mark _ _) fun _ n closed => covers_complete fun span => ?_
    exact found_plain (((found.before first).before opened).and (others.before closed)) rfl rfl nofun

theorem covers_member_suffixes (fuel : Nat) {object : Expr} (found : script.FoundExpr strict i object j) :
    script.Covers (strict :: outer) j (memberSuffixes rules fuel object) (script.FoundExpr strict i) := by
  induction fuel generalizing j object with
  | zero => exact .broken
  | succ fuel ih =>
    refine .bind .get fun s k here => ?_
    obtain ⟨rfl, -⟩ := here
    refine .ite (fun _ => ?_) fun _ => .give found
    exact .bind (covers_member_suffix covered found) fun e l further => ih further

theorem covers_new_expression (keyword : script.kindAt i = some (.keyword .new)) :
    script.Covers (strict :: outer) i (newExpression rules) (script.FoundExpr strict i) := by
  obtain ⟨t, found, kind⟩ := Option.map_eq_some_iff.mp keyword
  refine .bind (covers_take found (by simp [kind])) fun token j there => ?_
  obtain ⟨rfl, rfl⟩ := there
  have first : script.Plain i (i + 1) := between_next found (plain_of_kind (by simp [kind]) (by simp [kind]))
  extract_lets start finish
  have finished (head : Expr) (k : Nat) (begun : script.FoundExpr strict (i + 1) head k) :
      script.Covers (strict :: outer) k (finish head) (script.FoundExpr strict i) := by
    refine .bind (covers_member_suffixes covered _ begun) fun callee l found => ?_
    refine .bind (covers_check _) fun called m there => ?_
    obtain ⟨rfl, -⟩ := there
    extract_lets complete
    have completed (items : List Expr) (n : Nat) (others : script.FoundExprs strict m items n) :
        script.Covers (strict :: outer) n (complete items) (script.FoundExpr strict i) :=
      covers_complete fun span => found_plain ((found.and others).behind first) rfl rfl nofun
    have none : script.Covers (strict :: outer) m (pure []) (script.FoundExprs strict m) := .give found_nothing
    exact .ite (fun _ => .bind (covers_argument_list covered) completed) fun _ => none.bind completed
  refine .bind (covers_check _) fun nested k there => ?_
  obtain ⟨rfl, nested⟩ := there
  apply Covers.ite
  · intro again
    exact .bind (covered.newExpression _ _ _ (nested.mp again)) finished
  · intro _
    exact .bind (covers_primary covered) finished

theorem covers_call_suffixes (fuel : Nat) {callee : Expr} (found : script.FoundExpr strict i callee j) :
    script.Covers (strict :: outer) j (callSuffixes rules fuel callee) (script.FoundExpr strict i) := by
  induction fuel generalizing j callee with
  | zero => exact .broken
  | succ fuel ih =>
    refine .bind (covers_check _) fun called k there => ?_
    obtain ⟨rfl, -⟩ := there
    apply Covers.ite
    · intro _
      refine .bind (covers_argument_list covered) fun items l others => ?_
      refine .bind (covers_span_from _) fun span m there => ?_
      obtain ⟨rfl, rfl⟩ := there
      exact ih (found_plain (found.and others) rfl rfl nofun)
    · intro _
      refine .bind .get fun s l here => ?_
      obtain ⟨rfl, -⟩ := here
      refine .ite (fun _ => ?_) fun _ => .give found
      exact .bind (covers_member_suffix covered found) fun e m further => ih further

theorem covers_left_hand_side :
    script.Covers (strict :: outer) i (leftHandSide rules) (script.FoundExpr strict i) := by
  refine .bind (covers_check _) fun constructs j there => ?_
  obtain ⟨rfl, constructs⟩ := there
  apply Covers.ite
  · intro new
    exact .bind (covers_new_expression covered (constructs.mp new)) fun e k found => covers_call_suffixes covered _ found
  · intro _
    exact .bind (covers_primary covered) fun e k found => covers_call_suffixes covered _ found

omit covered in
/-- An operator is neither a number nor a string. -/
theorem plain_of_operator {β : Type} {operator? : TokenKind → Option β} {op : β} (known : operator? t.kind = some op)
    (number : operator? .number = none) (string : operator? .string = none) : ¬ t.IsOctal := by
  refine plain_of_kind (fun kind => ?_) fun kind => ?_
  · rw [kind, number] at known
    cases known
  · rw [kind, string] at known
    cases known

theorem covers_postfix_update :
    script.Covers (strict :: outer) i (postfixUpdate rules) (script.FoundExpr strict i) := by
  refine .bind (covers_left_hand_side covered) fun target j found => .bind covers_peek fun token k there => ?_
  obtain ⟨rfl, mark⟩ := there
  split
  · next op update =>
    refine .ite (fun _ => .give found) fun _ => .bind (covers_check_target _) fun _ l there => ?_
    obtain ⟨rfl, allowed⟩ := there
    refine .bind (covers_skip mark (plain_of_operator update rfl rfl)) fun _ m passed => covers_complete fun span => ?_
    exact found_assigning (found.before passed) rfl allowed rfl nofun
  · exact .give found

theorem covers_unary : script.Covers (strict :: outer) i (unary rules) (script.FoundExpr strict i) := by
  refine .bind covers_peek fun token j there => ?_
  obtain ⟨rfl, mark⟩ := there
  extract_lets start
  split
  · next op known =>
    refine .bind (covers_skip mark (plain_of_operator known rfl rfl)) fun _ k passed => ?_
    refine .bind (covered.unary _ _ _) fun operand l found => .bind covers_is_strict fun around m there => ?_
    obtain ⟨rfl, rfl⟩ := there
    extract_lets finish
    have finished (allowed : around = true → ∀ name span, ExprForm.unary op operand ≠
        .unary .delete ⟨.identifier name, span⟩) :
        script.Covers (around :: outer) m (finish ()) (script.FoundExpr around j) := by
      refine covers_complete fun span => found_expr (found.behind passed) (fun always => ⟨nofun, ?_⟩)
        (List.forall_mem_nil _)
      exact allowed always
    refine .ite (fun _ => .fail_then _ _) fun allowed => finished fun always name span same => ?_
    cases same
    exact allowed (by rw [always]; rfl)
  · next op known update =>
    refine .bind (covers_skip mark (plain_of_operator update rfl rfl)) fun _ k passed => ?_
    refine .bind (covered.unary _ _ _) fun target l found => .bind (covers_check_target _) fun _ m there => ?_
    obtain ⟨rfl, allowed⟩ := there
    exact covers_complete fun span => found_assigning (found.behind passed) rfl allowed rfl nofun
  · exact covers_postfix_update covered

theorem covers_binary_rest (precedence : Nat) (noIn : Bool) (fuel : Nat) {left : Expr}
    (found : script.FoundExpr strict i left j) :
    script.Covers (strict :: outer) j (binaryRest rules precedence noIn fuel left) (script.FoundExpr strict i) := by
  induction fuel generalizing j left with
  | zero => exact .broken
  | succ fuel ih =>
    refine .bind covers_peek fun token k there => ?_
    obtain ⟨rfl, mark⟩ := there
    split
    · exact .give found
    · next p op known =>
      refine .ite (fun _ => .give found) fun _ => ?_
      refine .bind (covers_skip mark (plain_of_operator known rfl rfl)) fun _ l passed => ?_
      refine .bind (covered.binary _ _ _ _ _) fun right m others => ?_
      exact ih (found_operation (found.before passed) others)

theorem covers_binary (precedence : Nat) (noIn : Bool) :
    script.Covers (strict :: outer) i (binary rules precedence noIn) (script.FoundExpr strict i) :=
  .bind (covers_unary covered) fun _ _ found => covers_binary_rest covered precedence noIn _ found

theorem covers_conditional (noIn : Bool) :
    script.Covers (strict :: outer) i (conditional rules noIn) (script.FoundExpr strict i) := by
  refine .bind (covers_binary covered 0 noIn) fun test j found => .bind (covers_accept_mark _) fun chosen k question => ?_
  refine .ite (fun _ => ?_) fun _ => .give (found.before question)
  refine .bind (covered.assignment _ _ _ _) fun yes l first => .bind (covers_expect_mark _ _) fun _ m colon => ?_
  refine .bind (covered.assignment _ _ _ _) fun no n second => covers_complete fun span => ?_
  exact found_plain ((found.before question).and ((first.before colon).and second)) rfl rfl nofun

theorem covers_assignment (noIn : Bool) :
    script.Covers (strict :: outer) i (assignment rules noIn) (script.FoundExpr strict i) := by
  refine .bind .get fun s j here => ?_
  obtain ⟨rfl, here⟩ := here
  extract_lets token start
  have begins : script.tokens[j]? = some token := here.current
  refine .ite (fun _ => ?_) fun _ => .bind covers_at_parameter_list fun parameters k same => ?_
  · exact .bind (covers_binding_name _) fun name k there => covers_arrow_rest covered begins there.1 _
  subst same
  apply Covers.ite
  · intro _
    exact .bind (covers_parameter_list rules) fun parameters k listed => covers_arrow_rest covered begins listed _
  · intro _
    refine .bind (covers_conditional covered noIn) fun target l found => .bind covers_peek fun token m there => ?_
    obtain ⟨rfl, mark⟩ := there
    split
    · exact .give found
    · next op known =>
      refine .bind (covers_check_target _) fun _ n there => ?_
      obtain ⟨rfl, allowed⟩ := there
      refine .bind (covers_skip mark (plain_of_operator known rfl rfl)) fun _ o passed => ?_
      refine .bind (covered.assignment _ _ _ _) fun value p others => covers_complete fun span => ?_
      exact found_assigning ((found.before passed).and others) rfl allowed rfl nofun

end

end ScriptEngine.Grammar.Script
