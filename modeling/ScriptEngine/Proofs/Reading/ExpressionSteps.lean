import ScriptEngine.Proofs.Reading.Position
import ScriptEngine.Syntax.Grammar.Expression

/-!
The rules for expressions never break. An expression takes a token at least, and its span lies between the token
at which it was begun and the one behind it. The levels of nesting are counted against the tokens that are left:
a rule that goes back to the rules for one level less has passed a token before.
-/

namespace ScriptEngine.Grammar

namespace Script

variable (script : Script)

/-- A reader takes an expression that began at the token `first`. -/
def Takes (depths : List (Nat × Nat)) (first i : Nat) (read : Reader Expr) : Prop :=
  script.Steps depths i read fun e j => i < j ∧ script.Lies first j e.span

/-- The rules for a number of levels of nesting work where few enough tokens are left: two levels for each of them,
and a statement may need one more before its first token is passed. -/
structure Steady (rules : Rules) : Prop where
  assignment : ∀ depths i noIn, 2 * script.size ≤ rules.levels + 2 * i →
    script.Takes depths i i (rules.assignment noIn)
  binary : ∀ depths i precedence noIn, 2 * script.size ≤ rules.levels + 2 * i →
    script.Takes depths i i (rules.binary precedence noIn)
  unary : ∀ depths i, 2 * script.size ≤ rules.levels + 2 * i → script.Takes depths i i rules.unary
  newExpression : ∀ depths i, 2 * script.size ≤ rules.levels + 2 * i →
    script.kindAt i = some (.keyword .new) → script.Takes depths i i rules.newExpression
  statement : ∀ depths i, 2 * script.size + 1 ≤ rules.levels + 2 * i →
    script.Steps depths i rules.statement fun _ j => i < j
  item : ∀ depths i, 2 * script.size + 1 ≤ rules.levels + 2 * i →
    script.Steps depths i rules.item fun _ j => i < j

variable {script} {rules : Rules} {depths : List (Nat × Nat)} {first i k : Nat} {start : Nat}

/-- An expression is complete when its span is known. -/
theorem steps_complete {form : ExprForm} {j : Nat} (begins : script.Begins first j start) (forward : i < j) :
    script.Steps depths j (do return ⟨form, ← spanFrom start⟩) fun (e : Expr) k =>
      i < k ∧ script.Lies first k e.span := by
  refine .bind (steps_span_from begins) fun span k _ there => ?_
  obtain ⟨rfl, lies⟩ := there
  exact .give ⟨forward, lies⟩

/-! ## Targets and parameters -/

theorem steps_check_target {target : Expr} (fits : target.span.Fits script.source) :
    script.Steps depths i (checkTarget target) fun _ j => j = i := by
  unfold checkTarget
  split
  · refine .bind steps_is_strict fun strict j _ same => ?_
    subst same
    exact .ite (fun _ => .fail (by simp) fits) fun _ => .give rfl
  · exact .give rfl
  · exact .give rfl
  · exact .fail (by simp) fits

theorem steps_parameter_list (room : 2 * script.size ≤ rules.levels + 2 * i + 1) :
    script.Steps depths i (parameterList rules) fun parameters j =>
      i < j ∧ ∀ parameter ∈ parameters, parameter.2.span.Fits script.source := by
  refine .bind (steps_expect_mark _ _) fun _ j inside there => ?_
  subst there
  extract_lets parameter finish
  have finished (parameters : List (String × Token)) (j : Nat) (forward : i < j)
      (fits : ∀ parameter ∈ parameters, parameter.2.span.Fits script.source) :
      script.Steps depths j (finish parameters) fun parameters j =>
        i < j ∧ ∀ parameter ∈ parameters, parameter.2.span.Fits script.source := by
    refine .bind (steps_expect_mark _ _) fun _ k _ there => .give ⟨by omega, fits⟩
  have named (k : Nat) : script.Steps depths k parameter fun parameter l =>
      k < l ∧ parameter.2.span.Fits script.source := by
    refine .bind steps_peek fun token l _ there => ?_
    obtain ⟨rfl, found⟩ := there
    refine .bind (steps_binding_name _) fun name m _ there => .give ?_
    exact ⟨by omega, token_fits found⟩
  refine .bind (steps_check _) fun closed j _ there => ?_
  obtain ⟨rfl, -⟩ := there
  refine .ite (fun _ => ?_) fun _ => ?_
  · have none : script.Steps depths (i + 1) (pure []) fun (parameters : List (String × Token)) j =>
        i < j ∧ ∀ parameter ∈ parameters, parameter.2.span.Fits script.source :=
      .give ⟨Nat.lt_succ_self i, List.forall_mem_nil _⟩
    exact none.bind fun parameters j _ there => finished parameters j there.1 there.2
  · refine .bind (steps_separated _ (fun k _ => named k) (List.forall_mem_nil _) (by omega)) ?_
    intro parameters j _ there
    exact finished parameters j (by omega) there.2

theorem steps_check_strict_parameters (earlier : List String) (parameters : List (String × Token))
    (fits : ∀ parameter ∈ parameters, parameter.2.span.Fits script.source) :
    script.Steps depths i (checkStrictParameters earlier parameters) fun _ j => j = i := by
  induction parameters generalizing earlier with
  | nil => exact .give rfl
  | cons parameter rest ih =>
    obtain ⟨here, others⟩ := List.forall_mem_cons.mp fits
    refine .ite (fun _ => .fail_then (by simp) here) fun _ => ?_
    exact .ite (fun _ => .fail_then (by simp) here) fun _ => ih _ others

theorem steps_property_name : script.Steps depths i propertyName fun _ j => i ≤ j := by
  refine .bind steps_advance_any fun token j _ there => ?_
  obtain ⟨forward, fits⟩ := there
  split
  · exact .give forward
  · exact .give forward
  · exact .give forward
  · exact .give forward
  · exact .fail (by simp) fits

/-! ## Looking ahead -/

/-- As long as a parenthesis is open there is one to close, so that there is an answer. -/
theorem arrow_follows_answers {depth : Nat} (inner : 0 < depth) (tokens : List Token) :
    arrowFollows? depth tokens ≠ none := by
  fun_induction arrowFollows? depth tokens with
  | case1 depth => simp
  | case2 t rest depth kind ih => exact ih (Nat.succ_pos depth)
  | case3 t rest kind => exact absurd inner (Nat.lt_irrefl 0)
  | case4 t rest kind => simp
  | case5 t rest depth others kind ih => exact ih (Nat.pos_of_ne_zero others)
  | case6 t rest depth kind => simp
  | case7 t rest depth opens none last deeper ended ih => exact ih inner

theorem steps_at_parameter_list : script.Steps depths i atParameterList fun _ j => j = i := by
  refine .bind .get fun s j _ there => ?_
  obtain ⟨rfl, here⟩ := there
  refine .ite (fun opens => ?_) fun _ => .give rfl
  have answer : arrowFollows? 0 (s.current :: s.upcoming) ≠ none := by
    rw [arrowFollows?]
    · exact arrow_follows_answers Nat.one_pos s.upcoming
    · exact beq_iff_eq.mp opens
  cases follows : arrowFollows? 0 (s.current :: s.upcoming) with
  | none => exact absurd follows answer
  | some follows => exact .give rfl

/-! ## Functions -/

/-- A directive stands between quotes, so that there is text between them. -/
theorem directive_text {quote : Char} {inside : List Char} (quotes : quote = '"' ∨ quote = '\'') :
    directiveText? (quote :: (inside ++ [quote])) = some inside := by
  have one : quote.utf8Size = 1 := by
    rcases quotes with rfl | rfl <;> rfl
  have bytes : byteLength (quote :: (inside ++ [quote])) = 1 + byteLength inside + 1 := by
    simp only [byteLength_cons, byteLength_append, byteLength_nil, one]
    omega
  have between := slice_of_parts [quote] inside [quote]
  rw [byteLength_cons, byteLength_nil, one] at between
  rw [directiveText?, if_neg (by omega), bytes]
  exact between

theorem steps_obey_directive {token : Token} (found : script.tokens[k]? = some token)
    (string : token.kind = .string) : script.Steps depths i (obeyDirective token) fun _ j => j = i := by
  refine .bind .get fun s j _ there => ?_
  obtain ⟨rfl, here⟩ := there
  obtain ⟨quote, inside, quotes, text⟩ := script.lossless.strings token (List.mem_of_getElem? found) string
  rw [here.source, text, Option.bind_some, directive_text quotes]
  exact .ite (fun _ => steps_modify_body (by simp)) fun _ => .give rfl

/-- The end of the input stands for no operator, so that a token that does can be passed. -/
theorem goes_on_of_operator {α : Type} {operator : TokenKind → Option α} {token : Token} {op : α}
    (none : operator .endOfInput = none) (found : script.tokens[i]? = some token)
    (stands : operator token.kind = some op) : script.kindAt i ≠ some .endOfInput := by
  rw [kind_at found]
  intro same
  rw [Option.some.inj same, none] at stands
  cases stands

section

variable (steady : script.Steady rules)

include steady

theorem takes_expression (noIn : Bool) (room : 2 * script.size ≤ rules.levels + 2 * i) :
    script.Takes depths i i (expression rules noIn) := by
  refine .bind (steady.assignment _ i noIn room) fun e j inside there => ?_
  obtain ⟨forward, lies⟩ := there
  refine .bind (steps_check _) fun comma k _ there => ?_
  obtain ⟨rfl, found⟩ := there
  refine .ite (fun holds => ?_) fun _ => .give ⟨forward, lies⟩
  have mark := found.mp holds
  refine .bind (steps_pass (by simp [mark])) fun _ l _ there => ?_
  subst there
  have item (m : Nat) (later : k + 1 ≤ m) :
      script.Steps depths m (rules.assignment noIn) fun _ n => m < n ∧ True :=
    (steady.assignment _ m noIn (by omega)).weaken fun _ _ _ there => ⟨there.1, trivial⟩
  refine .bind (steps_separated _ item (by simp) (by omega)) fun rest m last there => ?_
  exact steps_complete (lies.begins.later (by omega) last) (by omega)

theorem steps_body_items (fuel : Nat) (stop : TokenKind) (inPrologue : Bool) (done : List Stmt)
    (room : 2 * script.size + 1 ≤ rules.levels + 2 * i) (lasts : script.size ≤ i + fuel) :
    script.Steps depths i (bodyItems rules fuel stop inPrologue done) fun _ j => i ≤ j := by
  induction fuel generalizing i inPrologue done with
  | zero => exact .of_at fun s here => absurd here.inside (by omega)
  | succ fuel ih =>
    refine .bind steps_peek fun token j _ there => ?_
    obtain ⟨rfl, found⟩ := there
    refine .ite (fun _ => .give (Nat.le_refl j)) fun _ => ?_
    refine .bind (steady.item _ j room) fun s k _ forward => ?_
    extract_lets directive rest
    have later : script.Steps depths k (rest ()) fun _ l => j ≤ l :=
      (ih _ _ (by omega) (by omega)).weaken fun _ l _ later => by omega
    refine .ite (fun obeyed => ?_) fun _ => later
    have string : token.kind = .string := by
      simp only [directive, Bool.and_eq_true, beq_iff_eq] at obeyed
      exact obeyed.1.2
    refine .bind (steps_obey_directive found string) fun _ l _ there => ?_
    subst there
    exact later

theorem steps_function_body (name : Option String) (kind : FunctionKind) {parameters : List (String × Token)}
    (fits : ∀ parameter ∈ parameters, parameter.2.span.Fits script.source)
    (begins : script.Begins first i start) (room : 2 * script.size ≤ rules.levels + 2 * i + 1) :
    script.Steps depths i (functionBody rules name kind parameters start) fun _ j => i < j := by
  refine .bind (steps_expect_mark _ _) fun _ j _ there => ?_
  subst there
  refine .bind steps_is_strict fun strict j inside there => ?_
  subst there
  refine .bind (steps_with_body _ _ (steps_body_items steady _ _ _ _ (by omega) (by omega))) ?_
  rintro ⟨statements, body⟩ j - forward
  dsimp -zeta only at forward ⊢
  refine .bind (steps_expect_mark _ _) fun _ k last there => ?_
  subst there
  have begins := begins.later (Nat.le_trans (Nat.le_succ i) (Nat.le_succ_of_le forward)) last
  extract_lets finish
  have finished : script.Steps depths (j + 1) (finish ()) fun _ k => i < k := by
    refine .bind (steps_source_from begins) fun source k _ there => ?_
    subst there
    refine .bind (steps_span_from begins) fun span k _ there => ?_
    obtain ⟨rfl, -⟩ := there
    exact .give (by omega)
  refine .ite (fun _ => ?_) fun _ => finished
  refine .bind (steps_check_strict_parameters _ _ fits) fun _ k _ there => ?_
  subst there
  exact finished

theorem steps_function_rest (kind : FunctionKind) (begins : script.Begins first i start)
    (room : 2 * script.size ≤ rules.levels + 2 * i + 1) :
    script.Steps depths i (functionRest rules kind start) fun _ j => i < j := by
  unfold functionRest
  extract_lets finish
  have finished (name : Option String) (j : Nat) (inside : j < script.size) (forward : i ≤ j) :
      script.Steps depths j (finish name) fun _ k => i < k := by
    refine .bind (steps_parameter_list (by omega)) fun parameters k inside there => ?_
    obtain ⟨later, fits⟩ := there
    refine (steps_function_body steady _ _ fits (begins.later (by omega) inside) (by omega)).weaken ?_
    intro _ l _ last
    omega
  refine .bind (steps_check _) fun named j _ there => ?_
  obtain ⟨rfl, -⟩ := there
  refine .ite (fun _ => ?_) fun _ => .ite (fun _ => ?_) fun _ => ?_
  · have read : script.Steps depths j (some <$> bindingName "function name") fun _ k => j ≤ k :=
      .map some (steps_binding_name _) fun _ k _ there => by omega
    exact read.bind finished
  · have nothing : script.Steps depths j (failHere .functionWithoutName) fun (_ : Option String) _ => False :=
      steps_fail_here (by simp)
    exact nothing.bind fun _ _ _ => False.elim
  · have none : script.Steps depths j (pure none) fun (_ : Option String) k => j ≤ k := .give (Nat.le_refl j)
    exact none.bind finished

theorem takes_arrow_rest {parameters : List (String × Token)}
    (fits : ∀ parameter ∈ parameters, parameter.2.span.Fits script.source)
    (begins : script.Begins first i start) (room : 2 * script.size ≤ rules.levels + 2 * i + 1) :
    script.Takes depths first i (arrowRest rules parameters start) := by
  refine .bind (steps_expect_mark _ _) fun _ j inside there => ?_
  subst there
  have begins := begins.later (Nat.le_succ i) inside
  extract_lets finish
  have finished (code : FunctionCode) (j : Nat) (inside : j < script.size) (forward : i + 1 ≤ j) :
      script.Steps depths j (finish code) fun e k => i < k ∧ script.Lies first k e.span :=
    steps_complete (begins.later forward inside) forward
  refine .bind (steps_check _) fun braces j _ there => ?_
  obtain ⟨rfl, -⟩ := there
  refine .ite (fun _ => ?_) fun _ => ?_
  · refine .bind (steps_function_body steady _ _ fits begins (by omega)) fun code j inside forward => ?_
    exact finished code j inside (Nat.le_of_lt forward)
  · refine .bind steps_is_strict fun strict j _ there => ?_
    subst there
    refine .bind (steps_with_body _ _ (steady.assignment _ _ false (by omega))) ?_
    rintro ⟨value, body⟩ j inside ⟨forward, -⟩
    dsimp -zeta only at forward ⊢
    have begins := begins.later (Nat.le_of_lt forward) inside
    extract_lets complete
    have completed : script.Steps depths j (complete ()) fun e k => i < k ∧ script.Lies first k e.span := by
      refine .bind (steps_source_from begins) fun source k _ there => ?_
      subst there
      refine .bind (steps_span_from begins) fun span k inside there => ?_
      obtain ⟨rfl, -⟩ := there
      have made (code : FunctionCode) : script.Steps depths k (pure code) fun _ l => i + 1 ≤ l :=
        .give (Nat.le_of_lt forward)
      exact (made _).bind finished
    refine .ite (fun _ => ?_) fun _ => completed
    refine .bind (steps_check_strict_parameters _ _ fits) fun _ k _ there => ?_
    subst there
    exact completed

/-! ## Literals -/

theorem steps_array_elements (fuel : Nat) (done : List (Option Expr))
    (room : 2 * script.size ≤ rules.levels + 2 * i) (lasts : script.size ≤ i + fuel) :
    script.Steps depths i (arrayElements rules fuel done) fun _ j => i < j := by
  induction fuel generalizing i done with
  | zero => exact .of_at fun s here => absurd here.inside (by omega)
  | succ fuel ih =>
    refine .bind (steps_accept_mark _) fun closed j _ there => ?_
    refine .ite (fun holds => .give (by have := there.1 holds; omega)) fun none => ?_
    obtain rfl := there.2 (Bool.eq_false_iff.mpr none)
    have later (k : Nat) (forward : j < k) (done : List (Option Expr)) :
        script.Steps depths k (arrayElements rules fuel done) fun _ l => j < l :=
      (ih done (by omega) (by omega)).weaken fun _ l _ later => by omega
    refine .bind (steps_accept_mark _) fun comma k _ there => ?_
    refine .ite (fun holds => later k (by have := there.1 holds; omega) _) fun none => ?_
    obtain rfl := there.2 (Bool.eq_false_iff.mpr none)
    refine .bind (steady.assignment _ k false room) fun element l _ there => ?_
    obtain ⟨forward, -⟩ := there
    refine .bind (steps_check _) fun last m _ there => ?_
    obtain ⟨rfl, -⟩ := there
    refine .ite (fun _ => later m forward _) fun _ => ?_
    exact .bind (steps_expect_mark _ _) fun _ n _ there => later n (by omega) _

theorem steps_object_entry (room : 2 * script.size ≤ rules.levels + 2 * i) :
    script.Steps depths i (objectEntry rules) fun _ j => i < j := by
  refine .bind .get fun s j _ there => ?_
  obtain ⟨rfl, here⟩ := there
  extract_lets token start isGetter
  have begins {k : Nat} (inside : k < script.size) (forward : j < k) : script.Begins j k start :=
    begins_at here.current inside forward
  refine .ite (fun accessor => ?_) fun _ => ?_
  · have name : script.kindAt j = some .identifier := by
      simp only [Bool.and_eq_true, beq_iff_eq] at accessor
      rw [here.kind, accessor.1.1]
    refine .bind (steps_pass (by simp [name])) fun _ k _ there => ?_
    subst there
    refine .bind steps_property_name fun key k _ forward => ?_
    refine .bind (steps_parameter_list (by omega)) fun parameters l inside there => ?_
    obtain ⟨later, fits⟩ := there
    extract_lets finish
    have finished : script.Steps depths l (finish ()) fun _ m => j < m := by
      refine .bind (steps_function_body steady _ _ fits (begins inside (by omega)) (by omega)) ?_
      intro code m inside last
      refine .bind (steps_span_from (begins inside (by omega))) fun span n _ there => ?_
      obtain ⟨rfl, -⟩ := there
      exact .give (by omega)
    have refused (fault : SyntaxFault) (known : fault ≠ .brokenReader) :
        script.Steps depths l (failAt token.span fault >>= finish) fun _ m => j < m :=
      .fail_then known here.fits
    refine .ite (fun _ => ?_) fun _ => ?_
    · exact .ite (fun _ => finished) fun _ => refused _ (by simp)
    · exact .ite (fun _ => finished) fun _ => refused _ (by simp)
  · refine .bind steps_property_name fun key k _ forward => ?_
    refine .bind (steps_expect_mark _ _) fun _ l _ there => ?_
    subst there
    refine .bind (steady.assignment _ _ false (by omega)) fun value m inside there => ?_
    obtain ⟨later, -⟩ := there
    refine .bind (steps_span_from (begins inside (by omega))) fun span n _ there => ?_
    obtain ⟨rfl, -⟩ := there
    exact .give (by omega)

theorem steps_object_entries (fuel : Nat) (done : List Entry)
    (room : 2 * script.size ≤ rules.levels + 2 * i) (lasts : script.size ≤ i + fuel) :
    script.Steps depths i (objectEntries rules fuel done) fun _ j => i < j := by
  induction fuel generalizing i done with
  | zero => exact .of_at fun s here => absurd here.inside (by omega)
  | succ fuel ih =>
    refine .bind (steps_accept_mark _) fun closed j _ there => ?_
    refine .ite (fun holds => .give (by have := there.1 holds; omega)) fun none => ?_
    obtain rfl := there.2 (Bool.eq_false_iff.mpr none)
    refine .bind (steps_object_entry steady room) fun entry k _ forward => ?_
    have later (l : Nat) (further : k ≤ l) :
        script.Steps depths l (objectEntries rules fuel (entry :: done)) fun _ m => j < m :=
      (ih _ (by omega) (by omega)).weaken fun _ m _ later => by omega
    refine .bind (steps_check _) fun last l _ there => ?_
    obtain ⟨rfl, -⟩ := there
    refine .ite (fun _ => later l (Nat.le_refl l)) fun _ => ?_
    exact .bind (steps_expect_mark _ _) fun _ m _ there => later m (by omega)

/-! ## Expressions -/

theorem takes_primary (room : 2 * script.size ≤ rules.levels + 2 * i + 1) :
    script.Takes depths i i (primary rules) := by
  refine .bind steps_peek fun token j _ there => ?_
  obtain ⟨rfl, found⟩ := there
  extract_lets complete name number string
  have completed (form : ExprForm) (k : Nat) (inside : k < script.size) (forward : j < k) :
      script.Steps depths k (complete form) fun e l => j < l ∧ script.Lies j l e.span :=
    steps_complete (begins_at found inside forward) forward
  have fits := token_fits found
  have kind := kind_at found
  have passed (proper : token.kind ≠ .endOfInput) {rest : Unit → Reader Expr}
      (steps : j + 1 < script.size → script.Steps depths (j + 1) (rest ()) fun e l =>
        j < l ∧ script.Lies j l e.span) :
      script.Steps depths j (discard advance >>= rest) fun e l => j < l ∧ script.Lies j l e.span := by
    refine .bind (steps_pass (by simpa [kind] using proper)) fun _ k inside there => ?_
    subst there
    exact steps inside
  have literal (inside : j + 1 < script.size) (form : ExprForm) := completed form (j + 1) inside (Nat.lt_succ_self j)
  split
  · next same => exact passed (by simp [same]) fun inside => literal inside _
  · next same =>
    refine passed (by simp [same]) fun inside => .ite (fun _ => ?_) fun _ => literal inside _
    refine .bind steps_mention_arguments fun _ k _ there => ?_
    subst there
    exact literal inside _
  · next same =>
    refine passed (by simp [same]) fun inside => .bind steps_is_strict fun _ k _ there => ?_
    subst there
    exact .ite (fun _ => .fail_then (by simp) fits) fun _ => literal inside _
  · next same =>
    refine passed (by simp [same]) fun inside => .bind steps_is_strict fun _ k _ there => ?_
    subst there
    exact .ite (fun _ => .fail_then (by simp) fits) fun _ => literal inside _
  · next same => exact passed (by simp [same]) fun inside => literal inside _
  · next same => exact passed (by simp [same]) fun inside => literal inside _
  · next same => exact passed (by simp [same]) fun inside => literal inside _
  · next same =>
    refine passed (by simp [same]) fun inside => ?_
    have begins := begins_at found inside (Nat.lt_succ_self j)
    refine .bind (steps_function_rest steady _ begins (by omega)) fun code k inside forward => ?_
    exact completed _ k inside (by omega)
  · next same =>
    refine passed (by simp [same]) fun inside => ?_
    refine .bind (takes_expression steady false (by omega)) fun inner k inside there => ?_
    obtain ⟨forward, lies⟩ := there
    refine .bind (steps_expect_mark _ _) fun _ l inside there => .give ?_
    subst there
    exact ⟨by omega, (lies.earlier (Nat.le_succ j) (by omega)).later (Nat.le_succ k) inside⟩
  · next same =>
    refine passed (by simp [same]) fun inside => ?_
    refine .bind (steps_array_elements steady _ _ (by omega) (by omega)) fun elements k inside forward => ?_
    exact completed _ k inside (by omega)
  · next same =>
    refine passed (by simp [same]) fun inside => ?_
    refine .bind (steps_object_entries steady _ _ (by omega) (by omega)) fun entries k inside forward => ?_
    exact completed _ k inside (by omega)
  · exact .fail (by simp) fits
  · exact .fail (by simp) fits

theorem steps_argument_list (room : 2 * script.size ≤ rules.levels + 2 * i + 1) :
    script.Steps depths i (argumentList rules) fun _ j => i < j := by
  refine .bind (steps_expect_mark _ _) fun _ j inside there => ?_
  subst there
  extract_lets finish
  have finished (items : List Expr) (j : Nat) (_ : j < script.size) (forward : i < j) :
      script.Steps depths j (finish items) fun _ k => i < k :=
    .bind (steps_expect_mark _ _) fun _ k _ there => .give (by omega)
  refine .bind (steps_check _) fun closed j _ there => ?_
  obtain ⟨rfl, -⟩ := there
  refine .ite (fun _ => ?_) fun _ => ?_
  · have none : script.Steps depths (i + 1) (pure []) fun (_ : List Expr) j => i < j := .give (Nat.lt_succ_self i)
    exact none.bind finished
  · have item (k : Nat) (later : i + 1 ≤ k) :
        script.Steps depths k (rules.assignment false) fun _ l => k < l ∧ True :=
      (steady.assignment _ k false (by omega)).weaken fun _ _ _ there => ⟨there.1, trivial⟩
    have items : script.Steps depths (i + 1) (readSeparated rules.levels (rules.assignment false) [])
        fun _ j => i < j :=
      (steps_separated _ item (by simp) (by omega)).weaken fun _ j _ there => by omega
    exact items.bind finished

theorem takes_member_suffix {object : Expr} (lies : script.Lies first i object.span)
    (room : 2 * script.size ≤ rules.levels + 2 * i + 1) :
    script.Takes depths first i (memberSuffix rules object) := by
  have finished (form : ExprForm) (j : Nat) (inside : j < script.size) (forward : i < j) :
      script.Steps depths j (do return ⟨form, ← spanFrom object.span.start⟩) fun (e : Expr) k =>
        i < k ∧ script.Lies first k e.span :=
    steps_complete (lies.begins.later (Nat.le_of_lt forward) inside) forward
  refine .bind (steps_accept_mark _) fun dot j _ there => .ite (fun holds => ?_) fun none => ?_
  · obtain ⟨rfl, -⟩ := there.1 holds
    refine .bind steps_advance_any fun token k inside there => ?_
    obtain ⟨forward, fits⟩ := there
    split
    · exact finished _ k inside (by omega)
    · exact finished _ k inside (by omega)
    · exact .fail (by simp) fits
  · obtain rfl := there.2 (Bool.eq_false_iff.mpr none)
    refine .bind (steps_expect_mark _ _) fun _ k _ there => ?_
    subst there
    refine .bind (takes_expression steady false (by omega)) fun key k _ there => ?_
    obtain ⟨forward, -⟩ := there
    exact .bind (steps_expect_mark _ _) fun _ l inside there => finished _ l inside (by omega)

theorem steps_member_suffixes (fuel : Nat) {object : Expr} (lies : script.Lies first i object.span)
    (room : 2 * script.size ≤ rules.levels + 2 * i + 1) (lasts : script.size ≤ i + fuel) :
    script.Steps depths i (memberSuffixes rules fuel object) fun e j => i ≤ j ∧ script.Lies first j e.span := by
  induction fuel generalizing i object with
  | zero => exact .of_at fun s here => absurd here.inside (by omega)
  | succ fuel ih =>
    refine .bind .get fun s j _ there => ?_
    obtain ⟨rfl, -⟩ := there
    refine .ite (fun _ => ?_) fun _ => .give ⟨Nat.le_refl j, lies⟩
    refine .bind (takes_member_suffix steady lies room) fun e k _ there => ?_
    obtain ⟨forward, lies⟩ := there
    exact (ih lies (by omega) (by omega)).weaken fun e l _ there => ⟨by omega, there.2⟩

theorem takes_new_expression (keyword : script.kindAt i = some (.keyword .new))
    (room : 2 * script.size ≤ rules.levels + 2 * i + 1) :
    script.Takes depths i i (newExpression rules) := by
  refine .bind (steps_advance (by simp [keyword])) fun token j inside there => ?_
  obtain ⟨rfl, found⟩ := there
  extract_lets start finish
  have begins {k : Nat} (inside : k < script.size) (forward : i < k) : script.Begins i k start :=
    begins_at found inside forward
  have finished (head : Expr) (j : Nat) (_ : j < script.size)
      (there : i + 1 < j ∧ script.Lies (i + 1) j head.span) :
      script.Steps depths j (finish head) fun e k => i < k ∧ script.Lies i k e.span := by
    obtain ⟨forward, lies⟩ := there
    refine .bind (steps_member_suffixes steady _ lies (by omega) (by omega)) fun callee k _ there => ?_
    obtain ⟨later, -⟩ := there
    refine .bind (steps_check _) fun called l _ there => ?_
    obtain ⟨rfl, -⟩ := there
    extract_lets complete
    have completed (items : List Expr) (m : Nat) (inside : m < script.size) (further : i < m) :
        script.Steps depths m (complete items) fun e n => i < n ∧ script.Lies i n e.span :=
      steps_complete (begins inside further) further
    refine .ite (fun _ => ?_) fun _ => ?_
    · exact .bind (steps_argument_list steady (by omega)) fun items m inside further =>
        completed items m inside (by omega)
    · have none : script.Steps depths l (pure []) fun (_ : List Expr) m => i < m := .give (by omega)
      exact none.bind completed
  refine .bind (steps_check _) fun nested j _ there => ?_
  obtain ⟨rfl, same⟩ := there
  refine .ite (fun holds => ?_) fun _ => ?_
  · exact .bind (steady.newExpression _ _ (by omega) (same.mp holds)) finished
  · exact .bind (takes_primary steady (by omega)) finished

theorem steps_call_suffixes (fuel : Nat) {callee : Expr} (lies : script.Lies first i callee.span)
    (room : 2 * script.size ≤ rules.levels + 2 * i + 1) (lasts : script.size ≤ i + fuel) :
    script.Steps depths i (callSuffixes rules fuel callee) fun e j => i ≤ j ∧ script.Lies first j e.span := by
  induction fuel generalizing i callee with
  | zero => exact .of_at fun s here => absurd here.inside (by omega)
  | succ fuel ih =>
    have later (e : Expr) (k : Nat) (forward : i < k) (lies : script.Lies first k e.span) :
        script.Steps depths k (callSuffixes rules fuel e) fun e j => i ≤ j ∧ script.Lies first j e.span :=
      (ih lies (by omega) (by omega)).weaken fun e l _ there => ⟨by omega, there.2⟩
    refine .bind (steps_check _) fun called j _ there => ?_
    obtain ⟨rfl, -⟩ := there
    refine .ite (fun _ => ?_) fun _ => ?_
    · refine .bind (steps_argument_list steady room) fun items k inside forward => ?_
      refine .bind (steps_span_from (lies.begins.later (Nat.le_of_lt forward) inside)) fun span l _ there => ?_
      obtain ⟨rfl, lies⟩ := there
      exact later _ l forward lies
    · refine .bind .get fun s k _ there => ?_
      obtain ⟨rfl, -⟩ := there
      refine .ite (fun _ => ?_) fun _ => .give ⟨Nat.le_refl k, lies⟩
      exact .bind (takes_member_suffix steady lies room) fun e l _ there => later e l there.1 there.2

theorem takes_left_hand_side (room : 2 * script.size ≤ rules.levels + 2 * i + 1) :
    script.Takes depths i i (leftHandSide rules) := by
  unfold leftHandSide
  extract_lets finish
  have finished (head : Expr) (j : Nat) (inside : j < script.size) (there : i < j ∧ script.Lies i j head.span) :
      script.Steps depths j (finish head) fun e k => i < k ∧ script.Lies i k e.span :=
    (steps_call_suffixes steady _ there.2 (by omega) (by omega)).weaken fun e k _ later => ⟨by omega, later.2⟩
  refine .bind (steps_check _) fun constructs j _ there => ?_
  obtain ⟨rfl, same⟩ := there
  refine .ite (fun holds => ?_) fun _ => ?_
  · exact .bind (takes_new_expression steady (same.mp holds) room) finished
  · exact .bind (takes_primary steady room) finished

theorem takes_postfix_update (room : 2 * script.size ≤ rules.levels + 2 * i + 1) :
    script.Takes depths i i (postfixUpdate rules) := by
  refine .bind (takes_left_hand_side steady room) fun target j _ there => ?_
  obtain ⟨forward, lies⟩ := there
  refine .bind steps_peek fun token k _ there => ?_
  obtain ⟨rfl, found⟩ := there
  split
  · next op update =>
    refine .ite (fun _ => .give ⟨forward, lies⟩) fun _ => ?_
    refine .bind (steps_check_target lies.fits) fun _ l _ there => ?_
    subst there
    refine .bind (steps_pass (goes_on_of_operator rfl found update)) fun _ l inside there => ?_
    subst there
    exact steps_complete (lies.begins.later (Nat.le_succ l) inside) (by omega)
  · exact .give ⟨forward, lies⟩

theorem takes_unary (room : 2 * script.size ≤ rules.levels + 2 * i + 1) :
    script.Takes depths i i (unary rules) := by
  refine .bind steps_peek fun token j _ there => ?_
  obtain ⟨rfl, found⟩ := there
  have fits := token_fits found
  extract_lets start
  have begins {k : Nat} (inside : k < script.size) (forward : j < k) : script.Begins j k start :=
    begins_at found inside forward
  split
  · next op operator =>
    refine .bind (steps_pass (goes_on_of_operator rfl found operator)) fun _ k _ there => ?_
    subst there
    refine .bind (steady.unary _ _ (by omega)) fun operand k inside there => ?_
    obtain ⟨forward, -⟩ := there
    refine .bind steps_is_strict fun strict l _ there => ?_
    subst there
    extract_lets finish
    have finished : script.Steps depths l (finish ()) fun e m => j < m ∧ script.Lies j m e.span :=
      steps_complete (begins inside (by omega)) (by omega)
    exact .ite (fun _ => .fail_then (by simp) fits) fun _ => finished
  · next op operator =>
    refine .bind (steps_pass (goes_on_of_operator rfl found operator)) fun _ k _ there => ?_
    subst there
    refine .bind (steady.unary _ _ (by omega)) fun target k inside there => ?_
    obtain ⟨forward, lies⟩ := there
    refine .bind (steps_check_target lies.fits) fun _ l _ there => ?_
    subst there
    exact steps_complete (begins inside (by omega)) (by omega)
  · exact takes_postfix_update steady room

theorem steps_binary_rest (precedence : Nat) (noIn : Bool) (fuel : Nat) {left : Expr}
    (lies : script.Lies first i left.span) (behind : 0 < i) (room : 2 * script.size ≤ rules.levels + 2 * i + 1)
    (lasts : script.size ≤ i + fuel) :
    script.Steps depths i (binaryRest rules precedence noIn fuel left) fun e j =>
      i ≤ j ∧ script.Lies first j e.span := by
  induction fuel generalizing i left with
  | zero => exact .of_at fun s here => absurd here.inside (by omega)
  | succ fuel ih =>
    refine .bind steps_peek fun token j _ there => ?_
    obtain ⟨rfl, found⟩ := there
    split
    · exact .give ⟨Nat.le_refl j, lies⟩
    · next p op infixed =>
      refine .ite (fun _ => .give ⟨Nat.le_refl j, lies⟩) fun _ => ?_
      refine .bind (steps_pass (goes_on_of_operator rfl found infixed)) fun _ k last there => ?_
      subst there
      refine .bind (steady.binary _ _ _ _ (by omega)) fun right k inside there => ?_
      obtain ⟨forward, others⟩ := there
      have covers : script.Lies first k (op.apply left right).span :=
        lies.cover others behind (Nat.le_succ j) last
      exact (ih covers (by omega) (by omega) (by omega)).weaken fun e l _ there => ⟨by omega, there.2⟩

theorem takes_binary (precedence : Nat) (noIn : Bool) (room : 2 * script.size ≤ rules.levels + 2 * i + 1) :
    script.Takes depths i i (binary rules precedence noIn) := by
  refine .bind (takes_unary steady room) fun left j _ there => ?_
  obtain ⟨forward, lies⟩ := there
  refine (steps_binary_rest steady precedence noIn _ lies (by omega) (by omega) (by omega)).weaken ?_
  intro e k _ later
  exact ⟨by omega, later.2⟩

theorem takes_conditional (noIn : Bool) (room : 2 * script.size ≤ rules.levels + 2 * i + 1) :
    script.Takes depths i i (conditional rules noIn) := by
  refine .bind (takes_binary steady 0 noIn room) fun test j _ there => ?_
  obtain ⟨forward, lies⟩ := there
  refine .bind (steps_accept_mark _) fun chosen k _ there => ?_
  refine .ite (fun holds => ?_) fun none => ?_
  · obtain ⟨rfl, -⟩ := there.1 holds
    refine .bind (steady.assignment _ _ _ (by omega)) fun yes l _ there => ?_
    obtain ⟨later, -⟩ := there
    refine .bind (steps_expect_mark _ _) fun _ m _ there => ?_
    subst there
    refine .bind (steady.assignment _ _ _ (by omega)) fun no n inside there => ?_
    obtain ⟨last, -⟩ := there
    exact steps_complete (lies.begins.later (by omega) inside) (by omega)
  · obtain rfl := there.2 (Bool.eq_false_iff.mpr none)
    exact .give ⟨forward, lies⟩

theorem takes_assignment (noIn : Bool) (room : 2 * script.size ≤ rules.levels + 2 * i + 1) :
    script.Takes depths i i (assignment rules noIn) := by
  refine .bind .get fun s j _ there => ?_
  obtain ⟨rfl, here⟩ := there
  extract_lets token start
  have begins {k : Nat} (inside : k < script.size) (forward : j < k) : script.Begins j k start :=
    begins_at here.current inside forward
  refine .ite (fun _ => ?_) fun _ => .bind steps_at_parameter_list fun parameters k _ there => ?_
  · refine .bind (steps_binding_name _) fun name k inside there => ?_
    subst there
    have fits : ∀ parameter ∈ [(name, token)], parameter.2.span.Fits script.source :=
      List.forall_mem_singleton.mpr here.fits
    refine (takes_arrow_rest steady fits (begins inside (Nat.lt_succ_self j)) (by omega)).weaken ?_
    intro e l _ later
    exact ⟨by omega, later.2⟩
  · subst there
    refine .ite (fun _ => ?_) fun _ => ?_
    · refine .bind (steps_parameter_list room) fun parameters l inside there => ?_
      obtain ⟨forward, fits⟩ := there
      refine (takes_arrow_rest steady fits (begins inside forward) (by omega)).weaken ?_
      intro e m _ later
      exact ⟨by omega, later.2⟩
    · refine .bind (takes_conditional steady noIn room) fun target l _ there => ?_
      obtain ⟨forward, lies⟩ := there
      refine .bind steps_peek fun next m _ there => ?_
      obtain ⟨rfl, found⟩ := there
      split
      · exact .give ⟨forward, lies⟩
      · next op assigns =>
        refine .bind (steps_check_target lies.fits) fun _ n _ there => ?_
        subst there
        refine .bind (steps_pass (goes_on_of_operator rfl found assigns)) fun _ n _ there => ?_
        subst there
        refine .bind (steady.assignment _ _ _ (by omega)) fun value n inside there => ?_
        obtain ⟨later, -⟩ := there
        exact steps_complete (begins inside (by omega)) (by omega)

end

end Script
end ScriptEngine.Grammar
