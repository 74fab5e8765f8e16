import ScriptEngine.Proofs.Jumps.Reading
import ScriptEngine.Syntax.Grammar.Statement

/-!
The rules for expressions read sound expressions: every jump in a function inside of them has somewhere
to end. They rely on the rules for one level of nesting less.
-/

namespace ScriptEngine.Grammar

/-! ## What a place offers -/

/-- The statements around a place take the jumps that are allowed where this is known. A label may also
stand directly before the place and announce a loop that begins there. -/
structure Fits (place : Place) (known : BodyOutline) (outer : List BodyOutline) : Prop where
  inFunction : outer ≠ [] → place.inFunction = true
  breaks : ∀ entry ∈ known.labels, ∃ scope ∈ place.scopes, scope.endsBreak (some entry.name)
  continues : ∀ entry ∈ known.labels, entry.iteration →
    (∃ scope ∈ place.scopes, scope.endsContinue (some entry.name)) ∨ entry.name ∈ place.labels
  loops : known.iterationDepth ≠ 0 → ∃ scope ∈ place.scopes, scope.endsContinue none
  choices : known.iterationDepth ≠ 0 ∨ known.switchDepth ≠ 0 →
    ∃ scope ∈ place.scopes, scope.endsBreak none

/-- Where nothing is known, nothing has to be offered. -/
theorem fits_start (place : Place) (outer : List BodyOutline)
    (inFunction : outer ≠ [] → place.inFunction = true) : Fits place .start outer where
  inFunction := inFunction
  breaks := by simp [BodyOutline.start]
  continues := by simp [BodyOutline.start]
  loops := by simp [BodyOutline.start]
  choices := by simp [BodyOutline.start]

/-- What a place offers does not depend on the blocks around it. -/
theorem fits_in_block {place : Place} {known : BodyOutline} {outer : List BodyOutline}
    (fits : Fits place known outer) (names : List LexicalName) :
    Fits place (known.inBlock names) outer :=
  ⟨fits.inFunction, fits.breaks, fits.continues, fits.loops, fits.choices⟩

/-- A statement may be read for a place. If labels directly before it announce a loop, then a loop
follows. -/
structure Ready (place : Place) (known : BodyOutline) (outer : List BodyOutline) (s : ReadingState) :
    Prop where
  reached : s.Reached (known :: outer)
  fits : Fits place known outer
  otherwise : labelsLoop (s.current :: s.upcoming) = false → Fits place.inside known outer

/-- A statement that stands alone is sound and declares nothing there. -/
structure SoundStatement (place : Place) (s : Stmt) : Prop where
  sound : (Node.stmt place s).Sound
  declared : s.form.declared = []

/-- A rule for statements reads sound ones wherever it is applied. -/
def ReadsStatement (read : Reader Stmt) : Prop :=
  ∀ place known outer,
    Leads (Ready place known outer) (fun _ => ReadingState.Reached (known :: outer)) read
      (SoundStatement place)

/-- A rule for members of a list of statements reads sound ones, and the innermost block declares their
names. -/
def ReadsItem (read : Reader Stmt) : Prop :=
  ∀ place known outer, place.labels = [] → Fits place known outer → ∀ names,
    Leads (ReadingState.Reached (known.inBlock names :: outer))
      (fun s => ReadingState.Reached (known.inBlock (names ++ s.form.declared) :: outer)) read
      fun s => (Node.stmt place s).Sound

/-- The rules read what is sound. -/
structure Rules.Sound (rules : Rules) : Prop where
  assignment : ∀ around noIn,
    Reads around (rules.assignment noIn) fun e => (Node.expr e).Sound
  binary : ∀ around precedence noIn,
    Reads around (rules.binary precedence noIn) fun e => (Node.expr e).Sound
  unary : ∀ around, Reads around rules.unary fun e => (Node.expr e).Sound
  newExpression : ∀ around, Reads around rules.newExpression fun e => (Node.expr e).Sound
  statement : ReadsStatement rules.statement
  item : ReadsItem rules.item

variable {around : List BodyOutline} {rules : Rules}

/-! ## Sound parts -/

/-- An expression is sound if the parts directly inside of it are. -/
theorem sound_expr {form : ExprForm} {span : Span}
    (inner : ∀ child ∈ form.children, child.Sound) : (Node.expr ⟨form, span⟩).Sound :=
  .intro trivial inner

theorem sound_exprs {items : List Expr} (sound : ∀ e ∈ items, (Node.expr e).Sound) :
    ∀ child ∈ items.map Node.expr, child.Sound :=
  List.forall_mem_map.mpr sound

theorem sound_operation {op : InfixOp} {left right : Expr} (first : (Node.expr left).Sound)
    (second : (Node.expr right).Sound) : (Node.expr (op.apply left right)).Sound := by
  cases op <;> exact sound_expr (by simp [ExprForm.children, first, second])

/-- A function is sound if its statements and the functions noted in its body are, and its names are those
that its body declares. -/
theorem sound_code {code : FunctionCode} (names : Declares code.scope.lexical code.body)
    (body : ∀ s ∈ code.body, (Node.stmt .function s).Sound)
    (functions : ∀ c ∈ code.scope.functions, (Node.code c).Sound) : (Node.code code).Sound := by
  refine .intro names fun child mem => ?_
  rcases List.mem_append.mp mem with inBody | bound
  · exact List.forall_mem_map.mpr body child inBody
  · exact List.forall_mem_map.mpr functions child bound

/-- The value of an arrow function is what its only statement returns. -/
theorem sound_arrow {value : Expr} (holds : (Node.expr value).Sound) :
    (Node.stmt .function ⟨.ret (some value), value.span⟩).Sound :=
  .intro rfl (List.forall_mem_singleton.mpr holds)

/-! ## Targets and parameters -/

theorem reads_check_target (target : Expr) : Reads around (checkTarget target) fun _ => True := by
  unfold checkTarget
  split
  · exact .bind reads_is_strict fun _ _ => .ite (.fail _ _) (.pure trivial)
  · exact .pure trivial
  · exact .pure trivial
  · exact .fail _ _

theorem reads_parameter_list (rules : Rules) : Reads around (parameterList rules) fun _ => True := by
  refine .bind (reads_expect _ _) fun _ _ => ?_
  extract_lets parameter finish
  have finished (parameters : List (String × Token)) :
      Reads around (finish parameters) fun _ => True :=
    .bind (reads_expect _ _) fun _ _ => .pure trivial
  have named : Reads around parameter fun _ => True :=
    .bind reads_peek fun token _ => .bind (reads_binding_name _) fun _ _ => .pure trivial
  refine .bind (reads_check _) fun closed _ => .ite ?_ ?_
  · exact .bind (.pure trivial) fun parameters (_ : True) => finished parameters
  · exact .bind (reads_separated named _ (by simp)) fun parameters _ => finished parameters

theorem reads_check_strict_parameters (earlier : List String) (parameters : List (String × Token)) :
    Reads around (checkStrictParameters earlier parameters) fun _ => True := by
  induction parameters generalizing earlier with
  | nil => exact .pure trivial
  | cons parameter rest ih =>
    exact .ite (.fail_then _ _ _) (.ite (.fail_then _ _ _) (ih _))

theorem reads_property_name : Reads around propertyName fun _ => True := by
  refine .bind reads_advance fun token _ => ?_
  split
  · exact .pure trivial
  · exact .pure trivial
  · exact .pure trivial
  · exact .pure trivial
  · exact .fail _ _

theorem reads_obey_directive (token : Token) : Reads around (obeyDirective token) fun _ => True := by
  refine .bind .get fun s _ => ?_
  split
  · exact .ite (reads_modify_body _ (fun _ => rfl) fun _ => rfl) (.pure trivial)
  · exact .broken

theorem reads_at_parameter_list : Reads around atParameterList fun _ => True := by
  refine .bind .get fun s _ => .ite ?_ (.pure trivial)
  split
  · exact .pure trivial
  · exact .broken

section

variable (sound : rules.Sound)

include sound

theorem reads_expression (noIn : Bool) :
    Reads around (expression rules noIn) fun e => (Node.expr e).Sound := by
  refine .bind (sound.assignment _ noIn) fun first holds => .bind (reads_check _) fun comma _ => ?_
  refine .ite (.bind reads_pass fun _ _ => ?_) (.pure holds)
  refine .bind (reads_separated (sound.assignment _ noIn) _ (by simp)) fun rest others => ?_
  refine .bind (reads_span_from _) fun _ _ => .pure (sound_expr ?_)
  exact sound_exprs (List.forall_mem_cons.mpr ⟨holds, others⟩)

/-! ## Functions -/

/-- The statements of a body are sound at the place of the body, which declares their names. -/
theorem leads_body_items {place : Place} {known : BodyOutline} {outer : List BodyOutline}
    (bare : place.labels = []) (fits : Fits place known outer) (fuel : Nat) (stop : TokenKind) (inPrologue : Bool)
    {done : List Stmt} (before : ∀ s ∈ done, (Node.stmt place s).Sound) :
    Leads (ReadingState.Reached (known.inBlock (declaredNames done.reverse) :: outer))
      (fun body => ReadingState.Reached (known.inBlock (declaredNames body) :: outer))
      (bodyItems rules fuel stop inPrologue done) fun body => ∀ s ∈ body, (Node.stmt place s).Sound := by
  have ended : ∀ s ∈ done.reverse, (Node.stmt place s).Sound :=
    fun s mem => before s (List.mem_reverse.mp mem)
  induction fuel generalizing inPrologue done with
  | zero => exact .broken
  | succ fuel ih =>
    refine .bind reads_peek fun token _ => .ite (.give (fun _ => id) ended) ?_
    refine .bind (sound.item place known outer bare fits _) fun s holds => ?_
    have before : ∀ t ∈ s :: done, (Node.stmt place t).Sound :=
      List.forall_mem_cons.mpr ⟨holds, before⟩
    rw [← declared_names_concat, ← List.reverse_cons]
    extract_lets directive rest
    have later : Leads (ReadingState.Reached (known.inBlock (declaredNames (s :: done).reverse) :: outer))
        (fun body => ReadingState.Reached (known.inBlock (declaredNames body) :: outer)) (rest ())
        fun body => ∀ s ∈ body, (Node.stmt place s).Sound :=
      ih _ before fun t mem => before t (List.mem_reverse.mp mem)
    exact .ite (.bind (reads_obey_directive _) fun _ _ => later) later

theorem reads_function_body (name : Option String) (kind : FunctionKind)
    (parameters : List (String × Token)) (start : Nat) :
    Reads around (functionBody rules name kind parameters start) fun c => (Node.code c).Sound := by
  have fits : Fits Place.function .start around := fits_start _ _ fun _ => rfl
  refine .bind (reads_expect _ _) fun _ _ => .bind reads_is_strict fun strict _ => ?_
  refine .bind (reads_with_body _ _ (leads_body_items sound rfl fits _ _ _ (by simp))) ?_
  rintro ⟨statements, body⟩ ⟨holds, functions, lexical, distinct⟩
  dsimp -zeta only
  refine .bind (reads_expect _ _) fun _ _ => ?_
  extract_lets finish
  have finished : Reads around (finish ()) fun c => (Node.code c).Sound :=
    .bind (reads_source_from _) fun _ _ => .bind (reads_span_from _) fun _ _ =>
      .pure (sound_code ⟨lexical, lexical ▸ distinct⟩ holds functions)
  refine .ite ?_ finished
  exact .bind (reads_check_strict_parameters _ _) fun _ _ => finished

theorem reads_function_rest (kind : FunctionKind) (start : Nat) :
    Reads around (functionRest rules kind start) fun c => (Node.code c).Sound := by
  unfold functionRest
  extract_lets finish
  have finished (name : Option String) :
      Reads around (finish name) fun c => (Node.code c).Sound :=
    .bind (reads_parameter_list rules) fun parameters _ =>
      reads_function_body sound _ _ parameters start
  refine .bind (reads_check _) fun named _ => .ite ?_ (.ite ?_ ?_)
  · exact .bind (.map some (reads_binding_name _) fun _ _ => trivial) fun name (_ : True) =>
      finished name
  · exact .bind (reads_fail_here _) fun name (_ : True) => finished name
  · exact .bind (.pure trivial) fun name (_ : True) => finished name

theorem reads_arrow_rest (parameters : List (String × Token)) (start : Nat) :
    Reads around (arrowRest rules parameters start) fun e => (Node.expr e).Sound := by
  refine .bind (reads_expect _ _) fun _ _ => ?_
  extract_lets finish
  have finished (code : FunctionCode) (holds : (Node.code code).Sound) :
      Reads around (finish code) fun e => (Node.expr e).Sound :=
    .bind (reads_span_from _) fun _ _ => .pure (sound_expr (List.forall_mem_singleton.mpr holds))
  refine .bind (reads_check _) fun braces _ => .ite ?_ ?_
  · exact .bind (reads_function_body sound _ _ parameters start) finished
  · refine .bind reads_is_strict fun strict _ => ?_
    refine .bind (reads_with_body _ _ (sound.assignment _ false)) ?_
    rintro ⟨value, body⟩ ⟨holds, functions, lexical, distinct⟩
    dsimp -zeta only
    extract_lets complete
    have code (source : String) (span : Span) : (Node.code {
        name := none
        kind := .arrow
        parameters := parameters.map Prod.fst
        body := [⟨.ret (some value), value.span⟩]
        strict
        scope := body.names
        usesArguments := false
        source
        span }).Sound :=
      sound_code ⟨lexical, lexical ▸ distinct⟩ (List.forall_mem_singleton.mpr (sound_arrow holds)) functions
    have completed : Reads around (complete ()) fun e => (Node.expr e).Sound :=
      .bind (reads_source_from _) fun source _ => .bind (reads_span_from _) fun span _ =>
        .bind (.pure (code source span)) finished
    refine .ite (.bind ?_ fun _ (_ : True) => completed) completed
    exact reads_check_strict_parameters _ _

/-! ## Literals -/

theorem reads_array_elements (fuel : Nat) {done : List (Option Expr)}
    (before : ∀ e, some e ∈ done → (Node.expr e).Sound) :
    Reads around (arrayElements rules fuel done)
      fun elements => ∀ e, some e ∈ elements → (Node.expr e).Sound := by
  have complete : ∀ e, some e ∈ done.reverse → (Node.expr e).Sound :=
    fun e mem => before e (List.mem_reverse.mp mem)
  induction fuel generalizing done with
  | zero => exact .broken
  | succ fuel ih =>
    refine .bind (reads_accept _) fun closed _ => .ite (.pure complete) ?_
    refine .bind (reads_accept _) fun comma _ => .ite ?_ ?_
    · have before (e : Expr) (mem : some e ∈ none :: done) : (Node.expr e).Sound := by
        cases mem with
        | tail _ mem => exact before e mem
      exact ih before fun e mem => before e (List.mem_reverse.mp mem)
    · refine .bind (sound.assignment _ false) fun element holds => ?_
      have before (e : Expr) (mem : some e ∈ some element :: done) : (Node.expr e).Sound := by
        cases mem with
        | head => exact holds
        | tail _ mem => exact before e mem
      refine .bind (reads_check _) fun last _ => ?_
      extract_lets rest
      have later : Reads around (rest ()) fun elements => ∀ e, some e ∈ elements → (Node.expr e).Sound :=
        ih before fun e mem => before e (List.mem_reverse.mp mem)
      exact .ite later (.bind (reads_expect _ _) fun _ _ => later)

theorem reads_object_entry :
    Reads around (objectEntry rules) fun entry => entry.value.node.Sound := by
  refine .bind .get fun s _ => ?_
  extract_lets token start isGetter
  refine .ite ?_ ?_
  · refine .bind reads_pass fun _ _ => ?_
    refine .bind reads_property_name fun key _ => .bind (reads_parameter_list rules) fun parameters _ => ?_
    extract_lets finish
    have finished : Reads around (finish ()) fun entry => entry.value.node.Sound := by
      refine .bind (reads_function_body sound _ _ parameters start) fun code holds => ?_
      refine .bind (reads_span_from _) fun span _ => .pure ?_
      split <;> exact holds
    exact .ite (.ite finished (.fail_then _ _ _)) (.ite finished (.fail_then _ _ _))
  · refine .bind reads_property_name fun key _ => .bind (reads_expect _ _) fun _ _ => ?_
    refine .bind (sound.assignment _ false) fun value holds => ?_
    exact .bind (reads_span_from _) fun span _ => .pure holds

theorem reads_object_entries (fuel : Nat) {done : List Entry}
    (before : ∀ entry ∈ done, entry.value.node.Sound) :
    Reads around (objectEntries rules fuel done)
      fun entries => ∀ entry ∈ entries, entry.value.node.Sound := by
  induction fuel generalizing done with
  | zero => exact .broken
  | succ fuel ih =>
    refine .bind (reads_accept _) fun closed _ => ?_
    refine .ite (.pure fun entry mem => before entry (List.mem_reverse.mp mem)) ?_
    refine .bind (reads_object_entry sound) fun entry holds => .bind (reads_check _) fun last _ => ?_
    extract_lets rest
    have later : Reads around (rest ()) fun entries => ∀ entry ∈ entries, entry.value.node.Sound :=
      ih (List.forall_mem_cons.mpr ⟨holds, before⟩)
    exact .ite later (.bind (reads_expect _ _) fun _ _ => later)

/-! ## Expressions -/

theorem reads_primary : Reads around (primary rules) fun e => (Node.expr e).Sound := by
  refine .bind reads_peek fun token _ => ?_
  extract_lets complete name number string
  have completed (form : ExprForm) (holds : ∀ child ∈ form.children, child.Sound) :
      Reads around (complete form) fun e => (Node.expr e).Sound :=
    .bind (reads_span_from _) fun _ _ => .pure (sound_expr holds)
  have literal (value : Literal) :
      Reads around (complete (.literal value)) fun e => (Node.expr e).Sound :=
    completed _ (by simp [ExprForm.children])
  split
  · exact reads_pass.bind fun _ _ => completed _ (by simp [ExprForm.children])
  · have named : Reads around (name ()) fun e => (Node.expr e).Sound :=
      completed _ (by simp [ExprForm.children])
    exact reads_pass.bind fun _ _ => .ite (.bind reads_mention_arguments fun _ _ => named) named
  · have read : Reads around (number ()) fun e => (Node.expr e).Sound := literal _
    exact reads_pass.bind fun _ _ => .bind reads_is_strict fun _ _ => .ite (.fail_then _ _ _) read
  · have read : Reads around (string ()) fun e => (Node.expr e).Sound := literal _
    exact reads_pass.bind fun _ _ => .bind reads_is_strict fun _ _ => .ite (.fail_then _ _ _) read
  · exact reads_pass.bind fun _ _ => literal _
  · exact reads_pass.bind fun _ _ => literal _
  · exact reads_pass.bind fun _ _ => literal _
  · refine reads_pass.bind fun _ _ => .bind (reads_function_rest sound _ _) fun code holds => ?_
    exact completed _ (List.forall_mem_singleton.mpr holds)
  · refine reads_pass.bind fun _ _ => .bind (reads_expression sound false) fun inner holds => ?_
    exact .bind (reads_expect _ _) fun _ _ => .pure holds
  · refine reads_pass.bind fun _ _ => .bind (reads_array_elements sound _ (by simp)) fun elements holds => ?_
    refine completed _ fun child mem => ?_
    obtain ⟨element, among, same⟩ := List.mem_filterMap.mp mem
    cases element with
    | none => cases same
    | some e => exact Option.some.inj same ▸ holds e among
  · refine reads_pass.bind fun _ _ => .bind (reads_object_entries sound _ (by simp)) fun entries holds => ?_
    exact completed _ (List.forall_mem_map.mpr holds)
  · exact .fail _ _
  · exact .fail _ _

theorem reads_argument_list :
    Reads around (argumentList rules) fun items => ∀ e ∈ items, (Node.expr e).Sound := by
  refine .bind (reads_expect _ _) fun _ _ => ?_
  extract_lets finish
  have finished (items : List Expr) (holds : ∀ e ∈ items, (Node.expr e).Sound) :
      Reads around (finish items) fun items => ∀ e ∈ items, (Node.expr e).Sound :=
    .bind (reads_expect _ _) fun _ _ => .pure holds
  refine .bind (reads_check _) fun closed _ => .ite ?_ ?_
  · exact .bind (.pure (by simp)) finished
  · exact .bind (reads_separated (sound.assignment _ false) _ (by simp)) finished

theorem reads_member_suffix {object : Expr} (holds : (Node.expr object).Sound) :
    Reads around (memberSuffix rules object) fun e => (Node.expr e).Sound := by
  refine .bind (reads_accept _) fun dot _ => .ite ?_ ?_
  · refine .bind reads_advance fun token _ => ?_
    have named : (∀ child ∈ (ExprForm.member object token.lexeme).children, child.Sound) :=
      List.forall_mem_singleton.mpr holds
    split
    · exact .bind (reads_span_from _) fun _ _ => .pure (sound_expr named)
    · exact .bind (reads_span_from _) fun _ _ => .pure (sound_expr named)
    · exact .fail _ _
  · refine .bind (reads_expect _ _) fun _ _ => .bind (reads_expression sound false) fun key keyHolds => ?_
    refine .bind (reads_expect _ _) fun _ _ => .bind (reads_span_from _) fun _ _ => .pure ?_
    exact sound_expr (by simp [ExprForm.children, holds, keyHolds])

theorem reads_member_suffixes (fuel : Nat) {object : Expr} (holds : (Node.expr object).Sound) :
    Reads around (memberSuffixes rules fuel object) fun e => (Node.expr e).Sound := by
  induction fuel generalizing object with
  | zero => exact .broken
  | succ fuel ih =>
    refine .bind .get fun s _ => .ite ?_ (.pure holds)
    exact .bind (reads_member_suffix sound holds) fun e holds => ih holds

theorem reads_new_expression :
    Reads around (newExpression rules) fun e => (Node.expr e).Sound := by
  refine .bind reads_advance fun token _ => ?_
  extract_lets start finish
  have finished (head : Expr) (holds : (Node.expr head).Sound) :
      Reads around (finish head) fun e => (Node.expr e).Sound := by
    refine .bind (reads_member_suffixes sound _ holds) fun callee holds => ?_
    refine .bind (reads_check _) fun called _ => ?_
    extract_lets complete
    have completed (items : List Expr) (others : ∀ e ∈ items, (Node.expr e).Sound) :
        Reads around (complete items) fun e => (Node.expr e).Sound :=
      .bind (reads_span_from _) fun _ _ =>
        .pure (sound_expr (List.forall_mem_cons.mpr ⟨holds, sound_exprs others⟩))
    exact .ite (.bind (reads_argument_list sound) completed) (.bind (.pure (by simp)) completed)
  refine .bind (reads_check _) fun nested _ => .ite ?_ ?_
  · exact .bind (sound.newExpression _) finished
  · exact .bind (reads_primary sound) finished

theorem reads_call_suffixes (fuel : Nat) {callee : Expr} (holds : (Node.expr callee).Sound) :
    Reads around (callSuffixes rules fuel callee) fun e => (Node.expr e).Sound := by
  induction fuel generalizing callee with
  | zero => exact .broken
  | succ fuel ih =>
    refine .bind (reads_check _) fun called _ => .ite ?_ ?_
    · refine .bind (reads_argument_list sound) fun items others => .bind (reads_span_from _) fun _ _ => ?_
      exact ih (sound_expr (List.forall_mem_cons.mpr ⟨holds, sound_exprs others⟩))
    · refine .bind .get fun s _ => .ite ?_ (.pure holds)
      exact .bind (reads_member_suffix sound holds) fun e holds => ih holds

theorem reads_left_hand_side :
    Reads around (leftHandSide rules) fun e => (Node.expr e).Sound := by
  refine .bind (reads_check _) fun constructs _ => .ite ?_ ?_
  · exact .bind (reads_new_expression sound) fun e holds => reads_call_suffixes sound _ holds
  · exact .bind (reads_primary sound) fun e holds => reads_call_suffixes sound _ holds

theorem reads_postfix_update :
    Reads around (postfixUpdate rules) fun e => (Node.expr e).Sound := by
  refine .bind (reads_left_hand_side sound) fun target holds => .bind reads_peek fun token _ => ?_
  split
  · refine .ite (.pure holds) ?_
    refine .bind (reads_check_target _) fun _ _ => .bind reads_pass fun _ _ => ?_
    refine .bind (reads_span_from _) fun _ _ => .pure ?_
    exact sound_expr (List.forall_mem_singleton.mpr holds)
  · exact .pure holds

theorem reads_unary : Reads around (unary rules) fun e => (Node.expr e).Sound := by
  refine .bind reads_peek fun token _ => ?_
  extract_lets start
  split
  · refine .bind reads_pass fun _ _ => .bind (sound.unary _) fun operand holds => ?_
    refine .bind reads_is_strict fun strict _ => ?_
    extract_lets finish
    have finished : Reads around (finish ()) fun e => (Node.expr e).Sound :=
      .bind (reads_span_from _) fun _ _ => .pure (sound_expr (List.forall_mem_singleton.mpr holds))
    exact .ite (.fail_then _ _ _) finished
  · refine .bind reads_pass fun _ _ => .bind (sound.unary _) fun target holds => ?_
    refine .bind (reads_check_target _) fun _ _ => .bind (reads_span_from _) fun _ _ => .pure ?_
    exact sound_expr (List.forall_mem_singleton.mpr holds)
  · exact reads_postfix_update sound

theorem reads_binary_rest (precedence : Nat) (noIn : Bool) (fuel : Nat) {left : Expr}
    (holds : (Node.expr left).Sound) :
    Reads around (binaryRest rules precedence noIn fuel left) fun e => (Node.expr e).Sound := by
  induction fuel generalizing left with
  | zero => exact .broken
  | succ fuel ih =>
    refine .bind reads_peek fun token _ => ?_
    split
    · exact .pure holds
    · refine .ite (.pure holds) (.bind reads_pass fun _ _ => ?_)
      refine .bind (sound.binary _ _ _) fun right others => ?_
      exact ih (sound_operation holds others)

theorem reads_binary (precedence : Nat) (noIn : Bool) :
    Reads around (binary rules precedence noIn) fun e => (Node.expr e).Sound :=
  .bind (reads_unary sound) fun _ holds => reads_binary_rest sound precedence noIn _ holds

theorem reads_conditional (noIn : Bool) :
    Reads around (conditional rules noIn) fun e => (Node.expr e).Sound := by
  refine .bind (reads_binary sound 0 noIn) fun test holds => .bind (reads_accept _) fun chosen _ => ?_
  refine .ite ?_ (.pure holds)
  refine .bind (sound.assignment _ _) fun yes yesHolds => .bind (reads_expect _ _) fun _ _ => ?_
  refine .bind (sound.assignment _ _) fun no noHolds => .bind (reads_span_from _) fun _ _ => .pure ?_
  exact sound_expr (by simp [ExprForm.children, holds, yesHolds, noHolds])

theorem reads_assignment (noIn : Bool) :
    Reads around (assignment rules noIn) fun e => (Node.expr e).Sound := by
  refine .bind .get fun s _ => ?_
  extract_lets token start
  refine .ite ?_ (.bind reads_at_parameter_list fun parameters _ => .ite ?_ ?_)
  · exact .bind (reads_binding_name _) fun name _ => reads_arrow_rest sound _ _
  · exact .bind (reads_parameter_list rules) fun parameters _ => reads_arrow_rest sound _ _
  · refine .bind (reads_conditional sound noIn) fun target holds => .bind reads_peek fun token _ => ?_
    split
    · exact .pure holds
    · refine .bind (reads_check_target _) fun _ _ => .bind reads_pass fun _ _ => ?_
      refine .bind (sound.assignment _ _) fun value others => .bind (reads_span_from _) fun _ _ => .pure ?_
      exact sound_expr (by simp [ExprForm.children, holds, others])

end

end ScriptEngine.Grammar
