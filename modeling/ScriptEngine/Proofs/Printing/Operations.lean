import ScriptEngine.Proofs.Printing.Forms

/-!
How suffixes and operators are read from the tokens that they are written as, once their operands are. Suffixes and
operators between operands take what was read before them as their first operand.
-/

namespace ScriptEngine.Grammar.Printing

/-! ## Properties -/

/-- Behind an object tokens name a property of it. -/
def ReadsSuffix (object form : ExprForm) (us : List Token) : Prop :=
  ∀ levels next after e, us.length + after.length < levels → Expr.Matches e object →
    Passes (us ++ next :: after) (next :: after) (memberSuffix (rulesFor levels) e) (·.Matches form)

/-- Tokens begin with a point or an opening bracket. -/
def BeginsMember (us : List Token) : Prop :=
  ∃ t rest, us = t :: rest ∧ (t.kind = .mark .dot ∨ t.kind = .mark .openBracket)

theorem reads_point {object : Expr} {dot name : Token} {text : String} (point : dot.kind = .mark .dot)
    (word : name.IsWord text) : ReadsSuffix object.form (.member object text) [dot, name] := by
  intro levels next after e room same
  refine (passes_accept point (by simp)).bind fun named found => .ite_true found ?_
  refine (passes_advance (by simp)).bind fun token there => ?_
  subst there
  obtain ⟨kind, rfl⟩ := word
  have member (span : Span) : (⟨.member e token.lexeme, span⟩ : Expr).Matches (.member object token.lexeme) :=
    congrArg (ExprForm.member · token.lexeme) same.erased
  rcases kind with name | ⟨k, keyword⟩
  · rw [name]
    exact (passes_span_from _).bind fun span _ => .pure (member span)
  · rw [keyword]
    exact (passes_span_from _).bind fun span _ => .pure (member span)

theorem reads_key {object key : Expr} {opening closing : Token} {us : List Token}
    (opens : opening.kind = .mark .openBracket) (within : ReadsExpression key.form us)
    (closes : closing.kind = .mark .closeBracket) :
    ReadsSuffix object.form (.index object key) (opening :: (us ++ [closing])) := by
  intro levels next after e room same
  simp only [List.length_cons, List.length_append, List.length_nil] at room
  rw [append_enclosed]
  refine (passes_no_accept (by simp [opens])).bind fun named found => .ite_false (by simp [found]) ?_
  refine (passes_expect opens _ (by simp)).bind fun _ _ => ?_
  have follows : Ends Level.sequence closing := ends_before _ (by simp [closes])
  refine (within levels closing (next :: after) (by simp; omega) follows).bind fun read there => ?_
  refine (passes_expect closes _ (by simp)).bind fun _ _ => (passes_span_from _).bind fun span _ => .pure ?_
  exact congrArg₂ ExprForm.index same.erased there.erased

section

variable {object form : ExprForm} {ts us : List Token} (suffix : ReadsSuffix object form us) (names : BeginsMember us)

include suffix names

theorem callee_of_suffix (inner : ReadsCallee object ts) : ReadsCallee form (ts ++ us) := by
  obtain ⟨first, rest, rfl, kind⟩ := names
  refine inner.turn trivial fun levels next after e fuel good left room _ same behind => ?_
  refine (passes_check _).bind fun opens found => .ite_false ?_ ?_
  · rcases kind with kind | kind <;> simp [found, kind]
  · refine Passes.get.bind fun s faces => .ite_true ?_ ?_
    · rcases kind with kind | kind <;> simp [ReadingState.atMember, faces_current faces, kind]
    · exact (suffix levels next after e (by simpa using room) same).bind behind

theorem member_of_suffix (inner : ReadsMember object ts) : ReadsMember form (ts ++ us) := by
  obtain ⟨first, rest, rfl, kind⟩ := names
  refine inner.turn trivial fun levels next after e fuel good left room _ same behind => ?_
  refine Passes.get.bind fun s faces => .ite_true ?_ ?_
  · rcases kind with kind | kind <;> simp [ReadingState.atMember, faces_current faces, kind]
  · exact (suffix levels next after e (by simpa using room) same).bind behind

/-- A property of a call is read as a callee, and any other one as an object of `new`, too. -/
theorem reads_suffix {level : Nat} (either : level = Level.call ∨ level = Level.member)
    (inner : ReadsAt level object ts) : ReadsAt level form (ts ++ us) := by
  rcases either with rfl | rfl
  · exact callee_of_suffix suffix names inner
  · exact ⟨member_of_suffix suffix names inner.1, callee_of_suffix suffix names inner.2⟩

end

/-! ## Calls and new objects -/

/-- Tokens begin with an opening parenthesis. -/
def BeginsCall (us : List Token) : Prop :=
  ∃ t rest, us = t :: rest ∧ t.kind = .mark .openParen

theorem reads_call {callee : Expr} {items : List Expr} {ts us : List Token} (inner : ReadsCallee callee.form ts)
    (given : ReadsArguments items us) (opens : BeginsCall us) : ReadsCallee (.call callee items) (ts ++ us) := by
  obtain ⟨first, rest, rfl, kind⟩ := opens
  refine inner.turn trivial fun levels next after e fuel good left room _ same behind => ?_
  refine (passes_check _).bind fun opens found => .ite_true (by simp [found, kind]) ?_
  refine (given levels next after (by simpa using room)).bind fun read there => ?_
  exact (passes_span_from _).bind fun span _ => behind _ (congrArg₂ ExprForm.call same.erased there)

/-- Behind what `new` is applied to arguments are read if there are any. -/
theorem new_expression_eq (rules : Rules) : newExpression rules = (do
    let keyword ← advance
    let callee ← newCallee rules
    let given ← checkMark .openParen
    let items ← if given then argumentList rules else pure []
    return ⟨.construct callee items, ← spanFrom keyword.span.start⟩) := by
  simp only [newExpression, newCallee, bind_assoc]
  refine congrArg (advance >>= ·) (funext fun keyword => congrArg (checkKeyword .«new» >>= ·) (funext fun again => ?_))
  split
  · exact (bind_assoc _ _ _).symm
  · exact (bind_assoc _ _ _).symm

/-- Where no property follows, what `new` is applied to ends. -/
theorem member_suffixes_stop {rules : Rules} {fuel : Nat} {next : Token} {after : List Token} {e : Expr}
    {form : ExprForm} (point : next.kind ≠ .mark .dot) (bracket : next.kind ≠ .mark .openBracket) (lasts : 0 < fuel)
    (same : e.Matches form) :
    Passes (next :: after) (next :: after) (memberSuffixes rules fuel e) (·.Matches form) := by
  obtain ⟨k, rfl⟩ : ∃ k, fuel = k + 1 := ⟨fuel - 1, by omega⟩
  refine Passes.get.bind fun s faces => .ite_false ?_ (.pure same)
  simp [ReadingState.atMember, faces_current faces, point, bracket]

section

variable {callee : Expr} {items : List Expr} {first : Token} {ts us : List Token}

/-- An object that is created with arguments. -/
theorem reads_construct (inner : ReadsMember callee.form ts) (given : ReadsArguments items us) (opens : BeginsCall us) :
    ReadsBy newExpression (fun _ => True) (.construct callee items) (first :: (ts ++ us)) := by
  obtain ⟨opening, rest, rfl, kind⟩ := opens
  intro levels next after room _
  simp only [List.length_cons, List.length_append] at room
  rw [List.cons_append, append_between, new_expression_eq]
  refine (passes_advance (by simp)).bind fun keyword _ => ?_
  have read : Passes (ts ++ opening :: (rest ++ next :: after)) (opening :: (rest ++ next :: after))
      (newCallee (rulesFor levels)) (·.Matches callee.form) := by
    refine inner levels opening (rest ++ next :: after) _ _ (by simp; omega) trivial fun e fuel same lasts => ?_
    exact member_suffixes_stop (by simp [kind]) (by simp [kind]) (by omega) same
  refine read.bind fun e same => (passes_check _).bind fun called found => ?_
  refine .ite_true (by simp [found, kind]) ((given levels next after (by simp; omega)).bind fun read there => ?_)
  exact passes_complete _ (congrArg₂ ExprForm.construct same.erased there)

/-- An object that is created without arguments, where what `new` is applied to is read up to its end. -/
theorem reads_create (inner : ∀ levels next after, ts.length + after.length + 1 < levels → Ends Level.creation next →
    Passes (ts ++ next :: after) (next :: after) (newCallee (rulesFor levels)) (·.Matches callee.form)) :
    ReadsBy newExpression (Ends Level.creation) (.construct callee []) (first :: ts) := by
  intro levels next after room ends
  simp only [List.length_cons] at room
  rw [new_expression_eq]
  refine (passes_advance (by simp)).bind fun keyword _ => ?_
  refine (inner levels next after (by omega) ends).bind fun e same => (passes_check _).bind fun called found => ?_
  refine .ite_false (by simp [found, ends.opening]) ?_
  have none : Passes (next :: after) (next :: after) (pure []) fun items : List Expr => items = [] := .pure rfl
  refine none.bind fun items empty => ?_
  subst empty
  exact passes_complete _ (congrArg (ExprForm.construct · []) same.erased)

theorem reads_create_member (inner : ReadsMember callee.form ts) :
    ReadsBy newExpression (Ends Level.creation) (.construct callee []) (first :: ts) := by
  refine reads_create fun levels next after room ends => ?_
  refine inner levels next after _ _ (by omega) trivial fun e fuel same lasts => ?_
  exact member_suffixes_stop ends.point ends.bracket (by omega) same

end

/-- Tokens begin with `new`. -/
def BeginsNew (ts : List Token) : Prop :=
  ∃ t rest, ts = t :: rest ∧ t.kind = .keyword .«new»

theorem passes_begins_new {ts rest : List Token} (begins : BeginsNew ts) :
    Passes (ts ++ rest) (ts ++ rest) (checkKeyword .«new») (· = true) := by
  obtain ⟨t, later, rfl, kind⟩ := begins
  exact (passes_check _).weaken fun found same => by simp [same, kind]

section

variable {form : ExprForm} {ts : List Token} (begins : BeginsNew ts)

include begins

theorem reads_create_again {callee : Expr} {first : Token}
    (inner : ReadsBy newExpression (Ends Level.creation) callee.form ts) :
    ReadsBy newExpression (Ends Level.creation) (.construct callee []) (first :: ts) := by
  refine reads_create fun levels next after room ends => ?_
  have head := inner.rule (·.newExpression) (fun _ => rfl) next room ends
  refine (passes_begins_new begins).bind fun again found => .ite_true found (head.bind fun e same => ?_)
  rw [levels_rules_for]
  exact member_suffixes_stop ends.point ends.bracket (by omega) same

theorem target_of_creation (reads : ReadsBy newExpression (Ends Level.creation) form ts) : ReadsTarget form ts := by
  intro levels next after room ends
  refine (passes_begins_new begins).bind fun creates found => .ite_true found ?_
  refine (reads levels next after room ends).bind fun e same => ?_
  rw [levels_rules_for]
  exact call_suffixes_stop ends (by omega) same

/-- With its arguments a new object goes on as a primary expression does. -/
theorem member_of_construct (reads : ReadsBy newExpression (fun _ => True) form ts) :
    ReadsMember form ts ∧ ReadsCallee form ts := by
  constructor
  · intro levels next after left good room _ goesOn
    have head := reads.rule (·.newExpression) (fun _ => rfl) next room trivial
    refine (passes_begins_new begins).bind fun again found => .ite_true found ?_
    exact goes_on_behind memberSuffixes head (by omega) goesOn
  · intro levels next after left good room _ goesOn
    refine (passes_begins_new begins).bind fun creates found => .ite_true found ?_
    exact goes_on_behind callSuffixes (reads levels next after room trivial) (by omega) goesOn

end

/-! ## Operators before and behind an operand -/

theorem passes_check_target {e : Expr} {form : ExprForm} {rest : List Token} (isTarget : form.IsTarget)
    (same : e.Matches form) : Passes rest rest (checkTarget e) fun _ => True := by
  have target := same.target isTarget
  unfold checkTarget
  split
  · exact passes_is_strict.bind fun strict sloppy => .ite_false (by simp [sloppy]) (.pure trivial)
  · exact .pure trivial
  · exact .pure trivial
  · next notName notMember notIndex =>
    cases found : e.form with
    | identifier name => exact absurd found (notName name)
    | member object name => exact absurd found (notMember object name)
    | index object key => exact absurd found (notIndex object key)
    | _ =>
      rw [found] at target
      exact target.elim

theorem update_kind (op : UpdateOp) : updateOp? op.kind = some op := by
  cases op <;> rfl

theorem unary_kind (op : UnaryOp) : unaryOp? op.kind = some op := by
  cases op <;> rfl

theorem update_is_no_unary (op : UpdateOp) : unaryOp? op.kind = none := by
  cases op <;> rfl

/-- An operator that updates its operand from behind ends it. -/
theorem ends_before_update {op : UpdateOp} {t : Token} (operator : t.kind = op.kind) : Ends Level.creation t := by
  cases op <;> exact ⟨by simp [operator, UpdateOp.kind], by simp [operator, UpdateOp.kind],
    by simp [operator, UpdateOp.kind], fun reached => absurd reached (by decide),
    by simp [operator, UpdateOp.kind, infixOp?], by simp [operator, UpdateOp.kind],
    by simp [operator, UpdateOp.kind, assignOp?], by simp [operator, UpdateOp.kind]⟩

section

variable {op : UpdateOp} {target : Expr} {t : Token} {ts : List Token} (isTarget : target.form.IsTarget)
  (operator : t.kind = op.kind)

include isTarget operator

theorem reads_update_behind (inner : ReadsTarget target.form ts) (sameLine : t.newlineBefore = false) :
    ReadsUpdate (.update op false target) (ts ++ [t]) := by
  intro levels next after room ends
  simp only [List.length_append, List.length_cons, List.length_nil] at room
  have tokens : ts ++ [t] ++ next :: after = ts ++ t :: next :: after := by simp
  rw [tokens]
  refine (inner levels t (next :: after) (by simp; omega) (ends_before_update operator)).bind fun e same => ?_
  refine passes_peek.bind fun token there => ?_
  subst there
  rw [operator, update_kind]
  refine .ite_false (by simp [sameLine]) ((passes_check_target isTarget same).bind fun _ _ => ?_)
  exact (passes_over (by simp)).bind fun _ _ => passes_complete _ (congrArg (ExprForm.update op false) same.erased)

theorem reads_update_before (inner : ReadsUnary target.form ts) : ReadsUnary (.update op true target) (t :: ts) := by
  intro levels next after room ends
  simp only [List.length_cons] at room
  refine passes_peek.bind fun token there => ?_
  subst there
  extract_lets start
  rw [operator, update_kind, update_is_no_unary]
  refine (passes_over (by simp)).bind fun _ _ => ?_
  refine (inner.rule (·.unary) (fun _ => rfl) next (by omega) ends).bind fun e same => ?_
  refine (passes_check_target isTarget same).bind fun _ _ => ?_
  exact passes_complete _ (congrArg (ExprForm.update op true) same.erased)

end

theorem reads_unary {op : UnaryOp} {operand : Expr} {t : Token} {ts : List Token} (operator : t.kind = op.kind)
    (inner : ReadsUnary operand.form ts) : ReadsUnary (.unary op operand) (t :: ts) := by
  intro levels next after room ends
  simp only [List.length_cons] at room
  refine passes_peek.bind fun token there => ?_
  subst there
  extract_lets start
  rw [operator, unary_kind]
  refine (passes_over (by simp)).bind fun _ _ => ?_
  refine (inner.rule (·.unary) (fun _ => rfl) next (by omega) ends).bind fun e same => ?_
  refine passes_is_strict.bind fun strict sloppy => .ite_false (by simp [sloppy]) ?_
  exact passes_complete _ (congrArg (ExprForm.unary op) same.erased)

/-! ## Operators between operands -/

theorem binary_kind (op : BinaryOp) : infixOp? false op.kind = some (op.precedence, .binary op) := by
  cases op <;> rfl

theorem logical_kind (op : LogicalOp) : infixOp? false op.kind = some (op.precedence, .logical op) := by
  cases op <;> rfl

/-- A right operand is read up to an operator that binds no more closely than the one before it. -/
theorem ReadsOperand.right {p : Nat} {form : ExprForm} {ts : List Token} (reads : ReadsOperand p form ts)
    {levels : Nat} {next : Token} {after : List Token} (room : ts.length + after.length + 1 < levels)
    (ends : Ends (Level.operation p) next) :
    Passes (ts ++ next :: after) (next :: after) ((rulesFor levels).binary p false) (·.Matches form) := by
  obtain ⟨m, rfl⟩ : ∃ m, levels = m + 1 := ⟨levels - 1, by omega⟩
  refine reads p (Nat.le_refl p) m next after _ _ (by omega) (ends.above (Nat.le_succ _)) fun e fuel same lasts => ?_
  exact binary_rest_stops (fun q op found => Nat.lt_of_add_lt_add_right (ends.operation q op found)) (by omega) same

/-- What an operator forms with its operands is the same, up to spans, where the operands are. -/
theorem apply_matches {op : InfixOp} {left right first second : Expr} (one : first.Matches left.form)
    (other : second.Matches right.form) : (op.apply first second).Matches (op.apply left right).form := by
  cases op with
  | binary op => exact congrArg₂ (ExprForm.binary op) one.erased other.erased
  | logical op => exact congrArg₂ (ExprForm.logical op) one.erased other.erased

/-- Behind the left operand an operator takes it and the right operand, and reading goes on behind both of them. -/
theorem reads_operation {op : InfixOp} {p : Nat} {left right : Expr} {t : Token} {ts us : List Token}
    (first : ReadsOperand p left.form ts) (operator : infixOp? false t.kind = some (p, op))
    (second : ReadsOperand (p + 1) right.form us) : ReadsOperand p (op.apply left right).form (ts ++ t :: us) := by
  intro q reached
  have closer : Ends (Level.operation (p + 1)) t := ends_before_operation operator (Nat.lt_succ_self _)
  refine (first q reached).turn closer fun levels next after e fuel good left room ends same behind => ?_
  refine passes_peek.bind fun token there => ?_
  subst there
  rw [operator]
  refine .ite_false (Nat.not_lt.mpr reached) ((passes_over (by simp)).bind fun _ _ => ?_)
  exact (second.right (by omega) ends).bind fun other same' => behind _ (apply_matches same same')

/-! ## Choices, assignments and sequences -/

theorem reads_conditional {test yes no : Expr} {question colon : Token} {ts us vs : List Token}
    (first : ReadsOperand 1 test.form ts) (asks : question.kind = .mark .question)
    (second : ReadsAssignment yes.form us) (parts : colon.kind = .mark .colon) (third : ReadsAssignment no.form vs) :
    ReadsConditional (.conditional test yes no) (ts ++ question :: (us ++ colon :: vs)) := by
  intro levels next after room ends
  simp only [List.length_append, List.length_cons] at room
  rw [append_between, append_between]
  have noOperator : infixOp? false question.kind = none := by simp [asks, infixOp?]
  refine (first.test (by simp; omega) (ends_before_question (by decide) asks) noOperator).bind fun e same => ?_
  refine (passes_accept asks (by simp)).bind fun chooses found => .ite_true found ?_
  refine (second.assignment_rule (by simp; omega) (ends_before _ (by simp [parts]))).bind fun e' same' => ?_
  refine (passes_expect parts _ (by simp)).bind fun _ _ => ?_
  refine (third.assignment_rule (by omega) ends).bind fun e'' same'' => ?_
  refine passes_complete _ ?_
  rw [ExprForm.erased, ExprForm.erased, same.erased, same'.erased, same''.erased]

theorem assign_kind {op : Option BinaryOp} {kind : TokenKind} (assigns : assignmentKind? op = some kind) :
    assignOp? kind = some op := by
  cases op with
  | none =>
    cases assigns
    rfl
  | some op => cases op <;> cases assigns <;> rfl

theorem reads_assign {op : Option BinaryOp} {target value : Expr} {t : Token} {ts us : List Token}
    (isTarget : target.form.IsTarget) (first : ReadsOperand 1 target.form ts)
    (operator : assignmentKind? op = some t.kind) (second : ReadsAssignment value.form us) :
    ReadsAssignment (.assign op target value) (ts ++ t :: us) := by
  intro levels next after room ends
  simp only [List.length_append, List.length_cons] at room
  rw [append_between]
  refine Passes.get.bind fun s faces => ?_
  extract_lets token start
  refine .ite_false (by simp [no_single_parameter faces]) ?_
  refine passes_at_parameter_list.bind fun parameters found => .ite_false (by simp [found]) ?_
  have follows : Ends Level.conditional t := ends_before_assignment (Nat.le_refl _) operator
  refine (first.alone levels t (us ++ next :: after) (by simp; omega) follows).bind fun e same => ?_
  refine passes_peek.bind fun read there => ?_
  subst there
  rw [assign_kind operator]
  refine (passes_check_target isTarget same).bind fun _ _ => (passes_over (by simp)).bind fun _ _ => ?_
  refine (second.assignment_rule (by omega) ends).bind fun e' same' => passes_complete _ ?_
  exact congrArg₂ (ExprForm.assign op) same.erased same'.erased

theorem reads_sequence {first : Expr} {rest : List Expr} {comma : Token} {ts us : List Token}
    (begins : ReadsAssignment first.form ts) (separates : comma.kind = .mark .comma) (goesOn : ReadsItems rest us) :
    ReadsExpression (.sequence (first :: rest)) (ts ++ comma :: us) := by
  intro levels next after room ends
  simp only [List.length_append, List.length_cons] at room
  rw [append_between]
  have follows : Ends Level.assignment comma := ends_before_comma (Nat.le_refl _) separates
  refine (begins.assignment_rule (by simp; omega) follows).bind fun e same => (passes_check _).bind fun more found => ?_
  refine .ite_true (by simp [found, separates]) ((passes_over (by simp)).bind fun _ _ => ?_)
  rw [levels_rules_for]
  refine (goesOn levels levels [] next after (by omega) (by omega) ends).bind fun items there => ?_
  obtain ⟨later, rfl, others⟩ := there
  exact passes_complete _ (congrArg₂ (fun e items => ExprForm.sequence (e :: items)) same.erased others)

end ScriptEngine.Grammar.Printing
