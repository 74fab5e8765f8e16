import Mathlib.Data.Nat.Init
import Mathlib.Tactic.IntervalCases
import ScriptEngine.Proofs.Printing.Passing
import ScriptEngine.Proofs.Printing.Printed

/-!
What it takes to read an expression that was printed, at each level of the grammar. Readers of higher levels end where
readers of lower ones may go on, so that what is read at a level is also read at all levels below, as long as nothing
follows that goes on with it there. Where operands are grouped from the left there is no reader for the left operand
alone. There it is said how the reading goes on behind it.
-/

namespace ScriptEngine.Grammar.Printing

/-! ## What may follow -/

/-- A token does not go on with an expression at a place that asks for a level. -/
structure Ends (level : Nat) (t : Token) : Prop where
  opening : t.kind ≠ .mark .openParen
  point : t.kind ≠ .mark .dot
  bracket : t.kind ≠ .mark .openBracket
  update : level ≤ Level.update → updateOp? t.kind = none ∨ t.newlineBefore = true
  operation : ∀ p op, infixOp? false t.kind = some (p, op) → Level.operation p < level
  question : level ≤ Level.conditional → t.kind ≠ .mark .question
  assignment : level ≤ Level.assignment → assignOp? t.kind = none
  comma : level = Level.sequence → t.kind ≠ .mark .comma

theorem Ends.above {low high : Nat} {t : Token} (ends : Ends low t) (above : low ≤ high) : Ends high t where
  opening := ends.opening
  point := ends.point
  bracket := ends.bracket
  update reached := ends.update (Nat.le_trans above reached)
  operation p op found := Nat.lt_of_lt_of_le (ends.operation p op found) above
  question reached := ends.question (Nat.le_trans above reached)
  assignment reached := ends.assignment (Nat.le_trans above reached)
  comma lowest := by
    subst lowest
    exact ends.comma (Nat.le_zero.mp above)

/-- At the end of the input, before a closing bracket and before a colon no expression goes on. -/
theorem ends_before {t : Token} (level : Nat) (ends : t.kind = .endOfInput ∨ t.kind = .mark .closeParen ∨
    t.kind = .mark .closeBracket ∨ t.kind = .mark .closeBrace ∨ t.kind = .mark .colon) : Ends level t := by
  rcases ends with same | same | same | same | same <;>
    exact ⟨by simp [same], by simp [same], by simp [same], by simp [same, updateOp?], by simp [same, infixOp?],
      by simp [same], by simp [same, assignOp?], by simp [same]⟩

theorem ends_before_comma {t : Token} {level : Nat} (single : Level.assignment ≤ level)
    (same : t.kind = .mark .comma) : Ends level t where
  opening := by simp [same]
  point := by simp [same]
  bracket := by simp [same]
  update := by simp [same, updateOp?]
  operation := by simp [same, infixOp?]
  question := by simp [same]
  assignment := by simp [same, assignOp?]
  comma lowest := absurd (lowest ▸ single) (by decide)

theorem ends_before_question {t : Token} {level : Nat} (test : Level.conditional < level)
    (same : t.kind = .mark .question) : Ends level t where
  opening := by simp [same]
  point := by simp [same]
  bracket := by simp [same]
  update := by simp [same, updateOp?]
  operation := by simp [same, infixOp?]
  question reached := absurd reached (Nat.not_le.mpr test)
  assignment := by simp [same, assignOp?]
  comma := by simp [same]

theorem ends_before_assignment {t : Token} {level : Nat} {op : Option BinaryOp} (target : Level.conditional ≤ level)
    (assigns : assignmentKind? op = some t.kind) : Ends level t := by
  have others : t.kind ≠ .mark .openParen ∧ t.kind ≠ .mark .dot ∧ t.kind ≠ .mark .openBracket ∧
      updateOp? t.kind = none ∧ infixOp? false t.kind = none ∧ t.kind ≠ .mark .question ∧ t.kind ≠ .mark .comma := by
    generalize t.kind = kind at assigns
    cases op with
    | none =>
      cases assigns
      decide
    | some op => cases op <;> cases assigns <;> decide
  obtain ⟨opening, point, bracket, update, operation, question, comma⟩ := others
  refine ⟨opening, point, bracket, fun _ => .inl update, by simp [operation], fun _ => question, ?_, fun _ => comma⟩
  intro reached
  exact absurd (Nat.le_trans target reached) (by decide)

/-- An operator ends operands of a higher level than its own. -/
theorem ends_before_operation {t : Token} {level p : Nat} {op : InfixOp} (found : infixOp? false t.kind = some (p, op))
    (closer : Level.operation p < level) : Ends level t := by
  have others : t.kind ≠ .mark .openParen ∧ t.kind ≠ .mark .dot ∧ t.kind ≠ .mark .openBracket ∧
      updateOp? t.kind = none := by
    refine ⟨?_, ?_, ?_, ?_⟩
    · intro same; simp [same, infixOp?] at found
    · intro same; simp [same, infixOp?] at found
    · intro same; simp [same, infixOp?] at found
    · unfold infixOp? at found
      split at found <;> simp_all [updateOp?]
  obtain ⟨opening, point, bracket, update⟩ := others
  have binds : Level.conditional < level := Nat.lt_of_le_of_lt (Nat.le_add_left 2 p) closer
  refine ⟨opening, point, bracket, fun _ => .inl update, ?_, ?_, ?_, ?_⟩
  · intro q other same
    rw [found] at same
    cases same
    exact closer
  · intro reached
    exact absurd reached (Nat.not_le.mpr binds)
  · intro reached
    exact absurd (Nat.lt_of_lt_of_le binds reached) (by decide)
  · rintro rfl
    exact absurd binds (by decide)

/-! ## Readers at a level -/

/-- From tokens in front of some that may follow, a reader reads an expression of a form. -/
def ReadsBy (read : Rules → Reader Expr) (follows : Token → Prop) (form : ExprForm) (ts : List Token) : Prop :=
  ∀ levels next after, ts.length + after.length < levels → follows next →
    Passes (ts ++ next :: after) (next :: after) (read (rulesFor levels)) (·.Matches form)

/-- A reader comes to the place behind an expression of a form, where it goes on as another one does. Some levels of
nesting are needed besides those for the tokens. -/
def LeadsTo (goesOn : Rules → Nat → Expr → Reader Expr) (read : Rules → Reader Expr) (follows : Token → Prop)
    (spare : Nat) (form : ExprForm) (ts : List Token) : Prop :=
  ∀ levels next after left good, ts.length + after.length + spare < levels → follows next →
    (∀ e fuel, e.Matches form → after.length < fuel →
      Passes (next :: after) left (goesOn (rulesFor levels) fuel e) good) →
    Passes (ts ++ next :: after) left (read (rulesFor levels)) good

/-- What `new` is applied to. -/
def newCallee (rules : Rules) : Reader Expr := do
  let head ← if ← checkKeyword .«new» then rules.newExpression else primary rules
  memberSuffixes rules rules.levels head

/-- Only one level more than the tokens is needed within parentheses, but an expression itself takes another one. -/
def ReadsExpression (form : ExprForm) (ts : List Token) : Prop :=
  ∀ levels next after, ts.length + after.length + 1 < levels → Ends Level.sequence next →
    Passes (ts ++ next :: after) (next :: after) (expression (rulesFor levels) false) (·.Matches form)

abbrev ReadsAssignment : ExprForm → List Token → Prop :=
  ReadsBy (assignment · false) (Ends Level.assignment)

/-- The last part of a choice is itself an assignment, so that no operator of one may follow. -/
abbrev ReadsConditional : ExprForm → List Token → Prop :=
  ReadsBy (conditional · false) (Ends Level.assignment)

/-- Whatever lower precedence an operand is read for, it is read up to an operator that binds no more closely. -/
def ReadsOperand (p : Nat) (form : ExprForm) (ts : List Token) : Prop :=
  ∀ q ≤ p,
    LeadsTo (fun rules => binaryRest rules q false) (binary · q false) (Ends (Level.operation (p + 1))) 0 form ts

abbrev ReadsUnary : ExprForm → List Token → Prop :=
  ReadsBy unary (Ends Level.update)

abbrev ReadsUpdate : ExprForm → List Token → Prop :=
  ReadsBy postfixUpdate (Ends Level.update)

abbrev ReadsTarget : ExprForm → List Token → Prop :=
  ReadsBy leftHandSide (Ends Level.creation)

abbrev ReadsCallee : ExprForm → List Token → Prop :=
  LeadsTo callSuffixes leftHandSide (fun _ => True) 0

abbrev ReadsMember : ExprForm → List Token → Prop :=
  LeadsTo memberSuffixes newCallee (fun _ => True) 1

abbrev ReadsPrimary : ExprForm → List Token → Prop :=
  ReadsBy primary fun _ => True

/-- From tokens an expression of a form is read at a place that asks for a level. -/
def ReadsAt (level : Nat) (form : ExprForm) (ts : List Token) : Prop :=
  match level with
  | 0 => ReadsExpression form ts
  | 1 => ReadsAssignment form ts
  | 2 => ReadsConditional form ts
  | 3 | 4 | 5 | 6 | 7 | 8 | 9 | 10 | 11 | 12 => ReadsOperand (level - 2) form ts
  | 13 => ReadsUnary form ts
  | 14 => ReadsUpdate form ts
  | 15 => ReadsTarget form ts
  | 16 => ReadsCallee form ts
  | 17 => ReadsMember form ts ∧ ReadsCallee form ts
  | _ => ReadsPrimary form ts

theorem append_between (ts us rest : List Token) (t : Token) : ts ++ t :: us ++ rest = ts ++ t :: (us ++ rest) := by
  simp

/-- Behind a part a token and others go on with it. What they add is read in one turn. -/
theorem LeadsTo.turn {goesOn : Rules → Nat → Expr → Reader Expr} {read : Rules → Reader Expr}
    {follows : Token → Prop} {spare : Nat} {part form : ExprForm} {ts us : List Token} {t : Token}
    (leads : LeadsTo goesOn read follows spare part ts) (begins : follows t)
    (turn : ∀ levels next after e fuel good left, us.length + 1 + after.length < levels → follows next →
      e.Matches part → (∀ e, e.Matches form → Passes (next :: after) left (goesOn (rulesFor levels) fuel e) good) →
      Passes (t :: (us ++ next :: after)) left (goesOn (rulesFor levels) (fuel + 1) e) good) :
    LeadsTo goesOn read follows spare form (ts ++ t :: us) := by
  intro levels next after left good room ends behind
  simp only [List.length_append, List.length_cons] at room
  rw [append_between]
  refine leads levels t (us ++ next :: after) left good (by simp; omega) begins fun e fuel same lasts => ?_
  simp only [List.length_append, List.length_cons] at lasts
  obtain ⟨k, rfl⟩ : ∃ k, fuel = k + 1 := ⟨fuel - 1, by omega⟩
  exact turn levels next after e k good left (by omega) ends same fun e same => behind e k same (by omega)

/-- Behind an expression that is read alone as many turns may follow as there are levels. -/
theorem goes_on_behind (goesOn : Rules → Nat → Expr → Reader Expr) {head : Reader Expr} {good : Expr → Prop}
    {form : ExprForm} {tokens left after : List Token} {next : Token} {levels : Nat}
    (read : Passes tokens (next :: after) head (·.Matches form)) (room : after.length < levels)
    (behind : ∀ e fuel, e.Matches form → after.length < fuel →
      Passes (next :: after) left (goesOn (rulesFor levels) fuel e) good) :
    Passes tokens left (head >>= fun e => goesOn (rulesFor levels) (rulesFor levels).levels e) good := by
  refine read.bind fun e same => ?_
  rw [levels_rules_for levels]
  exact behind e levels same room

/-! ## From a level to the one below -/

/-- An expression begins with a token at a place that asks for a level. -/
structure Starts (level : Nat) (t : Token) : Prop where
  closes : t.kind ≠ .mark .closeParen ∧ t.kind ≠ .mark .closeBracket ∧ t.kind ≠ .mark .comma
  operator : Level.update ≤ level → unaryOp? t.kind = none ∧ updateOp? t.kind = none
  creation : Level.primary ≤ level → t.kind ≠ .keyword .«new»

theorem Starts.below {low high : Nat} {t : Token} (starts : Starts high t) (below : low ≤ high) : Starts low t where
  closes := starts.closes
  operator reached := starts.operator (Nat.le_trans reached below)
  creation reached := starts.creation (Nat.le_trans reached below)

/-- There are tokens, and the first of them begins an expression at a place that asks for a level. -/
def Begins (level : Nat) (ts : List Token) : Prop :=
  ∃ t rest, ts = t :: rest ∧ Starts level t

theorem Begins.below {low high : Nat} {ts : List Token} (begins : Begins high ts) (below : low ≤ high) :
    Begins low ts := by
  obtain ⟨t, rest, same, starts⟩ := begins
  exact ⟨t, rest, same, starts.below below⟩

theorem Begins.append {level : Nat} {ts : List Token} (begins : Begins level ts) (us : List Token) :
    Begins level (ts ++ us) := by
  obtain ⟨t, rest, rfl, starts⟩ := begins
  exact ⟨t, rest ++ us, rfl, starts⟩

variable {form : ExprForm} {ts : List Token}

/-- A rule goes back to a reader for one level less. -/
theorem ReadsBy.rule {read : Rules → Reader Expr} {follows : Token → Prop} (reads : ReadsBy read follows form ts)
    (rule : Rules → Reader Expr) (backTo : ∀ m, rule (rulesFor (m + 1)) = read (rulesFor m)) {levels : Nat}
    (next : Token) {after : List Token} (room : ts.length + after.length + 1 < levels) (ends : follows next) :
    Passes (ts ++ next :: after) (next :: after) (rule (rulesFor levels)) (·.Matches form) := by
  obtain ⟨m, rfl⟩ : ∃ m, levels = m + 1 := ⟨levels - 1, by omega⟩
  rw [backTo]
  exact reads m next after (by omega) ends

theorem ReadsBy.assignment_rule (reads : ReadsAssignment form ts) {levels : Nat} {next : Token} {after : List Token}
    (room : ts.length + after.length + 1 < levels) (ends : Ends Level.assignment next) :
    Passes (ts ++ next :: after) (next :: after) ((rulesFor levels).assignment false) (·.Matches form) :=
  reads.rule (·.assignment false) (fun _ => rfl) next room ends

theorem expression_of_assignment (reads : ReadsAssignment form ts) : ReadsExpression form ts := by
  intro levels next after room ends
  have first := reads.assignment_rule room (ends.above (Nat.zero_le _))
  refine first.bind fun e same => (passes_check _).bind fun comma found => .ite_false ?_ (.pure same)
  simp [found, ends.comma rfl]

theorem assignment_of_conditional (reads : ReadsConditional form ts) : ReadsAssignment form ts := by
  intro levels next after room ends
  refine Passes.get.bind fun s faces => ?_
  extract_lets token start
  refine .ite_false (by simp [no_single_parameter faces]) ?_
  refine passes_at_parameter_list.bind fun parameters found => .ite_false (by simp [found]) ?_
  refine (reads levels next after room ends).bind fun e same => passes_peek.bind fun t there => ?_
  subst there
  rw [ends.assignment (Nat.le_refl _)]
  exact .pure same

/-- Operators of a lower precedence are left. -/
theorem binary_rest_stops {rules : Rules} {q fuel : Nat} {next : Token} {after : List Token} {e : Expr}
    (lower : ∀ p op, infixOp? false next.kind = some (p, op) → p < q) (lasts : 0 < fuel) (same : e.Matches form) :
    Passes (next :: after) (next :: after) (binaryRest rules q false fuel e) (·.Matches form) := by
  obtain ⟨k, rfl⟩ : ∃ k, fuel = k + 1 := ⟨fuel - 1, by omega⟩
  refine passes_peek.bind fun t there => ?_
  subst there
  split
  · exact .pure same
  · next p op found => exact .ite_true (lower p op found) (.pure same)

/-- What stands before a question mark, or alone, is read up to a token that is no operator between operands. -/
theorem ReadsOperand.test (reads : ReadsOperand 1 form ts) {levels : Nat} {next : Token} {after : List Token}
    (room : ts.length + after.length < levels) (ends : Ends (Level.operation 1) next)
    (noOperator : infixOp? false next.kind = none) :
    Passes (ts ++ next :: after) (next :: after) (binary (rulesFor levels) 0 false) (·.Matches form) := by
  refine reads 0 (Nat.zero_le 1) levels next after _ _ room (ends.above (by decide)) fun e fuel same lasts => ?_
  exact binary_rest_stops (by simp [noOperator]) (by omega) same

/-- What is no choice itself may be followed by an operator of an assignment. -/
theorem ReadsOperand.alone (reads : ReadsOperand 1 form ts) :
    ReadsBy (conditional · false) (Ends Level.conditional) form ts := by
  intro levels next after room ends
  have noOperator : infixOp? false next.kind = none := by
    refine Option.eq_none_iff_forall_ne_some.mpr fun found same => ?_
    exact absurd (ends.operation found.1 found.2 same) (Nat.not_lt.mpr (Nat.le_add_left _ _))
  refine (reads.test room (ends.above (by decide)) noOperator).bind fun e same => ?_
  refine (passes_no_accept ?_).bind fun asks found => .ite_false ?_ (.pure same)
  · exact ends.question (Nat.le_refl _)
  · simp [found]

theorem conditional_of_operand (reads : ReadsOperand 1 form ts) : ReadsConditional form ts := by
  intro levels next after room ends
  exact reads.alone levels next after room (ends.above (by decide))

theorem ReadsOperand.lower {p : Nat} (reads : ReadsOperand (p + 1) form ts) : ReadsOperand p form ts := by
  intro q reached levels next after left good room ends goesOn
  exact reads q (by omega) levels next after left good room (ends.above (Nat.le_succ _)) goesOn

theorem operand_of_unary (reads : ReadsUnary form ts) {p : Nat} (binds : p ≤ 11) : ReadsOperand p form ts := by
  intro q reached levels next after left good room ends goesOn
  have above : Level.operation (p + 1) ≤ Level.update := Nat.add_le_add_right (Nat.succ_le_succ binds) 2
  have read := reads levels next after room (ends.above above)
  exact goes_on_behind (fun rules => binaryRest rules q false) read (by omega) goesOn

theorem unary_of_update (begins : Begins Level.update ts) (reads : ReadsUpdate form ts) :
    ReadsUnary form ts := by
  obtain ⟨t, rest, rfl, starts⟩ := begins
  intro levels next after room ends
  refine passes_peek.bind fun token there => ?_
  subst there
  obtain ⟨noOperator, noUpdate⟩ := starts.operator (Nat.le_refl _)
  extract_lets start
  rw [noOperator, noUpdate]
  exact reads levels next after room ends

theorem update_of_target (reads : ReadsTarget form ts) : ReadsUpdate form ts := by
  intro levels next after room ends
  refine (reads levels next after room (ends.above (by decide))).bind fun e same => passes_peek.bind fun t there => ?_
  subst there
  split
  · next op found =>
    have newline : t.newlineBefore = true := by simpa [found] using ends.update (Nat.le_refl _)
    exact .ite_true newline (.pure same)
  · exact .pure same

/-- Nothing but parentheses and properties goes on behind a callee. -/
theorem call_suffixes_stop {rules : Rules} {fuel : Nat} {next : Token} {after : List Token} {e : Expr}
    (ends : Ends Level.creation next) (lasts : 0 < fuel) (same : e.Matches form) :
    Passes (next :: after) (next :: after) (callSuffixes rules fuel e) (·.Matches form) := by
  obtain ⟨k, rfl⟩ : ∃ k, fuel = k + 1 := ⟨fuel - 1, by omega⟩
  refine (passes_check _).bind fun opens found => .ite_false ?_ ?_
  · simp [found, ends.opening]
  · refine Passes.get.bind fun s faces => .ite_false ?_ (.pure same)
    simp [ReadingState.atMember, faces_current faces, ends.point, ends.bracket]

theorem target_of_callee (reads : ReadsCallee form ts) : ReadsTarget form ts := by
  intro levels next after room ends
  exact reads levels next after _ _ room trivial fun e fuel same lasts => call_suffixes_stop ends (by omega) same

section

variable (begins : Begins Level.primary ts) (reads : ReadsPrimary form ts)

include begins reads

theorem callee_of_primary : ReadsCallee form ts := by
  obtain ⟨t, rest, rfl, starts⟩ := begins
  intro levels next after left good room _ goesOn
  refine (passes_check _).bind fun creates found => .ite_false ?_ ?_
  · simp [found, starts.creation (Nat.le_refl _)]
  · exact goes_on_behind callSuffixes (reads levels next after room trivial) (by omega) goesOn

theorem member_of_primary : ReadsMember form ts := by
  obtain ⟨t, rest, rfl, starts⟩ := begins
  intro levels next after left good room _ goesOn
  refine (passes_check _).bind fun creates found => .ite_false ?_ ?_
  · simp [found, starts.creation (Nat.le_refl _)]
  · exact goes_on_behind memberSuffixes (reads levels next after (by omega) trivial) (by omega) goesOn

end

/-- What is read at a level is read at the level below. -/
theorem ReadsAt.lower {level : Nat} (begins : Begins (level + 1) ts) (reads : ReadsAt (level + 1) form ts) :
    ReadsAt level form ts := by
  match level with
  | 0 => exact expression_of_assignment reads
  | 1 => exact assignment_of_conditional reads
  | 2 => exact conditional_of_operand reads
  | 3 | 4 | 5 | 6 | 7 | 8 | 9 | 10 | 11 => exact ReadsOperand.lower reads
  | 12 => exact operand_of_unary reads (by decide)
  | 13 => exact unary_of_update begins reads
  | 14 => exact update_of_target reads
  | 15 => exact target_of_callee reads
  | 16 => exact reads.2
  | 17 => exact ⟨member_of_primary begins reads, callee_of_primary begins reads⟩
  | _ + 18 => exact reads

/-- What is read at a level is read at all levels below. -/
theorem ReadsAt.below {low high : Nat} (below : low ≤ high) (begins : Begins high ts) (reads : ReadsAt high form ts) :
    ReadsAt low form ts := by
  induction high, below using Nat.le_induction with
  | base => exact reads
  | succ high below ih => exact ih (begins.below (Nat.le_succ high)) (reads.lower begins)

/-- The operands of an operator are read for its precedence, and the one behind it for the next one. -/
theorem ReadsAt.operand {p : Nat} (operates : 1 ≤ p) (binds : p ≤ 11) (reads : ReadsAt (Level.operation p) form ts) :
    ReadsOperand p form ts := by
  obtain inner | rfl : p ≤ 10 ∨ p = 11 := by omega
  · interval_cases p <;> exact reads
  · exact operand_of_unary reads (Nat.le_refl _)

theorem ReadsOperand.reads {p : Nat} (operates : 1 ≤ p) (binds : p ≤ 10) (reads : ReadsOperand p form ts) :
    ReadsAt (Level.operation p) form ts := by
  interval_cases p <;> exact reads

end ScriptEngine.Grammar.Printing
