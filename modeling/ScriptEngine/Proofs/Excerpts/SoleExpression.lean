import ScriptEngine.Proofs.Excerpts.ReadStatement
import ScriptEngine.Proofs.Reading.Totality

/-!
Scripts that are an expression between parentheses and nothing else. What is between the parentheses is the expression of
their only statement, whatever rules lie between a statement and the smallest expressions, since nothing goes on with
the parenthesis that closes or with the end of the input.
-/

namespace ScriptEngine.Grammar

variable {α : Type} {rules : Rules} {s : ReadingState} {goal : Expr → ReadingState → Prop}

/-! ## Single steps of a run -/

section

theorem run_peek (rest : Token → Reader α) (s : ReadingState) : (peek >>= rest) s = rest s.current s :=
  rfl

theorem run_check (kind : TokenKind) (rest : Bool → Reader α) (s : ReadingState) :
    (check kind >>= rest) s = rest (s.current.kind == kind) s :=
  rfl

theorem run_get (rest : ReadingState → Reader α) (s : ReadingState) : (get >>= rest) s = rest s s :=
  rfl

theorem run_pass (rest : Reader α) (s : ReadingState) : (discard advance >>= fun _ => rest) s = rest s.pass :=
  rfl

theorem run_span_from (start : Nat) (rest : Span → Reader α) (s : ReadingState) :
    (spanFrom start >>= rest) s = rest ⟨start, max s.previous.span.stop start⟩ s :=
  rfl

theorem run_accept {kind : TokenKind} (rest : Bool → Reader α) (found : s.current.kind = kind) :
    (accept kind >>= rest) s = rest true s.pass := by
  have steps : (accept kind >>= rest) s =
      ((if (s.current.kind == kind) = true then do discard advance; return true else return false : Reader Bool) >>=
        rest) s := rfl
  rw [steps, found, if_pos BEq.rfl]
  rfl

theorem run_accept_other {kind : TokenKind} (rest : Bool → Reader α) (other : (s.current.kind == kind) = false) :
    (accept kind >>= rest) s = rest false s := by
  have steps : (accept kind >>= rest) s =
      ((if (s.current.kind == kind) = true then do discard advance; return true else return false : Reader Bool) >>=
        rest) s := rfl
  rw [steps, other, if_neg Bool.false_ne_true]
  rfl

theorem run_expect {kind : TokenKind} (what : String) (rest : Reader α) (found : s.current.kind = kind) :
    (expect kind what >>= fun _ => rest) s = rest s.pass := by
  rw [expect, bind_assoc, run_accept _ found]
  rfl

end

/-- An expression is read, and nothing goes on with the token behind it. -/
def Ended (goal : Expr → ReadingState → Prop) (e : Expr) (t : ReadingState) : Prop :=
  goal e t ∧ t.current.kind ∈ closing false

theorem Gives.of_broken {α : Type} {goal : α → ReadingState → Prop} : Gives (broken s) goal :=
  .inl ⟨_, rfl, rfl⟩

theorem Gives.of_ok {α : Type} {result : Except Diagnostic (α × ReadingState)} {goal : α → ReadingState → Prop} {a : α}
    (done : result = .ok (a, s)) (holds : goal a s) : Gives result goal :=
  .inr ⟨a, s, done, holds⟩

theorem Gives.mono {α : Type} {result : Except Diagnostic (α × ReadingState)} {goal last : α → ReadingState → Prop}
    (gives : Gives result goal) (weaker : ∀ a t, goal a t → last a t) : Gives result last := by
  rcases gives with broken | ⟨a, t, done, holds⟩
  · exact .inl broken
  · exact .of_ok done (weaker a t holds)

theorem other_than_closing {kind other : TokenKind} (closes : kind ∈ closing false) (open_ : other ∉ closing false) :
    (kind == other) = false :=
  beq_eq_false_iff_ne.mpr fun same => open_ (same ▸ closes)

/-! ## What does not go on -/

section

variable {e : Expr} {t : ReadingState} (ended : Ended goal e t)

include ended

theorem call_suffixes_end (fuel : Nat) : Gives (callSuffixes rules fuel e t) (Ended goal) := by
  cases fuel with
  | zero => exact .of_broken
  | succ fuel =>
    have paren : (t.current.kind == .mark .openParen) = false := other_than_closing ended.2 (by decide)
    have dot : (t.current.kind == .mark .dot) = false := other_than_closing ended.2 (by decide)
    have bracket : (t.current.kind == .mark .openBracket) = false := other_than_closing ended.2 (by decide)
    have member : ¬ t.atMember = true := by rw [ReadingState.atMember, dot, bracket]; exact Bool.false_ne_true
    rw [callSuffixes, checkMark, run_check, paren, if_neg Bool.false_ne_true, run_get, if_neg member]
    exact .of_ok rfl ended

theorem binary_rest_ends (precedence : Nat) (noIn : Bool) (fuel : Nat) :
    Gives (binaryRest rules precedence noIn fuel e t) (Ended goal) := by
  cases fuel with
  | zero => exact .of_broken
  | succ fuel =>
    have none : infixOp? noIn t.current.kind = none :=
      Excerpt.operator_of_closing (infixOp? noIn) ended.2 rfl rfl rfl
    rw [binaryRest, run_peek, none]
    exact .of_ok rfl ended

end

/-! ## What an expression goes on to -/

theorem gives_left_hand_side (plain : s.current.kind ≠ .keyword .new) (first : Gives (primary rules s) (Ended goal)) :
    Gives (leftHandSide rules s) (Ended goal) := by
  rw [leftHandSide, checkKeyword, run_check, if_neg (by simpa using plain)]
  exact first.bind fun e t ended => call_suffixes_end ended _

theorem gives_postfix_update (plain : s.current.kind ≠ .keyword .new) (first : Gives (primary rules s) (Ended goal)) :
    Gives (postfixUpdate rules s) (Ended goal) := by
  rw [postfixUpdate]
  refine (gives_left_hand_side plain first).bind fun e t ended => ?_
  rw [run_peek, Excerpt.operator_of_closing updateOp? ended.2 rfl rfl rfl]
  exact .of_ok rfl ended

/-- The token begins one of the smallest expressions, with no operator before it. -/
structure BeginsPrimary (kind : TokenKind) : Prop where
  unary : unaryOp? kind = none
  update : updateOp? kind = none
  new : kind ≠ .keyword .new

theorem gives_binary (plain : BeginsPrimary s.current.kind) (noIn : Bool)
    (first : Gives (primary rules s) (Ended goal)) : Gives (binary rules 0 noIn s) (Ended goal) := by
  have operand : Gives (unary rules s) (Ended goal) := by
    rw [unary, run_peek, plain.unary, plain.update]
    exact gives_postfix_update plain.new first
  exact operand.bind fun e t ended => binary_rest_ends ended 0 noIn _

theorem gives_assigned (plain : BeginsPrimary s.current.kind) (noIn : Bool) (start : Nat)
    (first : Gives (primary rules s) (Ended goal)) : Gives (assigned rules noIn start s) (Ended goal) := by
  have choice : Gives (conditional rules noIn s) (Ended goal) := by
    rw [conditional]
    refine (gives_binary plain noIn first).bind fun e t ended => ?_
    rw [acceptMark, run_accept_other _ (other_than_closing ended.2 (by decide))]
    exact .of_ok rfl ended
  rw [assigned]
  refine choice.bind fun e t ended => ?_
  rw [run_peek, Excerpt.operator_of_closing assignOp? ended.2 rfl rfl rfl]
  exact .of_ok rfl ended

theorem gives_expression (noIn : Bool) (first : Gives (rules.assignment noIn s) (Ended goal)) :
    Gives (expression rules noIn s) (Ended goal) := by
  rw [expression]
  refine first.bind fun e t ended => ?_
  rw [checkMark, run_check, other_than_closing ended.2 (by decide)]
  exact .of_ok rfl ended

/-- Parentheses around an expression are left out of it. -/
theorem gives_enclosed {last : Expr → ReadingState → Prop} (opens : s.current.kind = .mark .openParen)
    (inside : Gives (expression rules false s.pass) fun e t => last e t.pass ∧ t.current.kind = .mark .closeParen) :
    Gives (primary rules s) last := by
  rw [primary, run_peek]
  extract_lets complete
  rw [opens]
  dsimp only
  rw [run_pass]
  refine inside.bind fun e t there => ?_
  rw [expectMark, run_expect _ _ there.2]
  exact .of_ok rfl there.1

/-! ## Programs -/

/-- An expression that is all that is left of a script is a statement. -/
theorem gives_expression_statement {good : Expr → Prop} (opens : s.current.kind = .mark .openParen)
    (inside : Gives (expression rules false s) fun e t => good e ∧ t.current.kind = .endOfInput) :
    Gives (item rules s) fun statement t => ∃ e span, statement = ⟨.expr e, span⟩ ∧ good e ∧
      t.current.kind = .endOfInput := by
  have form : Gives (statementForm rules s.current s) fun form t => ∃ e, form = .expr e ∧ good e ∧
      t.current.kind = .endOfInput := by
    rw [statementForm, opens]
    dsimp only
    have name : (TokenKind.mark .openParen == .identifier) = false := by decide
    rw [run_get, name, Bool.false_and, if_neg Bool.false_ne_true]
    refine inside.bind fun e t there => ?_
    have closed : (endStatement >>= fun _ => pure (.expr e) : Reader StmtForm) t = .ok (.expr e, t) := by
      have other : (t.current.kind == .mark .semicolon) = false := by rw [there.2]; decide
      have ends : t.atStatementEnd = true := by simp [ReadingState.atStatementEnd, there.2]
      rw [endStatement, bind_assoc, acceptMark, run_accept_other _ other]
      simp only [Bool.false_eq_true, if_false]
      rw [bind_assoc, run_get, if_pos ends]
      rfl
    exact .of_ok closed ⟨e, rfl, there.1, there.2⟩
  have none : lexicalKeyword? s.current.kind = none := by rw [opens]; rfl
  rw [item, run_peek, none]
  dsimp only
  rw [statement, run_peek, if_neg (by rw [opens]; decide)]
  refine form.bind fun form t there => ?_
  obtain ⟨e, rfl, known⟩ := there
  rw [run_span_from]
  exact .of_ok rfl ⟨e, _, rfl, known⟩

/-- What is read between parentheses that are all of a script is the script's only expression. -/
theorem gives_sole_expression {good : Expr → Prop} (opens : s.current.kind = .mark .openParen)
    (noArrow : atParameterList s = .ok (false, s))
    (inside : ∀ n, Gives (assignment (rulesFor n) false s.pass) fun e t => good e ∧
      t.current.kind = .mark .closeParen ∧ t.pass.current.kind = .endOfInput) (levels : Nat) :
    Gives (programBody levels s) fun body _ => ∃ e span, body = [⟨.expr e, span⟩] ∧ good e := by
  have single : ¬ s.atSingleParameter = true := by
    simp [ReadingState.atSingleParameter, opens]
  have inner (n : Nat) : Gives (expression (rulesFor n) false s.pass)
      (Ended fun e t => (good e ∧ t.pass.current.kind = .endOfInput) ∧ t.current.kind = .mark .closeParen) := by
    cases n with
    | zero => exact .of_broken
    | succ n =>
      refine gives_expression false ((inside n).mono fun e t there => ?_)
      obtain ⟨known, closes, ends⟩ := there
      exact ⟨⟨⟨known, ends⟩, closes⟩, by rw [closes]; decide⟩
  have outer (n : Nat) : Gives (expression (rulesFor n) false s)
      (Ended fun e t => good e ∧ t.current.kind = .endOfInput) := by
    cases n with
    | zero => exact .of_broken
    | succ n =>
      refine gives_expression false ?_
      change Gives (assignment (rulesFor n) false s) _
      rw [assignment_eq, if_neg single, noArrow]
      refine gives_assigned (by rw [opens]; exact ⟨rfl, rfl, by decide⟩) false _ (gives_enclosed opens ?_)
      refine (inner n).mono fun e t there => ⟨⟨there.1.1, ?_⟩, there.1.2⟩
      rw [there.1.1.2]
      decide
  unfold programBody
  cases levels with
  | zero => exact .of_broken
  | succ levels =>
    have goesOn : (s.current.kind == .endOfInput || s.current.kind == .endOfInput) = false := by rw [opens]; decide
    have string : (s.current.kind == .string) = false := by rw [opens]; decide
    rw [bodyItems, run_peek, if_neg (Bool.eq_false_iff.mp goesOn)]
    have statement := gives_expression_statement opens ((outer levels).mono fun e t there => there.1)
    refine statement.bind fun statement t there => ?_
    obtain ⟨e, span, rfl, known, ends⟩ := there
    dsimp only
    rw [string, Bool.and_false, Bool.false_and, if_neg Bool.false_ne_true]
    cases levels with
    | zero => exact .of_broken
    | succ levels =>
      rw [bodyItems, run_peek, if_pos (by rw [ends]; rfl)]
      exact .of_ok rfl ⟨e, span, rfl, known⟩

/-- A program is what its tokens give, which are always read or at fault. -/
theorem of_tokens_of_gives (script : Script) {strict : Bool} {good : List Stmt → Prop}
    (gives : ∀ levels s, script.Comes 0 s → s.body = .start false strict → s.outerBodies = [] →
      Gives (programBody levels s) fun body _ => good body) :
    ∃ p, Program.ofTokens script.source strict script.tokens = .ok p ∧ good p.body := by
  cases tokens : script.tokens with
  | nil =>
    obtain ⟨front, stop, same, -⟩ := script.lossless.ends
    rw [tokens] at same
    simp at same
  | cons first rest =>
    let start : ReadingState := ⟨script.source, first, first, rest, .start false strict, []⟩
    have place : script.At [(0, 0)] 0 start := ⟨rfl, by rw [tokens]; rfl, by rw [tokens]; rfl, rfl⟩
    have steps : Program.ofTokens script.source strict (first :: rest) =
        programBody (levelsFor (first :: rest)) start >>= fun read =>
          .ok ⟨read.1, read.2.body.strict, read.2.body.names⟩ := rfl
    rcases gives (levelsFor (first :: rest)) start ⟨_, place⟩ rfl rfl with ⟨d, failed, fault⟩ | ⟨body, t, done, known⟩
    · have refused : Program.ofTokens script.source strict script.tokens = .error d := by
        rw [tokens, steps, failed]
        rfl
      exact absurd fault (script.reports_of_tokens refused).1
    · rw [steps, done]
      exact ⟨_, rfl, known⟩

end ScriptEngine.Grammar
