import ScriptEngine.Proofs.Excerpts.Functions

/-!
Programs that are a function between parentheses and nothing else. If the only statement of such a program is a
function, then it was read behind its keyword, up to the last parenthesis: whatever the rules between a statement and
the smallest expressions put behind a function, they give something else. What a function is read off comes apart into
its name, the list of its parameters and its body.
-/

namespace ScriptEngine

/-- The function that a body completes. -/
def FunctionCode.completed (name : Option String) (kind : FunctionKind) (parameters : List String)
    (statements : List Stmt) (body : Grammar.BodyState) (source : String) (span : Span) : FunctionCode where
  name := name
  kind := kind
  parameters := parameters
  body := statements
  strict := body.strict
  scope := body.names
  usesArguments := body.usesArguments
  source := source
  span := span

namespace Grammar

variable {α : Type} {rules : Rules} {s t : ReadingState} {code : FunctionCode} {span : Span}

/-! ## Expressions that are functions -/

/-- What is read is no function. -/
def NoFunction (read : Reader Expr) : Prop :=
  Always read fun e _ => ∀ code, e.form ≠ .function code

/-- What goes on with a function gives something else, unless nothing is read. -/
def LeavesFunctions (rest : Expr → Reader Expr) : Prop :=
  ∀ e s code span t, rest e s = .ok (⟨.function code, span⟩, t) → e = ⟨.function code, span⟩ ∧ s = t

theorem no_function_complete {form : ExprForm} (other : ∀ code, form ≠ .function code) (start : Nat) :
    NoFunction (do return ⟨form, ← spanFrom start⟩) := by
  refine .behind fun span s e t done => ?_
  cases done
  exact other

theorem NoFunction.absurd {read : Reader Expr} {goal : Prop} (none : NoFunction read)
    (done : read s = .ok (⟨.function code, span⟩, t)) : goal :=
  (none s _ t done code rfl).elim

/-- Behind a function nothing was read. -/
theorem LeavesFunctions.first {rest : Expr → Reader Expr} (leaves : LeavesFunctions rest) {first : Reader Expr}
    (done : (first >>= rest) s = .ok (⟨.function code, span⟩, t)) : first s = .ok (⟨.function code, span⟩, t) := by
  obtain ⟨e, u, begun, ended⟩ := ok_of_steps done
  obtain ⟨rfl, rfl⟩ := leaves e u code span t ended
  exact begun

theorem no_function_member_suffix (object : Expr) : NoFunction (memberSuffix rules object) := by
  refine .behind fun found => .ite (.behind fun token => ?_) (.behind fun _ => .behind fun key => .behind fun _ => ?_)
  · split
    · exact no_function_complete (by simp) _
    · exact no_function_complete (by simp) _
    · intro s e t done
      cases done
  · exact no_function_complete (by simp) _

theorem leaves_call_suffixes (fuel : Nat) : LeavesFunctions (callSuffixes rules fuel) := by
  induction fuel with
  | zero =>
    intro e s code span t done
    cases done
  | succ fuel ih =>
    intro e s code span t done
    rw [callSuffixes, checkMark, run_check] at done
    split at done
    · obtain ⟨items, u, -, called⟩ := ok_of_steps done
      obtain ⟨sp, v, -, further⟩ := ok_of_steps called
      cases (ih _ v code span t further).1
    · rw [run_get] at done
      split at done
      · obtain ⟨member, u, begun, further⟩ := ok_of_steps done
        obtain ⟨rfl, -⟩ := ih member u code span t further
        exact (no_function_member_suffix e).absurd begun
      · cases done
        exact ⟨rfl, rfl⟩

theorem leaves_binary_rest (precedence : Nat) (noIn : Bool) (fuel : Nat) :
    LeavesFunctions (binaryRest rules precedence noIn fuel) := by
  induction fuel with
  | zero =>
    intro e s code span t done
    cases done
  | succ fuel ih =>
    intro e s code span t done
    rw [binaryRest, run_peek] at done
    cases found : infixOp? noIn s.current.kind with
    | none =>
      rw [found] at done
      cases done
      exact ⟨rfl, rfl⟩
    | some operator =>
      obtain ⟨p, op⟩ := operator
      rw [found] at done
      dsimp only at done
      split at done
      · cases done
        exact ⟨rfl, rfl⟩
      · rw [run_pass] at done
        obtain ⟨right, u, -, further⟩ := ok_of_steps done
        have operation := congrArg Expr.form (ih _ u code span t further).1
        cases op <;> cases operation

/-- A function is read as one of the smallest expressions, if no operator stands before it. -/
theorem primary_of_postfix (plain : s.current.kind ≠ .keyword .new)
    (done : postfixUpdate rules s = .ok (⟨.function code, span⟩, t)) :
    primary rules s = .ok (⟨.function code, span⟩, t) := by
  rw [postfixUpdate] at done
  obtain ⟨target, u, begun, ended⟩ := ok_of_steps done
  rw [run_peek] at ended
  have kept : target = ⟨.function code, span⟩ ∧ u = t := by
    cases found : updateOp? u.current.kind with
    | none =>
      rw [found] at ended
      cases ended
      exact ⟨rfl, rfl⟩
    | some op =>
      rw [found] at ended
      dsimp only at ended
      by_cases line : u.current.newlineBefore = true
      · rw [if_pos line] at ended
        cases ended
        exact ⟨rfl, rfl⟩
      · rw [if_neg line] at ended
        have none : NoFunction (do
            checkTarget target
            discard advance
            return ⟨.update op false target, ← spanFrom target.span.start⟩) :=
          .behind fun _ => .behind fun _ => no_function_complete (by simp) _
        exact none.absurd ended
  obtain ⟨rfl, rfl⟩ := kept
  rw [leftHandSide, checkKeyword, run_check, if_neg (by simpa using plain)] at begun
  exact (leaves_call_suffixes rules.levels).first begun

theorem primary_of_conditional {noIn : Bool} (plain : BeginsPrimary s.current.kind)
    (done : conditional rules noIn s = .ok (⟨.function code, span⟩, t)) :
    primary rules s = .ok (⟨.function code, span⟩, t) := by
  rw [conditional] at done
  obtain ⟨test, u, begun, ended⟩ := ok_of_steps done
  have kept : test = ⟨.function code, span⟩ ∧ u = t := by
    by_cases asks : u.current.kind = .mark .question
    · rw [acceptMark, run_accept _ asks] at ended
      have none : NoFunction (do
          let yes ← rules.assignment false
          expectMark .colon "`:` in conditional expression"
          let no ← rules.assignment noIn
          return ⟨.conditional test yes no, ← spanFrom test.span.start⟩) :=
        .behind fun _ => .behind fun _ => .behind fun _ => no_function_complete (by simp) _
      exact none.absurd ended
    · rw [acceptMark, run_accept_other _ (by simpa using asks)] at ended
      cases ended
      exact ⟨rfl, rfl⟩
  obtain ⟨rfl, rfl⟩ := kept
  rw [binary] at begun
  have operand := (leaves_binary_rest 0 noIn rules.levels).first begun
  rw [unary, run_peek, plain.unary, plain.update] at operand
  exact primary_of_postfix plain.new operand

theorem primary_of_assigned {noIn : Bool} {start : Nat} (plain : BeginsPrimary s.current.kind)
    (done : assigned rules noIn start s = .ok (⟨.function code, span⟩, t)) :
    primary rules s = .ok (⟨.function code, span⟩, t) := by
  rw [assigned] at done
  obtain ⟨target, u, begun, ended⟩ := ok_of_steps done
  rw [run_peek] at ended
  have kept : target = ⟨.function code, span⟩ ∧ u = t := by
    cases found : assignOp? u.current.kind with
    | none =>
      rw [found] at ended
      cases ended
      exact ⟨rfl, rfl⟩
    | some op =>
      rw [found] at ended
      have none : NoFunction (do
          checkTarget target
          discard advance
          let value ← rules.assignment noIn
          return ⟨.assign op target value, ← spanFrom start⟩) :=
        .behind fun _ => .behind fun _ => .behind fun _ => no_function_complete (by simp) _
      exact none.absurd ended
  obtain ⟨rfl, rfl⟩ := kept
  exact primary_of_conditional plain begun

theorem assignment_of_expression {noIn : Bool}
    (done : expression rules noIn s = .ok (⟨.function code, span⟩, t)) :
    rules.assignment noIn s = .ok (⟨.function code, span⟩, t) := by
  rw [expression] at done
  obtain ⟨first, u, begun, ended⟩ := ok_of_steps done
  have kept : first = ⟨.function code, span⟩ ∧ u = t := by
    rw [checkMark, run_check] at ended
    by_cases comma : (u.current.kind == .mark .comma) = true
    · rw [comma] at ended
      have none : NoFunction (do
          discard advance
          let rest ← readSeparated rules.levels (rules.assignment noIn) []
          return ⟨.sequence (first :: rest), ← spanFrom first.span.start⟩) :=
        .behind fun _ => .behind fun _ => no_function_complete (by simp) _
      exact none.absurd ended
    · rw [Bool.eq_false_iff.mpr comma] at ended
      cases ended
      exact ⟨rfl, rfl⟩
  obtain ⟨rfl, rfl⟩ := kept
  exact begun


theorem of_expect {kind : TokenKind} {what : String} (done : expect kind what s = .ok ((), t)) :
    s.current.kind = kind ∧ t = s.pass := by
  by_cases found : s.current.kind = kind
  · have run : expect kind what s = .ok ((), s.pass) := by
      rw [expect, run_accept _ found]
      rfl
    rw [run] at done
    cases done
    exact ⟨found, rfl⟩
  · rw [expect, run_accept_other _ (by simpa using found)] at done
    cases done

/-! ## Lists of parameters -/

/-- The names that tokens hold with commas between them, if they hold nothing else. -/
def separatedNames? : List Token → Option (List String)
  | [] => none
  | [t] => if t.kind = .identifier then some [t.lexeme] else none
  | t :: u :: rest =>
    if t.kind = .identifier ∧ u.kind = .mark .comma then (separatedNames? rest).map (t.lexeme :: ·) else none

/-- The names of a list of parameters, which may be empty. -/
def parameterNames? (tokens : List Token) : Option (List String) :=
  if tokens = [] then some [] else separatedNames? tokens

/-- A parameter with the token that names it. -/
def parameter : Reader (String × Token) := do
  let token ← peek
  return (← bindingName "parameter name", token)

/-- A token is passed if others are left. -/
theorem pass_left {t next : Token} {passed rest : List Token}
    (left : s.current :: s.upcoming = t :: (passed ++ next :: rest)) :
    s.current = t ∧ s.pass.current :: s.pass.upcoming = passed ++ next :: rest := by
  obtain ⟨source, previous, current, upcoming, body, outerBodies⟩ := s
  obtain ⟨rfl, rfl⟩ := List.cons.inj left
  cases passed <;> exact ⟨rfl, rfl⟩

theorem binding_name_eq (what : String) (s : ReadingState) : bindingName what s =
    if s.current.kind = .identifier then
      if s.body.strict && isStrictForbidden s.current.lexeme then
        failAt s.current.span (.strictName s.current.lexeme) s.pass
      else .ok (s.current.lexeme, s.pass)
    else failAt s.current.span (.expected what) s := by
  rw [bindingName, run_peek]
  by_cases named : s.current.kind = .identifier
  · rw [if_pos named, if_pos (by simpa using named)]
    change (if s.pass.body.strict && isStrictForbidden s.current.lexeme then
      (failAt s.current.span (.strictName s.current.lexeme) >>= fun _ : Unit => pure s.current.lexeme)
      else pure s.current.lexeme : Reader String) s.pass = _
    rw [pass_body]
    split <;> rfl
  · rw [if_neg named, if_neg (by simpa using named)]
    rfl

theorem run_parameter (named : s.current.kind = .identifier) (sloppy : s.body.strict = false) :
    parameter s = .ok ((s.current.lexeme, s.current), s.pass) := by
  have steps : parameter s = bindingName "parameter name" s >>= fun p => .ok ((p.1, s.current), p.2) := rfl
  rw [steps, binding_name_eq, if_pos named, if_neg (by simp [sloppy])]
  rfl

theorem of_parameter {p : String × Token} (done : parameter s = .ok (p, t)) :
    s.current.kind = .identifier ∧ p = (s.current.lexeme, s.current) ∧ t = s.pass := by
  have steps : parameter s = bindingName "parameter name" s >>= fun p => .ok ((p.1, s.current), p.2) := rfl
  rw [steps, binding_name_eq] at done
  by_cases named : s.current.kind = .identifier
  · rw [if_pos named] at done
    split at done
    · cases done
    · cases done
      exact ⟨named, rfl, rfl⟩
  · rw [if_neg named] at done
    cases done

/-- Tokens are passed one after the other. -/
theorem iterate_pass (passed : List Token) {next : Token} {rest : List Token}
    (left : s.current :: s.upcoming = passed ++ next :: rest) :
    (ReadingState.pass^[passed.length] s).current = next ∧ (ReadingState.pass^[passed.length] s).upcoming = rest := by
  induction passed generalizing s with
  | nil => exact List.cons.inj left
  | cons t passed ih => exact ih (pass_left left).2

/-- Behind a name a comma goes on with the list. -/
theorem run_separated_names (fuel : Nat) (done : List (String × Token)) {p : String × Token}
    (run : parameter s = .ok (p, s.pass)) : readSeparated (fuel + 1) parameter done s =
      if s.pass.current.kind = .mark .comma then readSeparated fuel parameter (p :: done) s.pass.pass
      else .ok ((p :: done).reverse, s.pass) := by
  have steps : readSeparated (fuel + 1) parameter done s = parameter s >>= fun r => (do
      if ← acceptMark .comma then readSeparated fuel parameter (r.1 :: done)
      else return (r.1 :: done).reverse : Reader (List (String × Token))) r.2 := rfl
  rw [steps, run]
  change (do
      if ← acceptMark .comma then readSeparated fuel parameter (p :: done)
      else return (p :: done).reverse : Reader (List (String × Token))) s.pass = _
  by_cases comma : s.pass.current.kind = .mark .comma
  · rw [acceptMark, run_accept _ comma, if_pos comma, if_pos rfl]
  · rw [acceptMark, run_accept_other _ (by simpa using comma), if_neg comma]
    rfl

section

variable {listed rest : List Token} {close : Token} {names : List String}

/-- The names are read that the tokens before a parenthesis hold. -/
theorem gives_separated_names (fuel : Nat) (done : List (String × Token))
    (left : s.current :: s.upcoming = listed ++ close :: rest) (closes : close.kind = .mark .closeParen)
    (sloppy : s.body.strict = false) (known : separatedNames? listed = some names) :
    Gives (readSeparated fuel parameter done s) fun parameters t =>
      parameters.map Prod.fst = done.reverse.map Prod.fst ++ names ∧ t = ReadingState.pass^[listed.length] s := by
  induction fuel generalizing s listed names done with
  | zero => exact .of_broken
  | succ fuel ih =>
    unfold separatedNames? at known
    split at known
    · cases known
    · next t =>
      rw [Option.ite_none_right_eq_some, Option.some.injEq] at known
      obtain ⟨named, rfl⟩ := known
      obtain ⟨current, others⟩ : s.current = t ∧ s.pass.current :: s.pass.upcoming = [] ++ close :: rest :=
        pass_left left
      have next := (List.cons.inj others).1
      rw [← current] at named
      rw [run_separated_names fuel done (run_parameter named sloppy), next, if_neg (by simp [closes])]
      exact .of_ok rfl ⟨by simp [current], rfl⟩
    · next t u further =>
      rw [Option.ite_none_right_eq_some, Option.map_eq_some_iff] at known
      obtain ⟨⟨named, comma⟩, others, same, rfl⟩ := known
      obtain ⟨current, behind⟩ : s.current = t ∧ s.pass.current :: s.pass.upcoming = u :: (further ++ close :: rest) :=
        pass_left left
      obtain ⟨next, behind⟩ := pass_left behind
      rw [← current] at named
      rw [run_separated_names fuel done (run_parameter named sloppy), next, if_pos comma]
      refine (ih _ behind (by rw [pass_body, pass_body, sloppy]) same).mono fun parameters t given => ⟨?_, given.2⟩
      rw [given.1]
      simp [current]

/-- What is read as names up to the first parenthesis that closes is a list of names. -/
theorem separated_names_of_ok (fuel : Nat) {done parameters : List (String × Token)}
    (left : s.current :: s.upcoming = listed ++ close :: rest) (closes : close.kind = .mark .closeParen)
    (first : ∀ t ∈ listed, t.kind ≠ .mark .closeParen)
    (read : readSeparated fuel parameter done s = .ok (parameters, t)) (ended : t.current.kind = .mark .closeParen) :
    (separatedNames? listed).isSome ∧ t = ReadingState.pass^[listed.length] s := by
  induction fuel generalizing s listed done with
  | zero => cases read
  | succ fuel ih =>
    have steps : (parameter >>= fun p => do
        if ← acceptMark .comma then readSeparated fuel parameter (p :: done) else return (p :: done).reverse) s =
          .ok (parameters, t) := read
    obtain ⟨p, u, begun, -⟩ := ok_of_steps steps
    obtain ⟨named, -, rfl⟩ := of_parameter begun
    rw [run_separated_names fuel done begun] at read
    cases listed with
    | nil =>
      rw [(List.cons.inj left).1, closes] at named
      cases named
    | cons a listed =>
      obtain ⟨rfl, behind⟩ := pass_left left
      cases listed with
      | nil =>
        rw [(List.cons.inj behind).1, if_neg (by simp [closes])] at read
        cases read
        exact ⟨by simp [separatedNames?, named], rfl⟩
      | cons b listed =>
        obtain ⟨next, behind⟩ := pass_left behind
        by_cases comma : s.pass.current.kind = .mark .comma
        · rw [if_pos comma] at read
          obtain ⟨known, place⟩ := ih behind (fun t mem => first t (by simp [mem])) read
          refine ⟨?_, place⟩
          rw [next] at comma
          simp [separatedNames?, named, comma, known]
        · rw [if_neg comma] at read
          cases read
          rw [next] at ended
          exact absurd ended (first b (by simp))

/-- What stands between the parentheses of a list of parameters. -/
def listedParameters (rules : Rules) : Reader (List (String × Token)) := do
  if ← checkMark .closeParen then return [] else readSeparated rules.levels parameter []

theorem parameter_list_eq (rules : Rules) : parameterList rules = do
    expectMark .openParen "`(` before parameters"
    let parameters ← listedParameters rules
    expectMark .closeParen "`)` after parameters"
    return parameters := by
  rw [parameterList, listedParameters]
  refine congrArg (expectMark .openParen "`(` before parameters" >>= ·) (funext fun _ => ?_)
  rw [bind_assoc]
  refine congrArg (checkMark .closeParen >>= ·) (funext fun ended => ?_)
  cases ended <;> rfl

/-- A list of parameters is read that the tokens between two parentheses form. -/
theorem gives_parameter_list {opening next : Token}
    (left : s.current :: s.upcoming = opening :: (listed ++ close :: next :: rest))
    (opens : opening.kind = .mark .openParen) (closes : close.kind = .mark .closeParen)
    (sloppy : s.body.strict = false) (known : parameterNames? listed = some names) :
    Gives (parameterList rules s) fun parameters t =>
      parameters.map Prod.fst = names ∧ t = (ReadingState.pass^[listed.length] s.pass).pass := by
  obtain ⟨current, behind⟩ := pass_left left
  have list : Gives (listedParameters rules s.pass) fun parameters t =>
      parameters.map Prod.fst = names ∧ t = ReadingState.pass^[listed.length] s.pass := by
    rw [listedParameters, checkMark, run_check]
    unfold parameterNames? at known
    split at known
    · next none =>
      subst none
      cases known
      rw [if_pos (by simp [(List.cons.inj behind).1, closes])]
      exact .of_ok rfl ⟨rfl, rfl⟩
    · next full =>
      obtain ⟨t, listed, rfl⟩ := List.exists_cons_of_ne_nil full
      have named : t.kind = .identifier := by
        unfold separatedNames? at known
        split at known <;> simp_all
      rw [if_neg (by simp [(List.cons.inj behind).1, named])]
      exact gives_separated_names rules.levels [] behind closes (by rw [pass_body, sloppy]) known
  rw [parameter_list_eq, expectMark, run_expect _ _ (by rw [current, opens])]
  refine list.bind fun parameters t given => ?_
  obtain ⟨same, rfl⟩ := given
  rw [expectMark, run_expect _ _ (by rw [(iterate_pass listed behind).1, closes])]
  exact .of_ok rfl ⟨same, rfl⟩

theorem parameter_list_of_ok {opening : Token} {parameters : List (String × Token)}
    (left : s.current :: s.upcoming = opening :: (listed ++ close :: rest)) (closes : close.kind = .mark .closeParen)
    (first : ∀ t ∈ listed, t.kind ≠ .mark .closeParen) (read : parameterList rules s = .ok (parameters, t)) :
    (parameterNames? listed).isSome ∧ t = (ReadingState.pass^[listed.length] s.pass).pass := by
  obtain ⟨current, behind⟩ := pass_left left
  rw [parameter_list_eq] at read
  obtain ⟨_, u, opened, further⟩ := ok_of_steps read
  obtain ⟨-, rfl⟩ := of_expect opened
  obtain ⟨list, u, inside, ended⟩ := ok_of_steps further
  obtain ⟨_, v, closed, given⟩ := ok_of_steps ended
  obtain ⟨last, rfl⟩ := of_expect closed
  cases given
  rw [listedParameters, checkMark, run_check] at inside
  by_cases none : s.pass.current.kind = .mark .closeParen
  · rw [if_pos (by simp [none])] at inside
    cases inside
    cases listed with
    | nil => exact ⟨rfl, rfl⟩
    | cons a listed =>
      rw [(List.cons.inj behind).1] at none
      exact absurd none (first a (by simp))
  · rw [if_neg (by simpa using none)] at inside
    obtain ⟨known, rfl⟩ := separated_names_of_ok rules.levels behind closes first inside last
    refine ⟨?_, rfl⟩
    have full : listed ≠ [] := by
      rintro rfl
      exact none (by rw [(List.cons.inj behind).1, closes])
    rwa [parameterNames?, if_neg full]

end

/-! ## Bodies -/

/-- Names that strict code may give to parameters. -/
structure StrictNames (names : List String) : Prop where
  allowed : ∀ name ∈ names, isStrictForbidden name = false
  distinct : names.Nodup

theorem strict_names_cons {name : String} {names : List String} :
    StrictNames (name :: names) ↔ isStrictForbidden name = false ∧ name ∉ names ∧ StrictNames names := by
  constructor
  · intro known
    obtain ⟨apart, distinct⟩ := List.nodup_cons.mp known.distinct
    exact ⟨known.allowed name (by simp), apart, fun other mem => known.allowed other (by simp [mem]), distinct⟩
  · rintro ⟨allowed, apart, known⟩
    exact ⟨List.forall_mem_cons.mpr ⟨allowed, known.allowed⟩, List.nodup_cons.mpr ⟨apart, known.distinct⟩⟩

/-- Strict functions take names that are allowed and distinct, from each other and from those met before. -/
theorem check_strict_parameters (parameters : List (String × Token)) (earlier : List String) (s : ReadingState) :
    (checkStrictParameters earlier parameters s = .ok ((), s) ∧
      StrictNames (parameters.map Prod.fst) ∧ ∀ name ∈ parameters.map Prod.fst, name ∉ earlier) ∨
    (∃ d, checkStrictParameters earlier parameters s = .error d) ∧
      ¬ (StrictNames (parameters.map Prod.fst) ∧ ∀ name ∈ parameters.map Prod.fst, name ∉ earlier) := by
  induction parameters generalizing earlier with
  | nil => exact .inl ⟨rfl, ⟨by simp, by simp⟩, by simp⟩
  | cons p parameters ih =>
    obtain ⟨name, token⟩ := p
    have steps : checkStrictParameters earlier ((name, token) :: parameters) s =
        if isStrictForbidden name then failAt token.span (.strictName name) s
        else if earlier.contains name then failAt token.span .duplicateParameter s
        else checkStrictParameters (name :: earlier) parameters s := by
      rw [checkStrictParameters]
      split
      · rfl
      · split <;> rfl
    rw [steps]
    by_cases forbidden : isStrictForbidden name = true
    · rw [if_pos forbidden]
      refine .inr ⟨⟨_, rfl⟩, fun ⟨known, _⟩ => ?_⟩
      rw [known.allowed name (by simp)] at forbidden
      cases forbidden
    rw [if_neg forbidden]
    by_cases met : name ∈ earlier
    · rw [if_pos (by simpa using met)]
      exact .inr ⟨⟨_, rfl⟩, fun ⟨_, other⟩ => other name (by simp) met⟩
    rw [if_neg (by simpa using met)]
    have parts : (StrictNames (((name, token) :: parameters).map Prod.fst) ∧
        ∀ other ∈ ((name, token) :: parameters).map Prod.fst, other ∉ earlier) ↔
      StrictNames (parameters.map Prod.fst) ∧ ∀ other ∈ parameters.map Prod.fst, other ∉ name :: earlier := by
      rw [List.map_cons, strict_names_cons, List.forall_mem_cons]
      constructor
      · rintro ⟨⟨-, apart, known⟩, -, others⟩
        exact ⟨known, fun other mem =>
          List.not_mem_cons_of_ne_of_not_mem (fun same => apart (same ▸ mem)) (others other mem)⟩
      · rintro ⟨known, others⟩
        have apart : name ∉ parameters.map Prod.fst := fun mem => others name mem (List.mem_cons_self ..)
        exact ⟨⟨Bool.eq_false_iff.mpr forbidden, apart, known⟩, met, fun other mem =>
          List.not_mem_of_not_mem_cons (others other mem)⟩
    rw [parts]
    exact ih (name :: earlier)

/-! ## Functions with a name -/

section

variable {name : Option String} {kind : FunctionKind} {parameters : List (String × Token)} {start : Nat}
  {statements : List Stmt} {body : BodyState}

/-- A state inside a body that is entered. -/
def ReadingState.entered (isArrow : Bool) (s : ReadingState) : ReadingState :=
  { s with body := .start isArrow s.body.strict, outerBodies := s.body :: s.outerBodies }

open Excerpt.Echoes (leftBody)

theorem with_body_eq (isArrow : Bool) (read : Reader α) (s : ReadingState) :
    withBody isArrow s.body.strict read s = read (s.entered isArrow) >>= fun p => .ok ((p.1, p.2.body), leftBody p.2) :=
  rfl

theorem function_rest_eq (named : s.current.kind = .identifier)
    (sloppy : s.body.strict = false) : functionRest rules kind start s =
      (parameterList rules >>= fun parameters =>
        functionBody rules (some s.current.lexeme) kind parameters start) s.pass := by
  unfold functionRest
  extract_lets finish
  have steps : ((some <$> bindingName "function name") >>= finish) s =
      bindingName "function name" s >>= fun p => finish (some p.1) p.2 := by
    rw [map_eq_pure_bind, bind_assoc]
    rfl
  rw [run_check, if_pos (by simp [named]), steps, binding_name_eq, if_pos named, if_neg (by simp [sloppy])]
  rfl

/-- A body is complete behind its brace, if the names of the parameters are allowed in it. -/
def completeBody (name : Option String) (kind : FunctionKind) (parameters : List (String × Token)) (start : Nat)
    (statements : List Stmt) (body : BodyState) : Reader FunctionCode := do
  expectMark .closeBrace "`\x7d` after function body"
  if body.strict then checkStrictParameters [] parameters
  let source ← sourceFrom start
  let span ← spanFrom start
  return .completed name kind (parameters.map Prod.fst) statements body source span

theorem function_body_eq (opens : s.current.kind = .mark .openBrace) : functionBody rules name kind parameters start s =
      bodyItems rules rules.levels (.mark .closeBrace) true [] (s.pass.entered (kind == .arrow)) >>= fun p =>
        completeBody name kind parameters start p.1 p.2.body (leftBody p.2) := by
  have steps : functionBody rules name kind parameters start s = (do
      expectMark .openBrace "`\x7b` before function body"
      let read ← withBody (kind == .arrow) (← isStrict) (bodyItems rules rules.levels (.mark .closeBrace) true [])
      completeBody name kind parameters start read.1 read.2 : Reader FunctionCode) s := rfl
  rw [steps, expectMark, run_expect _ _ opens]
  change withBody (kind == .arrow) s.pass.body.strict _ s.pass >>= _ = _
  rw [with_body_eq]
  cases bodyItems rules rules.levels (.mark .closeBrace) true [] (s.pass.entered (kind == .arrow)) <;> rfl

theorem function_body_opens (read : functionBody rules name kind parameters start s = .ok (code, t)) :
    s.current.kind = .mark .openBrace := by
  unfold functionBody at read
  obtain ⟨_, u, opened, -⟩ := ok_of_steps read
  exact (of_expect opened).1

theorem complete_body_of_ok (read : completeBody name kind parameters start statements body s = .ok (code, t)) :
    s.current.kind = .mark .closeBrace ∧ t = s.pass ∧ (body.strict = true → StrictNames (parameters.map Prod.fst)) ∧
      ∃ source span, code = .completed name kind (parameters.map Prod.fst) statements body source span := by
  obtain ⟨_, u, closed, further⟩ := ok_of_steps read
  obtain ⟨closes, rfl⟩ := of_expect closed
  have checked : (sourceFrom start >>= fun source => do
      return .completed name kind (parameters.map Prod.fst) statements body source (← spanFrom start) :
        Reader FunctionCode) s.pass = .ok (code, t) ∧
      (body.strict = true → StrictNames (parameters.map Prod.fst)) := by
    by_cases strict : body.strict = true
    · rw [if_pos strict] at further
      obtain ⟨_, v, checked, ended⟩ := ok_of_steps further
      rcases check_strict_parameters parameters [] s.pass with ⟨accepted, known, -⟩ | ⟨⟨d, refused⟩, -⟩
      · rw [accepted] at checked
        cases checked
        exact ⟨ended, fun _ => known⟩
      · rw [refused] at checked
        cases checked
    · rw [if_neg strict] at further
      exact ⟨further, fun holds => absurd holds strict⟩
  obtain ⟨source, u, cut, ended⟩ := ok_of_steps checked.1
  obtain ⟨rfl, -⟩ := slice_of_source_from cut
  cases ended
  exact ⟨closes, rfl, checked.2, source, _, rfl⟩

/-- The text of a function is cut, or the reader breaks. -/
theorem gives_source_from (start : Nat) (s : ReadingState) : Gives (sourceFrom start s) fun _ t => t = s := by
  cases slice : Span.slice? ⟨start, s.previous.span.stop⟩ s.source with
  | none =>
    refine .inl ⟨⟨.parsing, .brokenReader, s.current.span, []⟩, ?_, rfl⟩
    unfold sourceFrom
    dsimp only [bind, StateT.bind, get, getThe, MonadStateOf.get, StateT.get, pure, Except.pure, Except.bind]
    rw [slice]
    rfl
  | some part => exact .of_ok (source_from_some slice) rfl

theorem gives_complete_body (closes : s.current.kind = .mark .closeBrace)
    (known : body.strict = true → StrictNames (parameters.map Prod.fst)) :
    Gives (completeBody name kind parameters start statements body s) fun _ t => t = s.pass := by
  rw [completeBody, expectMark, run_expect _ _ closes]
  have cut : Gives ((sourceFrom start >>= fun source => do
      return .completed name kind (parameters.map Prod.fst) statements body source (← spanFrom start) :
        Reader FunctionCode) s.pass) fun _ t => t = s.pass :=
    (gives_source_from start s.pass).bind fun source t same => .of_ok rfl same
  by_cases strict : body.strict = true
  · rw [if_pos strict]
    rcases check_strict_parameters parameters [] s.pass with ⟨accepted, -⟩ | ⟨-, refused⟩
    · have kept : Gives (checkStrictParameters [] parameters s.pass) fun _ t => t = s.pass := .of_ok accepted rfl
      exact kept.bind fun _ t same => same ▸ cut
    · exact absurd ⟨known strict, by simp⟩ refused
  · rw [if_neg strict]
    exact cut

end

/-! ## Functions between parentheses -/

/-- A list of parameters begins with a name, or it is empty. -/
theorem parameter_list_opens {parameters : List (String × Token)} (done : parameterList rules s = .ok (parameters, t)) :
    s.pass.current.kind = .mark .closeParen ∨ s.pass.current.kind = .identifier := by
  rw [parameter_list_eq] at done
  obtain ⟨_, u, opened, further⟩ := ok_of_steps done
  obtain ⟨-, rfl⟩ := of_expect opened
  obtain ⟨list, u, inside, -⟩ := ok_of_steps further
  rw [listedParameters, checkMark, run_check] at inside
  by_cases none : s.pass.current.kind = .mark .closeParen
  · exact .inl none
  · rw [if_neg (by simpa using none)] at inside
    cases fuel : rules.levels with
    | zero =>
      rw [fuel] at inside
      cases inside
    | succ fuel' =>
      rw [fuel, readSeparated] at inside
      obtain ⟨p, v, begun, -⟩ := ok_of_steps inside
      exact .inr (of_parameter begun).1

theorem enclosed_of_primary {e : Expr} (opens : s.current.kind = .mark .openParen)
    (done : primary rules s = .ok (e, t)) :
    ∃ u, expression rules false s.pass = .ok (e, u) ∧ u.current.kind = .mark .closeParen ∧ t = u.pass := by
  rw [primary, run_peek] at done
  extract_lets complete at done
  rw [opens] at done
  dsimp only at done
  rw [run_pass] at done
  obtain ⟨inner, u, begun, ended⟩ := ok_of_steps done
  obtain ⟨_, v, closed, given⟩ := ok_of_steps ended
  obtain ⟨closes, rfl⟩ := of_expect closed
  cases given
  exact ⟨u, begun, closes, rfl⟩

theorem function_rest_of_primary (keyword : s.current.kind = .keyword .function)
    (done : primary rules s = .ok (⟨.function code, span⟩, t)) :
    functionRest rules .expression s.current.span.start s.pass = .ok (code, t) := by
  rw [primary, run_peek] at done
  extract_lets complete at done
  rw [keyword] at done
  dsimp only at done
  rw [run_pass] at done
  obtain ⟨inner, u, begun, ended⟩ := ok_of_steps done
  cases ended
  exact begun

/-- A function behind its keyword or between parentheses is one of the smallest expressions, unless it is an arrow
function. -/
theorem primary_of_expression {levels : Nat} (plain : BeginsPrimary s.current.kind)
    (single : ¬ s.atSingleParameter = true) (noArrow : ∀ parameters t,
      parameterList (rulesFor (levels - 1)) s = .ok (parameters, t) → s.current.kind ≠ .mark .openParen)
    (done : expression (rulesFor levels) false s = .ok (⟨.function code, span⟩, t)) :
    primary (rulesFor (levels - 1)) s = .ok (⟨.function code, span⟩, t) := by
  have outer := assignment_of_expression done
  cases levels with
  | zero => cases outer
  | succ levels =>
    change assignment (rulesFor levels) false s = _ at outer
    rw [assignment_eq, if_neg single] at outer
    cases looked : atParameterList s with
    | error d =>
      rw [looked] at outer
      cases outer
    | ok result =>
      obtain ⟨list, u⟩ := result
      obtain rfl := at_parameter_list_stays looked
      rw [looked] at outer
      cases list with
      | true =>
        obtain ⟨parameters, v, begun, -⟩ := ok_of_steps outer
        have other := noArrow parameters v begun
        rw [no_parameter_list other] at looked
        cases looked
      | false => exact primary_of_assigned plain outer

/-- No parameter is a keyword, so that what stands between the parentheses is no list of parameters. -/
theorem function_rest_of_enclosed {levels : Nat} (opens : s.current.kind = .mark .openParen)
    (keyword : s.pass.current.kind = .keyword .function)
    (done : expression (rulesFor levels) false s = .ok (⟨.function code, span⟩, t)) :
    ∃ n u, functionRest (rulesFor n) .expression s.pass.current.span.start s.pass.pass = .ok (code, u) ∧
      u.current.kind = .mark .closeParen ∧ t = u.pass := by
  have outer := primary_of_expression (by rw [opens]; exact ⟨rfl, rfl, by decide⟩)
    (by simp [ReadingState.atSingleParameter, opens])
    (fun parameters t read _ => by simpa [keyword] using parameter_list_opens read) done
  obtain ⟨u, inside, closes, rfl⟩ := enclosed_of_primary opens outer
  have inner := primary_of_expression (by rw [keyword]; exact ⟨rfl, rfl, by decide⟩)
    (by simp [ReadingState.atSingleParameter, keyword]) (fun _ _ _ => by rw [keyword]; decide) inside
  exact ⟨_, u, function_rest_of_primary keyword inner, closes, rfl⟩

/-! ## Programs that are a function -/

theorem of_end_statement (done : endStatement s = .ok ((), t)) :
    t = s ∨ s.current.kind = .mark .semicolon ∧ t = s.pass := by
  by_cases semicolon : s.current.kind = .mark .semicolon
  · rw [endStatement, acceptMark, run_accept _ semicolon] at done
    cases done
    exact .inr ⟨semicolon, rfl⟩
  · rw [endStatement, acceptMark, run_accept_other _ (by simpa using semicolon)] at done
    refine .inl ?_
    simp only [Bool.false_eq_true, if_false, run_get] at done
    split at done
    · cases done
      rfl
    · cases done

/-- The items of a body are those read before and others, of which there are none only at the end of the body. -/
theorem body_items_grow (fuel : Nat) (stop : TokenKind) (inFront : Bool) (done : List Stmt) {items : List Stmt}
    (read : bodyItems rules fuel stop inFront done s = .ok (items, t)) :
    ∃ later, items = done.reverse ++ later ∧
      (later = [] → t = s ∧ (s.current.kind = stop ∨ s.current.kind = .endOfInput)) := by
  induction fuel generalizing inFront done s with
  | zero => cases read
  | succ fuel ih =>
    rw [bodyItems, run_peek] at read
    split at read
    · next stops =>
      cases read
      exact ⟨[], by simp, fun _ => ⟨rfl, by simpa using stops⟩⟩
    · obtain ⟨a, u, -, further⟩ := ok_of_steps read
      obtain ⟨v, rest⟩ : ∃ v, bodyItems rules fuel stop _ (a :: done) v = .ok (items, t) := by
        dsimp only at further
        split at further
        · obtain ⟨_, v, -, rest⟩ := ok_of_steps further
          exact ⟨v, rest⟩
        · exact ⟨u, further⟩
      obtain ⟨later, same, -⟩ := ih _ _ rest
      exact ⟨a :: later, by simp [same], fun none => absurd none (List.cons_ne_nil a later)⟩

/-- If an expression behind a parenthesis is all of a program, it is read as such. -/
theorem expression_of_program {levels : Nat} {e : Expr} {place : Span} (opens : s.current.kind = .mark .openParen)
    (read : programBody levels s = .ok ([⟨.expr e, place⟩], t)) :
    ∃ n u, expression (rulesFor n) false s = .ok (e, u) ∧
      (t = u ∨ u.current.kind = .mark .semicolon ∧ t = u.pass) ∧ t.current.kind = .endOfInput := by
  unfold programBody at read
  cases levels with
  | zero => cases read
  | succ levels =>
    rw [bodyItems, run_peek, if_neg (by simp [opens])] at read
    obtain ⟨a, v, begun, further⟩ := ok_of_steps read
    have string : (s.current.kind == .string) = false := by rw [opens]; decide
    rw [string, Bool.and_false, Bool.false_and, if_neg Bool.false_ne_true] at further
    obtain ⟨later, same, ended⟩ := body_items_grow _ _ _ _ further
    obtain ⟨rfl, rfl⟩ : a = ⟨.expr e, place⟩ ∧ later = [] := by simpa using same.symm
    obtain ⟨rfl, ends⟩ := ended rfl
    change item (rulesFor levels) s = _ at begun
    have none : lexicalKeyword? s.current.kind = none := by rw [opens]; rfl
    rw [item, run_peek, none] at begun
    dsimp only at begun
    rw [statement, run_peek, if_neg (by rw [opens]; decide)] at begun
    obtain ⟨form, w, formed, given⟩ := ok_of_steps begun
    rw [run_span_from] at given
    cases given
    rw [statementForm, opens] at formed
    dsimp only at formed
    have name : (TokenKind.mark .openParen == .identifier) = false := by decide
    rw [run_get, name, Bool.false_and, if_neg Bool.false_ne_true] at formed
    obtain ⟨inner, u, read, closed⟩ := ok_of_steps formed
    obtain ⟨_, x, last, given⟩ := ok_of_steps closed
    cases given
    exact ⟨levels, u, read, of_end_statement last, ends.elim id id⟩

end Grammar
end ScriptEngine
