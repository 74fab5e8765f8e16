import ScriptEngine.Proofs.Evaluation.Outcome
import ScriptEngine.Proofs.Jumps.Lexical

/-!
The engine, which compares labels on the way of a jump, ends each statement as its text shows: a jump
passes exactly the statements that lie before the one that takes it first.
-/

namespace ScriptEngine

/-- What an ending with labels amounts to at a place. -/
def Completion.exit (place : Place) : Completion → Exit
  | normal value => .normal value
  | returned value => .returned value
  | broke label value => .leave (place.breakDepth label) value
  | continued label value => .again (place.continueDepth label) value

/-- An action ends as another one, once its labels are read at a place. -/
def Agrees (place : Place) (action : Eval Completion) (lexical : Eval Exit) : Prop :=
  Completion.exit place <$> action = lexical

/-! ## Endings -/

namespace Completion

variable {place : Place}

theorem exit_fill_jump (c : Completion) (value : Option Value) :
    (c.fillJump value).exit place = (c.exit place).fillJump value := by
  rcases c with produced | produced | ⟨label, _ | produced⟩ | ⟨label, _ | produced⟩ <;> rfl

theorem exit_or_undefined (c : Completion) :
    c.orUndefined.exit place = (c.exit place).orUndefined := by
  rcases c with (_ | produced) | produced | ⟨label, produced⟩ | ⟨label, produced⟩ <;> rfl

theorem exit_is_abrupt (c : Completion) : (c.exit place).isAbrupt = c.isAbrupt := by
  cases c <;> rfl

theorem exit_inside (c : Completion) : c.exit place.inside = c.exit place := by
  cases c <;> rfl

end Completion

namespace Agrees

variable {place : Place}

theorem pure {c : Completion} {exit : Exit} (same : c.exit place = exit) :
    Agrees place (pure c) (pure exit) := by
  rw [← same]
  exact map_pure _ _

theorem throw (e : Abrupt) : Agrees place (throw e) (throw e) := rfl

/-- What both do first may be anything. -/
theorem after {first : Eval α} {rest : α → Eval Completion} {lexical : α → Eval Exit}
    (agrees : ∀ a, Agrees place (rest a) (lexical a)) :
    Agrees place (first >>= rest) (first >>= lexical) := by
  unfold Agrees
  rw [map_bind]
  exact congrArg _ (funext agrees)

/-- What is done after a statement depends on how it ends, read at the place of that statement. -/
theorem bind {inner : Place} {first : Eval Completion} {lexicalFirst : Eval Exit}
    {rest : Completion → Eval Completion} {lexical : Exit → Eval Exit}
    (begins : Agrees inner first lexicalFirst)
    (agrees : ∀ c, Agrees place (rest c) (lexical (c.exit inner))) :
    Agrees place (first >>= rest) (lexicalFirst >>= lexical) := by
  unfold Agrees at *
  rw [← begins, map_bind, bind_map_left]
  exact congrArg _ (funext agrees)

theorem ite {c : Prop} [Decidable c] {yes no : Eval Completion} {lexicalYes lexicalNo : Eval Exit}
    (taken : Agrees place yes lexicalYes) (left : Agrees place no lexicalNo) :
    Agrees place (if c then yes else no) (if c then lexicalYes else lexicalNo) := by
  split
  · exact taken
  · exact left

theorem attempted {action : Eval Completion} {lexical : Eval Exit}
    (agrees : Agrees place action lexical) :
    Except.map (Completion.exit place) <$> attempt action = attempt lexical := by
  rw [← agrees]
  funext m
  unfold attempt
  simp only [Functor.map, EStateM.map]
  cases action m <;> rfl

theorem resumed (outcome : Except Abrupt Completion) :
    Agrees place (resume outcome) (resume (outcome.map (Completion.exit place))) := by
  cases outcome <;> rfl

theorem inEnvironment (id : EnvironmentId) {action : Eval Completion} {lexical : Eval Exit}
    (agrees : Agrees place action lexical) :
    Agrees place (inEnvironment id action) (inEnvironment id lexical) := by
  refine after fun saved => after fun _ => ?_
  unfold Agrees
  rw [← agrees.attempted, bind_map_left, map_bind]
  refine congrArg _ (funext fun outcome => after fun _ => ?_)
  exact resumed outcome

end Agrees

/-! ## Rounds -/

variable {place : Place}

theorem break_depth_in_loop (label : Option String) : place.inLoop.breakDepth label =
    if Completion.owns place.labels label then 0 else place.breakDepth label + 1 := by
  unfold Place.breakDepth Place.inLoop
  rw [List.findIdx_cons]
  cases owned : JumpScope.endsBreak label (.loop place.labels) <;>
    simp_all [JumpScope.endsBreak]

theorem continue_depth_in_loop (label : Option String) : place.inLoop.continueDepth label =
    if Completion.owns place.labels label then 0 else place.continueDepth label + 1 := by
  unfold Place.continueDepth Place.inLoop
  rw [List.findIdx_cons]
  cases owned : JumpScope.endsContinue label (.loop place.labels) <;>
    simp_all [JumpScope.endsContinue]

/-- A round of a loop goes on, ends the loop or is left in both executions alike. -/
theorem agrees_round {next : Option Value → Eval Completion} {lexicalNext : Option Value → Eval Exit}
    (again : ∀ value, Agrees place (next value) (lexicalNext value)) (value : Option Value)
    (c : Completion) :
    Agrees place
      (match loopStep place.labels value c with
        | .next value => next value
        | .exit value => return .normal value
        | .propagate c => return c)
      (match c.exit place.inLoop with
        | .normal produced | .again 0 produced => lexicalNext (produced <|> value)
        | exit => return (exit.fillJump value).outward) := by
  cases c with
  | normal produced => exact again _
  | returned produced => exact .pure rfl
  | broke label produced =>
    dsimp only [loopStep, Completion.exit]
    rw [break_depth_in_loop]
    cases Completion.owns place.labels label with
    | true => cases produced <;> exact .pure rfl
    | false => cases produced <;> exact .pure rfl
  | continued label produced =>
    dsimp only [loopStep, Completion.exit]
    rw [continue_depth_in_loop]
    cases Completion.owns place.labels label with
    | true => exact again _
    | false => cases produced <;> exact .pure rfl

theorem is_fatal_exit (outcome : Except Abrupt Completion) :
    Lexical.isFatal (outcome.map (Completion.exit place)) = isFatal outcome := by
  rcases outcome with (_ | _ | _) | c <;> rfl

theorem agrees_settled (outcome : Except Abrupt Completion) :
    Agrees place (resume (outcome.map Completion.orUndefined))
      (resume ((outcome.map (Completion.exit place)).map Exit.orUndefined)) := by
  cases outcome with
  | error e => rfl
  | ok c => exact .pure (Completion.exit_or_undefined c)

/-! ## Lists and blocks -/

section

variable {engine : Engine} {run : Stmt → Eval Exit}
  (inner : ∀ s, Agrees place (engine.execute [] s) (run s))

include inner

theorem agrees_execute_all (last : Option Value) (body : List Stmt) :
    Agrees place (executeAll engine last body) (Lexical.executeAll run last body) := by
  induction body generalizing last with
  | nil => exact .pure rfl
  | cons s rest ih =>
    refine .bind (inner s) fun c => ?_
    cases c with
    | normal value => exact ih _
    | returned value => exact .pure rfl
    | broke label value => exact .pure (Completion.exit_fill_jump _ _)
    | continued label value => exact .pure (Completion.exit_fill_jump _ _)

theorem agrees_execute_block (b : Block) :
    Agrees place (executeBlock engine b) (Lexical.executeBlock run b) := by
  have statements := agrees_execute_all inner none b.body
  exact .ite statements (.after fun environment => .inEnvironment environment statements)

/-! ## Handlers -/

theorem agrees_execute_handler (handler : Handler) (thrown : Value) :
    Agrees place (executeHandler engine handler thrown)
      (Lexical.executeHandler run handler thrown) :=
  .after fun _ => .after fun environment =>
    .inEnvironment environment (agrees_execute_block inner handler.body)

theorem agrees_handled (handler : Option Handler) (outcome : Except Abrupt Completion) :
    Except.map (Completion.exit place) <$> handled engine handler outcome =
      Lexical.handled run handler (outcome.map (Completion.exit place)) := by
  cases handler with
  | none => exact map_pure _ _
  | some handler =>
    cases outcome with
    | ok c => exact map_pure _ _
    | error e =>
      cases e with
      | thrown value => exact (agrees_execute_handler inner handler value).attempted
      | overflow depth => exact map_pure _ _
      | exhausted => exact map_pure _ _

theorem agrees_execute_try (block : Block) (handler : Option Handler) (finalizer : Option Block) :
    Agrees place (executeTry engine block handler finalizer)
      (Lexical.executeTry run block handler finalizer) := by
  unfold executeTry Lexical.executeTry
  rw [← (agrees_execute_block inner block).attempted, bind_map_left]
  refine .after fun guarded => ?_
  rw [← agrees_handled inner, bind_map_left]
  refine .after fun outcome => ?_
  cases finalizer with
  | none => exact agrees_settled outcome
  | some finalizer =>
    dsimp only
    rw [is_fatal_exit]
    refine .ite (.resumed outcome) (.bind (agrees_execute_block inner finalizer) fun last => ?_)
    rw [Completion.exit_is_abrupt]
    exact .ite (.pure rfl) (agrees_settled outcome)

/-! ## Choices -/

theorem agrees_execute_clauses (last : Option Value) (clauses : List SwitchClause) :
    Agrees place (executeClauses engine last clauses) (Lexical.executeClauses run last clauses) := by
  induction clauses generalizing last with
  | nil => exact .pure rfl
  | cons clause rest ih =>
    refine .bind (agrees_execute_all inner none clause.body) fun c => ?_
    cases c with
    | normal value => exact ih _
    | returned value => exact .pure rfl
    | broke label value => exact .pure (Completion.exit_fill_jump _ _)
    | continued label value => exact .pure (Completion.exit_fill_jump _ _)

theorem agrees_execute_selected (value : Value) (clauses : List SwitchClause) :
    Agrees place (executeSelected engine value clauses)
      (Lexical.executeSelected engine run value clauses) :=
  .after fun _ => agrees_execute_clauses inner none _

end

/-! ## Statements at which jumps end -/

theorem break_depth_in_choice (label : Option String) : place.inChoice.breakDepth label =
    if Completion.owns place.labels label then 0 else place.breakDepth label + 1 := by
  unfold Place.breakDepth Place.inChoice
  rw [List.findIdx_cons]
  cases owned : JumpScope.endsBreak label (.choice place.labels) <;>
    simp_all [JumpScope.endsBreak]

theorem continue_depth_in_choice (label : Option String) :
    place.inChoice.continueDepth label = place.continueDepth label + 1 := by
  unfold Place.continueDepth Place.inChoice
  rw [List.findIdx_cons]
  rfl

theorem break_depth_behind (name : String) (label : Option String) :
    (place.behind name).breakDepth label =
      if label = some name then 0 else place.breakDepth label + 1 := by
  unfold Place.breakDepth Place.behind
  rw [List.findIdx_cons]
  cases taken : JumpScope.endsBreak label (.labelled name) <;> simp_all [JumpScope.endsBreak]

theorem continue_depth_behind (name : String) (label : Option String) :
    (place.behind name).continueDepth label = place.continueDepth label + 1 := by
  unfold Place.continueDepth Place.behind
  rw [List.findIdx_cons]
  rfl

/-- A `switch` statement ends jumps, or passes them on, as its text shows. -/
theorem agrees_choice (c : Completion) :
    Agrees place
      (match c with
        | .broke label produced =>
          if Completion.owns place.labels label then return .normal produced else return c
        | _ => return c)
      (return (c.exit place.inChoice).outward) := by
  cases c with
  | normal produced => exact .pure rfl
  | returned produced => exact .pure rfl
  | broke label produced =>
    dsimp only [Completion.exit]
    rw [break_depth_in_choice]
    cases Completion.owns place.labels label <;> exact .pure rfl
  | continued label produced =>
    dsimp only [Completion.exit]
    rw [continue_depth_in_choice]
    exact .pure rfl

/-- A label ends jumps, or passes them on, as its text shows. -/
theorem agrees_label (name : String) (c : Completion) :
    Agrees place
      (match c with
        | .broke (some target) value =>
          if target == name then return .normal value else return .broke (some target) value
        | c => return c)
      (return (c.exit (place.behind name)).outward) := by
  cases c with
  | normal produced => exact .pure rfl
  | returned produced => exact .pure rfl
  | broke label produced =>
    dsimp only [Completion.exit]
    rw [break_depth_behind]
    cases label with
    | none => exact .pure rfl
    | some target =>
      by_cases same : target = name
      · simp only [same, beq_self_eq_true, if_true]
        exact .pure rfl
      · simp only [same, Option.some.injEq, beq_iff_eq, if_false]
        exact .pure rfl
  | continued label produced =>
    dsimp only [Completion.exit]
    rw [continue_depth_behind]
    exact .pure rfl

section

variable {engine : Engine} {run : Stmt → Eval Exit}

theorem agrees_execute_switch (inner : ∀ s, Agrees place.inChoice (engine.execute [] s) (run s))
    (discriminant : Expr) (clauses : List SwitchClause) (names : List LexicalName) :
    Agrees place (executeSwitch engine place.labels discriminant clauses names)
      (Lexical.executeSwitch engine run discriminant clauses names) := by
  unfold executeSwitch Lexical.executeSwitch
  refine .after fun value => ?_
  have selected := agrees_execute_selected inner value clauses
  split
  · exact .bind selected agrees_choice
  · refine .after fun environment => ?_
    exact .bind (.inEnvironment environment selected) agrees_choice

/-! ## Loops -/

variable (inner : ∀ s, Agrees place.inLoop (engine.execute [] s) (run s))

include inner

theorem agrees_while_rounds (test : Expr) (body : Stmt) (value : Option Value) (rounds : Nat) :
    Agrees place (whileRounds engine place.labels test body value rounds)
      (Lexical.whileRounds engine run test body value rounds) := by
  induction rounds generalizing value with
  | zero => exact .throw _
  | succ rounds ih =>
    refine .after fun met => .ite (.bind (inner body) ?_) (.pure rfl)
    exact agrees_round ih value

theorem agrees_do_rounds (body : Stmt) (test : Expr) (value : Option Value) (rounds : Nat) :
    Agrees place (doRounds engine place.labels body test value rounds)
      (Lexical.doRounds engine run body test value rounds) := by
  induction rounds generalizing value with
  | zero => exact .throw _
  | succ rounds ih =>
    have next (value : Option Value) : Agrees place
        (do if (← engine.evaluate test).toBoolean then
              doRounds engine place.labels body test value rounds
            else return .normal value)
        (do if (← engine.evaluate test).toBoolean then
              Lexical.doRounds engine run body test value rounds
            else return .normal value) :=
      .after fun met => .ite (ih value) (.pure rfl)
    exact .bind (inner body) (agrees_round next value)

theorem agrees_for_rounds (l : ForLoop) (same : l.labels = place.labels) (value : Option Value)
    (rounds : Nat) :
    Agrees place (forRounds engine l value rounds) (Lexical.forRounds engine run l value rounds) := by
  induction rounds generalizing value with
  | zero => exact .throw _
  | succ rounds ih =>
    unfold forRounds
    rw [same]
    refine .after fun met => .ite (.bind (inner l.body) ?_) (.pure rfl)
    exact agrees_round (fun value => .after fun _ => .after fun _ => ih value) value

theorem agrees_run_for_loop (l : ForLoop) (same : l.labels = place.labels) :
    Agrees place (runForLoop engine l) (Lexical.runForLoop engine run l) :=
  .after fun _ => agrees_for_rounds inner l same none engine.rounds

theorem agrees_execute_for (init : Option ForInit) (test update : Option Expr) (body : Stmt) :
    Agrees place (executeFor engine place.labels init test update body)
      (Lexical.executeFor engine run place.labels init test update body) := by
  refine .after fun outer => ?_
  have loop := fun names =>
    agrees_run_for_loop inner ⟨place.labels, test, update, body, names, outer⟩ rfl
  rcases init with _ | declarators | ⟨constant, declarators⟩ | e
  · exact loop []
  · exact .after fun _ => loop []
  · exact .after fun environment => .after fun _ => .inEnvironment environment (loop _)
  · exact .after fun _ => loop []

theorem agrees_for_in_body (target : ForInTarget) (key : Value) (body : Stmt) :
    Agrees place.inLoop (forInBody engine target key body)
      (Lexical.forInBody engine run target key body) := by
  cases target with
  | var name => exact .after fun _ => .after fun _ => inner body
  | expr e => exact .after fun _ => .after fun _ => inner body
  | lexical constant name =>
    exact .after fun environment => .after fun _ => .inEnvironment environment (inner body)

theorem agrees_for_in_rounds (target : ForInTarget) (body : Stmt) (walk : KeyWalk)
    (value : Option Value) (rounds : Nat) :
    Agrees place (forInRounds engine place.labels target body walk value rounds)
      (Lexical.forInRounds engine run target body walk value rounds) := by
  induction rounds generalizing walk value with
  | zero => exact .throw _
  | succ rounds ih =>
    refine .after fun found => ?_
    rcases found with ⟨_ | key, walk⟩
    · exact .pure rfl
    · exact .bind (agrees_for_in_body inner target _ body) (agrees_round (ih walk) value)

theorem agrees_execute_for_in (target : ForInTarget) (object : Expr) (body : Stmt) :
    Agrees place (executeForIn engine place.labels target object body)
      (Lexical.executeForIn engine run target object body) := by
  refine .after fun subject => .ite (.pure rfl) (.after fun id => ?_)
  exact agrees_for_in_rounds inner target body _ none engine.rounds

end

/-! ## Statements -/

/-- One level of the execution of statements agrees with what the text shows, if the levels inside
do. -/
theorem agrees_execute_form {engine : Engine} {run : Place → Stmt → Eval Exit}
    (inner : ∀ place s, Agrees place (engine.execute place.labels s) (run place s)) (place : Place)
    (form : StmtForm) :
    Agrees place (executeForm engine place.labels form)
      (Lexical.executeForm engine run place form) := by
  have inside : ∀ s, Agrees place (engine.execute [] s) (run place.inside s) := by
    intro s
    have agrees := inner place.inside s
    unfold Agrees at *
    rwa [show Completion.exit place.inside = Completion.exit place from
      funext Completion.exit_inside] at agrees
  have inLoop : ∀ s, Agrees place.inLoop (engine.execute [] s) (run place.inLoop s) :=
    inner place.inLoop
  cases form with
  | var declarators => exact .after fun _ => .pure rfl
  | lexical constant declarators => exact .after fun _ => .pure rfl
  | function code => exact .pure rfl
  | expr e => exact .after fun _ => .pure rfl
  | block b => exact agrees_execute_block inside b
  | empty => exact .pure rfl
  | debugger => exact .pure rfl
  | cond test yes no =>
    refine .after fun met => .ite (inside yes) ?_
    cases no with
    | none => exact .pure rfl
    | some no => exact inside no
  | whileLoop test body => exact agrees_while_rounds inLoop test body none _
  | doWhile body test => exact agrees_do_rounds inLoop body test none _
  | forLoop init test update body => exact agrees_execute_for inLoop init test update body
  | forIn target object body => exact agrees_execute_for_in inLoop target object body
  | ret value =>
    cases value with
    | none => exact .pure rfl
    | some e => exact .after fun _ => .pure rfl
  | breakTo label => exact .pure rfl
  | continueTo label => exact .pure rfl
  | throw e => exact .after fun value => rfl
  | attempt guarded handler finalizer => exact agrees_execute_try inside guarded handler finalizer
  | labeled name body => exact .bind (inner (place.behind name) body) (agrees_label name)
  | switch discriminant clauses names =>
    exact agrees_execute_switch (inner place.inChoice) discriminant clauses names
  | withObject object body =>
    refine .after fun value => .after fun id => .after fun outer => .after fun environment => ?_
    exact .inEnvironment environment (inside body)

/-- Whatever the text of a statement is, its execution agrees with what the text shows. -/
theorem agrees_execute (steps : Nat) (place : Place) (s : Stmt) :
    Agrees place ((engineAt steps).execute place.labels s) (Lexical.executeAt steps place s) := by
  induction steps generalizing place s with
  | zero => exact .throw _
  | succ steps ih => exact agrees_execute_form ih place s.form

end ScriptEngine
