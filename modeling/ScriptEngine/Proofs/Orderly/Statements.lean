import ScriptEngine.Evaluation.Script
import ScriptEngine.Evaluation.Statement
import ScriptEngine.Proofs.Orderly.Expressions

/-!
The execution of statements is orderly. Only the rounds of a `for` loop move on to another environment,
inside one that the loop leaves again. A statement initializes no names where it stands but those that it, or
a statement that it runs there, declares. So entering functions of scripts and running whole scripts is orderly
as well.
-/

namespace ScriptEngine

variable {t : Terms} {own : Rights} {moves : Bool}

/-! ## Lists and blocks -/

theorem orderly_execute_all (last : Option Value) {body : List Stmt}
    (covers : ∀ s ∈ body, own.Covers t s.form) :
    Orderly t own moves fun E => executeAll E last body := by
  induction body generalizing last with
  | nil => exact .pure _
  | cons s rest ih =>
    refine .bind (.execute [] s (covers s (.head _))) fun c => ?_
    split
    · exact ih _ fun s mem => covers s (.tail _ mem)
    · exact .pure _

/-- Statements in an environment of their own may initialize any name. -/
theorem orderly_execute_inside (last : Option Value) (body : List Stmt) :
    Orderly t own.inside moves fun E => executeAll E last body :=
  orderly_execute_all last fun s _ => own.covers_inside s.form

/-- What is done in a new environment for some names. -/
theorem orderly_in_block {α : Type} {rest : Engine → EnvironmentId → Eval α} (names : List LexicalName)
    (next : ∀ outer id, Orderly t ((own.standing outer).entering id) moves fun E => rest E id) :
    Orderly t own moves fun E => newBlockEnvironment names >>= rest E := by
  simp only [newBlockEnvironment, bind_assoc]
  refine .here fun outer => .enter _ ?_ ⟨outer, ?_, Rights.stands_new own outer⟩ (next outer)
  · exact Environment.firm_create_lexical (Environment.firm_declarative _) names
  · exact Environment.outer_create_lexical ..

theorem orderly_execute_block {b : Block} (covers : ∀ s ∈ b.sharing, own.Covers t s.form) :
    Orderly t own moves fun E => executeBlock E b := by
  unfold executeBlock
  unfold Block.sharing at covers
  split at covers
  · next empty =>
    simp only [empty, if_true]
    exact orderly_execute_all none covers
  · next named =>
    simp only [named]
    refine orderly_in_block b.lexical fun outer id => .inEnvironment id (Rights.enters_new _ id) ?_
    exact orderly_execute_inside none b.body

/-! ## Declarations -/

theorem orderly_execute_vars (declarators : List Declarator) :
    Orderly t own moves fun E => executeVars E declarators := by
  refine .forM declarators fun d => ?_
  split
  · exact .pure ()
  · refine .bind (.evaluate _) fun value => orderly_resolved _ fun r => ?_
    exact orderly_put_reference r value

theorem orderly_initial_value (d : Declarator) : Orderly t own moves fun E => initialValue E d := by
  unfold initialValue
  split
  · exact .evaluate _
  · exact .pure _

theorem orderly_execute_lexical {declarators : List Declarator}
    (allowed : t.named → ∀ d ∈ declarators, own.names d.name) :
    Orderly t own moves fun E => executeLexical E declarators := by
  induction declarators with
  | nil => exact .pure ()
  | cons d rest ih =>
    refine .bind (.bind (orderly_initial_value d) fun value => ?_) fun _ => ih ?_
    · exact .firstValue d.name value fun named => allowed named d (.head _)
    · exact fun named other mem => allowed named other (.tail _ mem)

/-! ## Loops -/

theorem orderly_exhausted {α : Type} : Orderly t own moves fun _ => (throw .exhausted : Eval α) :=
  .raise .exhausted nofun

theorem orderly_test_holds (test : Option Expr) : Orderly t own moves fun E => testHolds E test := by
  unfold testHolds
  split
  · exact .bind (.evaluate _) fun value => .pure _
  · exact .pure true

/-- A loop goes on, ends or hands on a jump after a round. -/
theorem orderly_step {next : Engine → Option Value → Eval Completion} (step : LoopStep)
    (goesOn : ∀ value, Orderly t own moves fun E => next E value) :
    Orderly t own moves fun E =>
      match step with
      | .next value => next E value
      | .exit value => pure (.normal value)
      | .propagate c => pure c := by
  cases step with
  | next value => exact goesOn value
  | exit value => exact .pure _
  | propagate c => exact .pure c

theorem orderly_while_rounds (labels : List String) (test : Expr) {body : Stmt}
    (covers : own.Covers t body.form) (value : Option Value) (rounds : Nat) :
    Orderly t own moves fun E => whileRounds E labels test body value rounds := by
  induction rounds generalizing value with
  | zero => exact orderly_exhausted
  | succ rounds ih =>
    refine .bind (.evaluate test) fun holds => .ite ?_ (.pure _)
    exact .bind (.execute [] body covers) fun c => orderly_step _ ih

theorem orderly_do_rounds (labels : List String) {body : Stmt} (covers : own.Covers t body.form)
    (test : Expr) (value : Option Value) (rounds : Nat) :
    Orderly t own moves fun E => doRounds E labels body test value rounds := by
  induction rounds generalizing value with
  | zero => exact orderly_exhausted
  | succ rounds ih =>
    refine .bind (.execute [] body covers) fun c => orderly_step _ fun value => ?_
    exact .bind (.evaluate test) fun holds => .ite (ih value) (.pure _)

/-- Rounds that bind no names anew do not move on to another environment; the others move on inside the one around
the loop. -/
theorem orderly_fresh_iteration {names : List String} {outer : EnvironmentId}
    (stays : names = [] ∨ moves = true ∧ own.around outer) :
    Orderly t own moves fun _ => freshIteration names outer := by
  cases names with
  | nil => exact .pure ()
  | cons name rest =>
    obtain ⟨rfl, around⟩ := stays.resolve_left (List.cons_ne_nil _ _)
    refine .bind orderly_lexical_environment fun id => .bind (orderly_get_environment id) fun current => ?_
    refine .enter _ ?_ ⟨outer, ?_, around⟩ fun fresh => .setLexicalEnvironment fresh (Rights.enters_new _ fresh)
    · exact Environment.firm_copy_names current (Environment.firm_declarative _) _
    · exact Environment.outer_copy_names ..

/-- What a `for` loop does between two rounds. -/
theorem orderly_run_update (update : Option Expr) :
    Orderly t own moves fun E => update.forM fun e => discard (E.evaluate e) := by
  cases update with
  | none => exact .pure ()
  | some e => exact .discard (.evaluate e)

theorem orderly_for_rounds {l : ForLoop} (covers : own.Covers t l.body.form)
    (stays : l.names = [] ∨ moves = true ∧ own.around l.outer) (value : Option Value) (rounds : Nat) :
    Orderly t own moves fun E => forRounds E l value rounds := by
  induction rounds generalizing value with
  | zero => exact orderly_exhausted
  | succ rounds ih =>
    refine .bind (orderly_test_holds l.test) fun holds => .ite ?_ (.pure _)
    refine .bind (.execute [] l.body covers) fun c => orderly_step _ fun value => ?_
    refine .bind (orderly_fresh_iteration stays) fun _ => ?_
    exact .bind (orderly_run_update l.update) fun _ => ih value

theorem orderly_run_for_loop {l : ForLoop} (covers : own.Covers t l.body.form)
    (stays : l.names = [] ∨ moves = true ∧ own.around l.outer) : Orderly t own moves fun E => runForLoop E l :=
  .bind (orderly_fresh_iteration stays) fun _ =>
    .rounds (fun rounds E => forRounds E l none rounds) (orderly_for_rounds covers stays none)

theorem orderly_execute_for (labels : List String) {init : Option ForInit} {test update : Option Expr}
    {body : Stmt} (covers : own.Covers t (.forLoop init test update body)) :
    Orderly t own moves fun E => executeFor E labels init test update body := by
  refine .here fun outer => ?_
  have covers : (own.standing outer).Covers t (.forLoop init test update body) := covers
  cases init with
  | none => exact orderly_run_for_loop (Rights.covers_sharing covers (.head _)) (.inl rfl)
  | some init =>
    cases init with
    | vars declarators =>
      refine .bind (orderly_execute_vars declarators) fun _ => ?_
      exact orderly_run_for_loop (Rights.covers_sharing covers (.head _)) (.inl rfl)
    | expr e =>
      refine .bind (.discard (.evaluate e)) fun _ => ?_
      exact orderly_run_for_loop (Rights.covers_sharing covers (.head _)) (.inl rfl)
    | lexical constant declarators =>
      refine orderly_in_block _ fun here id => ?_
      have entered := ((own.standing outer).standing here).enters_new id
      refine .bind (.inEnvironment id entered (orderly_execute_lexical fun _ _ _ => trivial)) fun _ => ?_
      exact .inEnvironment id entered (orderly_run_for_loop (Rights.covers_inside _ _) (.inr ⟨rfl, .inl (own.stands_new outer)⟩))

theorem orderly_for_in_body {target : ForInTarget} (key : Value) {object : Expr} {body : Stmt}
    (covers : own.Covers t (.forIn target object body)) :
    Orderly t own moves fun E => forInBody E target key body := by
  unfold forInBody
  cases target with
  | var name =>
    refine orderly_resolved name fun r => .bind (orderly_put_reference r key) fun _ => ?_
    exact .execute [] body (Rights.covers_sharing covers (.head _))
  | expr e =>
    refine orderly_referred e fun r => .bind (orderly_put_reference r key) fun _ => ?_
    exact .execute [] body (Rights.covers_sharing covers (.head _))
  | lexical constant name =>
    simp only [newBlockEnvironment, bind_assoc]
    refine .here fun outer => .build _ ?_ ⟨outer, ?_, own.stands_new outer⟩ (fun id => ?_) fun id _ => ?_
    · exact Environment.firm_create_lexical (Environment.firm_declarative _) _
    · exact Environment.outer_create_lexical ..
    · refine .construction id _ (Rights.builds_new _ id) (fun e firm => ?_) fun e => ?_
      · exact Environment.firm_first_value firm key
      · exact Environment.outer_initialize ..
    · exact .inEnvironment id (Rights.enters_new _ id) (.execute [] body (Rights.covers_inside _ _))

theorem orderly_for_in_rounds (labels : List String) {target : ForInTarget} {object : Expr} {body : Stmt}
    (covers : own.Covers t (.forIn target object body)) (walk : KeyWalk) (value : Option Value)
    (rounds : Nat) : Orderly t own moves fun E => forInRounds E labels target body walk value rounds := by
  induction rounds generalizing walk value with
  | zero => exact orderly_exhausted
  | succ rounds ih =>
    refine .bind (orderly_ask_heap _) fun step => ?_
    split
    · exact .pure _
    · exact .bind (orderly_for_in_body _ covers) fun c => orderly_step _ fun value => ih _ value

theorem orderly_execute_for_in (labels : List String) {target : ForInTarget} {object : Expr}
    {body : Stmt} (covers : own.Covers t (.forIn target object body)) :
    Orderly t own moves fun E => executeForIn E labels target object body := by
  refine .bind (.evaluate object) fun subject => .ite (.pure _) (.bind (orderly_to_object _) fun id => ?_)
  exact .rounds (fun rounds E => forInRounds E labels target body (.start id) none rounds)
    (orderly_for_in_rounds labels covers _ none)

/-! ## Choices and handlers -/

theorem orderly_select_clause (value : Value) (clauses : List SwitchClause) :
    Orderly t own moves fun E => selectClause E value clauses := by
  induction clauses with
  | nil => exact .pure []
  | cons c rest ih =>
    unfold selectClause
    split
    · exact ih
    · exact .bind (.evaluate _) fun tested => .ite (.pure _) ih

theorem orderly_execute_clauses (last : Option Value) {clauses : List SwitchClause}
    (covers : ∀ c ∈ clauses, ∀ s ∈ c.body, own.Covers t s.form) :
    Orderly t own moves fun E => executeClauses E last clauses := by
  induction clauses generalizing last with
  | nil => exact .pure _
  | cons c rest ih =>
    refine .bind (orderly_execute_all none (covers c (.head _))) fun c => ?_
    split
    · exact ih _ fun c mem => covers c (.tail _ mem)
    · exact .pure _


theorem orderly_execute_selected (value : Value) {clauses : List SwitchClause}
    (covers : ∀ c ∈ clauses, ∀ s ∈ c.body, own.Covers t s.form) :
    Orderly t own moves fun E => executeSelected E value clauses := by
  refine .bindYields (orderly_select_clause value clauses)
    (fun E => yields_select_clause E value clauses) fun selected among => ?_
  refine orderly_execute_clauses none fun c mem => covers c ?_
  split at mem
  · exact (List.dropWhile_sublist _).subset mem
  · exact among.subset mem

/-- A `switch` statement ends the `break` statements that are its own. -/
theorem orderly_end_switch (labels : List String) (completion : Completion) :
    Orderly t own moves fun _ =>
      (match completion with
      | .broke label produced =>
        if Completion.owns labels label then pure (.normal produced) else pure completion
      | _ => pure completion : Eval Completion) := by
  cases completion with
  | broke label produced => exact .ite (.pure _) (.pure _)
  | _ => exact .pure _

theorem orderly_execute_switch (labels : List String) {discriminant : Expr}
    {clauses : List SwitchClause} {names : List LexicalName}
    (covers : own.Covers t (.switch discriminant clauses names)) :
    Orderly t own moves fun E => executeSwitch E labels discriminant clauses names := by
  unfold executeSwitch
  dsimp only
  refine .bind (.evaluate discriminant) fun value => ?_
  by_cases empty : names.isEmpty = true
  · simp only [empty, if_true]
    refine .bind (orderly_execute_selected value fun c mem s inside => ?_) (orderly_end_switch labels)
    refine Rights.covers_sharing covers ?_
    simp only [StmtForm.sharing, empty, if_true]
    exact List.mem_flatMap.mpr ⟨c, mem, inside⟩
  · simp only [empty]
    refine orderly_in_block names fun outer id => .bind (.inEnvironment id (Rights.enters_new _ id) ?_)
      (orderly_end_switch labels)
    exact orderly_execute_selected value fun _ _ s _ => Rights.covers_inside _ s.form

theorem orderly_execute_handler (handler : Handler) (thrown : Value) :
    Orderly t own moves fun E => executeHandler E handler thrown := by
  refine .here fun outer => .enter _ ?_ ⟨outer, ?_, own.stands_new outer⟩ fun id => ?_
  · exact Environment.firm_declare (Environment.firm_declarative _) thrown
  · exact Environment.outer_set ..
  · refine .inEnvironment id (Rights.enters_new _ id) ?_
    exact orderly_execute_block fun s _ => Rights.covers_inside _ s.form

theorem reported_map {α β : Type} {outcome : Except Abrupt α} (f : α → β)
    (honest : ∀ e, outcome = .error e → e.Reported t) :
    ∀ e, outcome.map f = .error e → e.Reported t := by
  cases outcome with
  | ok a => exact nofun
  | error e => rintro _ ⟨⟩; exact honest e rfl

/-- The end of a `try` statement, whose outcome may be passed on unless the finalizer does not go on. -/
theorem orderly_finalize {finalizer : Option Block}
    (covers : ∀ b ∈ finalizer, ∀ s ∈ b.sharing, own.Covers t s.form) (outcome : Except Abrupt Completion)
    (honest : ∀ e, outcome = .error e → e.Reported t) :
    Orderly t own moves fun E =>
      match finalizer with
      | none => resume (outcome.map Completion.orUndefined)
      | some finalizer =>
        if isFatal outcome then resume outcome
        else executeBlock E finalizer >>= fun last =>
          if last.isAbrupt then pure last else resume (outcome.map Completion.orUndefined) := by
  cases finalizer with
  | none => exact .resume _ (reported_map _ honest)
  | some finalizer =>
    refine .ite (.resume _ honest) (.bind (orderly_execute_block (covers finalizer rfl)) fun last => ?_)
    exact .ite (.pure _) (.resume _ (reported_map _ honest))

/-- What no script can catch passes through the handler and the finalizer of a `try` statement. -/
theorem fatal_passes {e : Abrupt} (fatal : e.Fatal) (engine : Engine) (handler : Option Handler)
    (finalizer : Option Block) :
    (handled engine handler (.error e) >>= fun outcome =>
      match finalizer with
      | none => resume (outcome.map Completion.orUndefined)
      | some finalizer =>
        if isFatal outcome then resume outcome
        else executeBlock engine finalizer >>= fun last =>
          if last.isAbrupt then pure last else resume (outcome.map Completion.orUndefined)) =
      throw e := by
  cases e with
  | thrown value => exact absurd rfl (fatal value)
  | overflow depth | exhausted => cases handler <;> cases finalizer <;> rfl

/-- The outcome of a handler is only looked at as far as scripts may. -/
theorem settled_passes {e : Abrupt} (fatal : e.Fatal) (engine : Engine) (finalizer : Option Block) :
    (match finalizer with
      | none => resume ((.error e : Except Abrupt Completion).map Completion.orUndefined)
      | some finalizer =>
        if isFatal (.error e) then resume (.error e)
        else executeBlock engine finalizer >>= fun last =>
          if last.isAbrupt then pure last
          else resume ((.error e : Except Abrupt Completion).map Completion.orUndefined)) =
      throw e :=
  fatal_passes fatal engine none finalizer

theorem orderly_execute_try {block : Block} {handler : Option Handler} {finalizer : Option Block}
    (covers : own.Covers t (.attempt block handler finalizer)) :
    Orderly t own moves fun E => executeTry E block handler finalizer := by
  have guarded : ∀ s ∈ block.sharing, own.Covers t s.form := fun s shared =>
    Rights.covers_sharing covers (List.mem_append_left _ shared)
  have last : ∀ b ∈ finalizer, ∀ s ∈ b.sharing, own.Covers t s.form := fun b mem s shared => by
    refine Rights.covers_sharing covers (List.mem_append_right _ ?_)
    exact List.mem_flatMap.mpr ⟨b, Option.mem_toList.mpr mem, shared⟩
  refine .attempt (orderly_execute_block guarded) (fun c => ?_) (fun e honest => ?_)
    (.inr fun e fatal E => fatal_passes fatal E handler finalizer)
  · have unhandled : ∀ E : Engine, handled E handler (.ok c) = pure (.ok c) := by
      intro E
      cases handler <;> rfl
    simp only [unhandled, pure_bind]
    exact orderly_finalize last (.ok c) nofun
  · have passed : Orderly t own moves fun E =>
        (pure (.error e) : Eval (Except Abrupt Completion)) >>= fun outcome =>
          match finalizer with
          | none => resume (outcome.map Completion.orUndefined)
          | some finalizer =>
            if isFatal outcome then resume outcome
            else executeBlock E finalizer >>= fun last =>
              if last.isAbrupt then pure last else resume (outcome.map Completion.orUndefined) :=
      orderly_finalize last (.error e) fun _ same => by cases same; exact honest
    cases handler with
    | none => exact passed
    | some handler =>
      cases e with
      | thrown value =>
        refine .attempt (orderly_execute_handler handler value) (fun c => ?_) (fun e honest => ?_)
          (.inr fun e fatal E => settled_passes fatal E finalizer)
        · exact orderly_finalize last (.ok c) nofun
        · exact orderly_finalize last (.error e) fun _ same => by cases same; exact honest
      | overflow depth | exhausted => exact passed

/-! ## All statements -/

theorem orderly_execute_form (labels : List String) {form : StmtForm} (covers : own.Covers t form) :
    Orderly t own moves fun E => executeForm E labels form := by
  unfold executeForm
  cases form with
  | var declarators => exact .bind (orderly_execute_vars _) fun _ => .pure _
  | lexical constant declarators =>
    refine .bind (orderly_execute_lexical fun named d mem => ?_) fun _ => .pure _
    exact covers named d.name (.declared mem)
  | function code | empty | debugger => exact .pure _
  | expr e => exact .bind (.evaluate e) fun _ => .pure _
  | block b => exact orderly_execute_block fun s shared => Rights.covers_sharing covers shared
  | cond test yes no =>
    refine .bind (.evaluate test) fun value => .ite ?_ ?_
    · exact .execute [] yes (Rights.covers_sharing covers (.head _))
    · cases no with
      | none => exact .pure _
      | some no => exact .execute [] no (Rights.covers_sharing covers (.tail _ (.head _)))
  | whileLoop test body =>
    exact .rounds (fun rounds E => whileRounds E labels test body none rounds)
      (orderly_while_rounds labels test (Rights.covers_sharing covers (.head _)) none)
  | doWhile body test =>
    exact .rounds (fun rounds E => doRounds E labels body test none rounds)
      (orderly_do_rounds labels (Rights.covers_sharing covers (.head _)) test none)
  | forLoop init test update body => exact orderly_execute_for labels covers
  | forIn target object body => exact orderly_execute_for_in labels covers
  | ret value =>
    cases value with
    | none => exact .pure _
    | some e => exact .bind (.evaluate e) fun _ => .pure _
  | breakTo label | continueTo label => exact .pure _
  | throw e => exact .bind (.evaluate e) orderly_throw_value
  | attempt block handler finalizer => exact orderly_execute_try covers
  | labeled label body =>
    refine .bind (.execute _ body (Rights.covers_sharing covers (.head _))) fun c => ?_
    split
    · exact .ite (.pure _) (.pure _)
    · exact .pure _
  | switch discriminant clauses names => exact orderly_execute_switch labels covers
  | withObject object body =>
    refine .bind (.evaluate object) fun value => .bind (orderly_to_object value) fun id => ?_
    refine .here fun outer => ?_
    refine .enter _ (Environment.firm_of_object id true _) ⟨outer, rfl, own.stands_new outer⟩ fun inner => ?_
    exact .inEnvironment inner (Rights.enters_new _ inner) (.execute [] body (Rights.covers_inside _ _))

/-! ## Functions -/

theorem orderly_bind_functions {environment : EnvironmentId} (mine : own.building environment)
    (reached : own.reached environment) (functions : List FunctionCode) :
    Orderly t own moves fun _ => bindFunctions environment functions := by
  refine .forM functions fun code => ?_
  split
  · exact .pure ()
  · refine .bind (orderly_create_script_function _ reached) fun f => ?_
    exact .construction environment _ mine (fun e firm => Environment.firm_declare firm _)
      fun e => Environment.outer_set ..

theorem orderly_bind_declarations (callee : ObjectId) (code : FunctionCode) {environment : EnvironmentId}
    (mine : own.building environment) (reached : own.reached environment) (arguments : List Value) :
    Orderly t own moves fun _ => bindDeclarations callee code environment arguments := by
  unfold bindDeclarations
  dsimp only
  have parameters : Orderly t own moves fun _ =>
      modifyEnvironment environment (bindParameters · code.parameters arguments) :=
    .construction environment _ mine (fun _ firm => Environment.firm_bind_parameters firm _ _)
      fun _ => Environment.outer_bind_parameters ..
  have names : Orderly t own moves fun _ => modifyEnvironment environment fun e =>
      (bindVars e code.scope.vars).createLexical code.scope.lexical :=
    .construction environment _ mine
      (fun _ firm => Environment.firm_create_lexical (Environment.firm_bind_vars firm _) _)
      fun _ => (Environment.outer_create_lexical ..).trans (Environment.outer_bind_vars ..)
  refine .bind parameters fun _ => .bind (orderly_bind_functions mine reached _) fun _ => ?_
  refine .ite (.bind (orderly_create_arguments ..) fun object => .bind ?_ fun _ => names) names
  refine .construction environment _ mine (fun e firm => ?_) fun e => ?_ <;> split
  · exact Environment.firm_first_value (Environment.firm_set firm rfl) _
  · exact Environment.firm_declare firm _
  · exact (Environment.outer_initialize ..).trans (Environment.outer_set ..)
  · exact Environment.outer_set ..

theorem orderly_this_for (f : ScriptFunction) (this : Value) :
    Orderly t own moves fun _ => thisFor f this := by
  refine .ite (.pure _) (.ite (.pure _) (.ite (.bind orderly_get_realm fun _ => .pure _) ?_))
  exact .bind (orderly_to_object this) fun id => .pure _

/-- The names of a function are bound before its body runs in an environment of its own, inside the one that the
function was made in. -/
theorem orderly_enter_function (callee : ObjectId) {f : ScriptFunction} (around : own.around f.environment)
    (this : Value) (arguments : List Value) :
    Orderly t own moves fun E => enterFunction E callee f this arguments := by
  refine .bind (orderly_this_for f this) fun this => ?_
  refine .build _ (Environment.firm_declarative _) ⟨f.environment, rfl, around⟩ (fun environment => ?_)
    fun environment _ => ?_
  · exact orderly_bind_declarations callee f.code (Rights.builds_new _ environment)
      (Rights.reaches_new own environment) arguments
  · have body : Orderly t (own.entering environment).inside true fun E => executeAll E none f.code.body :=
      orderly_execute_inside none f.code.body
    refine .bind (.inContext _ (Rights.enters_new _ environment) body) fun c => ?_
    split <;> exact .pure _

theorem orderly_call_script (callee : ObjectId) {f : ScriptFunction} (around : own.around f.environment)
    (this : Value) (arguments : List Value) :
    Orderly t own moves fun E => callScript E callee f this arguments :=
  .nested (orderly_enter_function callee around this arguments)

/-! ## Global names -/

theorem orderly_check_redeclared (names : List LexicalName) :
    Orderly t own moves fun _ => checkRedeclared names := by
  refine .bind orderly_get_realm fun realm => .bind (orderly_get_environment _) fun environment => ?_
  refine .forM names fun n => .bind (orderly_ask_heap _) fun taken => ?_
  exact .ite (orderly_throw_fault _) (.pure ())

theorem orderly_declare_global_function (strict : Bool) (code : FunctionCode) :
    Orderly t own moves fun E => declareGlobalFunction E strict code := by
  unfold declareGlobalFunction
  split
  · exact .pure ()
  · refine orderly_shared fun realm => ?_
    refine .bind (orderly_create_script_function code (Rights.reaches_new own _)) fun f => ?_
    refine .bind (orderly_get_object _) fun global => ?_
    split
    · exact orderly_unless _ (orderly_put_property ..)
    · exact .discard (orderly_define_property ..)

theorem orderly_declare_global_var (name : String) :
    Orderly t own moves fun E => declareGlobalVar E name := by
  refine .bind orderly_get_realm fun realm => .bind (orderly_get_object _) fun global => ?_
  exact .ite (.pure ()) (.discard (orderly_define_property ..))

theorem orderly_run_statements (last : Option Value) {body : List Stmt}
    (covers : ∀ s ∈ body, own.Covers t s.form) :
    Orderly t own moves fun E => runStatements E last body := by
  induction body generalizing last with
  | nil => exact .pure last
  | cons s rest ih =>
    refine .bind (.execute [] s (covers s (.head _))) fun c => ?_
    split
    · exact ih _ fun s mem => covers s (.tail _ mem)
    · exact .pure last

theorem orderly_refuse_script {α : Type} (names : List LexicalName) :
    Orderly t own moves fun _ => (refuseScript names : Eval α) :=
  .bind (orderly_check_redeclared names) fun _ => .raise .exhausted nofun

theorem orderly_begin_script {p : Program} (covers : ∀ s ∈ p.body, own.Covers t s.form) :
    Orderly t own moves fun E => beginScript E p := by
  refine .bind (.forM _ (orderly_declare_global_function p.strict)) fun _ => ?_
  exact .bind (.forM _ orderly_declare_global_var) fun _ => orderly_run_statements none covers

/-! ## Programs -/

theorem orderly_script_context (strict : Bool) : Orderly t own moves fun _ => scriptContext strict :=
  .bind orderly_get_realm fun _ => .pure _

theorem orderly_run_program {p : Program} (covered : t.named → p.Covered) :
    Orderly t own moves fun E => runProgram E p := by
  simp only [run_program_declares, scriptContext, bind_assoc, pure_bind]
  refine orderly_shared fun realm => ?_
  refine .bind (.script _ p.scope.lexical (Rights.reaches_new own _) (orderly_refuse_script _)
    (orderly_begin_script ?_)) fun _ => .pure _
  exact fun s mem named name introduces => covered named s mem name introduces

/-- A result is asked for, whatever cuts the action short. -/
theorem orderly_result_of {α : Type} {action : Engine → Eval α} (probed : t.probed)
    (tried : Orderly t own moves action) : Orderly t own moves fun E => resultOf? (action E) := by
  refine .attempt tried (fun a => .pure (some a)) (fun e honest => ?_) (.inl probed)
  cases e with
  | thrown value | overflow depth => exact .pure none
  | exhausted => exact .raise .exhausted honest

theorem orderly_describe_field (probed : t.probed) (id : ObjectId) (key : String) :
    Orderly t own moves fun E => describeField E id key := by
  unfold describeField
  refine .bind (orderly_result_of probed (orderly_get_property id key)) fun value => ?_
  split
  · exact .pure none
  · exact .pure none
  · exact orderly_result_of probed (orderly_to_text _)

theorem orderly_describe_thrown (probed : t.probed) (value : Value) :
    Orderly t own moves fun E => describeThrown E value := by
  unfold describeThrown
  split
  · refine .bind (orderly_describe_field probed ..) fun name => ?_
    refine .bind (orderly_describe_field probed ..) fun message => ?_
    split
    · exact .pure _
    · exact .pure _
    · exact .pure _
    · exact orderly_display_value _
  · exact .pure _

/-- The end of a script is looked at, whatever it is. Too many nested calls are reported by a number that may be
reported. -/
theorem orderly_after_program {α : Type} {rest : Engine → Except ScriptError Value → Eval α} (probed : t.probed)
    {p : Program} (covered : t.named → p.Covered)
    (next : ∀ outcome, (∀ depth, outcome = .error (.overflow depth) → t.reported depth) →
      Orderly t own moves fun E => rest E outcome) :
    Orderly t own moves fun E => evalProgram E p >>= rest E := by
  simp only [evalProgram, bind_assoc]
  refine .attempt (orderly_run_program covered) (fun value => ?_) (fun e honest => ?_) (.inl probed)
  · simpa only [pure_bind] using next (.ok value) nofun
  · cases e with
    | thrown value =>
      simp only [bind_assoc, pure_bind]
      exact .bind (orderly_describe_thrown probed value) fun message => next _ nofun
    | overflow depth =>
      have told : ∀ found, (.error (.overflow depth) : Except ScriptError Value) = .error (.overflow found) →
          t.reported found := by
        rintro found ⟨⟩
        exact honest depth rfl
      simpa only [pure_bind] using next _ told
    | exhausted => simpa only [pure_bind] using next (.error .exhausted) nofun

theorem orderly_eval_program (probed : t.probed) {p : Program} (covered : t.named → p.Covered) :
    Orderly t own moves fun E => evalProgram E p := by
  simpa only [bind_pure] using orderly_after_program probed covered fun outcome _ => .pure outcome

/-- Runs a script that was read, and says what could not be read. -/
def evalRead (engine : Engine) : Except Diagnostic Program → Eval (Except ScriptError Value)
  | .error d => return .error (.unreadable d)
  | .ok p => evalProgram engine p

theorem eval_source_reads (engine : Engine) (source : String) :
    evalSource engine source =
      ((fun m => .ok m.options.strict m) : Eval Bool) >>= fun strict =>
        evalRead engine (Program.ofSource source strict) := rfl

theorem orderly_after_source {α : Type} {rest : Engine → Except ScriptError Value → Eval α} (probed : t.probed)
    (source : String)
    (next : ∀ outcome, (∀ depth, outcome = .error (.overflow depth) → t.reported depth) →
      Orderly t own moves fun E => rest E outcome) :
    Orderly t own moves fun E => evalSource E source >>= rest E := by
  have reads (E : Engine) : evalSource E source >>= rest E =
      ((fun m => .ok m.options.strict m) : Eval Bool) >>= fun strict =>
        evalRead E (Program.ofSource source strict) >>= rest E := rfl
  simp only [reads]
  refine .bind (.read (fun m => m.options.strict) fun _ _ => rfl) fun strict => ?_
  cases read : Program.ofSource source strict with
  | error d => simpa only [evalRead, pure_bind] using next (.error (.unreadable d)) nofun
  | ok p => exact orderly_after_program probed (fun _ => covered_of_sound (program_sound_of_source read)) next

theorem orderly_eval_source (probed : t.probed) (source : String) :
    Orderly t own moves fun E => evalSource E source := by
  simpa only [bind_pure] using orderly_after_source probed source fun outcome _ => .pure outcome

end ScriptEngine
