import ScriptEngine.Proofs.Evaluation.Telling
import ScriptEngine.Proofs.Jumps.Targets

/-!
The value of a script. A statement passes on the value of the last expression statement that ran in it, whether it
goes on or jumps, and whatever lies around it adds that of an earlier one only if there was none. Only `try`
statements do something else. So the value of a script without them is the one that was given last.
-/

namespace ScriptEngine

/-! ## Parts of a statement -/

/-- The statements directly inside a statement, which run as a part of it. -/
def StmtForm.parts : StmtForm → List Stmt
  | block b => b.body
  | cond _ yes no => yes :: no.toList
  | whileLoop _ body | doWhile body _ | forLoop _ _ _ body | forIn _ _ body | labeled _ body
  | withObject _ body => [body]
  | attempt guarded handler finalizer =>
    guarded.body ++ handler.toList.flatMap (·.body.body) ++ finalizer.toList.flatMap Block.body
  | switch _ clauses _ => clauses.flatMap SwitchClause.body
  | _ => []

/-- A statement is a `try` statement or has one among its parts, at any depth but not inside of functions. -/
inductive StmtForm.Tries : StmtForm → Prop
  | itself (guarded : Block) (handler : Option Handler) (finalizer : Option Block) :
    Tries (.attempt guarded handler finalizer)
  | inside {form : StmtForm} {s : Stmt} (part : s ∈ form.parts) (tries : s.form.Tries) : Tries form

/-- Looks for a `try` statement among the parts of a statement up to some depth; what is deeper may be one. -/
def StmtForm.mayTry : (depth : Nat) → StmtForm → Bool
  | 0, _ => true
  | _ + 1, .attempt .. => true
  | depth + 1, form => form.parts.any fun s => s.form.mayTry depth

/-- What is not found to be there is not there. -/
theorem not_tries_of_may_try {depth : Nat} {form : StmtForm} (nothing : form.mayTry depth = false) :
    ¬form.Tries := by
  intro tries
  induction tries generalizing depth with
  | itself guarded handler finalizer => cases depth <;> cases nothing
  | @inside form s part tries ih =>
    cases depth with
    | zero => cases nothing
    | succ depth =>
      unfold StmtForm.mayTry at nothing
      split at nothing
      · cases nothing
      · cases nothing
      · exact ih (by simpa using List.any_eq_false.1 nothing s part)

/-- A script has a `try` statement outside of functions. -/
def Program.Tries (p : Program) : Prop :=
  ∃ s ∈ p.body, s.form.Tries

/-! ## Values that are passed on -/

/-- A statement ends with the value that was given last in it, or else with the one before. What a function
returns is of no account. -/
def Completion.Carries (before given : Option Value) : Completion → Prop
  | normal value | broke _ value | continued _ value => value = (given <|> before)
  | returned _ => True

/-- The value that is told last when a statement runs is the one that it ends with. -/
def Passes (run : (Value → String) → List String → Stmt → Eval Completion) (s : Stmt) : Prop :=
  ∀ labels, Leaves (Completion.Carries none) fun tell => run tell labels s

section Statements

variable {engine : Engine} (blind : engine.Blind)
  {run : (Value → String) → List String → Stmt → Eval Completion}

theorem carries_later {before given later : Option Value} {c : Completion}
    (carries : c.Carries (given <|> before) later) : c.Carries before (later <|> given) := by
  cases c with
  | returned => trivial
  | _ =>
    cases later
    · exact carries
    · exact carries

theorem carries_fill {before given : Option Value} {c : Completion} (carries : c.Carries none given) :
    c.isAbrupt → (c.fillJump before).Carries before given := by
  intro abrupt
  cases c with
  | normal => cases abrupt
  | returned => trivial
  | broke label value | continued label value =>
    obtain rfl : value = given := by simpa [Completion.Carries] using carries
    cases value <;> rfl

/-! ### Lists and blocks -/

theorem leaves_execute_all {body : List Stmt} (passes : ∀ s ∈ body, Passes run s) (before : Option Value) :
    Leaves (Completion.Carries before) fun tell => executeAll (engine.running (run tell)) before body := by
  induction body generalizing before with
  | nil => exact .pure rfl
  | cons s rest ih =>
    apply (passes s (.head _) []).bind
    intro given c carries
    cases c with
    | normal value =>
      obtain rfl : value = given := by simpa [Completion.Carries] using carries
      exact (ih (fun s mem => passes s (.tail _ mem)) _).mono fun later c => carries_later
    | _ => exact .pure (by simpa using carries_fill carries rfl)

/-- A new environment is made without a look at what was printed. -/
theorem blind_new_block_environment (names : List LexicalName) : Blind (newBlockEnvironment names) :=
  fun m => .quiet (m := m) fun _ => rfl

theorem leaves_execute_block {b : Block} (passes : ∀ s ∈ b.body, Passes run s) :
    Leaves (Completion.Carries none) fun tell => executeBlock (engine.running (run tell)) b := by
  have all : Leaves (Completion.Carries none) fun tell => executeAll (engine.running (run tell)) none b.body :=
    leaves_execute_all passes none
  apply Leaves.ite all
  apply Leaves.after (blind_new_block_environment b.lexical) fun _ => rfl
  exact fun environment => all.inEnvironment environment

/-! ### Loops -/

/-- A loop goes on, ends or hands on a jump after a round, and the value that was given last stays with it. -/
theorem leaves_step {next : (Value → String) → Option Value → Eval Completion} (labels : List String)
    {before given : Option Value} {c : Completion} (carries : c.Carries none given)
    (goesOn : ∀ value, Leaves (Completion.Carries value) fun tell => next tell value) :
    Leaves (fun later c => c.Carries before (later <|> given)) fun tell =>
      match loopStep labels before c with
      | .next value => next tell value
      | .exit value => pure (.normal value)
      | .propagate c => pure c := by
  have goes : Leaves (fun later c => c.Carries before (later <|> given)) fun tell => next tell (given <|> before) :=
    (goesOn _).mono fun later c => carries_later
  cases c with
  | normal value =>
    obtain rfl : value = given := by simpa [Completion.Carries] using carries
    exact goes
  | returned value => exact .pure trivial
  | continued label value =>
    obtain rfl : value = given := by simpa [Completion.Carries] using carries
    unfold loopStep
    dsimp only
    cases Completion.owns labels label with
    | true => exact goes
    | false => exact .pure (by simpa using carries_fill carries rfl)
  | broke label value =>
    obtain rfl : value = given := by simpa [Completion.Carries] using carries
    unfold loopStep
    dsimp only
    cases Completion.owns labels label with
    | true => exact .pure (by simp [Completion.Carries])
    | false => exact .pure (by simpa using carries_fill carries rfl)

include blind

theorem leaves_while_rounds (labels : List String) (test : Expr) {body : Stmt} (passes : Passes run body)
    (before : Option Value) (rounds : Nat) :
    Leaves (Completion.Carries before) fun tell =>
      whileRounds (engine.running (run tell)) labels test body before rounds := by
  induction rounds generalizing before with
  | zero => exact .throw _
  | succ rounds ih =>
    apply Leaves.after (blind.evaluate test) fun _ => rfl
    intro met
    apply Leaves.ite
    · apply (passes []).bind
      exact fun given c carries => leaves_step labels carries ih
    · exact .pure rfl

theorem leaves_do_rounds (labels : List String) {body : Stmt} (passes : Passes run body) (test : Expr)
    (before : Option Value) (rounds : Nat) :
    Leaves (Completion.Carries before) fun tell =>
      doRounds (engine.running (run tell)) labels body test before rounds := by
  induction rounds generalizing before with
  | zero => exact .throw _
  | succ rounds ih =>
    apply (passes []).bind
    intro given c carries
    apply leaves_step labels carries
    intro value
    apply Leaves.after (blind.evaluate test) fun _ => rfl
    exact fun met => .ite (ih value) (.pure rfl)

theorem leaves_for_rounds (l : ForLoop) (passes : Passes run l.body) (before : Option Value) (rounds : Nat) :
    Leaves (Completion.Carries before) fun tell => forRounds (engine.running (run tell)) l before rounds := by
  induction rounds generalizing before with
  | zero => exact .throw _
  | succ rounds ih =>
    apply Leaves.after (blind_of_orderly blind (orderly_test_holds l.test)) fun _ => rfl
    intro met
    apply Leaves.ite
    · apply (passes []).bind
      intro given c carries
      apply leaves_step l.labels carries
      intro value
      have goesOn : Orderly .any .none true fun _ => freshIteration l.names l.outer :=
        orderly_fresh_iteration (.inr ⟨rfl, trivial⟩)
      have fresh := goesOn.blind blind
      apply Leaves.after fresh fun _ => rfl
      intro _
      apply Leaves.after (blind_of_orderly blind (orderly_run_update l.update)) fun _ => rfl
      exact fun _ => ih value
    · exact .pure rfl

theorem leaves_execute_for (labels : List String) (init : Option ForInit) (test update : Option Expr)
    {body : Stmt} (passes : Passes run body) :
    Leaves (Completion.Carries none) fun tell =>
      executeFor (engine.running (run tell)) labels init test update body := by
  apply Leaves.after (blind_of_orderly blind orderly_lexical_environment) fun _ => rfl
  intro outer
  have loop (names : List String) : Leaves (Completion.Carries none) fun tell =>
      runForLoop (engine.running (run tell)) ⟨labels, test, update, body, names, outer⟩ := by
    have goesOn : Orderly .any .none true fun _ => freshIteration names outer :=
      orderly_fresh_iteration (.inr ⟨rfl, trivial⟩)
    have fresh := goesOn.blind blind
    apply Leaves.after fresh fun _ => rfl
    exact fun _ => leaves_for_rounds blind _ passes none engine.rounds
  rcases init with _ | declarators | ⟨constant, declarators⟩ | e
  · exact loop []
  · apply Leaves.after (blind_of_orderly blind (orderly_execute_vars declarators)) fun _ => rfl
    exact fun _ => loop []
  · apply Leaves.after (blind_new_block_environment _) fun _ => rfl
    intro environment
    have orderly : Orderly .any .none false fun E => executeLexical E declarators :=
      orderly_execute_lexical fun named => named.elim
    apply Leaves.after (blind_in_environment environment (blind_of_orderly blind orderly)) fun _ => rfl
    exact fun _ => (loop _).inEnvironment environment
  · apply Leaves.after (blind_of_orderly blind (.discard (.evaluate e))) fun _ => rfl
    exact fun _ => loop []

theorem leaves_for_in_body (target : ForInTarget) (key : Value) {body : Stmt} (passes : Passes run body) :
    Leaves (Completion.Carries none) fun tell => forInBody (engine.running (run tell)) target key body := by
  cases target with
  | var name =>
    apply Leaves.after (blind_of_orderly blind (orderly_resolve_name name)) fun _ => rfl
    intro r
    have orderly : Orderly .any (Rights.none.finding r.place) false fun E => putReference E r key :=
      orderly_put_reference r key
    apply Leaves.after (orderly.blind blind) fun _ => rfl
    exact fun _ => passes []
  | expr e =>
    apply Leaves.after (blind_of_orderly blind (orderly_evaluate_reference e)) fun _ => rfl
    intro r
    have orderly : Orderly .any (Rights.none.finding r.place) false fun E => putReference E r key :=
      orderly_put_reference r key
    apply Leaves.after (orderly.blind blind) fun _ => rfl
    exact fun _ => passes []
  | lexical constant name =>
    apply Leaves.after (blind_new_block_environment _) fun _ => rfl
    intro environment
    have quiet : Blind (modifyEnvironment environment fun e => (e.initialize? name key).2) :=
      fun m => .quiet (m := m) fun _ => rfl
    apply Leaves.after quiet fun _ => rfl
    exact fun _ => (passes []).inEnvironment environment

theorem leaves_for_in_rounds (labels : List String) (target : ForInTarget) {body : Stmt}
    (passes : Passes run body) (walk : KeyWalk) (before : Option Value) (rounds : Nat) :
    Leaves (Completion.Carries before) fun tell =>
      forInRounds (engine.running (run tell)) labels target body walk before rounds := by
  induction rounds generalizing walk before with
  | zero => exact .throw _
  | succ rounds ih =>
    apply Leaves.after (blind_of_orderly blind (orderly_ask_heap walk.next)) fun _ => rfl
    intro found
    rcases found with ⟨_ | key, walk⟩
    · exact .pure rfl
    · apply (leaves_for_in_body blind target (.string key) passes).bind
      exact fun given c carries => leaves_step labels carries (ih walk)

theorem leaves_execute_for_in (labels : List String) (target : ForInTarget) (object : Expr) {body : Stmt}
    (passes : Passes run body) :
    Leaves (Completion.Carries none) fun tell =>
      executeForIn (engine.running (run tell)) labels target object body := by
  apply Leaves.after (blind.evaluate object) fun _ => rfl
  intro subject
  have nothing : Completion.empty.Carries none none := rfl
  apply Leaves.ite (.pure nothing)
  apply Leaves.after (blind_of_orderly blind (orderly_to_object subject)) fun _ => rfl
  exact fun id => leaves_for_in_rounds blind labels target passes _ none engine.rounds

/-! ### Choices -/

omit blind in
theorem leaves_execute_clauses {clauses : List SwitchClause}
    (passes : ∀ c ∈ clauses, ∀ s ∈ c.body, Passes run s) (before : Option Value) :
    Leaves (Completion.Carries before) fun tell => executeClauses (engine.running (run tell)) before clauses := by
  induction clauses generalizing before with
  | nil => exact .pure rfl
  | cons clause rest ih =>
    apply (leaves_execute_all (passes clause (.head _)) none).bind
    intro given c carries
    cases c with
    | normal value =>
      obtain rfl : value = given := by simpa [Completion.Carries] using carries
      exact (ih (fun c mem => passes c (.tail _ mem)) _).mono fun later c => carries_later
    | _ => exact .pure (by simpa using carries_fill carries rfl)

omit blind in
/-- Tests of clauses run no statements. -/
theorem select_clause_running (execute : List String → Stmt → Eval Completion) (value : Value)
    (clauses : List SwitchClause) :
    selectClause (engine.running execute) value clauses = selectClause engine value clauses := by
  induction clauses with
  | nil => rfl
  | cons clause rest ih =>
    unfold selectClause
    rw [ih]
    rfl

theorem leaves_execute_selected (value : Value) {clauses : List SwitchClause}
    (passes : ∀ c ∈ clauses, ∀ s ∈ c.body, Passes run s) :
    Leaves (Completion.Carries none) fun tell => executeSelected (engine.running (run tell)) value clauses := by
  have selects := (Leaves.blind (blind_of_orderly blind (orderly_select_clause value clauses))).yields
    (yields_select_clause engine value clauses)
  simp only [executeSelected, select_clause_running]
  apply selects.bind
  rintro _ selected ⟨rfl, among⟩
  have chosen : ∀ c ∈ (if selected.isEmpty then clauses.dropWhile (·.test.isSome) else selected),
      ∀ s ∈ c.body, Passes run s := by
    intro c mem
    apply passes c
    split at mem
    · exact (List.dropWhile_sublist _).subset mem
    · exact among.subset mem
  exact (leaves_execute_clauses chosen none).mono fun later c => by simp

omit blind in
/-- A jump that ends at a `switch` statement leaves the value that it carries. -/
theorem leaves_end_switch (labels : List String) {given : Option Value} {c : Completion} :
    c.Carries none given → Leaves (fun later c => c.Carries none (later <|> given)) fun _ =>
      (match c with
      | .broke label produced =>
        if Completion.owns labels label then pure (.normal produced) else pure c
      | _ => pure c : Eval Completion) := by
  intro carries
  cases c with
  | broke label produced =>
    dsimp only
    cases Completion.owns labels label with
    | true => exact .pure (by simpa [Completion.Carries] using carries)
    | false => exact .pure (by simpa [Completion.Carries] using carries)
  | returned => exact .pure trivial
  | _ => exact .pure (by simpa [Completion.Carries] using carries)

theorem leaves_execute_switch (labels : List String) (discriminant : Expr) {clauses : List SwitchClause}
    (names : List LexicalName) (passes : ∀ c ∈ clauses, ∀ s ∈ c.body, Passes run s) :
    Leaves (Completion.Carries none) fun tell =>
      executeSwitch (engine.running (run tell)) labels discriminant clauses names := by
  apply Leaves.after (blind.evaluate discriminant) fun _ => rfl
  intro value
  have selected := leaves_execute_selected blind value passes
  apply Leaves.ite
  · exact selected.bind fun given c carries => leaves_end_switch labels carries
  · apply Leaves.after (blind_new_block_environment names) fun _ => rfl
    intro environment
    exact (selected.inEnvironment environment).bind fun given c carries => leaves_end_switch labels carries

/-! ### All statements -/

omit blind in
/-- A jump to a label that ends there leaves the value that it carries. -/
theorem leaves_end_label (label : String) {given : Option Value} {c : Completion} :
    c.Carries none given → Leaves (fun later c => c.Carries none (later <|> given)) fun _ =>
      (match c with
      | .broke (some target) value =>
        if target == label then pure (.normal value) else pure (.broke (some target) value)
      | c => pure c : Eval Completion) := by
  intro carries
  rcases c with value | value | ⟨_ | target, value⟩ | ⟨target, value⟩
  · exact .pure (by simpa [Completion.Carries] using carries)
  · exact .pure trivial
  · exact .pure (by simpa [Completion.Carries] using carries)
  · dsimp only
    cases target == label with
    | true => exact .pure (by simpa [Completion.Carries] using carries)
    | false => exact .pure (by simpa [Completion.Carries] using carries)
  · exact .pure (by simpa [Completion.Carries] using carries)

/-- A statement that is no `try` statement passes on what its parts give. -/
theorem leaves_tell_form (labels : List String) {form : StmtForm} (tryless : ¬form.Tries)
    (passes : ∀ s ∈ form.parts, Passes run s) :
    Leaves (Completion.Carries none) fun tell => tellForm tell (engine.running (run tell)) labels form := by
  have nothing : Completion.empty.Carries none none := rfl
  cases form with
  | var declarators =>
    apply Leaves.after (blind_of_orderly blind (orderly_execute_vars declarators)) fun _ => rfl
    exact fun _ => .pure nothing
  | lexical constant declarators =>
    have orderly : Orderly .any .none false fun E => executeLexical E declarators :=
      orderly_execute_lexical fun named => named.elim
    apply Leaves.after (blind_of_orderly blind orderly) fun _ => rfl
    exact fun _ => .pure nothing
  | function | empty | debugger => exact .pure nothing
  | expr e =>
    apply Leaves.after (blind.evaluate e) fun _ => rfl
    intro value
    apply (Leaves.tell value).bind
    rintro _ _ rfl
    exact .pure rfl
  | block b => exact leaves_execute_block passes
  | cond test yes no =>
    apply Leaves.after (blind.evaluate test) fun _ => rfl
    intro met
    apply Leaves.ite (passes yes (.head _) [])
    cases no with
    | none => exact .pure nothing
    | some no => exact passes no (.tail _ (.head _)) []
  | whileLoop test body => exact leaves_while_rounds blind labels test (passes body (.head _)) none _
  | doWhile body test => exact leaves_do_rounds blind labels (passes body (.head _)) test none _
  | forLoop init test update body => exact leaves_execute_for blind labels init test update (passes body (.head _))
  | forIn target object body => exact leaves_execute_for_in blind labels target object (passes body (.head _))
  | ret value =>
    cases value with
    | none => exact .pure trivial
    | some e => exact .after (blind.evaluate e) (fun _ => rfl) fun _ => .pure trivial
  | breakTo | continueTo => exact .pure rfl
  | throw e => exact .after (blind.evaluate e) (fun _ => rfl) fun value => .throw _
  | attempt guarded handler finalizer => exact absurd (.itself guarded handler finalizer) tryless
  | labeled label body =>
    apply (passes body (.head _) (label :: labels)).bind
    exact fun given c carries => leaves_end_label label carries
  | switch discriminant clauses names =>
    apply leaves_execute_switch blind
    exact fun c mem s inside => passes s (List.mem_flatMap.2 ⟨c, mem, inside⟩)
  | withObject object body =>
    apply Leaves.after (blind.evaluate object) fun _ => rfl
    intro value
    apply Leaves.after (blind_of_orderly blind (orderly_to_object value)) fun _ => rfl
    intro id
    apply Leaves.after (blind_of_orderly blind orderly_lexical_environment) fun _ => rfl
    intro outer
    have quiet : Blind (newEnvironment (.ofObject id true (some outer))) := fun m => .quiet (m := m) fun _ => rfl
    apply Leaves.after quiet fun _ => rfl
    exact fun environment => (passes body (.head _) []).inEnvironment environment

end Statements

/-- Whatever a statement without `try` statements does, it ends with the value that was given last. -/
theorem passes_tell_statement (steps : Nat) {s : Stmt} (tryless : ¬s.form.Tries) :
    Passes (fun tell => tellStatement tell steps) s := by
  induction steps generalizing s with
  | zero => exact fun _ => .throw _
  | succ steps ih =>
    intro labels
    apply leaves_tell_form (engine_blind steps) labels tryless
    exact fun part mem => ih fun tries => tryless (.inside mem tries)

/-! ## Scripts -/

theorem leaves_run_statements (steps : Nat) {body : List Stmt} (tryless : ∀ s ∈ body, ¬s.form.Tries)
    (sound : ∀ s ∈ body, (Node.stmt .script s).Sound) (before : Option Value) :
    Leaves (fun given value => value = (given <|> before)) fun tell =>
      runStatements (tellingAt tell steps) before body := by
  induction body generalizing before with
  | nil => exact .pure rfl
  | cons s rest ih =>
    have ends : Yields (fun c => (c.exit .script).Within .script) (tellStatement tellNothing steps [] s) := by
      rw [tell_statement_nothing]
      exact yields_execute steps (sound s (.head _))
    apply ((passes_tell_statement steps (tryless s (.head _)) []).yields ends).bind
    rintro given c ⟨carries, within⟩
    obtain ⟨value, rfl⟩ := ends_script within
    obtain rfl : value = given := by simpa [Completion.Carries] using carries
    have later := ih (fun s mem => tryless s (.tail _ mem)) (fun s mem => sound s (.tail _ mem)) (value <|> before)
    refine later.mono fun later last carries => ?_
    cases later <;> exact carries

/-- The names of a script are bound without a look at what was printed. -/
theorem blind_bind_globals {engine : Engine} (blind : engine.Blind) (p : Program) : Blind (bindGlobals engine p) := by
  apply (blind_of_orderly blind (orderly_check_redeclared p.scope.lexical)).bind
  intro _
  apply (blind_of_orderly blind orderly_get_realm).bind
  intro realm
  apply Blind.bind fun m => .quiet (m := m) fun _ => rfl
  intro _
  apply (blind_of_orderly blind (.forM p.scope.functions (orderly_declare_global_function p.strict))).bind
  exact fun _ => blind_of_orderly blind (.forM p.scope.vars orderly_declare_global_var)

theorem leaves_run_script (steps : Nat) {p : Program} (sound : ∀ s ∈ p.body, (Node.stmt .script s).Sound)
    (tryless : ¬p.Tries) :
    Leaves (fun given value => value = given) fun tell => runScript (tellingAt tell steps) p := by
  apply Leaves.after (blind_bind_globals (engine_blind steps) p) fun _ => rfl
  intro _
  have runs := leaves_run_statements steps (fun s mem tries => tryless ⟨s, mem, tries⟩) sound none
  exact runs.mono fun given value carries => by simpa using carries

theorem leaves_run_program (steps : Nat) {p : Program} (sound : ∀ s ∈ p.body, (Node.stmt .script s).Sound)
    (tryless : ¬p.Tries) :
    Leaves (fun given value => value = given.getD .undefined) fun tell => runProgram (tellingAt tell steps) p := by
  apply Leaves.after (blind_of_orderly (engine_blind steps) (orderly_script_context p.strict)) fun _ => rfl
  intro c
  apply ((leaves_run_script steps sound tryless).inContext c).bind
  rintro given _ rfl
  exact .pure (by simp)

/-- What happens in a run of an action: what is told of it, whatever is printed for that and whatever was printed
before, and what is given if it ends well. The same happens where nothing is told. -/
def Shows {α : Type} (m : Machine) (told : (Value → String) → Eval α) (plain : Eval α)
    (fits : List Sign → α → Prop) : Prop :=
  ∃ (outcome : Except Abrupt α) (last : Machine) (signs : List Sign),
    (∀ tell text, (m.showing text).run (told tell) = (outcome, last.showing (text ++ Sign.texts tell signs))) ∧
    (∀ text, (m.showing text).run plain = (outcome, last.showing (text ++ Sign.texts tellNothing signs))) ∧
    ∀ a, outcome = .ok a → fits signs a

theorem shows_of_leaves {α : Type} {steps : Nat} (action : Engine → Eval α) {fits : Option Value → α → Prop}
    (leaves : Leaves fits fun tell => action (tellingAt tell steps)) (m : Machine) :
    Shows m (fun tell => action (tellingAt tell steps)) (action (engineAt steps)) fun signs =>
      fits (Sign.last? signs) := by
  obtain ⟨outcome, last, signs, ran, good⟩ := leaves m
  refine ⟨outcome, last, signs, ran, fun text => ?_, good⟩
  rw [← telling_nothing]
  exact ran tellNothing text

/-- The value of a script that has no `try` statement outside of functions is the one that the last of its
expression statements gave, of all that ran outside of functions, whatever blocks, choices, loops, labels and jumps
they ran in. It is none if no expression statement ran, which is undefined to the host. -/
theorem script_value_is_last_given {source : String} {strict : Bool} {p : Program}
    (read : Program.ofSource source strict = .ok p) (tryless : ¬p.Tries) (steps : Nat) (m : Machine) :
    Shows m (fun tell => runScript (tellingAt tell steps) p) (runScript (engineAt steps) p)
      (fun signs value => value = Sign.last? signs) ∧
    Shows m (fun tell => runProgram (tellingAt tell steps) p) (runProgram (engineAt steps) p)
      (fun signs value => value = (Sign.last? signs).getD .undefined) := by
  have sound : ∀ s ∈ p.body, (Node.stmt .script s).Sound := by
    intro s mem
    apply sound_of_source read ⟨.stmt .script s, ?_, .here _⟩
    exact List.mem_append_left _ (List.mem_map_of_mem mem)
  exact ⟨shows_of_leaves (runScript · p) (leaves_run_script steps sound tryless) m,
    shows_of_leaves (runProgram · p) (leaves_run_program steps sound tryless) m⟩

/-- A script whose last expression statement runs in a clause, in a loop that is left by a jump. -/
def jumpyScript : String :=
  "1; a: do { 2; switch (3) { case 3: 4; do { continue a } while (true) } } while (false)"

/-- The value of such a script is the one that the clause gave. -/
theorem jumpy_script_gives_four :
    ∃ p, Program.ofSource jumpyScript false = .ok p ∧ ¬p.Tries ∧ ∃ (last : Machine) (signs : List Sign),
      (∀ tell text, ((Machine.bare {}).showing text).run (runProgram (tellingAt tell 20) p) =
        (.ok (.ofNat 4), last.showing (text ++ Sign.texts tell signs))) ∧
      (Sign.last? signs).getD .undefined = .ofNat 4 := by
  have ran : (Program.ofSource jumpyScript false).toOption.any (fun p =>
      p.body.all (fun s => !s.form.mayTry 10) &&
      (((Machine.bare {}).showing "").run (runProgram (engineAt 20) p)).1.toOption == some (.ofNat 4)) = true := by
    decide +kernel
  cases read : Program.ofSource jumpyScript false with
  | error d =>
    rw [read] at ran
    cases ran
  | ok p =>
    simp only [read, Except.toOption, Option.any_some, Bool.and_eq_true, List.all_eq_true,
      Bool.not_eq_true', beq_iff_eq] at ran
    obtain ⟨plain, gives⟩ := ran
    have tryless : ¬p.Tries := fun ⟨s, mem, tries⟩ => not_tries_of_may_try (plain s mem) tries
    obtain ⟨outcome, last, signs, told, itself, fits⟩ :=
      (script_value_is_last_given read tryless 20 (Machine.bare {})).2
    rw [itself] at gives
    cases outcome with
    | error e => cases gives
    | ok value =>
      obtain rfl : value = .ofNat 4 := Option.some.inj gives
      exact ⟨p, rfl, tryless, last, signs, told, (fits _ rfl).symm⟩

end ScriptEngine
