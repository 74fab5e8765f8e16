import ScriptEngine.Proofs.Environment.Declaring

/-!
The rounds of a `for` loop that binds names by `let`. Each round copies the values of its names into an environment
of its own without asking whether they have any. They always do: a loop that would do something else about a name
without a value is no different.
-/

namespace ScriptEngine

/-! ## Loops that look at what they copy -/

/-- Begins a round as `freshIteration` does if all names that it copies have values. -/
def freshIterationChecked (unready : Eval Unit) (names : List String) (outer : EnvironmentId) : Eval Unit := do
  let current ← getEnvironment (← lexicalEnvironment)
  if names.all fun name => (current.binding? name).any Binding.initialized then freshIteration names outer
  else unready

/-- The rounds of a `for` loop, which looks at what it copies. -/
def forRoundsChecked (unready : Eval Unit) (engine : Engine) (l : ForLoop) (value : Option Value) :
    (rounds : Nat) → Eval Completion
  | 0 => throw .exhausted
  | rounds + 1 => do
    if ← testHolds engine l.test then
      match loopStep l.labels value (← engine.execute [] l.body) with
      | .next value =>
        freshIterationChecked unready l.names l.outer
        l.update.forM fun e => discard (engine.evaluate e)
        forRoundsChecked unready engine l value rounds
      | .exit value => return .normal value
      | .propagate c => return c
    else return .normal value

def runForLoopChecked (unready : Eval Unit) (engine : Engine) (l : ForLoop) : Eval Completion := do
  freshIterationChecked unready l.names l.outer
  forRoundsChecked unready engine l none engine.rounds

/-- A `for` statement, which looks at what it copies. -/
def executeForChecked (unready : Eval Unit) (engine : Engine) (labels : List String) (init : Option ForInit)
    (test update : Option Expr) (body : Stmt) : Eval Completion := do
  let outer ← lexicalEnvironment
  let loop (names : List String) : Eval Completion :=
    runForLoopChecked unready engine ⟨labels, test, update, body, names, outer⟩
  match init with
  | none => loop []
  | some (.vars declarators) =>
    executeVars engine declarators
    loop []
  | some (.expr e) =>
    discard (engine.evaluate e)
    loop []
  | some (.lexical constant declarators) =>
    let names := declarators.map Declarator.name
    let environment ← newBlockEnvironment (names.map (⟨·, constant⟩))
    inEnvironment environment (executeLexical engine declarators)
    inEnvironment environment (loop (if constant then [] else names))

/-! ## Copies -/

namespace Environment

/-- A name that is copied has the value that it has in the source; the others are as they were. -/
theorem binding_copy_names {e : Environment} (holds : e.isDeclarative) (source : Environment) (names : List String)
    (name : String) :
    (copyNames source e names).binding? name =
      if name ∈ names then
        some ⟨((source.binding? name).map Binding.value).getD .undefined, true, true, false, false⟩
      else e.binding? name := by
  induction names generalizing e with
  | nil => rfl
  | cons first rest ih =>
    refine (ih (isDeclarative_set e first _ ▸ holds)).trans ?_
    by_cases later : name ∈ rest
    · rw [if_pos later, if_pos (List.mem_cons_of_mem _ later)]
    · rw [if_neg later]
      unfold declare
      rw [binding?_set holds]
      by_cases same : first = name
      · subst same
        rw [if_pos rfl, if_pos List.mem_cons_self]
      · have absent : name ∉ first :: rest := by simp [later, Ne.symm same]
        rw [if_neg same, if_neg absent]

end Environment

/-! ## Rounds -/

/-- Actions are the same that run the same. -/
theorem eval_ext {α : Type} {action other : Eval α} (same : ∀ m : Machine, m.run action = m.run other) :
    action = other := by
  funext m
  have runs := same m
  unfold Machine.run at runs
  cases first : action m <;> cases second : other m <;> rw [first, second] at runs <;> cases runs <;> rfl

section Rounds

variable {E : Engine} {m after : Machine} {names : List String} {unready : Eval Unit}

/-- Where all names have values nothing is left to look for. -/
theorem run_fresh_iteration_checked (ready : ∀ name ∈ names, m.Ready name) (outer : EnvironmentId) :
    m.run (freshIterationChecked unready names outer) = m.run (freshIteration names outer) := by
  unfold freshIterationChecked
  rw [Machine.run_bind_ok (rfl : m.run lexicalEnvironment = (.ok m.context.lexical, m)),
    Machine.run_bind_ok (rfl : m.run (getEnvironment _) = (.ok (m.environments.get m.context.lexical), m)), if_pos]
  rw [List.all_eq_true]
  intro name among
  obtain ⟨b, found, -, initialized⟩ := ready name among
  have bound : (m.environments.get m.context.lexical).binding? name = some b := found
  rw [bound]
  exact initialized

/-- A new round gets an environment behind all others. -/
theorem run_fresh_iteration (named : names ≠ []) (outer : EnvironmentId) (m : Machine) :
    m.run (freshIteration names outer) =
      (.ok (), m.inNew (copyNames (m.environments.get m.context.lexical) (.declarative (some outer)) names)) := by
  cases names with
  | nil => exact absurd rfl named
  | cons first rest => rfl

/-- A new round starts with values for all of its names. -/
theorem ready_of_fresh_iteration {outer : EnvironmentId}
    (ran : m.run (freshIteration names outer) = (.ok (), after)) : ∀ name ∈ names, after.Ready name := by
  intro name among
  rw [run_fresh_iteration (List.ne_nil_of_mem among)] at ran
  obtain rfl := congrArg Prod.snd ran
  have bound := Environment.binding_copy_names (e := .declarative (some outer)) rfl
    (m.environments.get m.context.lexical) names name
  rw [if_pos among] at bound
  exact ⟨_, (Machine.bound_in_new ..).trans bound, rfl, rfl⟩

variable (steady : E.Steady .naming)
include steady

/-- Whatever runs in a round, the names of the round keep having values. -/
theorem ready_of_orderly {α : Type} {action : Engine → Eval α} {a : α}
    (orderly : Orderly .naming Rights.none.inside false action) (ran : m.run (action E) = (.ok a, after))
    (ready : ∀ name ∈ names, m.Ready name) : ∀ name ∈ names, after.Ready name := by
  intro name among
  have stays := orderly.stays steady m
  rw [ran] at stays
  exact Machine.ready_of_stays stays (ready name among)

theorem run_for_rounds_checked {l : ForLoop} (ready : ∀ name ∈ l.names, m.Ready name) (value : Option Value)
    (rounds : Nat) : m.run (forRoundsChecked unready E l value rounds) = m.run (forRounds E l value rounds) := by
  induction rounds generalizing m value with
  | zero => rfl
  | succ rounds ih =>
    refine Machine.run_bind_congr fun holds tested ran => ?_
    have ready := ready_of_orderly steady (orderly_test_holds l.test) ran ready
    cases holds with
    | false => rfl
    | true =>
      refine Machine.run_bind_congr fun c ended ran => ?_
      have ready := ready_of_orderly steady (.execute [] l.body (Rights.none.covers_inside _)) ran ready
      cases loopStep l.labels value c with
      | exit value => rfl
      | propagate c => rfl
      | next value =>
        dsimp only
        rw [Machine.run_bind, Machine.run_bind, run_fresh_iteration_checked ready]
        cases begun : ended.run (freshIteration l.names l.outer) with
        | mk outcome fresh =>
          cases outcome with
          | error e => rfl
          | ok u =>
            refine Machine.run_bind_congr fun _ updated ran => ih ?_ value
            exact ready_of_orderly steady (orderly_run_update l.update) ran (ready_of_fresh_iteration begun)

theorem run_for_loop_checked {l : ForLoop} (ready : ∀ name ∈ l.names, m.Ready name) :
    m.run (runForLoopChecked unready E l) = m.run (runForLoop E l) := by
  unfold runForLoopChecked runForLoop
  rw [Machine.run_bind, Machine.run_bind, run_fresh_iteration_checked ready]
  cases begun : m.run (freshIteration l.names l.outer) with
  | mk outcome fresh =>
    cases outcome with
    | error e => rfl
    | ok u => exact run_for_rounds_checked steady (ready_of_fresh_iteration begun) none E.rounds

/-- A loop without names of its own copies nothing. -/
theorem for_loop_checked_without_names {l : ForLoop} (none : l.names = []) :
    runForLoopChecked unready E l = runForLoop E l :=
  eval_ext fun m => run_for_loop_checked steady (by rw [none]; exact fun _ no => absurd no List.not_mem_nil)

/-- Where the names of a loop are declared, each of them gets a value before the first round. -/
theorem run_declared_loop_checked (constant : Bool) (declarators : List Declarator) {l : ForLoop}
    (among : ∀ name ∈ l.names, ∃ d ∈ declarators, d.name = name) (m : Machine) :
    m.run (newBlockEnvironment ((declarators.map Declarator.name).map (⟨·, constant⟩)) >>= fun id =>
        inEnvironment id (executeLexical E declarators) >>= fun _ =>
          inEnvironment id (runForLoopChecked unready E l)) =
      m.run (newBlockEnvironment ((declarators.map Declarator.name).map (⟨·, constant⟩)) >>= fun id =>
        inEnvironment id (executeLexical E declarators) >>= fun _ => inEnvironment id (runForLoop E l)) := by
  let e := Environment.ofBlock m.context.lexical ((declarators.map Declarator.name).map (⟨·, constant⟩))
  refine Machine.run_bind_congr fun id made ran => ?_
  obtain ⟨rfl, rfl⟩ : (m.environments.add e).1 = id ∧ { m with environments := (m.environments.add e).2 } = made :=
    ⟨Except.ok.inj (congrArg Prod.fst ran), congrArg Prod.snd ran⟩
  refine Machine.run_bind_congr fun _ declared ran => ?_
  obtain ⟨final, inside, rfl⟩ := Machine.ran_in_environment ran
  have bound : ∀ d ∈ declarators, (m.inNew e).Binds d.name := by
    intro d mem
    have named : (⟨d.name, constant⟩ : LexicalName) ∈ (declarators.map Declarator.name).map (⟨·, constant⟩) :=
      List.mem_map_of_mem (List.mem_map_of_mem mem)
    have consistent := Environment.consistent_of_constant constant (declarators.map Declarator.name)
    exact ⟨_, Machine.bound_in_block m m.context.lexical consistent named, rfl⟩
  have initialized := execute_lexical_stays steady declarators (m.inNew e)
  rw [show (m.inNew e).run (executeLexical E declarators) = (.ok (), final) from inside] at initialized
  -- The loop goes on where its names were initialized.
  rw [Machine.run_in_environment, Machine.run_in_environment, run_for_loop_checked steady]
  intro name mem
  obtain ⟨d, declared, rfl⟩ := among name mem
  have has := execute_lexical_ready steady bound inside declared
  unfold Machine.Ready Machine.bound? at has
  rw [initialized.context] at has
  exact has

/-- No loop ever copies a name without a value. -/
theorem execute_for_checked (labels : List String) (init : Option ForInit) (test update : Option Expr)
    (body : Stmt) :
    executeForChecked unready E labels init test update body = executeFor E labels init test update body := by
  refine eval_ext fun m => ?_
  unfold executeForChecked executeFor
  dsimp only
  refine Machine.run_bind_congr fun outer after _ => ?_
  split
  · rw [for_loop_checked_without_names steady rfl]
  · rw [for_loop_checked_without_names steady rfl]
  · rw [for_loop_checked_without_names steady rfl]
  · next constant declarators =>
    refine run_declared_loop_checked steady constant declarators (fun name mem => ?_) after
    dsimp only at mem
    split at mem
    · cases mem
    · exact List.mem_map.mp mem

end Rounds
end ScriptEngine
