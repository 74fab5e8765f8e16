import ScriptEngine.Proofs.Environment.GlobalObject
import ScriptEngine.Proofs.Environment.Inside
import ScriptEngine.Proofs.Environment.Lifetime
import ScriptEngine.Proofs.Evaluation.HeapHistory

/-!
Functions that are made inside an environment, from then on. They stay inside wherever the run goes, and run inside
when they are called; the names of the environment are found there or nearer. Nobody else comes to its bindings:
what is said of them goes on to hold until such a function is called.
-/

namespace ScriptEngine

open EnvironmentStore (nothing)

variable {e : EnvironmentId} {own : Rights} {moves : Bool} {α : Type} {m before after : Machine}

/-! ## Later states -/

/-- What one state has of an earlier one: objects changed by checked operations only, environments lie where they
did and bindings lasted. -/
structure Machine.Later (before after : Machine) : Prop where
  heap : before.heap.Evolves noObject after.heap
  environments : before.environments.Lasts after.environments
  realm : after.realm = before.realm
  rooted : after.Rooted

namespace Machine

theorem later_refl (rooted : m.Rooted) : m.Later m where
  heap := Heap.evolves_refl _ _
  environments := EnvironmentStore.lasts_refl _
  realm := rfl
  rooted := rooted

theorem later_trans {first second third : Machine} (early : first.Later second) (late : second.Later third) :
    first.Later third where
  heap := Heap.evolves_trans early.heap late.heap
  environments := EnvironmentStore.lasts_trans early.environments late.environments
  realm := late.realm.trans early.realm
  rooted := late.rooted

theorem Later.grows (later : before.Later after) : before.environments.Grows after.environments :=
  EnvironmentStore.grows_of_keeps later.environments

/-- What was there before does not lie within what was made since. -/
theorem Later.not_within_new (later : before.Later after) {id new : EnvironmentId}
    (clear : before.environments.Clear nothing id) (since : before.environments.environments.size ≤ new.index) :
    ¬after.environments.Within id new := by
  intro within
  have older := EnvironmentStore.index_le_of_within (clear.grows later.grows) within
  exact Nat.lt_irrefl _ (Nat.lt_of_lt_of_le clear.there (Nat.le_trans since older))

/-- What is a function stays this function. -/
theorem callable_later (later : before.Later after) {function : Value} {f : Callable}
    (found : before.heap.callable? function = some f) : after.heap.callable? function = some f := by
  cases function with
  | object id =>
    have there : id.index < before.heap.objects.size := by
      refine Nat.lt_of_not_le fun beyond => ?_
      have absent : before.heap.get id = default := by simp [Heap.get, beyond]
      have runs : (before.heap.get id).callable? = some f := found
      rw [absent] at runs
      cases runs
    have kind := Object.changes_kind (later.heap.changes id there fun no => no)
    have runs : (before.heap.get id).callable? = some f := found
    change (after.heap.get id).callable? = some f
    rwa [Object.callable?, kind]
  | _ => cases found

theorem LivesIn.later {function : Value} (lives : before.LivesIn e function) (later : before.Later after) :
    after.LivesIn e function := by
  obtain ⟨f, found, within⟩ := lives
  exact ⟨f, callable_later later found, within.grows later.grows⟩

end Machine

/-! ## New engines -/

theorem bare_rooted (options : EngineOptions) : (Machine.bare options).Rooted := by
  have whole : (Machine.bare options).environments.Clear nothing Realm.first.globalEnvironment := by
    refine .intro Nat.zero_lt_two (fun no => no) ?_ ?_
    · exact fun outer around => nomatch around
    · exact fun outer around => nomatch around
  have scripts : (Machine.bare options).environments.Clear nothing Realm.first.scriptEnvironment := by
    refine .intro Nat.one_lt_two (fun no => no) (fun outer around => ?_) fun outer around => ?_
    · obtain rfl : Realm.first.globalEnvironment = outer := Option.some.inj around
      decide
    · obtain rfl : Realm.first.globalEnvironment = outer := Option.some.inj around
      exact whole
  refine ⟨bare_all options (fun o member f runs => ?_) (fun f runs => nomatch runs), scripts, scripts⟩
  cases first_function member runs

/-- A new engine starts where it should. -/
theorem new_engine_rooted (options : EngineOptions) : (Machine.new options).Rooted := by
  have orderly : Orderly .any anyObject false fun _ => installLibrary := orderly_install_library
  have clear : anyObject.Clear nothing (Machine.bare options).environments :=
    ⟨fun _ no => no.elim, fun _ no => no.elim, fun _ no => no.elim, fun _ no => no.elim⟩
  have outside : (Machine.bare options).Outside nothing fun _ => True := Machine.outside_nothing (bare_rooted options)
  have stays := orderly.stays_outside (E := .spent) spent_stays_outside outside clear
  rw [run_install_library] at stays
  exact stays.outside.rooted

/-! ## Runs that are stopped -/

section Stopped

variable {E : Engine} {halts : Machine → Bool} {barred : EnvironmentId → Prop} {holds : Environment → Prop}

theorem keeps_history_halted (keeps : E.KeepsHistory) : (E.interrupted (stopsAt halts)).KeepsHistory := by
  have stopped {γ : Type} {action : Eval γ} (convert : Alarm → Eval γ) (ends : convert .stop = throw .exhausted)
      (keeps : KeepsHistory action) :
      KeepsHistory (interrupt (fun m => (stopsAt halts m).map convert) action) :=
    fun m => Machine.stopped_in (fun after => m.heap.Evolves noObject after.heap) m action convert ends
      (Heap.evolves_refl _ _) (keeps m)
  constructor
  · exact fun e => stopped Alarm.value rfl (keeps.evaluate e)
  · exact fun labels s => stopped Alarm.completion rfl (keeps.execute labels s)
  · exact fun f this arguments => stopped Alarm.value rfl (keeps.call f this arguments)
  · exact fun f arguments => stopped Alarm.value rfl (keeps.construct f arguments)

theorem stays_outside_halted (stays : E.StaysOutside barred holds) :
    (E.interrupted (stopsAt halts)).StaysOutside barred holds := by
  have stopped {γ : Type} {action : Eval γ} (convert : Alarm → Eval γ) (ends : convert .stop = throw .exhausted)
      (m : Machine) (outside : m.Outside barred holds) (stays : m.StaysOutside barred holds false (m.run action).2) :
      m.StaysOutside barred holds false
        (m.run (interrupt (fun m => (stopsAt halts m).map convert) action)).2 :=
    Machine.stopped_in _ m action convert ends (Machine.stays_outside_of_same outside rfl rfl rfl rfl rfl) stays
  constructor
  · exact fun e m outside => stopped Alarm.value rfl m outside (stays.evaluate e m outside)
  · exact fun labels s m outside => stopped Alarm.completion rfl m outside (stays.execute labels s m outside)
  · exact fun f this arguments m outside => stopped Alarm.value rfl m outside (stays.call f this arguments m outside)
  · exact fun f arguments m outside => stopped Alarm.value rfl m outside (stays.construct f arguments m outside)

theorem stopped_engine_keeps_history (halts : Machine → Bool) (steps : Nat) :
    (interruptedAt (stopsAt halts) steps).KeepsHistory := by
  induction steps with
  | zero => exact keeps_history_halted keeps_history_spent
  | succ steps ih => exact keeps_history_halted (keeps_history_next ih steps)

theorem stopped_engine_stays_rooted (halts : Machine → Bool) (holds : Environment → Prop) (steps : Nat) :
    (interruptedAt (stopsAt halts) steps).StaysOutside nothing holds := by
  induction steps with
  | zero => exact stays_outside_halted spent_stays_outside
  | succ steps ih => exact stays_outside_halted (next_stays_rooted ih steps)

/-- Every orderly action leads to a later state, wherever it is stopped. -/
theorem Orderly.later {action : Engine → Eval α} (orderly : Orderly .any own moves action)
    (objects : own.objects = noObject) (building : ∀ id, ¬own.building id) (rooted : m.Rooted)
    (clear : own.Clear nothing m.environments) (halts : Machine → Bool) (steps : Nat) :
    m.Later (m.run (action (interruptedAt (stopsAt halts) steps))).2 := by
  have evolves := orderly.evolves (stopped_engine_keeps_history halts steps) m
  have continues := orderly.continues_steady Terms.lenient_any (stopped_engine_steady Terms.lenient_any halts steps) m
  have stays := orderly.stays_outside (stopped_engine_stays_rooted halts (fun _ => True) steps)
    (Machine.outside_nothing rooted) clear
  refine ⟨objects ▸ evolves, ?_, continues.realm, stays.outside.rooted⟩
  exact EnvironmentStore.keeps_mono (fun id _ => building id) (fun _ _ _ _ _ => trivial) continues.environments

/-- An orderly action leads to a later state in the same place. -/
theorem Orderly.later_here {action : Engine → Eval α} (orderly : Orderly .any .confined false action)
    (rooted : m.Rooted) (steps : Nat) :
    m.Later (m.run (action (engineAt steps))).2 ∧
      (m.run (action (engineAt steps))).2.context.lexical = m.context.lexical := by
  have later := orderly.later rfl (fun _ no => no) rooted (Rights.clear_confined ..) (fun _ => false) steps
  rw [interrupted_nowhere] at later
  have settles := orderly.settles_steady Terms.lenient_any (engine_steady Terms.lenient_any steps) m
  exact ⟨later, settles.lexical rfl⟩

theorem Machine.later_task (rooted : m.Rooted) (halts : Machine → Bool) (steps : Nat) (task : Task) :
    m.Later (m.run (task.perform (interruptedAt (stopsAt halts) steps))).2 := by
  have orderly : Orderly .any .confined false fun E => task.perform E := task.orderly_perform trivial id
  exact orderly.later rfl (fun _ no => no) rooted (Rights.clear_confined ..) halts steps

end Stopped

/-- All code that is run in the course of a task is run in rooted states. -/
theorem Machine.runs_rooted (rooted : m.Rooted) (steps : Nat) (task : Task) :
    m.run (task.perform (rootedAt steps)) = m.run (task.perform (engineAt steps)) := by
  have orderly : Orderly .any .confined false fun E => task.perform E := task.orderly_perform trivial id
  have outside : m.Outside nothing fun _ => True := outside_nothing rooted
  exact (orderly.agrees_outside (rooted_engine_agrees _ steps) outside (Rights.clear_confined ..)).same

/-! ## What an environment encloses -/

/-- A function of a script is made inside the environment that it is to see. -/
theorem run_create_function_inside (code : FunctionCode) {environment : EnvironmentId}
    (within : m.environments.Within environment e) :
    ∃ f after, m.run (createScriptFunction code environment) = (.ok f, after) ∧
      after.environments = m.environments ∧ after.LivesIn e (.object f) := by
  obtain ⟨f, after, ran, adds, -, -, -, runs⟩ := run_create_script_function m code environment
  exact ⟨f, after, ran, adds.environments, m.closure code environment, runs, adds.environments ▸ within⟩

/-- A function that is written somewhere is made inside the environments around it. -/
theorem run_evaluate_function_inside (code : FunctionCode) (within : m.environments.Within m.context.lexical e) :
    ∃ f after, m.run (evaluateFunction code) = (.ok f, after) ∧ after.LivesIn e f := by
  have made {here : Machine} {environment : EnvironmentId} (within : here.environments.Within environment e) :=
    run_create_function_inside code within
  have unnamed : ∃ f after, m.run (Value.object <$> createScriptFunction code m.context.lexical) = (.ok f, after) ∧
      after.LivesIn e f := by
    obtain ⟨f, after, ran, -, lives⟩ := made within
    exact ⟨.object f, after, by rw [Machine.run_map, ran]; rfl, lives⟩
  unfold evaluateFunction
  rw [Machine.run_bind_ok (rfl : m.run lexicalEnvironment = (.ok m.context.lexical, m))]
  cases named : code.name with
  | none => exact unnamed
  | some name =>
    cases arrow : code.isArrow with
    | true => exact unnamed
    | false =>
      let new : Environment := .declarative (some m.context.lexical)
      let opened : Machine := { m with environments := (m.environments.add new).2 }
      have inside : opened.environments.Within (m.environments.add new).1 e :=
        EnvironmentStore.within_add rfl within
      obtain ⟨f, after, ran, same, g, runs, lives⟩ := made inside
      dsimp only
      rw [Machine.run_bind_ok (Machine.run_new_environment ..), Machine.run_bind_ok ran]
      refine ⟨_, _, rfl, g, runs, lives.grows (EnvironmentStore.grows_set _ _ ?_)⟩
      exact (Environment.outer_initialize ..).trans (Environment.outer_set ..)

/-- What a getter or a setter is written as is made inside the environments around it. -/
theorem run_entry_patch_inside {entry : Entry} {code : FunctionCode}
    (accessor : entry.value = .getter code ∨ entry.value = .setter code)
    (within : m.environments.Within m.context.lexical e) (E : Engine) :
    ∃ f patch after, m.run (entryPatch E entry) = (.ok patch, after) ∧ after.LivesIn e (.object f) ∧
      (patch.get = some (some f) ∨ patch.set = some (some f)) := by
  obtain ⟨f, after, ran, -, lives⟩ := run_create_function_inside code within
  unfold entryPatch
  rcases accessor with written | written
  · rw [written]
    dsimp only
    rw [Machine.run_bind_ok (rfl : m.run lexicalEnvironment = (.ok m.context.lexical, m)), Machine.run_bind_ok ran]
    exact ⟨f, _, after, rfl, lives, .inl rfl⟩
  · rw [written]
    dsimp only
    rw [Machine.run_bind_ok (rfl : m.run lexicalEnvironment = (.ok m.context.lexical, m)), Machine.run_bind_ok ran]
    exact ⟨f, _, after, rfl, lives, .inr rfl⟩

/-- A name that an environment binds is found there or nearer from everywhere inside. -/
theorem run_resolve_name_inside {name : String} {b : Binding} (rooted : m.Rooted)
    (within : m.environments.Within m.context.lexical e) (bound : (m.environments.get e).binding? name = some b) :
    ∃ found, m.run (resolveName name) = (.ok (.name (some found) name m.context.strict), m) ∧
      m.environments.Within found e := by
  have has : (m.environments.get e).has m.heap name = true := by
    unfold Environment.binding? at bound
    unfold Environment.has
    cases bindings : (m.environments.get e).bindings with
    | properties object providesThis =>
      rw [bindings] at bound
      cases bound
    | declarative names =>
      rw [bindings] at bound
      exact Option.isSome_of_eq_some bound
  obtain ⟨found, resolves, -, inward, -⟩ := EnvironmentStore.resolve_inside rooted.lexical within has
  refine ⟨found, ?_, inward⟩
  change ((.ok (.name (m.environments.resolve? m.heap m.context.lexical name) name m.context.strict), m) :
    Except Abrupt Reference × Machine) = _
  rw [resolves]

theorem run_get_reference_bound {name : String} {b : Binding}
    (bound : (m.environments.get e).binding? name = some b) (ready : b.initialized = true) (E : Engine)
    (strict : Bool) : m.run (getReference E (.name (some e) name strict)) = (.ok b.value, m) := by
  unfold getReference getBinding
  dsimp only
  rw [Machine.run_bind_ok (rfl : m.run (getEnvironment e) = (.ok (m.environments.get e), m))]
  unfold Environment.binding? at bound
  cases bindings : (m.environments.get e).bindings with
  | properties object providesThis =>
    rw [bindings] at bound
    cases bound
  | declarative names =>
    rw [bindings] at bound
    dsimp only at bound ⊢
    simp only [bound, ready, if_true]
    rfl

/-- Whatever holds of an environment goes on to hold through an action, or the action calls a function that was made
inside and after whose call it does not hold. -/
def Machine.Seals (m : Machine) (e : EnvironmentId) (steps : Nat) (action : Engine → Eval α) : Prop :=
  ∀ holds : Environment → Prop, holds (m.environments.get e) →
    holds ((m.run (action (engineAt steps))).2.environments.get e) ∨
      m.run (action (guardingAt e holds steps)) ≠ m.run (action (engineAt steps))

/-- An environment is sealed against all orderly actions outside it. -/
theorem Orderly.seals {action : Engine → Eval α} (orderly : Orderly .any own moves action) (rooted : m.Rooted)
    (there : e.index < m.environments.environments.size)
    (away : ¬m.environments.Within m.context.lexical e)
    (unshared : ¬m.environments.Within m.realm.scriptEnvironment e) (clear : own.Clear (· = e) m.environments)
    (steps : Nat) : m.Seals e steps action := by
  intro holds now
  have outside := Machine.outside_of_rooted rooted there away unshared now
  have stays := orderly.stays_outside (guarding_stays_outside e holds steps) outside clear
  by_cases same : m.run (action (guardingAt e holds steps)) = m.run (action (engineAt steps))
  · rw [same] at stays
    exact .inl (stays.outside.holds e rfl)
  · exact .inr same

/-- What an environment means to the code that runs inside it, to the functions that were made inside it, and to
all other code. -/
structure Machine.Encloses (m : Machine) (e : EnvironmentId) (steps : Nat) : Prop where
  /-- Code that runs inside stays inside. -/
  evaluate : m.environments.Within m.context.lexical e → ∀ x,
    m.run ((withinAt e m.callers.length steps).evaluate x) = m.run ((engineAt steps).evaluate x)
  execute : m.environments.Within m.context.lexical e → ∀ labels s,
    m.run ((withinAt e m.callers.length steps).execute labels s) = m.run ((engineAt steps).execute labels s)
  /-- All functions that it writes are made inside. -/
  function : m.environments.Within m.context.lexical e → ∀ code, ∃ f after,
    m.run (evaluateFunction code) = (.ok f, after) ∧ after.LivesIn e f
  accessor : m.environments.Within m.context.lexical e → ∀ E entry code,
    entry.value = .getter code ∨ entry.value = .setter code → ∃ f patch after,
      m.run (entryPatch E entry) = (.ok patch, after) ∧ after.LivesIn e (.object f) ∧
        (patch.get = some (some f) ∨ patch.set = some (some f))
  /-- Its names are those of the environment, unless they are bound nearer. -/
  found : m.environments.Within m.context.lexical e → ∀ name b, (m.environments.get e).binding? name = some b →
    ∃ found, m.run (resolveName name) = (.ok (.name (some found) name m.context.strict), m) ∧
      m.environments.Within found e
  read : ∀ E name b strict, (m.environments.get e).binding? name = some b → b.initialized = true →
    m.run (getReference E (.name (some e) name strict)) = (.ok b.value, m)
  /-- A function that was made inside runs inside when it is called. -/
  call : ∀ callee f this arguments, m.heap.callable? (.object callee) = some (.script f) →
    m.environments.Within f.environment e →
    m.run (callScript (withinAt e (m.callers.length + 1) steps) callee f this arguments) =
      m.run (callScript (engineAt steps) callee f this arguments)
  /-- It stays inside, whatever is done wherever. -/
  lives : ∀ after function, m.Later after → m.LivesIn e function → after.LivesIn e function
  later : ∀ (halts : Machine → Bool) (task : Task),
    m.Later (m.run (task.perform (interruptedAt (stopsAt halts) steps))).2
  /-- What is done outside comes to the environment by such functions only. -/
  task : ¬m.environments.Within m.context.lexical e → ∀ task : Task, m.Seals e steps fun E => task.perform E

/-- An environment encloses what is made inside it, unless whole scripts run inside it. -/
theorem encloses_of_rooted (rooted : m.Rooted) (there : e.index < m.environments.environments.size)
    (unshared : ¬m.environments.Within m.realm.scriptEnvironment e) (steps : Nat) : m.Encloses e steps where
  evaluate within x := (agrees_inside e m.callers.length steps).evaluate x m (fun _ => within) (Nat.le_refl _)
  execute within labels s :=
    (agrees_inside e m.callers.length steps).execute labels s m (fun _ => within) (Nat.le_refl _)
  function within code := run_evaluate_function_inside code within
  accessor within E _ _ written := run_entry_patch_inside written within E
  found within _ _ bound := run_resolve_name_inside rooted within bound
  read E _ _ strict bound ready := run_get_reference_bound bound ready E strict
  call callee f this arguments runs within :=
    call_script_inside rooted within (placed_callable rooted.functions runs) steps callee this arguments
  lives _ _ later lives := lives.later later
  later halts task := Machine.later_task rooted halts steps task
  task away task := by
    have orderly : Orderly .any .confined false fun E => task.perform E := task.orderly_perform trivial id
    exact orderly.seals rooted there away unshared (Rights.clear_confined ..) steps

end ScriptEngine
