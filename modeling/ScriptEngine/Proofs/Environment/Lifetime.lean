import ScriptEngine.Proofs.Environment.Rounds
import ScriptEngine.Proofs.Evaluation.Interruption

/-!
Bindings over whole runs. From any state that a run comes to, a binding that may not be deleted stays to the end
of the run and through all later ones: it is never taken back once it is initialized, and a constant keeps its
value. A name without a value cannot be used: reading and writing it throw, and no loop copies it.
-/

namespace ScriptEngine

/-- What happened to all environments between two states: bindings that may not be deleted are still there, those
that were initialized still are, and constants among them have the same values. Where none could be deleted, none
can be. -/
def EnvironmentStore.Lasts (before after : EnvironmentStore) : Prop :=
  before.Keeps (fun _ => False) (fun _ _ => True) after

namespace EnvironmentStore

theorem lasts_refl (s : EnvironmentStore) : s.Lasts s := keeps_refl ..

theorem lasts_trans {first second third : EnvironmentStore} (early : first.Lasts second)
    (late : second.Lasts third) : first.Lasts third :=
  keeps_trans early late (fun _ _ no => no) fun _ _ _ _ all => all

/-- What it means for a binding that it lasts. -/
theorem binding_of_lasts {before after : EnvironmentStore} (lasts : before.Lasts after) {id : EnvironmentId}
    {name : String} {b : Binding} (found : (before.get id).binding? name = some b)
    (stays : b.deletable = false) : ∃ kept, (after.get id).binding? name = some kept ∧ b.Lasts kept := by
  have there : id.index < before.environments.size := by
    refine Nat.lt_of_not_le fun beyond => ?_
    rw [get_beyond beyond] at found
    cases found
  obtain ⟨kept, still, lasts, -⟩ := (lasts.environments id there fun no => no).bindings name b found stays
  exact ⟨kept, still, lasts⟩

end EnvironmentStore

/-! ## Runs -/

/-- The state after tasks one after the other, whatever comes of each. -/
def Machine.afterTasks (m : Machine) (E : Engine) (tasks : List Task) : Machine :=
  tasks.foldl (fun m task => (m.run (task.perform E)).2) m

/-- In the course of a task, which is stopped wherever `halts`, the run comes to a state that meets a test: what
is done there can make it another run. -/
def Task.ComesTo (task : Task) (halts test : Machine → Bool) (steps : Nat) (m : Machine) : Prop :=
  ∃ alarm, m.run (task.perform (interruptedAt (ringsAt test alarm halts) steps)) ≠
    m.run (task.perform (interruptedAt (stopsAt halts) steps))

section Runs

variable (halts : Machine → Bool) (steps : Nat)

theorem task_lasts (task : Task) (m : Machine) :
    m.environments.Lasts (m.run (task.perform (interruptedAt (stopsAt halts) steps))).2.environments := by
  have orderly : Orderly .any .none false fun E => task.perform E := task.orderly_perform trivial id
  have steady := stopped_engine_steady Terms.lenient_any halts steps
  have continues := orderly.continues_steady Terms.lenient_any steady m
  exact EnvironmentStore.keeps_mono (fun _ _ no => no) (fun _ _ _ _ _ => trivial) continues.environments

theorem tasks_last (tasks : List Task) (m : Machine) :
    m.environments.Lasts (m.afterTasks (interruptedAt (stopsAt halts) steps) tasks).environments := by
  induction tasks generalizing m with
  | nil => exact EnvironmentStore.lasts_refl _
  | cons task rest ih => exact EnvironmentStore.lasts_trans (task_lasts halts steps task m) (ih _)

/-- A state that a task comes to is followed by its end. -/
theorem lasts_of_comes_to {task : Task} {test : Machine → Bool} {m : Machine}
    (comes : task.ComesTo halts test steps m) :
    ∃ here, test here = true ∧ here.environments.Lasts
      (m.run (task.perform (interruptedAt (stopsAt halts) steps))).2.environments := by
  obtain ⟨alarm, differs⟩ := comes
  have orderly : Orderly .any .none false fun E => task.perform E := task.orderly_perform trivial id
  have steady := stopped_engine_steady Terms.lenient_any halts steps
  have traced := orderly.traced Terms.lenient_any steady (engine_traced test alarm halts steps) m
  exact traced.resolve_left differs

end Runs

/-! ## Names without values -/

/-- An action throws a new error object about a name that cannot be used, and does nothing else. -/
def Machine.ThrowsReference {α : Type} (m : Machine) (action : Eval α) : Prop :=
  ∃ message, let made := m.heap.add (Object.ofError m.realm.intrinsics .reference message)
    m.run action = (.error (.thrown (.object made.1)), { m with heap := made.2 })

section Uninitialized

variable {m : Machine} {id : EnvironmentId} {name : String} {b : Binding}
  (found : (m.environments.get id).binding? name = some b) (waiting : b.initialized = false)
include found waiting

theorem read_of_uninitialized (E : Engine) (strict : Bool) :
    m.ThrowsReference (getBinding E id name strict) := by
  refine ⟨(Fault.uninitialized name).message, ?_⟩
  unfold getBinding
  rw [Machine.run_bind_ok (rfl : m.run (getEnvironment id) = (.ok (m.environments.get id), m))]
  unfold Environment.binding? at found
  cases bindings : (m.environments.get id).bindings with
  | properties object providesThis =>
    rw [bindings] at found
    cases found
  | declarative names =>
    rw [bindings] at found
    dsimp only at found ⊢
    simp only [found, waiting]
    rfl

theorem write_of_uninitialized (E : Engine) (value : Value) (strict : Bool) :
    m.ThrowsReference (setBinding E id name value strict) := by
  refine ⟨(Fault.uninitialized name).message, ?_⟩
  unfold setBinding
  rw [Machine.run_bind_ok (rfl : m.run (getEnvironment id) = (.ok (m.environments.get id), m))]
  unfold Environment.binding? at found
  cases bindings : (m.environments.get id).bindings with
  | properties object providesThis =>
    rw [bindings] at found
    cases found
  | declarative names =>
    rw [bindings] at found
    dsimp only at found ⊢
    simp only [found, waiting]
    rfl

end Uninitialized

/-! ## Whole runs -/

/-- From the start of tasks and from every state that the first of them comes to, bindings last to the end of all
of them, wherever the runs are stopped. In any state a name without a value can neither be read nor written, and
no loop copies one: a loop that does something else about it is no different. -/
theorem bindings_last (halts : Machine → Bool) (steps : Nat) (task : Task) (later : List Task) (m : Machine) :
    let engine := interruptedAt (stopsAt halts) steps
    let ended := m.afterTasks engine (task :: later)
    (m.environments.Lasts ended.environments ∧
      ∀ test, task.ComesTo halts test steps m →
        ∃ here, test here = true ∧ here.environments.Lasts ended.environments) ∧
    (∀ E id name b strict value, (m.environments.get id).binding? name = some b → b.initialized = false →
      m.ThrowsReference (getBinding E id name strict) ∧ m.ThrowsReference (setBinding E id name value strict)) ∧
    ∀ unready labels init test update body,
      executeForChecked unready engine labels init test update body =
        executeFor engine labels init test update body := by
  intro engine ended
  refine ⟨⟨tasks_last halts steps (task :: later) m, fun test comes => ?_⟩, ?_, ?_⟩
  · obtain ⟨here, meets, lasts⟩ := lasts_of_comes_to halts steps comes
    exact ⟨here, meets, EnvironmentStore.lasts_trans lasts (tasks_last halts steps later _)⟩
  · intro E id name b strict value found waiting
    exact ⟨read_of_uninitialized found waiting E strict, write_of_uninitialized found waiting E value strict⟩
  · exact fun unready => execute_for_checked (stopped_engine_steady Terms.lenient_naming halts steps)

/-- A state with a constant in its only environment. -/
def oneConstant : Machine :=
  let e := (Environment.declarative none).set "limit" ⟨.boolean true, false, true, false, true⟩
  { Machine.new {} with environments := (EnvironmentStore.empty.add e).2 }

theorem constant_outlasts_scripts :
    ∃ kept, ((oneConstant.afterTasks (engineAt 1000)
      [.source "limit = false", .source "limit = 0"]).environments.get ⟨0⟩).binding? "limit" = some kept ∧
        kept.initialized = true ∧ kept.value = .boolean true := by
  have lasts :=
    (bindings_last (fun _ => false) 1000 (.source "limit = false") [.source "limit = 0"] oneConstant).1.1
  rw [interrupted_nowhere] at lasts
  have found : (oneConstant.environments.get ⟨0⟩).binding? "limit" =
      some ⟨.boolean true, false, true, false, true⟩ := by decide
  obtain ⟨kept, still, same⟩ := EnvironmentStore.binding_of_lasts lasts found rfl
  exact ⟨kept, still, same.initialized rfl, same.value rfl rfl⟩

end ScriptEngine
