import ScriptEngine.Proofs.Evaluation.Outcome
import ScriptEngine.Proofs.Orderly.Calls

/-!
What a run does to the heap. Objects are never removed, and one that was there before the run and is not
its own is only changed by checked operations, one after the other. How the run ends does not matter.
-/

namespace ScriptEngine

/-- What a heap becomes when all objects but some new or named ones are only changed by checked
operations. -/
structure Heap.Evolves (own : ObjectId → Prop) (before after : Heap) : Prop where
  size : before.objects.size ≤ after.objects.size
  changes : ∀ id, id.index < before.objects.size → ¬own id →
    Object.Changes (before.get id) (after.get id)

variable {own mine : ObjectId → Prop} {h : Heap}

theorem Heap.evolves_refl (own : ObjectId → Prop) (h : Heap) : h.Evolves own h :=
  ⟨Nat.le_refl _, fun _ _ _ => .refl⟩

theorem Heap.evolves_trans {first second third : Heap} (early : first.Evolves own second)
    (late : second.Evolves own third) : first.Evolves own third where
  size := Nat.le_trans early.size late.size
  changes id there other :=
    (early.changes id there other).trans
      (late.changes id (Nat.lt_of_lt_of_le there early.size) other)

theorem Heap.evolves_mono {after : Heap} (fewer : ∀ id, mine id → own id)
    (evolves : h.Evolves mine after) : h.Evolves own after :=
  ⟨evolves.size, fun id there other => evolves.changes id there fun also => other (fewer id also)⟩

theorem Heap.evolves_add (own : ObjectId → Prop) (h : Heap) (o : Object) : h.Evolves own (h.add o).2 where
  size := by simp
  changes id there _ := by
    rw [get_add_of_lt o there]

/-- What happens to a new object does not count. -/
theorem Heap.evolves_of_add {after : Heap} {o : Object}
    (evolves : (h.add o).2.Evolves (fun other => own other ∨ other = (h.add o).1) after) :
    h.Evolves own after where
  size := Nat.le_trans (by simp) evolves.size
  changes id there other := by
    have old : ¬(own id ∨ id = (h.add o).1) := by
      rintro (also | rfl)
      · exact other also
      · exact Nat.lt_irrefl _ there
    have changes := evolves.changes id (by rw [size_add]; omega) old
    rwa [get_add_of_lt o there] at changes

theorem Heap.evolves_set {id : ObjectId} {o : Object} (change : own id ∨ Object.Change (h.get id) o) :
    h.Evolves own (h.set id o) where
  size := by simp
  changes other there foreign := by
    by_cases same : id = other
    · subst same
      rw [get_set_self o there]
      rcases change with also | change
      · exact absurd also foreign
      · exact .single change
    · rw [get_set_of_ne o same]

/-- An action changes objects that were there by checked operations only. -/
def KeepsHistory {α : Type} (action : Eval α) : Prop :=
  ∀ m : Machine, m.heap.Evolves noObject (m.run action).2.heap

/-- All actions that an engine offers change objects by checked operations only. -/
structure Engine.KeepsHistory (E : Engine) : Prop where
  evaluate : ∀ e, ScriptEngine.KeepsHistory (E.evaluate e)
  execute : ∀ labels s, ScriptEngine.KeepsHistory (E.execute labels s)
  call : ∀ f this arguments, ScriptEngine.KeepsHistory (E.call f this arguments)
  construct : ∀ f arguments, ScriptEngine.KeepsHistory (E.construct f arguments)

private theorem evolves_own {α : Type} {action : Eval α} (keeps : KeepsHistory action) (m : Machine) :
    m.heap.Evolves own (m.run action).2.heap :=
  Heap.evolves_mono (fun _ no => no.elim) (keeps m)

/-- What is done after a first action goes on with what that did to the heap. -/
theorem Machine.evolves_bind {α β : Type} {m : Machine} {first : Eval α} {rest : α → Eval β}
    (early : m.heap.Evolves own (m.run first).2.heap)
    (late : ∀ a (after : Machine), after.heap.Evolves own (after.run (rest a)).2.heap) :
    m.heap.Evolves own (m.run (first >>= rest)).2.heap := by
  rw [Machine.run_bind]
  cases ends : m.run first with
  | mk outcome after =>
    rw [ends] at early
    cases outcome with
    | ok a => exact Heap.evolves_trans early (late a after)
    | error e => exact early

/-- An orderly action goes on with the history of the heap if the engine does that it goes back to. -/
theorem Orderly.evolves {rights : Rights} {moves : Bool} {α : Type} {action : Engine → Eval α} {E : Engine}
    (keeps : E.KeepsHistory) (orderly : Orderly .any rights moves action) (m : Machine) :
    m.heap.Evolves rights.objects (m.run (action E)).2.heap := by
  induction orderly generalizing m with
  | pure | raise | read | construction | alter | firstValue | setLexicalEnvironment | printLine =>
    exact Heap.evolves_refl _ _
  | bind first next ihFirst ihNext => exact Machine.evolves_bind (ihFirst m) ihNext
  | attempt tried ended failed passed ihTried ihEnded ihFailed =>
    rw [Machine.run_bind_ok (Machine.run_attempt ..)]
    refine Heap.evolves_trans (ihTried m) ?_
    cases (m.run _).1 with
    | ok a => exact ihEnded a _
    | error e => exact ihFailed e (fun _ _ => trivial) _
  | here next ih => exact ih m.context.lexical m
  | find ask place blind found next ih => exact ih (ask m) m
  | consult next ih =>
    rw [Machine.run_bind_ok (Machine.run_ask ..)]
    exact ih m.heap (Heap.known_any _) m
  | aim target next ih =>
    rw [Machine.run_bind_ok (Machine.run_ask ..)]
    exact ih (m.heap.callable? (.object target)) m
  | rounds loop each ih => exact ih E.rounds m
  | newObject o => exact Heap.evolves_add _ _ o
  | make o known next ih =>
    -- The heap does not have the new object yet, so nothing is asked of what becomes of it.
    rw [Machine.run_bind_ok (Machine.run_new_object ..)]
    exact Heap.evolves_of_add (ih (m.heap.add o).1 { m with heap := (m.heap.add o).2 })
  | change id f checked => exact Heap.evolves_set (.inr (checked _))
  | changeOwn id f mine => exact Heap.evolves_set (.inl mine)
  | build e firm inside made next ihMade ihNext =>
    rw [Machine.run_bind_ok (Machine.run_new_environment ..)]
    exact Machine.evolves_bind (ihMade _ { m with environments := (m.environments.add e).2 }) (ihNext _)
  | inContext c made body ih =>
    rw [Machine.run_in_context]
    simp only [Machine.heap_pop_context]
    exact ih { m with context := c, callers := m.context :: m.callers }
  | inEnvironment id made body ih =>
    rw [Machine.run_in_environment]
    exact ih { m with context := { m.context with lexical := id } }
  | script c names reached refused begun ihRefused ihBegun =>
    rw [Machine.run_in_context]
    simp only [Machine.heap_pop_context, Machine.run_declare_in]
    split
    · exact ihRefused { m with context := c, callers := m.context :: m.callers }
    · exact ihBegun { m with context := c, callers := m.context :: m.callers, environments := _ }
  | nested body ih =>
    rcases Nat.lt_or_ge m.callDepth m.options.maxCallDepth with room | full
    · rw [Machine.run_nested room]
      exact ih { m with callDepth := m.callDepth + 1 }
    · rw [Machine.run_nested_refused full]
      exact Heap.evolves_refl _ _
  | evaluate e => exact evolves_own (keeps.evaluate e) m
  | execute labels s => exact evolves_own (keeps.execute labels s) m
  | call f this arguments => exact evolves_own (keeps.call f this arguments) m
  | construct f arguments => exact evolves_own (keeps.construct f arguments) m

theorem keeps_of_orderly {α : Type} {action : Engine → Eval α} {E : Engine} (keeps : E.KeepsHistory)
    (orderly : Orderly .any .none false action) : KeepsHistory (action E) :=
  orderly.evolves keeps

theorem keeps_history_spent : Engine.spent.KeepsHistory := by
  have nothing {β : Type} : KeepsHistory (throw .exhausted : Eval β) :=
    fun m => Heap.evolves_refl _ m.heap
  exact ⟨fun _ => nothing, fun _ _ => nothing, fun _ _ _ => nothing, fun _ _ => nothing⟩

theorem keeps_history_next {E : Engine} (keeps : E.KeepsHistory) (rounds : Nat) : (E.next rounds).KeepsHistory where
  evaluate e := keeps_of_orderly keeps (orderly_evaluate_form e.form)
  execute labels _ := keeps_of_orderly keeps (orderly_execute_form labels fun named => named.elim)
  call f this arguments := keeps_of_orderly keeps (orderly_call_value (fun _ => trivial) f this arguments)
  construct f arguments := keeps_of_orderly keeps (orderly_construct_value (fun _ => trivial) f arguments)

/-- The engine with any number of steps changes objects by checked operations only. -/
theorem engine_keeps_history (steps : Nat) : (engineAt steps).KeepsHistory := by
  induction steps with
  | zero => exact keeps_history_spent
  | succ steps ih => exact keeps_history_next ih steps

/-- The state after actions one after the other, whatever comes of each. -/
def Machine.afterAll (m : Machine) (actions : List (Eval Unit)) : Machine :=
  actions.foldl (fun m action => (m.run action).2) m

/-- Orderly requests, one after the other, keep an object among the objects and change it by checked
operations only. -/
theorem changes_after_all {ρ : Type} (perform : Engine → ρ → Eval Unit)
    (orderly : ∀ request, Orderly .any .none false fun E => perform E request) (steps : Nat)
    (requests : List ρ) {m : Machine} {id : ObjectId} (there : id.index < m.heap.objects.size) :
    id.index < (m.afterAll (requests.map (perform (engineAt steps)))).heap.objects.size ∧
      Object.Changes (m.heap.get id)
        ((m.afterAll (requests.map (perform (engineAt steps)))).heap.get id) := by
  induction requests generalizing m with
  | nil => exact ⟨there, .refl⟩
  | cons request rest ih =>
    have evolves := (orderly request).evolves (engine_keeps_history steps) m
    have still := Nat.lt_of_lt_of_le there evolves.size
    obtain ⟨last, changes⟩ := ih still
    exact ⟨last, (evolves.changes id there fun no => no).trans changes⟩

end ScriptEngine
