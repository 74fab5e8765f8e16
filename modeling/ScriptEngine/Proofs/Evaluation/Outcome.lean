import ScriptEngine.Session

/-!
How the basic actions end, and in which state. An action is run on a machine; what it gives and the
machine it leaves are looked at apart from each other. What may be said of what an action gives, whatever the machine it
starts on, comes last.
-/

namespace ScriptEngine
namespace Machine

variable {α β : Type}

/-- What is done first decides whether the rest is done. -/
theorem run_bind (m : Machine) (action : Eval α) (rest : α → Eval β) :
    m.run (action >>= rest) =
      match m.run action with
      | (.ok a, after) => after.run (rest a)
      | (.error e, after) => (.error e, after) := by
  have sequence : action >>= rest = EStateM.bind action rest := rfl
  rw [sequence]
  unfold run EStateM.bind
  cases action m <;> rfl

theorem run_bind_ok {m after : Machine} {action : Eval α} {a : α} (ends : m.run action = (.ok a, after))
    (rest : α → Eval β) : m.run (action >>= rest) = after.run (rest a) := by
  rw [run_bind, ends]

theorem run_bind_error {m after : Machine} {action : Eval α} {e : Abrupt}
    (ends : m.run action = (.error e, after)) (rest : α → Eval β) :
    m.run (action >>= rest) = (.error e, after) := by
  rw [run_bind, ends]

/-- An action that ended well went through the ends of its parts. -/
theorem ran_bind {m final : Machine} {action : Eval α} {rest : α → Eval β} {b : β}
    (ran : m.run (action >>= rest) = (.ok b, final)) :
    ∃ a after, m.run action = (.ok a, after) ∧ after.run (rest a) = (.ok b, final) := by
  rw [run_bind] at ran
  cases ends : m.run action with
  | mk outcome after =>
    rw [ends] at ran
    cases outcome with
    | ok a => exact ⟨a, after, rfl, ran⟩
    | error e => cases ran

/-- What is done after a first action only matters in the states that it leads to. -/
theorem run_bind_congr {m : Machine} {first : Eval α} {rest other : α → Eval β}
    (same : ∀ a after, m.run first = (.ok a, after) → after.run (rest a) = after.run (other a)) :
    m.run (first >>= rest) = m.run (first >>= other) := by
  rw [run_bind, run_bind]
  cases ended : m.run first with
  | mk outcome after =>
    cases outcome with
    | ok a => exact same a after ended
    | error e => rfl

/-- In what way something is done first only matters as far as it makes the first action another one. -/
theorem run_bind_same {m : Machine} {first other : Eval α} (same : m.run first = m.run other) (rest : α → Eval β) :
    m.run (first >>= rest) = m.run (other >>= rest) := by
  rw [run_bind, run_bind, same]

theorem run_map (m : Machine) (f : α → β) (action : Eval α) :
    m.run (f <$> action) = ((m.run action).1.map f, (m.run action).2) := by
  change m.run (action >>= fun a => pure (f a)) = _
  rw [run_bind]
  cases m.run action with
  | mk outcome after => cases outcome <;> rfl

theorem run_discard (m : Machine) (action : Eval α) :
    m.run (discard action) = ((m.run action).1.map fun _ => (), (m.run action).2) :=
  run_map m (fun _ => ()) action

@[simp] theorem run_attempt (m : Machine) (action : Eval α) :
    m.run (attempt action) = (.ok (m.run action).1, (m.run action).2) := by
  unfold run attempt
  cases action m <;> rfl

@[simp] theorem run_resume (m : Machine) (outcome : Except Abrupt α) :
    m.run (resume outcome) = (outcome, m) := by
  cases outcome <;> rfl

@[simp] theorem run_ask (m : Machine) (f : Heap → α) : m.run (askHeap f) = (.ok (f m.heap), m) := rfl

@[simp] theorem run_get_object (m : Machine) (id : ObjectId) :
    m.run (getObject id) = (.ok (m.heap.get id), m) := rfl

@[simp] theorem run_new_object (m : Machine) (o : Object) :
    m.run (newObject o) = (.ok (m.heap.add o).1, { m with heap := (m.heap.add o).2 }) := rfl

@[simp] theorem run_update_object (m : Machine) (id : ObjectId) (f : Object → α × Object) :
    m.run (updateObject id f) =
      (.ok (f (m.heap.get id)).1, { m with heap := m.heap.set id (f (m.heap.get id)).2 }) := rfl

@[simp] theorem run_new_environment (m : Machine) (e : Environment) :
    m.run (newEnvironment e) =
      (.ok (m.environments.add e).1, { m with environments := (m.environments.add e).2 }) := rfl

@[simp] theorem run_modify_environment (m : Machine) (id : EnvironmentId) (f : Environment → Environment) :
    m.run (modifyEnvironment id f) =
      (.ok (), { m with environments := m.environments.set id (f (m.environments.get id)) }) := rfl

theorem run_pop_context {m : Machine} {around : Context} {rest : List Context}
    (above : m.callers = around :: rest) :
    m.run popContext = (.ok (), { m with context := around, callers := rest }) := by
  obtain ⟨heap, environments, context, callers, callDepth, output, realm, options⟩ := m
  cases above
  rfl

@[simp] theorem heap_pop_context (m : Machine) : (m.run popContext).2.heap = m.heap := by
  obtain ⟨heap, environments, context, callers, callDepth, output, realm, options⟩ := m
  cases callers <;> rfl

@[simp] theorem environments_pop_context (m : Machine) :
    (m.run popContext).2.environments = m.environments := by
  obtain ⟨heap, environments, context, callers, callDepth, output, realm, options⟩ := m
  cases callers <;> rfl

/-- An action in a context of its own is left for the context around it. -/
theorem run_in_context (m : Machine) (c : Context) (action : Eval α) :
    m.run (inContext c action) =
      let ended := ({ m with context := c, callers := m.context :: m.callers } : Machine).run action
      (ended.1, (ended.2.run popContext).2) := by
  unfold inContext
  rw [run_bind_ok (rfl : m.run (pushContext c) = (.ok (), _)), run_bind_ok (run_attempt ..),
    run_bind_ok (rfl : Machine.run _ popContext = (.ok (), _)), run_resume]
  rfl

/-- An action with names looked up elsewhere ends with names looked up where they were before. -/
theorem run_in_environment (m : Machine) (id : EnvironmentId) (action : Eval α) :
    m.run (inEnvironment id action) =
      let ended := ({ m with context := { m.context with lexical := id } } : Machine).run action
      (ended.1, { ended.2 with context := { ended.2.context with lexical := m.context.lexical } }) := by
  unfold inEnvironment
  rw [run_bind_ok (rfl : m.run lexicalEnvironment = (.ok m.context.lexical, m)),
    run_bind_ok (rfl : m.run (setLexicalEnvironment id) = (.ok (), _)), run_bind_ok (run_attempt ..),
    run_bind_ok (rfl : Machine.run _ (setLexicalEnvironment m.context.lexical) = (.ok (), _)), run_resume]

/-- What an action that ended well in another environment left there. -/
theorem ran_in_environment {m after : Machine} {id : EnvironmentId} {action : Eval α} {a : α}
    (ran : m.run (inEnvironment id action) = (.ok a, after)) :
    ∃ final, ({ m with context := { m.context with lexical := id } } : Machine).run action = (.ok a, final) ∧
      { final with context := { final.context with lexical := m.context.lexical } } = after := by
  rw [run_in_environment] at ran
  obtain ⟨outcome, left⟩ := Prod.mk.inj ran
  exact ⟨_, Prod.ext outcome rfl, left⟩

/-- An action as a nested call is not begun where no more calls may be nested. -/
theorem run_nested_refused {m : Machine} (full : m.options.maxCallDepth ≤ m.callDepth)
    (action : Eval α) : m.run (nested action) = (.error (.overflow m.callDepth), m) := by
  have refused : m.run enterCall = (.error (.overflow m.callDepth), m) := by
    unfold enterCall
    rw [run_bind_ok (rfl : m.run get = (.ok m, m)), if_pos full]
    rfl
  unfold nested
  rw [run_bind_error refused]

/-- An action as a nested call ends with as many calls nested as before. -/
theorem run_nested {m : Machine} (room : m.callDepth < m.options.maxCallDepth) (action : Eval α) :
    m.run (nested action) =
      let ended := ({ m with callDepth := m.callDepth + 1 } : Machine).run action
      (ended.1, { ended.2 with callDepth := ended.2.callDepth - 1 }) := by
  have entered : m.run enterCall = (.ok (), { m with callDepth := m.callDepth + 1 }) := by
    unfold enterCall
    rw [run_bind_ok (rfl : m.run get = (.ok m, m)), if_neg (Nat.not_le.2 room)]
    rfl
  unfold nested
  rw [run_bind_ok entered, run_bind_ok (run_attempt ..),
    run_bind_ok (rfl : Machine.run _ (modify _) = (.ok (), _)), run_resume]

end Machine

/-! ## Results -/

/-- What an action gives, if it is not cut short, is good. -/
def Yields (good : α → Prop) (action : Eval α) : Prop :=
  ∀ (m : Machine) (a : α), (m.run action).1 = .ok a → good a

namespace Yields

variable {good : α → Prop} {also : β → Prop}

theorem pure {a : α} (holds : good a) : Yields good (pure a) := by
  intro m b same
  cases same
  exact holds

theorem throw (e : Abrupt) : Yields good (throw e : Eval α) := by
  intro m a same
  cases same

/-- The last of two actions decides. -/
theorem bind {first : Eval α} {rest : α → Eval β} (begins : Yields good first)
    (ends : ∀ a, good a → Yields also (rest a)) : Yields also (first >>= rest) := by
  intro m b same
  rw [Machine.run_bind] at same
  cases done : m.run first with
  | mk outcome after =>
    rw [done] at same
    cases outcome with
    | ok a => exact ends a (begins m a (by rw [done])) after b same
    | error e => cases same

/-- Where only what is good has to be gone on with, two ways to go on may differ elsewhere. -/
theorem bind_congr {first : Eval α} {rest other : α → Eval β} (begins : Yields good first)
    (same : ∀ a, good a → rest a = other a) : first >>= rest = first >>= other := by
  funext m
  change EStateM.bind first rest m = EStateM.bind first other m
  unfold EStateM.bind
  cases ended : first m with
  | ok a after =>
    have holds : good a := begins m a (by rw [Machine.run, ended])
    exact congrFun (same a holds) after
  | error e after => rfl

/-- What comes first may give anything. -/
theorem after {first : Eval α} {rest : α → Eval β} (ends : ∀ a, Yields also (rest a)) :
    Yields also (first >>= rest) :=
  have anything : Yields (fun _ => True) first := fun _ _ _ => trivial
  anything.bind fun a _ => ends a

theorem ite {c : Prop} [Decidable c] {yes no : Eval α} (taken : Yields good yes)
    (left : Yields good no) : Yields good (if c then yes else no) := by
  split
  · exact taken
  · exact left

/-- An action whose end is kept for later. -/
theorem attempt {action : Eval α} (ends : Yields good action) :
    Yields (fun outcome => ∀ a, outcome = .ok a → good a) (attempt action) := by
  intro m outcome same a isOk
  rw [Machine.run_attempt] at same
  cases same
  exact ends m a isOk

theorem resume {outcome : Except Abrupt α} (holds : ∀ a, outcome = .ok a → good a) :
    Yields good (resume outcome) := by
  intro m a same
  rw [Machine.run_resume] at same
  exact holds a same

theorem inEnvironment (id : EnvironmentId) {action : Eval α} (ends : Yields good action) :
    Yields good (inEnvironment id action) :=
  .after fun _ => .after fun _ => .bind ends.attempt fun _ holds => .after fun _ => .resume holds

end Yields

/-- The clauses that a value selects are those of the statement from one of them on. -/
theorem yields_select_clause (engine : Engine) (value : Value) (clauses : List SwitchClause) :
    Yields (· <:+ clauses) (selectClause engine value clauses) := by
  induction clauses with
  | nil => exact .pure (List.suffix_refl [])
  | cons c rest ih =>
    have later : Yields (· <:+ c :: rest) (selectClause engine value rest) :=
      fun m selected same => (ih m selected same).trans (List.suffix_cons c rest)
    unfold selectClause
    split
    · exact later
    · exact .after fun found => .ite (.pure (List.suffix_refl _)) later

end ScriptEngine
