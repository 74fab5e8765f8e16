import ScriptEngine.Proofs.Evaluation.Installation

/-!
Every run leaves contexts, environments and the number of nested calls as they were, however it ends. For
what holds in the middle of a run an engine is put under watch: wherever evaluation goes back to the
engine, an alarm goes off if more calls are nested than may be, or if an action reports too many nested
calls by another number than the bound. No alarm is ever heard, whatever it would do.
-/

namespace ScriptEngine

/-! ## Engines under watch -/

/-- What is run when something is wrong. -/
structure Alarm where
  value : Eval Value
  completion : Eval Completion

/-- Runs an action with an alarm in its place if more calls are nested than may be, and in the place of its
end if that reports as too many neither as many as may be nested nor a number that is claimed. -/
def watch {α : Type} (alarm : Eval α) (claims : Nat → Bool) (action : Eval α) : Eval α := fun m =>
  if m.options.maxCallDepth < m.callDepth then alarm m
  else match action m with
    | .error (.overflow depth) after =>
      if depth = m.options.maxCallDepth ∨ claims depth then .error (.overflow depth) after
      else alarm after
    | ended => ended

/-- The engine with every action under watch. -/
def Engine.watched (alarm : Alarm) (claims : Nat → Bool) (E : Engine) : Engine where
  rounds := E.rounds
  evaluate e := watch alarm.value claims (E.evaluate e)
  execute labels s := watch alarm.completion claims (E.execute labels s)
  call f this arguments := watch alarm.value claims (E.call f this arguments)
  construct f arguments := watch alarm.value claims (E.construct f arguments)

/-- The engine with a number of steps, under watch at each of them. -/
def watchedAt (alarm : Alarm) (claims : Nat → Bool) : Nat → Engine
  | 0 => Engine.spent.watched alarm claims
  | steps + 1 => ((watchedAt alarm claims steps).next steps).watched alarm claims

variable {t : Terms} {max : Nat} {α : Type} {claims : Nat → Bool}

/-- An action that ends well where another one does not differ from it is not changed by the watch. -/
theorem alike_watch {action other : Eval α} (alarm : Eval α)
    (reports : ∀ depth, t.reported depth → depth = max ∨ claims depth)
    (alike : Alike t max false action other) : Alike t max false action (watch alarm claims other) := by
  intro m fit
  have ends := alike m fit
  refine ⟨ends.fit, ends.settles, ends.reported, fun within => ?_⟩
  have same := ends.same within
  -- The first check never fails, and the second one only where the report is no honest one.
  have quiet : ¬m.options.maxCallDepth < m.callDepth := by
    rw [fit.limit]
    exact Nat.not_lt.2 within
  rw [← same]
  unfold Machine.run watch
  rw [if_neg quiet]
  cases ended : other m with
  | ok a after => rfl
  | error e after =>
    cases e with
    | overflow depth =>
      have outcome : (m.run action).1 = .error (.overflow depth) := by
        rw [← same, Machine.run, ended]
      have expected := reports depth (ends.reported _ outcome depth rfl)
      rw [← fit.limit] at expected
      simp only [expected, if_true]
    | thrown | exhausted => rfl

theorem alike_watched {E F : Engine} (alarm : Alarm)
    (reports : ∀ depth, t.reported depth → depth = max ∨ claims depth) (engines : E.Alike t max F) :
    E.Alike t max (F.watched alarm claims) where
  rounds := engines.rounds
  evaluate e := alike_watch _ reports (engines.evaluate e)
  execute labels s := alike_watch _ reports (engines.execute labels s)
  call f this arguments := alike_watch _ reports (engines.call f this arguments)
  construct f arguments := alike_watch _ reports (engines.construct f arguments)

/-- The watch changes nothing, with any number of steps. -/
theorem engine_alike_watched (alarm : Alarm) (bound : t.reported max)
    (reports : ∀ depth, t.reported depth → depth = max ∨ claims depth) (steps : Nat) :
    (engineAt steps).Alike t max (watchedAt alarm claims steps) := by
  induction steps with
  | zero => exact alike_watched alarm reports (alike_spent t max)
  | succ steps ih => exact alike_watched alarm reports (alike_next bound ih steps)

/-! ## What a host asks for -/

/-- What may be asked of an engine. -/
inductive Task where
  | evaluate (e : Expr)
  | execute (labels : List String) (s : Stmt)
  | call (function this : Value) (arguments : List Value)
  | construct (constructor : Value) (arguments : List Value)
  | program (p : Program)
  | source (text : String)

/-- What comes of it when it is not cut short. -/
inductive Answer where
  | value (v : Value)
  | completion (c : Completion)
  | script (outcome : Except ScriptError Value)

namespace Task

/-- Does what is asked. -/
def perform (engine : Engine) : Task → Eval Answer
  | evaluate e => .value <$> engine.evaluate e
  | execute labels s => .completion <$> engine.execute labels s
  | call function this arguments => .value <$> engine.call function this arguments
  | construct constructor arguments => .value <$> engine.construct constructor arguments
  | program p => .script <$> evalProgram engine p
  | source text => .script <$> evalSource engine text

theorem orderly_perform {own : Rights} {moves : Bool} (probed : t.probed) (unnamed : ¬t.named) (task : Task) :
    Orderly t own moves fun E => task.perform E := by
  cases task with
  | evaluate e => exact .map _ (.evaluate e)
  | execute labels s => exact .map _ (.execute labels s fun named => absurd named unnamed)
  | call function this arguments => exact .map _ (.call ..)
  | construct constructor arguments => exact .map _ (.construct ..)
  | program p => exact .map _ (orderly_eval_program probed fun named => absurd named unnamed)
  | source text => exact .map _ (orderly_eval_source probed text)

end Task

/-- The number of nested calls that is reported as too many. -/
def overflow? : Except Abrupt Answer → Option Nat
  | .error (.overflow depth) | .ok (.script (.error (.overflow depth))) => some depth
  | _ => none

/-- The functions of a host report as too many only numbers of nested calls that they were told of, or that they may
claim. -/
def Heap.ClaimsOnly (h : Heap) (claims : Nat → Bool) : Prop :=
  ∀ id f, (h.get id).callable? = some (.native f) →
    ∀ fine : Nat → Prop, (∀ depth, claims depth → fine depth) → f.Reports fine

/-- A run that reports nothing but the bound and what functions of the host claim. -/
def Terms.within (claims : Nat → Bool) (max : Nat) : Terms :=
  { Terms.any with reported := fun depth => depth = max ∨ claims depth }

theorem Heap.ClaimsOnly.known {h : Heap} {claims : Nat → Bool} (only : h.ClaimsOnly claims) (max : Nat) :
    h.Known (.within claims max) :=
  fun id f runs => Terms.known_of trivial (only id f runs _ fun _ claimed => .inr claimed) (.inl trivial)

/-- What cuts an orderly action short may be reported. -/
theorem reported_cut {β : Type} {action : Engine → Eval β} {E F : Engine} {m : Machine}
    (engines : E.Alike t max F) (bound : t.reported max) (fit : m.Fit t max)
    (orderly : Orderly t .none false action) {depth : Nat}
    (cut : (m.run (action E)).1 = .error (.overflow depth)) : t.reported depth :=
  (orderly.alike engines bound m fit).reported _ cut depth rfl

/-- A program that is reported as cut short by too many nested calls was so. -/
theorem reported_program {E F : Engine} {m : Machine} (engines : E.Alike t max F) (bound : t.reported max)
    (unnamed : ¬t.named) (fit : m.Fit t max) (p : Program) {depth : Nat}
    (reports : (m.run (evalProgram E p)).1 = .ok (.error (.overflow depth))) : t.reported depth := by
  unfold evalProgram at reports
  rw [Machine.run_bind_ok (Machine.run_attempt ..)] at reports
  cases outcome : (m.run (runProgram E p)).1 with
  | ok value =>
    rw [outcome] at reports
    cases reports
  | error e =>
    rw [outcome] at reports
    cases e with
    | thrown value =>
      rw [Machine.run_bind] at reports
      split at reports <;> cases reports
    | overflow found =>
      cases reports
      exact reported_cut engines bound fit (orderly_run_program fun named => absurd named unnamed) outcome
    | exhausted => cases reports

theorem reported_source {E F : Engine} {m : Machine} (engines : E.Alike t max F) (bound : t.reported max)
    (unnamed : ¬t.named) (fit : m.Fit t max) (text : String) {depth : Nat}
    (reports : (m.run (evalSource E text)).1 = .ok (.error (.overflow depth))) : t.reported depth := by
  unfold evalSource at reports
  rw [Machine.run_bind_ok (rfl : m.run get = (.ok m, m))] at reports
  cases read : Program.ofSource text m.options.strict with
  | error d =>
    rw [read] at reports
    cases reports
  | ok p =>
    rw [read] at reports
    exact reported_program engines bound unnamed fit p reports

/-- A script reports too many nested calls if it was cut short by them, or says so itself. -/
theorem overflow_script {outcome : Except Abrupt (Except ScriptError Value)} {depth : Nat}
    (reports : overflow? (outcome.map .script) = some depth) :
    outcome = .error (.overflow depth) ∨ outcome = .ok (.error (.overflow depth)) := by
  cases outcome with
  | error e =>
    cases e with
    | overflow found => cases reports; exact .inl rfl
    | thrown | exhausted => cases reports
  | ok ended =>
    cases ended with
    | ok value => cases reports
    | error e =>
      cases e with
      | overflow found => cases reports; exact .inr rfl
      | unreadable | uncaught | exhausted => cases reports

theorem overflow_plain {β : Type} {f : β → Answer} (plain : ∀ b ended, f b ≠ .script ended)
    {outcome : Except Abrupt β} {depth : Nat} (reports : overflow? (outcome.map f) = some depth) :
    outcome = .error (.overflow depth) := by
  cases outcome with
  | error e =>
    cases e with
    | overflow found => cases reports; rfl
    | thrown | exhausted => cases reports
  | ok b =>
    cases answer : f b with
    | script ended => exact absurd answer (plain b ended)
    | value | completion =>
      simp only [Except.map, answer] at reports
      cases reports

/-- Whatever is reported of a task may be reported. -/
theorem reported_task {E F : Engine} {m : Machine} (engines : E.Alike t max F) (bound : t.reported max)
    (probed : t.probed) (unnamed : ¬t.named) (fit : m.Fit t max) (task : Task) {depth : Nat}
    (reports : overflow? (m.run (task.perform E)).1 = some depth) : t.reported depth := by
  have plain {β : Type} {f : β → Answer} {action : Engine → Eval β} (noScript : ∀ b ended, f b ≠ .script ended)
      (orderly : Orderly t .none false action)
      (reports : overflow? (m.run (f <$> action E)).1 = some depth) : t.reported depth := by
    rw [Machine.run_map] at reports
    exact reported_cut engines bound fit orderly (overflow_plain noScript reports)
  cases task with
  | evaluate e => exact plain (by simp) (.evaluate e) reports
  | execute labels s => exact plain (by simp) (.execute labels s fun named => absurd named unnamed) reports
  | call f this arguments => exact plain (by simp) (.call f this arguments) reports
  | construct f arguments => exact plain (by simp) (.construct f arguments) reports
  | program p =>
    rw [Task.perform, Machine.run_map] at reports
    rcases overflow_script reports with cut | told
    · exact reported_cut engines bound fit (orderly_eval_program probed fun named => absurd named unnamed) cut
    · exact reported_program engines bound unnamed fit p told
  | source text =>
    rw [Task.perform, Machine.run_map] at reports
    rcases overflow_script reports with cut | told
    · exact reported_cut engines bound fit (orderly_eval_source probed text) cut
    · exact reported_source engines bound unnamed fit text told

/-- Every task leaves the current context, those around it and the number of nested calls as they were,
whether it ends with an answer or is cut short. If no more calls are nested at its start than may be, this
stays so throughout: no alarm at any place of the run is heard. And then as many calls as may be nested
are reported as too many, or as many as a function of the host claims on its own account. -/
theorem task_restores_and_stays_bounded (steps : Nat) (task : Task) (m : Machine) :
    let ended := m.run (task.perform (engineAt steps))
    (ended.2.context = m.context ∧ ended.2.callers = m.callers ∧ ended.2.callDepth = m.callDepth) ∧
      (m.callDepth ≤ m.options.maxCallDepth → ∀ claims, m.heap.ClaimsOnly claims →
        (∀ alarm, m.run (task.perform (watchedAt alarm claims steps)) = ended) ∧
        ∀ depth, overflow? ended.1 = some depth → depth = m.options.maxCallDepth ∨ claims depth) := by
  intro ended
  constructor
  · have fit : m.Fit .any m.options.maxCallDepth :=
      ⟨m.heap.known_any, rfl, .inr fun _ => trivial⟩
    have engines : (engineAt steps).Alike .any m.options.maxCallDepth (engineAt steps) :=
      engine_alike trivial steps
    have alike : Alike .any m.options.maxCallDepth false (task.perform (engineAt steps)) _ :=
      (task.orderly_perform trivial id).alike engines trivial
    have settles := (alike m fit).settles
    exact ⟨Machine.context_of_settles settles, settles.callers, settles.callDepth⟩
  · intro within claims only
    have bound : (Terms.within claims m.options.maxCallDepth).reported m.options.maxCallDepth := .inl rfl
    have fit : m.Fit (.within claims m.options.maxCallDepth) m.options.maxCallDepth :=
      ⟨only.known m.options.maxCallDepth, rfl, .inl within⟩
    refine ⟨fun alarm => ?_, fun depth reports => ?_⟩
    · have engines := engine_alike_watched alarm bound (fun _ reported => reported) steps
      have alike : Alike _ m.options.maxCallDepth false (task.perform (engineAt steps))
          (task.perform (watchedAt alarm claims steps)) :=
        (task.orderly_perform trivial id).alike engines bound
      exact (alike m fit).same within
    · exact reported_task (engine_alike bound steps) bound trivial id fit task reports

/-- No number is claimed. -/
def noClaims (_ : Nat) : Bool := false

theorem new_engine_claims_nothing (options : EngineOptions) :
    (Machine.new options).heap.ClaimsOnly noClaims :=
  fun _ _ runs _ _ g uses => absurd uses (new_engine_unhosted runs g)

/-- A script that calls itself without end. -/
def endlessCalls : Task := .source "(function f() { f(); })()"

/-- An alarm that ends everything. -/
def lastAlarm : Alarm := ⟨throw .exhausted, throw .exhausted⟩

theorem endless_calls_restore_and_stay_bounded :
    ((Machine.new {}).callDepth ≤ (Machine.new {}).options.maxCallDepth ∧
        (Machine.new {}).heap.ClaimsOnly noClaims) ∧
      ((Machine.new {}).run (endlessCalls.perform (engineAt 1000000))).2.callDepth =
        (Machine.new {}).callDepth ∧
      (Machine.new {}).run (endlessCalls.perform (watchedAt lastAlarm noClaims 1000000)) =
        (Machine.new {}).run (endlessCalls.perform (engineAt 1000000)) := by
  have within : (Machine.new {}).callDepth ≤ (Machine.new {}).options.maxCallDepth :=
    Nat.le_trans (Nat.le_of_eq (new_engine_settles {}).callDepth) (Nat.zero_le _)
  have restores := task_restores_and_stays_bounded 1000000 endlessCalls (Machine.new {})
  dsimp only at restores
  have bounded := restores.2 within noClaims (new_engine_claims_nothing {})
  exact ⟨⟨within, new_engine_claims_nothing {}⟩, restores.1.2.2, bounded.1 lastAlarm⟩

end ScriptEngine
