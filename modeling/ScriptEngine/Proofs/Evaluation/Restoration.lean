import ScriptEngine.Proofs.Evaluation.Outcome
import ScriptEngine.Proofs.Orderly.Calls

/-!
What a run leaves as it was: the contexts, the environments in which they look up names, and the number
of nested calls. At the same time two engines are compared that may differ where more calls are nested
than may be: as long as no action of theirs tells them apart, no orderly one does.
-/

namespace ScriptEngine

/-- A state from which a run may start under some terms, at most `max` calls being allowed to be nested. -/
structure Machine.Fit (t : Terms) (max : Nat) (m : Machine) : Prop where
  known : m.heap.Known t
  limit : m.options.maxCallDepth = max
  depth : m.callDepth ≤ max ∨ ∀ depth, t.reported depth

/-- What a state has in common with the one after a run; the run may leave names to be looked up in
another environment only if it `moves`. -/
structure Machine.Settles (moves : Bool) (before after : Machine) : Prop where
  context : { after.context with lexical := before.context.lexical } = before.context
  lexical : moves = false → after.context.lexical = before.context.lexical
  callers : after.callers = before.callers
  callDepth : after.callDepth = before.callDepth
  options : after.options = before.options

variable {t : Terms} {max : Nat} {moves : Bool} {α : Type}

theorem Machine.settles_refl (moves : Bool) (m : Machine) : m.Settles moves m :=
  ⟨rfl, fun _ => rfl, rfl, rfl, rfl⟩

theorem Machine.settles_trans {first second third : Machine} (early : first.Settles moves second)
    (late : second.Settles moves third) : first.Settles moves third where
  context := by
    have onward := congrArg (fun c => { c with lexical := first.context.lexical }) late.context
    exact onward.trans early.context
  lexical still := (late.lexical still).trans (early.lexical still)
  callers := late.callers.trans early.callers
  callDepth := late.callDepth.trans early.callDepth
  options := late.options.trans early.options

/-- Nothing but the current environment may have become another one, and that has not either. -/
theorem Machine.context_of_settles {before after : Machine} (settles : before.Settles false after) :
    after.context = before.context := by
  have same := settles.context
  rw [← settles.lexical rfl] at same
  exact same

theorem Machine.settles_of_context {before after : Machine} (context : after.context = before.context)
    (callers : after.callers = before.callers) (callDepth : after.callDepth = before.callDepth)
    (options : after.options = before.options) : before.Settles moves after :=
  ⟨by rw [context], fun _ => by rw [context], callers, callDepth, options⟩

/-- A run restores what it should, reports what it may, and another run is no different unless too many
calls are nested from the start. -/
structure Ends (t : Terms) (max : Nat) (moves : Bool) (m : Machine) (run other : Except Abrupt α × Machine) :
    Prop where
  fit : run.2.Fit t max
  settles : m.Settles moves run.2
  reported : ∀ e, run.1 = .error e → e.Reported t
  same : m.callDepth ≤ max → other = run

/-- An action ends well from every fit state, and another action is no different from it. -/
def Alike (t : Terms) (max : Nat) (moves : Bool) (action other : Eval α) : Prop :=
  ∀ m : Machine, m.Fit t max → Ends t max moves m (m.run action) (m.run other)

/-- Two engines whose actions are no different. -/
structure Engine.Alike (t : Terms) (max : Nat) (E F : Engine) : Prop where
  rounds : F.rounds = E.rounds
  evaluate : ∀ e, ScriptEngine.Alike t max false (E.evaluate e) (F.evaluate e)
  execute : ∀ labels s, ScriptEngine.Alike t max false (E.execute labels s) (F.execute labels s)
  call : ∀ f this arguments,
    ScriptEngine.Alike t max false (E.call f this arguments) (F.call f this arguments)
  construct : ∀ f arguments, ScriptEngine.Alike t max false (E.construct f arguments) (F.construct f arguments)

/-- An action that gives a value without any call. -/
theorem ends_of_same {m after : Machine} {outcome : Except Abrupt α} (fit : m.Fit t max)
    (known : after.heap.Known t) (settles : m.Settles moves after)
    (reported : ∀ e, outcome = .error e → e.Reported t) :
    Ends t max moves m (outcome, after) (outcome, after) where
  fit := ⟨known, by rw [settles.options]; exact fit.limit, by rw [settles.callDepth]; exact fit.depth⟩
  settles := settles
  reported := reported
  same _ := rfl

theorem ends_mono {m : Machine} {run other : Except Abrupt α × Machine}
    (ends : Ends t max false m run other) : Ends t max moves m run other where
  fit := ends.fit
  settles :=
    Machine.settles_of_context (Machine.context_of_settles ends.settles) ends.settles.callers
      ends.settles.callDepth ends.settles.options
  reported := ends.reported
  same := ends.same

/-- What ends well after a first action that ended well. -/
theorem ends_trans {β : Type} {m after : Machine} {early : Except Abrupt β}
    {first : Except Abrupt β × Machine} {run other next : Except Abrupt α × Machine}
    (begins : Ends t max moves m (early, after) first) (ends : Ends t max moves after run next)
    (follows : m.callDepth ≤ max → other = next) : Ends t max moves m run other where
  fit := ends.fit
  settles := Machine.settles_trans begins.settles ends.settles
  reported := ends.reported
  same within := (follows within).trans (ends.same (by rw [begins.settles.callDepth]; exact within))

theorem ends_bind {β : Type} {first other : Eval α} {rest otherRest : α → Eval β} {m : Machine}
    (begins : Ends t max moves m (m.run first) (m.run other))
    (goesOn : ∀ a, Alike t max moves (rest a) (otherRest a)) :
    Ends t max moves m (m.run (first >>= rest)) (m.run (other >>= otherRest)) := by
  rw [Machine.run_bind m first, Machine.run_bind m other]
  cases ended : m.run first with
  | mk outcome after =>
    rw [ended] at begins
    cases outcome with
    | ok a =>
      refine ends_trans begins (goesOn a after begins.fit) fun within => ?_
      rw [begins.same within]
    | error e =>
      refine ⟨begins.fit, begins.settles, fun _ same => begins.reported _ (by cases same; rfl), ?_⟩
      intro within
      rw [begins.same within]

theorem ends_attempt {β : Type} {tried other : Eval α} {rest otherRest : Except Abrupt α → Eval β}
    {m : Machine} (begins : Ends t max moves m (m.run tried) (m.run other))
    (goesOn : ∀ outcome, (∀ e, outcome = .error e → e.Reported t) →
      Alike t max moves (rest outcome) (otherRest outcome)) :
    Ends t max moves m (m.run (attempt tried >>= rest)) (m.run (attempt other >>= otherRest)) := by
  rw [Machine.run_bind_ok (Machine.run_attempt m tried), Machine.run_bind_ok (Machine.run_attempt m other)]
  refine ends_trans begins (goesOn _ begins.reported _ begins.fit) fun within => ?_
  rw [begins.same within]
  rfl

theorem ends_in_context {action other : Eval α} {m : Machine} (c : Context) (fit : m.Fit t max)
    (body : Alike t max true action other) :
    Ends t max moves m (m.run (inContext c action)) (m.run (inContext c other)) := by
  have ends := body { m with context := c, callers := m.context :: m.callers }
    ⟨fit.known, fit.limit, fit.depth⟩
  rw [Machine.run_in_context, Machine.run_in_context]
  dsimp only
  have left := Machine.run_pop_context ends.settles.callers
  refine ⟨?_, ?_, ends.reported, fun within => by rw [ends.same within]⟩
  · rw [left]
    exact ⟨ends.fit.known, ends.fit.limit, ends.fit.depth⟩
  · rw [left]
    exact Machine.settles_of_context rfl rfl ends.settles.callDepth ends.settles.options

theorem ends_in_environment {action other : Eval α} {m : Machine} (id : EnvironmentId)
    (fit : m.Fit t max) (body : Alike t max true action other) :
    Ends t max moves m (m.run (inEnvironment id action)) (m.run (inEnvironment id other)) := by
  have ends := body { m with context := { m.context with lexical := id } }
    ⟨fit.known, fit.limit, fit.depth⟩
  rw [Machine.run_in_environment, Machine.run_in_environment]
  refine ⟨⟨ends.fit.known, ends.fit.limit, ends.fit.depth⟩, ?_, ends.reported,
    fun within => by rw [ends.same within]⟩
  have back := congrArg (fun c => { c with lexical := m.context.lexical }) ends.settles.context
  exact Machine.settles_of_context back ends.settles.callers ends.settles.callDepth ends.settles.options

theorem ends_nested {action other : Eval α} {m : Machine} (reports : t.reported max)
    (fit : m.Fit t max) (body : Alike t max moves action other) :
    Ends t max moves m (m.run (nested action)) (m.run (nested other)) := by
  rcases Nat.lt_or_ge m.callDepth m.options.maxCallDepth with room | full
  · have deeper : m.callDepth + 1 ≤ max := by
      rw [← fit.limit]
      exact room
    have ends := body { m with callDepth := m.callDepth + 1 } ⟨fit.known, fit.limit, .inl deeper⟩
    rw [Machine.run_nested room, Machine.run_nested room]
    have depth : ∀ {n}, n = m.callDepth + 1 → n - 1 = m.callDepth := by omega
    refine ⟨⟨ends.fit.known, ends.fit.limit, .inl ?_⟩, ?_, ends.reported, fun _ => by rw [ends.same deeper]⟩
    · have inside := ends.settles.callDepth
      change _ - 1 ≤ max
      rw [depth inside]
      omega
    · exact ⟨ends.settles.context, ends.settles.lexical, ends.settles.callers,
        depth ends.settles.callDepth, ends.settles.options⟩
  · rw [Machine.run_nested_refused full, Machine.run_nested_refused full]
    refine ends_of_same fit fit.known (Machine.settles_refl moves m) ?_
    -- As many calls are nested as may be, which is the number that is reported.
    rintro e ⟨⟩ depth ⟨⟩
    rcases fit.depth with within | all
    · have least : m.callDepth = max := Nat.le_antisymm within (fit.limit ▸ full)
      rw [least]
      exact reports
    · exact all _

theorem alike_of_orderly {own : Rights} {action : Engine → Eval α} {E F : Engine} (engines : E.Alike t max F)
    (reports : t.reported max) (orderly : Orderly t own moves action) :
    ScriptEngine.Alike t max moves (action E) (action F) := by
  -- Both engines go through the action side by side; they may only differ where they are asked for more.
  induction orderly with
  | pure a => exact fun m fit => ends_of_same fit fit.known (Machine.settles_refl _ m) nofun
  | raise e honest =>
    refine fun m fit => ends_of_same fit fit.known (Machine.settles_refl _ m) ?_
    rintro _ ⟨⟩
    exact honest
  | read ask => exact fun m fit => ends_of_same fit fit.known (Machine.settles_refl _ m) nofun
  | bind first next ihFirst ihNext => exact fun m fit => ends_bind (ihFirst m fit) ihNext
  | attempt tried ended failed passed ihTried ihEnded ihFailed =>
    refine fun m fit => ends_attempt (ihTried m fit) fun outcome honest => ?_
    cases outcome with
    | ok a => exact ihEnded a
    | error e => exact ihFailed e (honest e rfl)
  | here next ih => exact fun m fit => ih m.context.lexical m fit
  | find ask place blind found next ih => exact fun m fit => ih (ask m) m fit
  | consult next ih =>
    intro m fit
    rw [Machine.run_bind_ok (Machine.run_ask ..), Machine.run_bind_ok (Machine.run_ask ..)]
    exact ih m.heap fit.known m fit
  | aim target next ih =>
    intro m fit
    rw [Machine.run_bind_ok (Machine.run_ask ..), Machine.run_bind_ok (Machine.run_ask ..)]
    exact ih (m.heap.callable? (.object target)) m fit
  | rounds loop each ih =>
    dsimp only
    rw [engines.rounds]
    exact ih E.rounds
  | newObject o proper =>
    exact fun m fit => ends_of_same fit (known_add fit.known proper.known)
      (Machine.settles_of_context rfl rfl rfl rfl) nofun
  | make o proper next ih =>
    refine fun m fit => ends_bind ?_ ih
    exact ends_of_same fit (known_add fit.known proper.known) (Machine.settles_of_context rfl rfl rfl rfl) nofun
  | change id f checked =>
    exact fun m fit => ends_of_same fit
      (known_set fit.known (known_of_kind (Object.change_kind (checked _)) (fit.known id)))
      (Machine.settles_of_context rfl rfl rfl rfl) nofun
  | changeOwn id f mine proper =>
    exact fun m fit => ends_of_same fit (known_set fit.known (known_of_proper proper (fit.known id)))
      (Machine.settles_of_context rfl rfl rfl rfl) nofun
  | build e firm inside made next ihMade ihNext =>
    refine fun m fit => ends_bind ?_ fun id after fit => ends_bind (ends_mono (ihMade id after fit)) (ihNext id)
    exact ends_of_same fit fit.known (Machine.settles_of_context rfl rfl rfl rfl) nofun
  | construction | alter | firstValue | printLine =>
    exact fun m fit => ends_of_same fit fit.known (Machine.settles_of_context rfl rfl rfl rfl) nofun
  | setLexicalEnvironment id =>
    exact fun m fit => ends_of_same fit fit.known ⟨rfl, nofun, rfl, rfl, rfl⟩ nofun
  | inContext c made body ih => exact fun m fit => ends_in_context c fit ih
  | inEnvironment id made body ih => exact fun m fit => ends_in_environment id fit ih
  | script c names reached refused begun ihRefused ihBegun =>
    refine fun m fit => ends_in_context c fit fun entered fit => ?_
    rw [Machine.run_declare_in, Machine.run_declare_in]
    split
    · exact ihRefused entered fit
    · have declared : ∀ e, Ends t max true entered (.ok (), { entered with environments := e })
          (.ok (), { entered with environments := e }) := fun e =>
        ends_of_same fit fit.known (Machine.settles_of_context rfl rfl rfl rfl) nofun
      exact ends_trans (declared _) (ihBegun _ (declared _).fit) fun _ => rfl
  | nested body ih => exact fun m fit => ends_nested reports fit ih
  | evaluate e => exact fun m fit => ends_mono (engines.evaluate e m fit)
  | execute labels s => exact fun m fit => ends_mono (engines.execute labels s m fit)
  | call f this arguments => exact fun m fit => ends_mono (engines.call f this arguments m fit)
  | construct f arguments => exact fun m fit => ends_mono (engines.construct f arguments m fit)

/-- An orderly action restores what it should, and no two engines whose actions are no different make it
different. -/
theorem Orderly.alike {action : Engine → Eval α} {E F : Engine} (engines : E.Alike t max F)
    (reports : t.reported max) (orderly : Orderly t .none moves action) :
    ScriptEngine.Alike t max moves (action E) (action F) :=
  alike_of_orderly engines reports orderly

/-! ## Engines -/

theorem alike_spent (t : Terms) (max : Nat) : Engine.spent.Alike t max .spent := by
  have nothing {β : Type} : Alike t max false (throw .exhausted : Eval β) (throw .exhausted) :=
    fun m fit => ends_of_same fit fit.known (Machine.settles_refl _ m) fun _ same => by
      cases same
      exact nofun
  exact ⟨rfl, fun _ => nothing, fun _ _ => nothing, fun _ _ _ => nothing, fun _ _ => nothing⟩

theorem alike_next {E F : Engine} (bound : t.reported max) (engines : E.Alike t max F) (rounds : Nat) :
    (E.next rounds).Alike t max (F.next rounds) where
  rounds := rfl
  evaluate e := (orderly_evaluate_form e.form).alike engines bound
  execute labels s :=
    alike_of_orderly engines bound (orderly_execute_form labels (Rights.none.covers_inside s.form))
  call f this arguments := (orderly_call_value (fun _ => trivial) f this arguments).alike engines bound
  construct f arguments := (orderly_construct_value (fun _ => trivial) f arguments).alike engines bound

/-- An engine with any number of steps restores what it should. -/
theorem engine_alike (bound : t.reported max) (steps : Nat) :
    (engineAt steps).Alike t max (engineAt steps) := by
  induction steps with
  | zero => exact alike_spent t max
  | succ steps ih => exact alike_next bound ih steps

end ScriptEngine
