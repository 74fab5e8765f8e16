import ScriptEngine.Proofs.Evaluation.BindingHistory
import ScriptEngine.Proofs.Evaluation.Nesting

/-!
Runs that may be interrupted wherever evaluation goes back to the engine. An engine that is stopped in some
states is as good as one that is not, and what is done in a state has to do with the rest of a run only if the
run comes to that state. From any state that a run comes to bindings last to its end, wherever it is stopped.
-/

namespace ScriptEngine

/-! ## Engines that are interrupted -/

/-- What is done next, unless the state calls for something else. -/
def divert {α : Type} (hears : Machine → Option (Eval α)) (next : Eval α) : Eval α :=
  fun m => (hears m).getD next m

/-- Runs an action, unless the state in which it would begin calls for something else; the state in which it
ends may call for something else too. -/
def interrupt {α : Type} (hears : Machine → Option (Eval α)) (action : Eval α) : Eval α :=
  divert hears (attempt action >>= fun outcome => divert hears (resume outcome))

/-- The engine that is interrupted by what certain states call for. -/
def Engine.interrupted (hears : Machine → Option Alarm) (E : Engine) : Engine where
  rounds := E.rounds
  evaluate e := interrupt (fun m => (hears m).map Alarm.value) (E.evaluate e)
  execute labels s := interrupt (fun m => (hears m).map Alarm.completion) (E.execute labels s)
  call f this arguments := interrupt (fun m => (hears m).map Alarm.value) (E.call f this arguments)
  construct f arguments := interrupt (fun m => (hears m).map Alarm.value) (E.construct f arguments)

/-- The engine with a number of steps that is interrupted at each of them. -/
def interruptedAt (hears : Machine → Option Alarm) : Nat → Engine
  | 0 => Engine.spent.interrupted hears
  | steps + 1 => ((interruptedAt hears steps).next steps).interrupted hears

/-- An alarm that ends the run, which no script can keep it from. -/
def Alarm.stop : Alarm := ⟨throw .exhausted, throw .exhausted⟩

/-- A run is stopped in certain states. -/
def stopsAt (halts : Machine → Bool) (m : Machine) : Option Alarm :=
  if halts m then some .stop else none

/-- In states that meet a test an alarm goes off, before the run can be stopped there. -/
def ringsAt (test : Machine → Bool) (alarm : Alarm) (halts : Machine → Bool) (m : Machine) : Option Alarm :=
  if test m then some alarm else stopsAt halts m

variable {t : Terms} {max : Nat} {own : Rights} {moves : Bool} {α : Type} {halts test : Machine → Bool}

/-- An engine that is nowhere interrupted is the engine. -/
theorem interrupted_nowhere (steps : Nat) :
    interruptedAt (stopsAt fun _ => false) steps = engineAt steps := by
  have same {β : Type} (action : Eval β) : interrupt (fun _ => none) action = action := by
    funext m
    change EStateM.bind (attempt action) (fun outcome => divert (fun _ => none) (resume outcome)) m = action m
    unfold EStateM.bind attempt
    cases action m <;> rfl
  have quiet (E : Engine) : E.interrupted (stopsAt fun _ => false) = E := by
    simp only [Engine.interrupted, stopsAt, Bool.false_eq_true, if_false, Option.map_none, same]
  induction steps with
  | zero => exact quiet .spent
  | succ steps ih =>
    rw [interruptedAt, quiet, ih]
    rfl

/-! ## Stopping -/

/-- What an action amounts to if it may be stopped before it begins and when it ends. -/
theorem Machine.run_interrupt (m : Machine) (hears : Machine → Option (Eval α)) (action : Eval α) :
    m.run (interrupt hears action) =
      match hears m with
      | some other => m.run other
      | none =>
        match hears (m.run action).2 with
        | some other => (m.run action).2.run other
        | none => m.run action := by
  have diverted (m : Machine) (next : Eval α) : m.run (divert hears next) = m.run ((hears m).getD next) := rfl
  unfold interrupt
  rw [diverted]
  cases hears m with
  | some other => rfl
  | none =>
    rw [Option.getD_none, run_bind_ok (run_attempt ..), diverted]
    cases hears (m.run action).2 with
    | some other => rfl
    | none => exact run_resume ..

theorem Machine.run_stopped (m : Machine) (action : Eval α) (convert : Alarm → Eval α)
    (ends : convert .stop = throw .exhausted) :
    m.run (interrupt (fun m => (stopsAt halts m).map convert) action) =
      if halts m then (.error .exhausted, m)
      else if halts (m.run action).2 then (.error .exhausted, (m.run action).2)
      else m.run action := by
  rw [run_interrupt]
  unfold stopsAt
  cases halts m with
  | true => simp only [if_true, Option.map_some, ends]; rfl
  | false =>
    cases halts (m.run action).2 with
    | true => simp only [if_true, Bool.false_eq_true, if_false, Option.map_some, Option.map_none, ends]; rfl
    | false => simp only [Bool.false_eq_true, if_false, Option.map_none]

theorem alike_stopped {action other : Eval α} (convert : Alarm → Eval α)
    (ends : convert .stop = throw .exhausted) (alike : Alike t max false action other) :
    Alike t max false (interrupt (fun m => (stopsAt halts m).map convert) action)
      (interrupt (fun m => (stopsAt halts m).map convert) other) := by
  intro m fit
  have goes := alike m fit
  rw [Machine.run_stopped m action convert ends, Machine.run_stopped m other convert ends]
  have quiet : ∀ e, (Except.error .exhausted : Except Abrupt α) = .error e → e.Reported t := by
    rintro e ⟨⟩
    exact nofun
  by_cases before : halts m = true
  · simp only [before, if_true]
    exact ends_of_same fit fit.known (Machine.settles_refl _ m) quiet
  · rw [if_neg before, if_neg before]
    refine ⟨?_, ?_, ?_, fun within => by rw [goes.same within]⟩ <;> split
    · exact goes.fit
    · exact goes.fit
    · exact goes.settles
    · exact goes.settles
    · exact quiet
    · exact goes.reported

theorem alike_halted {E F : Engine} (engines : E.Alike t max F) :
    (E.interrupted (stopsAt halts)).Alike t max (F.interrupted (stopsAt halts)) where
  rounds := engines.rounds
  evaluate e := alike_stopped Alarm.value rfl (engines.evaluate e)
  execute labels s := alike_stopped Alarm.completion rfl (engines.execute labels s)
  call f this arguments := alike_stopped Alarm.value rfl (engines.call f this arguments)
  construct f arguments := alike_stopped Alarm.value rfl (engines.construct f arguments)

/-- Where a run is stopped as it begins or ends, it leaves a state that it begins or ends with. -/
theorem Machine.stopped_in (leaves : Machine → Prop) (m : Machine) (action : Eval α) (convert : Alarm → Eval α)
    (ends : convert .stop = throw .exhausted) (begins : leaves m) (after : leaves (m.run action).2) :
    leaves (m.run (interrupt (fun m => (stopsAt halts m).map convert) action)).2 := by
  rw [run_stopped m action convert ends]
  split
  · exact begins
  · split
    · exact after
    · exact after

theorem Machine.continues_stopped {m : Machine} {action : Eval α} (convert : Alarm → Eval α)
    (ends : convert .stop = throw .exhausted) (continues : m.Continues t own (m.run action).2) :
    m.Continues t own (m.run (interrupt (fun m => (stopsAt halts m).map convert) action)).2 :=
  stopped_in _ m action convert ends (continues_of_same rfl rfl rfl) continues

theorem keeps_bindings_halted {E : Engine} (keeps : E.KeepsBindings t) :
    (E.interrupted (stopsAt halts)).KeepsBindings t where
  evaluate e m := Machine.continues_stopped Alarm.value rfl (keeps.evaluate e m)
  execute labels s m := Machine.continues_stopped Alarm.completion rfl (keeps.execute labels s m)
  call f this arguments m := Machine.continues_stopped Alarm.value rfl (keeps.call f this arguments m)
  construct f arguments m := Machine.continues_stopped Alarm.value rfl (keeps.construct f arguments m)

theorem steady_halted {E : Engine} (steady : E.Steady t) : (E.interrupted (stopsAt halts)).Steady t :=
  ⟨fun max => alike_halted (steady.restores max), keeps_bindings_halted steady.keeps⟩

/-- The engine that may be stopped restores what it should and continues what was begun. -/
theorem stopped_engine_steady (lenient : t.Lenient) (halts : Machine → Bool) (steps : Nat) :
    (interruptedAt (stopsAt halts) steps).Steady t := by
  induction steps with
  | zero => exact steady_halted (steady_spent t)
  | succ steps ih => exact steady_halted (steady_next lenient ih steps)

/-! ## States that a run comes to -/

/-- Bindings last from one state to a later one, but for those of environments under construction. -/
def Machine.Precedes (building : EnvironmentId → Prop) (earlier later : Machine) : Prop :=
  earlier.environments.Keeps building (fun _ _ => True) later.environments

theorem Machine.precedes_refl (building : EnvironmentId → Prop) (m : Machine) : m.Precedes building m :=
  EnvironmentStore.keeps_refl ..

theorem Machine.precedes_of_continues {building : EnvironmentId → Prop} {first second third : Machine}
    (precedes : first.Precedes building second) (continues : second.Continues t own third)
    (mine : ∀ id, own.building id → building id) : first.Precedes building third :=
  EnvironmentStore.keeps_trans precedes continues.environments (fun id _ => mine id) fun _ _ _ _ _ => trivial

/-- Another run is no different, or else a state that meets a test precedes the end of the run. -/
def Traced (test : Machine → Bool) (building : EnvironmentId → Prop) (run other : Except Abrupt α × Machine) :
    Prop :=
  other = run ∨ ∃ here, test here = true ∧ here.Precedes building run.2

/-- Two engines of which one is another one only where it comes to a state that meets a test. -/
structure Engine.Traced (test : Machine → Bool) (E F : Engine) : Prop where
  rounds : F.rounds = E.rounds
  evaluate : ∀ e (m : Machine),
    ScriptEngine.Traced test (fun _ => False) (m.run (E.evaluate e)) (m.run (F.evaluate e))
  execute : ∀ labels s (m : Machine),
    ScriptEngine.Traced test (fun _ => False) (m.run (E.execute labels s)) (m.run (F.execute labels s))
  call : ∀ f this arguments (m : Machine),
    ScriptEngine.Traced test (fun _ => False) (m.run (E.call f this arguments)) (m.run (F.call f this arguments))
  construct : ∀ f arguments (m : Machine),
    ScriptEngine.Traced test (fun _ => False) (m.run (E.construct f arguments)) (m.run (F.construct f arguments))

theorem traced_mono {building more : EnvironmentId → Prop} {run other : Except Abrupt α × Machine}
    (traced : Traced test building run other) (wider : ∀ id, building id → more id) :
    Traced test more run other := by
  rcases traced with same | ⟨here, meets, precedes⟩
  · exact .inl same
  · exact .inr ⟨here, meets, EnvironmentStore.keeps_mono (fun id _ => wider id) (fun _ _ _ _ => id) precedes⟩

/-- What is done after a first action, by one engine and by another. -/
theorem traced_bind {β : Type} {building : EnvironmentId → Prop} {m : Machine} {first other : Eval α}
    {rest otherRest : α → Eval β} (begins : Traced test building (m.run first) (m.run other))
    (continues : ∀ a (after : Machine), after.Continues t own (after.run (rest a)).2)
    (mine : ∀ id, own.building id → building id)
    (goesOn : ∀ a (after : Machine), Traced test building (after.run (rest a)) (after.run (otherRest a))) :
    Traced test building (m.run (first >>= rest)) (m.run (other >>= otherRest)) := by
  rw [Machine.run_bind, Machine.run_bind]
  rcases begins with same | ⟨here, meets, precedes⟩
  · rw [same]
    cases m.run first with
    | mk outcome after =>
      cases outcome with
      | ok a => exact goesOn a after
      | error e => exact .inl rfl
  · refine .inr ⟨here, meets, ?_⟩
    cases ended : m.run first with
    | mk outcome after =>
      rw [ended] at precedes
      cases outcome with
      | ok a => exact Machine.precedes_of_continues precedes (continues a after) mine
      | error e => exact precedes

/-- What becomes of a run once its end is turned into another one. -/
theorem traced_map {β : Type} {building : EnvironmentId → Prop} {run other : Except Abrupt α × Machine}
    (f : Except Abrupt α × Machine → Except Abrupt β × Machine)
    (keeps : ∀ run, (f run).2.environments = run.2.environments) (traced : Traced test building run other) :
    Traced test building (f run) (f other) := by
  rcases traced with same | ⟨here, meets, precedes⟩
  · exact .inl (congrArg f same)
  · refine .inr ⟨here, meets, ?_⟩
    unfold Machine.Precedes
    rw [keeps]
    exact precedes

/-- An orderly action is another one only where the engines are. -/
theorem Orderly.traced {action : Engine → Eval α} {E F : Engine} (lenient : t.Lenient) (steady : E.Steady t)
    (engines : E.Traced test F) (orderly : Orderly t own moves action) (m : Machine) :
    Traced test own.building (m.run (action E)) (m.run (action F)) := by
  induction orderly generalizing m with
  | pure | raise | read | newObject | change | changeOwn | construction | alter | firstValue
  | setLexicalEnvironment | printLine => exact .inl rfl
  | bind first next ihFirst ihNext =>
    exact traced_bind (ihFirst m) (fun a => (next a).continues_steady lenient steady) (fun _ also => also) ihNext
  | @attempt own moves α β action rest tried ended failed passed ihTried ihEnded ihFailed =>
    have honest (e : Abrupt) : e.Reported t := fun depth _ => lenient.reported depth
    have goes : ∀ outcome, Orderly t own moves fun E => rest E outcome := by
      intro outcome
      cases outcome with
      | ok a => exact ended a
      | error e => exact failed e (honest e)
    refine traced_bind ?_ (fun outcome => (goes outcome).continues_steady lenient steady)
      (fun _ also => also) fun outcome => ?_
    · rw [Machine.run_attempt, Machine.run_attempt]
      exact traced_map (fun run => (.ok run.1, run.2)) (fun _ => rfl) (ihTried m)
    · cases outcome with
      | ok a => exact ihEnded a
      | error e => exact ihFailed e (honest e)
  | here next ih => exact ih m.context.lexical m
  | find ask place blind found next ih => exact ih (ask m) m
  | consult next ih =>
    rw [Machine.run_bind_ok (Machine.run_ask ..), Machine.run_bind_ok (Machine.run_ask ..)]
    exact ih m.heap (fun _ f _ => lenient.known f) m
  | aim target next ih =>
    rw [Machine.run_bind_ok (Machine.run_ask ..), Machine.run_bind_ok (Machine.run_ask ..)]
    exact ih (m.heap.callable? (.object target)) m
  | rounds loop each ih =>
    dsimp only
    rw [engines.rounds]
    exact ih E.rounds m
  | make o known next ih =>
    rw [Machine.run_bind_ok (Machine.run_new_object ..), Machine.run_bind_ok (Machine.run_new_object ..)]
    exact ih _ _
  | build e firm inside made next ihMade ihNext =>
    rw [Machine.run_bind_ok (Machine.run_new_environment ..), Machine.run_bind_ok (Machine.run_new_environment ..)]
    exact traced_bind (.inl rfl) (fun b => (next _ b).continues_steady lenient steady) (fun _ also => also)
      (ihNext _)
  | inContext c made body ih =>
    rw [Machine.run_in_context, Machine.run_in_context]
    exact traced_map (fun run => (run.1, (run.2.run popContext).2)) (fun _ => Machine.environments_pop_context _)
      (ih _)
  | inEnvironment id made body ih =>
    rw [Machine.run_in_environment, Machine.run_in_environment]
    exact traced_map
      (fun run => (run.1, { run.2 with context := { run.2.context with lexical := m.context.lexical } }))
      (fun _ => rfl) (ih _)
  | script c names reached refused begun ihRefused ihBegun =>
    rw [Machine.run_in_context, Machine.run_in_context]
    refine traced_map (fun run => (run.1, (run.2.run popContext).2))
      (fun _ => Machine.environments_pop_context _) ?_
    rw [Machine.run_declare_in, Machine.run_declare_in]
    split
    · exact ihRefused _
    · exact ihBegun _
  | nested body ih =>
    rcases Nat.lt_or_ge m.callDepth m.options.maxCallDepth with room | full
    · rw [Machine.run_nested room, Machine.run_nested room]
      exact traced_map (fun run => (run.1, { run.2 with callDepth := run.2.callDepth - 1 })) (fun _ => rfl) (ih _)
    · rw [Machine.run_nested_refused full, Machine.run_nested_refused full]
      exact .inl rfl
  | evaluate e => exact traced_mono (engines.evaluate e m) fun _ no => no.elim
  | execute labels s => exact traced_mono (engines.execute labels s m) fun _ no => no.elim
  | call f this arguments => exact traced_mono (engines.call f this arguments m) fun _ no => no.elim
  | construct f arguments => exact traced_mono (engines.construct f arguments m) fun _ no => no.elim

/-! ## Alarms -/

theorem traced_spent (test : Machine → Bool) : Engine.spent.Traced test .spent :=
  ⟨rfl, fun _ _ => .inl rfl, fun _ _ _ => .inl rfl, fun _ _ _ _ => .inl rfl, fun _ _ _ => .inl rfl⟩

theorem traced_next {E F : Engine} (lenient : t.Lenient) (steady : E.Steady t) (engines : E.Traced test F)
    (rounds : Nat) : (E.next rounds).Traced test (F.next rounds) := by
  have runs {β : Type} {action : Engine → Eval β} (orderly : Orderly t Rights.none.inside false action)
      (m : Machine) : ScriptEngine.Traced test (fun _ => False) (m.run (action E)) (m.run (action F)) :=
    orderly.traced lenient steady engines m
  constructor
  · rfl
  · exact fun e => runs (orderly_evaluate_form e.form)
  · exact fun labels s => runs (orderly_execute_form labels (Rights.none.covers_inside s.form))
  · exact fun f this arguments => runs (orderly_call_value (fun _ => trivial) f this arguments)
  · exact fun f arguments => runs (orderly_construct_value (fun _ => trivial) f arguments)

/-- The alarm makes no difference to an action that neither begins nor ends where it goes off. -/
theorem Machine.run_ringing {m : Machine} {action : Eval α} (convert : Alarm → Eval α) (alarm : Alarm)
    (begins : test m = false) (ends : test (m.run action).2 = false) :
    m.run (interrupt (fun m => (ringsAt test alarm halts m).map convert) action) =
      m.run (interrupt (fun m => (stopsAt halts m).map convert) action) := by
  rw [run_interrupt, run_interrupt]
  simp only [ringsAt, begins, ends, Bool.false_eq_true, if_false]

/-- Where an alarm goes off, the state precedes the end of the run without the alarm. -/
theorem traced_ringing {action other : Eval α} (convert : Alarm → Eval α) (ends : convert .stop = throw .exhausted)
    (alarm : Alarm) {m : Machine} (continues : m.Continues t own (m.run action).2)
    (mine : ∀ id, ¬own.building id) (traced : Traced test (fun _ => False) (m.run action) (m.run other)) :
    Traced test (fun _ => False) (m.run (interrupt (fun m => (stopsAt halts m).map convert) action))
      (m.run (interrupt (fun m => (ringsAt test alarm halts m).map convert) other)) := by
  cases begins : test m with
  | true =>
    have stopped : m.Continues t own (m.run (interrupt (fun m => (stopsAt halts m).map convert) action)).2 :=
      Machine.continues_stopped convert ends continues
    exact .inr ⟨m, begins, Machine.precedes_of_continues (Machine.precedes_refl _ m) stopped mine⟩
  | false =>
    by_cases halted : halts m = true
    · refine .inl ?_
      rw [Machine.run_interrupt, Machine.run_interrupt]
      simp only [ringsAt, stopsAt, begins, halted, Bool.false_eq_true, if_false, if_true, Option.map_some]
    · have left : (m.run (interrupt (fun m => (stopsAt halts m).map convert) action)).2 = (m.run action).2 := by
        rw [Machine.run_stopped m action convert ends, if_neg halted]
        split <;> rfl
      rcases traced with same | ⟨here, meets, precedes⟩
      · cases after : test (m.run action).2 with
        | true => exact .inr ⟨_, after, left ▸ Machine.precedes_refl _ _⟩
        | false =>
          refine .inl ?_
          rw [Machine.run_ringing convert alarm begins (by rw [same, after]),
            Machine.run_stopped m other convert ends, Machine.run_stopped m action convert ends, same]
      · exact .inr ⟨here, meets, left ▸ precedes⟩

theorem traced_halted {E F : Engine} (alarm : Alarm) (keeps : E.KeepsBindings .any) (engines : E.Traced test F) :
    (E.interrupted (stopsAt halts)).Traced test (F.interrupted (ringsAt test alarm halts)) where
  rounds := engines.rounds
  evaluate e m := traced_ringing Alarm.value rfl alarm (keeps.evaluate e m) (fun _ => id) (engines.evaluate e m)
  execute labels s m :=
    traced_ringing Alarm.completion rfl alarm (keeps.execute labels s m) (fun _ => id) (engines.execute labels s m)
  call f this arguments m :=
    traced_ringing Alarm.value rfl alarm (keeps.call f this arguments m) (fun _ => id)
      (engines.call f this arguments m)
  construct f arguments m :=
    traced_ringing Alarm.value rfl alarm (keeps.construct f arguments m) (fun _ => id)
      (engines.construct f arguments m)

/-- An alarm makes a difference only where it goes off. -/
theorem engine_traced (test : Machine → Bool) (alarm : Alarm) (halts : Machine → Bool) (steps : Nat) :
    (interruptedAt (stopsAt halts) steps).Traced test (interruptedAt (ringsAt test alarm halts) steps) := by
  induction steps with
  | zero => exact traced_halted alarm (steady_spent _).keeps (traced_spent test)
  | succ steps ih =>
    have steady := stopped_engine_steady Terms.lenient_any halts steps
    exact traced_halted alarm (steady_next Terms.lenient_any steady steps).keeps
      (traced_next Terms.lenient_any steady ih steps)

end ScriptEngine
