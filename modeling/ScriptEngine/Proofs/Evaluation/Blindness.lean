import ScriptEngine.Proofs.Orderly.Calls

/-!
What has been printed is looked at by nothing. Whatever was printed before an action, it ends in the same way, in
the same state and after printing the same.
-/

namespace ScriptEngine

/-- The state after other things were printed. -/
def Machine.showing (m : Machine) (text : String) : Machine := { m with output := text }

theorem showing_pop_context (m : Machine) (text : String) :
    ((m.showing text).run popContext).2 = (m.run popContext).2.showing text := by
  obtain ⟨heap, environments, context, callers, callDepth, output, realm, options⟩ := m
  cases callers <;> rfl

variable {α β : Type}

/-- Runs behind different texts that differ only in what was printed before them. -/
def Prints (runs : String → Except Abrupt α × Machine) : Prop :=
  ∃ (outcome : Except Abrupt α) (last : Machine) (printed : String),
    ∀ text, runs text = (outcome, last.showing (text ++ printed))

/-- An action that does not look at what has been printed. -/
def Blind (action : Eval α) : Prop :=
  ∀ m : Machine, Prints fun text => (m.showing text).run action

namespace Prints

/-- Nothing is printed. -/
theorem quiet {m : Machine} {action : Eval α}
    (same : ∀ text, (m.showing text).run action = ((m.run action).1, (m.run action).2.showing text)) :
    Prints fun text => (m.showing text).run action := by
  refine ⟨(m.run action).1, (m.run action).2, "", fun text => ?_⟩
  rw [String.append_empty]
  exact same text

/-- What is done after a run whatever its end. -/
theorem leave {runs : String → Except Abrupt α × Machine} (prints : Prints runs) (g : Machine → Machine)
    (same : ∀ m text, g (m.showing text) = (g m).showing text) :
    Prints fun text => ((runs text).1, g (runs text).2) := by
  obtain ⟨outcome, last, printed, ran⟩ := prints
  refine ⟨outcome, g last, printed, fun text => ?_⟩
  dsimp only
  rw [ran, same]

/-- What is printed by what follows comes behind what was printed before. -/
theorem append {last : Machine} {early : String} {runs : String → Except Abrupt β × Machine} {action : Eval β}
    (blind : Blind action) (follows : ∀ text, runs text = (last.showing (text ++ early)).run action) :
    Prints runs := by
  obtain ⟨outcome, final, late, ran⟩ := blind last
  refine ⟨outcome, final, early ++ late, fun text => ?_⟩
  rw [follows, ← String.append_assoc]
  exact ran _

theorem bind {m : Machine} {first : Eval α} {rest : α → Eval β}
    (begins : Prints fun text => (m.showing text).run first) (goesOn : ∀ a, Blind (rest a)) :
    Prints fun text => (m.showing text).run (first >>= rest) := by
  obtain ⟨outcome, last, printed, ran⟩ := begins
  cases outcome with
  | ok a => exact append (goesOn a) fun text => Machine.run_bind_ok (ran text) _
  | error e => exact ⟨.error e, last, printed, fun text => Machine.run_bind_error (ran text) _⟩

/-- An outcome is looked at. -/
theorem attempt {m : Machine} {tried : Eval α} {rest : Except Abrupt α → Eval β}
    (begins : Prints fun text => (m.showing text).run tried) (goesOn : ∀ outcome, Blind (rest outcome)) :
    Prints fun text => (m.showing text).run (ScriptEngine.attempt tried >>= rest) := by
  obtain ⟨outcome, last, printed, ran⟩ := begins
  have follows (text : String) : (m.showing text).run (ScriptEngine.attempt tried >>= rest) =
      (last.showing (text ++ printed)).run (rest outcome) := by
    have ended : (m.showing text).run tried = (outcome, last.showing (text ++ printed)) := ran text
    rw [Machine.run_bind_ok (Machine.run_attempt ..), ended]
  exact append (goesOn outcome) follows

/-- Names are declared, or something else is done. -/
theorem declare {m : Machine} {taken free : Eval α} (id : EnvironmentId) (names : List LexicalName)
    (refused : Blind taken) (begun : Blind free) :
    Prints fun text => (m.showing text).run (declareIn id names taken free) := by
  simp only [Machine.run_declare_in]
  by_cases bound : (m.taken? id names).isSome = true
  · have same (text : String) : ((m.showing text).taken? id names).isSome = true := bound
    simp only [same, if_true]
    exact refused m
  · have same (text : String) : ¬((m.showing text).taken? id names).isSome = true := bound
    simp only [same]
    exact begun { m with environments := m.environments.set id ((m.environments.get id).createLexical names) }

end Prints

theorem Blind.bind {first : Eval α} {rest : α → Eval β} (begins : Blind first) (goesOn : ∀ a, Blind (rest a)) :
    Blind (first >>= rest) :=
  fun m => (begins m).bind goesOn

/-- A nested call that is refused prints nothing. -/
theorem blind_nested {action : Eval α} (body : Blind action) : Blind (nested action) := by
  intro m
  rcases Nat.lt_or_ge m.callDepth m.options.maxCallDepth with room | full
  · have ran (text : String) := Machine.run_nested (m := m.showing text) room action
    simp only [ran]
    exact (body { m with callDepth := m.callDepth + 1 }).leave
      (fun left => { left with callDepth := left.callDepth - 1 }) fun _ _ => rfl
  · have ran (text : String) := Machine.run_nested_refused (m := m.showing text) full action
    simp only [ran]
    exact ⟨.error (.overflow m.callDepth), m, "", fun text => by rw [String.append_empty]; rfl⟩

theorem blind_in_environment {action : Eval α} (id : EnvironmentId) (body : Blind action) :
    Blind (inEnvironment id action) := by
  intro m
  simp only [Machine.run_in_environment]
  exact (body { m with context := { m.context with lexical := id } }).leave
    (fun left => { left with context := { left.context with lexical := m.context.lexical } }) fun _ _ => rfl

/-- No action that an engine offers looks at what has been printed. -/
structure Engine.Blind (E : Engine) : Prop where
  evaluate : ∀ e, ScriptEngine.Blind (E.evaluate e)
  execute : ∀ labels s, ScriptEngine.Blind (E.execute labels s)
  call : ∀ f this arguments, ScriptEngine.Blind (E.call f this arguments)
  construct : ∀ f arguments, ScriptEngine.Blind (E.construct f arguments)

/-- An orderly action does not look at what has been printed if the engine does not that it goes back to. -/
theorem Orderly.blind {own : Rights} {moves : Bool} {action : Engine → Eval α} {E : Engine} (engine : E.Blind)
    (orderly : Orderly .any own moves action) : Blind (action E) := by
  intro m
  induction orderly generalizing m with
  | pure | raise | newObject | change | changeOwn | construction | alter | firstValue | setLexicalEnvironment =>
    exact .quiet fun _ => rfl
  | read ask same => exact .quiet fun text => Prod.ext (congrArg Except.ok (same m text)) rfl
  | bind first next ihFirst ihNext => exact .bind (ihFirst m) ihNext
  | attempt tried ended failed passed ihTried ihEnded ihFailed =>
    apply Prints.attempt (ihTried m)
    intro outcome after
    cases outcome with
    | ok a => exact ihEnded a after
    | error e => exact ihFailed e (fun _ _ => trivial) after
  | here next ih => exact ih m.context.lexical m
  | @find own moves α β rest ask place same found next ih =>
    have asked (text : String) : (m.showing text).run (rest E (ask (m.showing text))) =
        (m.showing text).run (rest E (ask m)) := congrArg (fun a => (m.showing text).run (rest E a)) (same m text)
    obtain ⟨outcome, last, printed, ran⟩ := ih (ask m) m
    exact ⟨outcome, last, printed, fun text => (asked text).trans (ran text)⟩
  | consult next ih =>
    simp only [Machine.run_bind_ok (Machine.run_ask ..)]
    exact ih m.heap (Heap.known_any _) m
  | aim target next ih =>
    simp only [Machine.run_bind_ok (Machine.run_ask ..)]
    exact ih (m.heap.callable? (.object target)) m
  | rounds loop each ih => exact ih E.rounds m
  | make o known next ih =>
    simp only [Machine.run_bind_ok (Machine.run_new_object ..)]
    exact ih (m.heap.add o).1 { m with heap := (m.heap.add o).2 }
  | build e firm inside made next ihMade ihNext =>
    simp only [Machine.run_bind_ok (Machine.run_new_environment ..)]
    have made := ihMade (m.environments.add e).1 { m with environments := (m.environments.add e).2 }
    exact made.bind (ihNext (m.environments.add e).1)
  | inContext c made body ih =>
    simp only [Machine.run_in_context]
    have inside := ih { m with context := c, callers := m.context :: m.callers }
    exact inside.leave (fun left => (left.run popContext).2) showing_pop_context
  | inEnvironment id made body ih => exact blind_in_environment id ih m
  | script c names reached refused begun ihRefused ihBegun =>
    let entered : Machine := { m with context := c, callers := m.context :: m.callers }
    have inside := Prints.declare (m := entered) c.lexical names ihRefused ihBegun
    simp only [Machine.run_in_context]
    exact inside.leave (fun left => (left.run popContext).2) showing_pop_context
  | nested body ih => exact blind_nested ih m
  | printLine line =>
    refine ⟨.ok (), m, line ++ "\n", fun text => ?_⟩
    change (Except.ok (), m.showing (text ++ line ++ "\n")) = _
    rw [String.append_assoc]
  | evaluate e => exact engine.evaluate e m
  | execute labels s => exact engine.execute labels s m
  | call f this arguments => exact engine.call f this arguments m
  | construct f arguments => exact engine.construct f arguments m

theorem blind_of_orderly {action : Engine → Eval α} {E : Engine} (engine : E.Blind)
    (orderly : Orderly .any .none false action) : Blind (action E) :=
  orderly.blind engine

/-- Whatever was printed before an action of the engine, the action does the same. -/
theorem engine_blind (steps : Nat) : (engineAt steps).Blind := by
  induction steps with
  | zero =>
    have spent {γ : Type} : Blind (throw .exhausted : Eval γ) := fun m => .quiet (m := m) fun _ => rfl
    exact ⟨fun _ => spent, fun _ _ => spent, fun _ _ _ => spent, fun _ _ => spent⟩
  | succ steps ih =>
    constructor
    · exact fun e => blind_of_orderly ih (orderly_evaluate_form e.form)
    · exact fun labels s => blind_of_orderly ih (orderly_execute_form labels fun named => named.elim)
    · exact fun f this arguments => blind_of_orderly ih (orderly_call_value (fun _ => trivial) f this arguments)
    · exact fun f arguments => blind_of_orderly ih (orderly_construct_value (fun _ => trivial) f arguments)

end ScriptEngine
