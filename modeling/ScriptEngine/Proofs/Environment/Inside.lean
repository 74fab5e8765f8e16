import ScriptEngine.Proofs.Environment.Outside
import ScriptEngine.Proofs.Evaluation.BindingHistory

/-!
Code that runs inside an environment. In one context it never leaves it: whatever statement or expression is run
as part of it runs inside too. A function that is written there is made inside, and when it is called its body
runs inside.
-/

namespace ScriptEngine

open EnvironmentStore (nothing)

/-! ## Staying inside -/

/-- Does something, in the contexts that some others are around only within an environment: elsewhere it stops. -/
noncomputable def onlyWithin {α : Type} (e : EnvironmentId) (depth : Nat) (action : Eval α) : Eval α :=
  onlyWhere (fun m => m.callers.length = depth → m.environments.Within m.context.lexical e) action

/-- The engine with a number of steps that is stopped as soon as code in a context that `depth` others are around
runs anywhere but within an environment. -/
noncomputable def withinAt (e : EnvironmentId) (depth : Nat) : Nat → Engine
  | 0 => .spent
  | steps + 1 => { engineAt (steps + 1) with
      evaluate := fun x => onlyWithin e depth (evaluateForm (withinAt e depth steps) x.form)
      execute := fun labels s => onlyWithin e depth (executeForm (withinAt e depth steps) labels s.form) }

/-- In the contexts that some others are around the current place and all that an action may enter or build in are
within an environment. -/
structure Machine.Inside (e : EnvironmentId) (depth : Nat) (own : Rights) (m : Machine) : Prop where
  deep : depth ≤ m.callers.length
  lexical : m.callers.length = depth → m.environments.Within m.context.lexical e
  entered : m.callers.length = depth → ∀ id, own.entered id → m.environments.Within id e
  around : m.callers.length = depth → ∀ id, own.around id → m.environments.Within id e

/-- A run that leaves the current place within an environment, and another one that is no different. -/
structure Machine.StaysInside {α : Type} (e : EnvironmentId) (depth : Nat) (m : Machine)
    (run other : Except Abrupt α × Machine) : Prop where
  same : other = run
  grows : m.environments.Grows run.2.environments
  callers : run.2.callers = m.callers
  lexical : m.callers.length = depth → run.2.environments.Within run.2.context.lexical e

/-- Two engines that run code in the same way where it is inside, and call functions in the same way. -/
structure Engine.AgreesInside (e : EnvironmentId) (depth : Nat) (E F : Engine) : Prop where
  rounds : F.rounds = E.rounds
  evaluate : ∀ x (m : Machine), (m.callers.length = depth → m.environments.Within m.context.lexical e) →
    depth ≤ m.callers.length → m.run (F.evaluate x) = m.run (E.evaluate x)
  execute : ∀ labels s (m : Machine), (m.callers.length = depth → m.environments.Within m.context.lexical e) →
    depth ≤ m.callers.length → m.run (F.execute labels s) = m.run (E.execute labels s)
  call : F.call = E.call
  construct : F.construct = E.construct

variable {e : EnvironmentId} {depth : Nat} {own : Rights} {moves : Bool} {α β : Type} {m : Machine}

namespace Machine

/-- Nothing happened to environments and contexts. -/
theorem stays_inside_of_same (inside : m.Inside e depth own) {run : Except Abrupt α × Machine}
    (environments : run.2.environments = m.environments) (context : run.2.context = m.context)
    (callers : run.2.callers = m.callers) : m.StaysInside e depth run run where
  same := rfl
  grows := environments ▸ EnvironmentStore.grows_refl _
  callers := callers
  lexical := by
    rw [environments, context]
    exact inside.lexical

/-- An environment became another one, but still lies where it did. -/
theorem stays_inside_modify (inside : m.Inside e depth own) (id : EnvironmentId) {f : Environment → Environment}
    (outer : (f (m.environments.get id)).outer = (m.environments.get id).outer) :
    m.StaysInside e depth (m.run (modifyEnvironment id f)) (m.run (modifyEnvironment id f)) := by
  have grows : m.environments.Grows (m.environments.set id (f (m.environments.get id))) :=
    EnvironmentStore.grows_set _ id outer
  exact ⟨rfl, grows, rfl, fun there => (inside.lexical there).grows grows⟩

/-- What a steady engine does leaves the place as it was. -/
theorem stays_inside_of_steady {E : Engine} {action : Engine → Eval α} (steady : E.Steady .any)
    (orderly : Orderly .any .none false action) (inside : m.Inside e depth own) {other : Except Abrupt α × Machine}
    (same : other = m.run (action E)) : m.StaysInside e depth (m.run (action E)) other := by
  have continues := orderly.continues_steady Terms.lenient_any steady m
  have settles := orderly.settles_steady Terms.lenient_any steady m
  have grows := EnvironmentStore.grows_of_keeps continues.environments
  refine ⟨same, grows, settles.callers, fun there => ?_⟩
  rw [settles.lexical rfl]
  exact (inside.lexical there).grows grows

/-- The place is still within an environment after what keeps it there. -/
theorem StaysInside.inside {run other : Except Abrupt α × Machine} (stays : m.StaysInside e depth run other)
    (inside : m.Inside e depth own) : run.2.Inside e depth own where
  deep := stays.callers ▸ inside.deep
  lexical there := stays.lexical (stays.callers ▸ there)
  entered there id mine := (inside.entered (stays.callers ▸ there) id mine).grows stays.grows
  around there id mine := (inside.around (stays.callers ▸ there) id mine).grows stays.grows

theorem stays_inside_trans {after : Machine} (grows : m.environments.Grows after.environments)
    (callers : after.callers = m.callers) {run other : Except Abrupt α × Machine}
    (late : after.StaysInside e depth run other) : m.StaysInside e depth run other where
  same := late.same
  grows := EnvironmentStore.grows_trans grows late.grows
  callers := late.callers.trans callers
  lexical there := late.lexical (callers ▸ there)

theorem stays_inside_bind {first otherFirst : Eval α} {rest otherRest : α → Eval β}
    (begins : m.StaysInside e depth (m.run first) (m.run otherFirst))
    (goesOn : ∀ a (after : Machine), m.run first = (.ok a, after) →
      after.StaysInside e depth (after.run (rest a)) (after.run (otherRest a))) :
    m.StaysInside e depth (m.run (first >>= rest)) (m.run (otherFirst >>= otherRest)) := by
  rw [run_bind, run_bind, begins.same]
  cases ended : m.run first with
  | mk outcome after =>
    rw [ended] at begins
    cases outcome with
    | ok a => exact stays_inside_trans begins.grows begins.callers (goesOn a after ended)
    | error e => exact ⟨rfl, begins.grows, begins.callers, begins.lexical⟩

/-- What is done in a context of its own is left for the context around it. -/
theorem stays_inside_in_context (inside : m.Inside e depth own) {c : Context} {action other : Eval α}
    (body : ({ m with context := c, callers := m.context :: m.callers } : Machine).StaysInside e depth
      (({ m with context := c, callers := m.context :: m.callers } : Machine).run action)
      (({ m with context := c, callers := m.context :: m.callers } : Machine).run other)) :
    m.StaysInside e depth (m.run (inContext c action)) (m.run (inContext c other)) := by
  rw [run_in_context, run_in_context, body.same]
  dsimp only
  rw [run_pop_context body.callers]
  exact ⟨rfl, body.grows, rfl, fun there => (inside.lexical there).grows body.grows⟩

/-- In a context of its own code is further from where it was. -/
theorem inside_in_context {entered : Machine} (inside : m.Inside e depth own)
    (callers : entered.callers = m.context :: m.callers) : entered.Inside e depth own := by
  -- There are more callers than `depth` now, so that nothing is asked of the place.
  have deeper : depth < entered.callers.length := by
    rw [callers, List.length_cons]
    exact Nat.lt_succ_of_le inside.deep
  have elsewhere : entered.callers.length ≠ depth := Nat.ne_of_gt deeper
  exact ⟨Nat.le_of_lt deeper, (absurd · elsewhere), (absurd · elsewhere), (absurd · elsewhere)⟩

end Machine

/-! ## Orderly actions -/

/-- An orderly action stays inside if what it may enter is inside, and no engine that runs code inside in the same
way makes it different. -/
theorem Orderly.stays_inside {action : Engine → Eval α} {E F : Engine} (steady : E.Steady .any)
    (engines : E.AgreesInside e depth F) (orderly : Orderly .any own moves action) (inside : m.Inside e depth own) :
    m.StaysInside e depth (m.run (action E)) (m.run (action F)) := by
  induction orderly generalizing m with
  | pure | raise | read | newObject | change | changeOwn | printLine =>
    exact Machine.stays_inside_of_same inside rfl rfl rfl
  | bind first next ihFirst ihNext =>
    have begins := ihFirst inside
    refine Machine.stays_inside_bind begins fun a after ended => ihNext a ?_
    have there := begins.inside inside
    rwa [ended] at there
  | attempt tried ended failed passed ihTried ihEnded ihFailed =>
    have begins := ihTried inside
    have there := begins.inside inside
    rw [Machine.run_bind_ok (Machine.run_attempt ..), Machine.run_bind_ok (Machine.run_attempt ..), begins.same]
    apply Machine.stays_inside_trans begins.grows begins.callers
    cases (m.run _).1 with
    | ok a => exact ihEnded a there
    | error e => exact ihFailed e (fun _ _ => trivial) there
  | here next ih =>
    refine ih m.context.lexical ⟨inside.deep, inside.lexical, inside.entered, fun there id mine => ?_⟩
    rcases mine with mine | rfl
    · exact inside.around there id mine
    · exact inside.lexical there
  | find ask place blind found next ih =>
    exact ih (ask m) ⟨inside.deep, inside.lexical, inside.entered, inside.around⟩
  | consult next ih => exact ih m.heap (Heap.known_any _) inside
  | aim target next ih =>
    exact ih (m.heap.callable? (.object target)) ⟨inside.deep, inside.lexical, inside.entered, inside.around⟩
  | rounds loop each ih =>
    dsimp only
    rw [engines.rounds]
    exact ih E.rounds inside
  | make o proper next ih =>
    have stays := ih (m.heap.add o).1 (m := { m with heap := (m.heap.add o).2 })
      ⟨inside.deep, inside.lexical, inside.entered, inside.around⟩
    exact ⟨stays.same, stays.grows, stays.callers, stays.lexical⟩
  | build e firm within made next ihMade ihNext =>
    obtain ⟨outer, found, around⟩ := within
    let opened : Machine := { m with environments := (m.environments.add e).2 }
    have grows : m.environments.Grows opened.environments := EnvironmentStore.grows_add m.environments e
    have new (there : m.callers.length = depth) := EnvironmentStore.within_add found (inside.around there outer around)
    have added : opened.Inside _ depth _ :=
      ⟨inside.deep, fun there => (inside.lexical there).grows grows,
        fun there id mine => (inside.entered there id mine).grows grows,
        fun there id mine => (inside.around there id mine).grows grows⟩
    have entering : opened.Inside _ depth (Rights.entering (m.environments.add e).1 _) :=
      ⟨added.deep, added.lexical, fun there id => (·.elim (added.entered there id) fun same => same ▸ new there),
        added.around⟩
    rw [Machine.run_bind_ok (Machine.run_new_environment ..), Machine.run_bind_ok (Machine.run_new_environment ..)]
    apply Machine.stays_inside_trans grows rfl
    have building := ihMade (m.environments.add e).1 (m := opened)
      ⟨added.deep, added.lexical, added.entered, added.around⟩
    refine Machine.stays_inside_bind building fun b after ended => ihNext _ b ?_
    have there := building.inside entering
    rwa [ended] at there
  | construction id f mine firm outer => exact Machine.stays_inside_modify inside id (outer _)
  | alter id f reached lawful firm => exact Machine.stays_inside_modify inside id (lawful _).outer
  | firstValue name value allowed =>
    exact Machine.stays_inside_modify (f := fun e => (e.initialize? name value).2) inside m.context.lexical
      (Environment.outer_initialize ..)
  | inContext c made body ih =>
    have entered := Machine.inside_in_context inside
      (rfl : ({ m with context := c, callers := m.context :: m.callers } : Machine).callers = _)
    exact Machine.stays_inside_in_context inside (ih ⟨entered.deep, entered.lexical, entered.entered, entered.around⟩)
  | inEnvironment id made body ih =>
    have entered : ({ m with context := { m.context with lexical := id } } : Machine).Inside e depth _ :=
      ⟨inside.deep, fun there => inside.entered there id made, inside.entered, inside.around⟩
    have stays := ih ⟨entered.deep, entered.lexical, entered.entered, entered.around⟩
    rw [Machine.run_in_environment, Machine.run_in_environment, stays.same]
    exact ⟨rfl, stays.grows, stays.callers, fun there => (inside.lexical there).grows stays.grows⟩
  | script c names reached refused begun ihRefused ihBegun =>
    apply Machine.stays_inside_in_context inside
    rw [Machine.run_declare_in, Machine.run_declare_in]
    split
    · have entered := Machine.inside_in_context inside
        (rfl : ({ m with context := c, callers := m.context :: m.callers } : Machine).callers = _)
      exact ihRefused ⟨entered.deep, entered.lexical, entered.entered, entered.around⟩
    · let opened : Machine := { m with context := c, callers := m.context :: m.callers }
      let declared : Machine := { opened with
        environments := m.environments.set c.lexical ((m.environments.get c.lexical).createLexical names) }
      have grows : opened.environments.Grows declared.environments :=
        EnvironmentStore.grows_set _ _ (Environment.outer_create_lexical ..)
      have entered := Machine.inside_in_context inside (rfl : declared.callers = m.context :: m.callers)
      refine Machine.stays_inside_trans grows rfl (ihBegun ?_)
      exact ⟨entered.deep, entered.lexical, entered.entered, entered.around⟩
  | setLexicalEnvironment id made =>
    exact ⟨rfl, EnvironmentStore.grows_refl _, rfl, fun there => inside.entered there id made⟩
  | nested body ih =>
    rcases Nat.lt_or_ge m.callDepth m.options.maxCallDepth with room | full
    · have deeper : ({ m with callDepth := m.callDepth + 1 } : Machine).Inside e depth _ :=
        ⟨inside.deep, inside.lexical, inside.entered, inside.around⟩
      have stays := ih deeper
      rw [Machine.run_nested room, Machine.run_nested room, stays.same]
      exact ⟨rfl, stays.grows, stays.callers, stays.lexical⟩
    · rw [Machine.run_nested_refused full, Machine.run_nested_refused full]
      exact Machine.stays_inside_of_same inside rfl rfl rfl
  | evaluate x =>
    exact Machine.stays_inside_of_steady steady (.evaluate x) inside (engines.evaluate x m inside.lexical inside.deep)
  | execute labels s =>
    have orderly : Orderly .any .none false fun E => E.execute labels s := .execute labels s fun named => named.elim
    exact Machine.stays_inside_of_steady steady orderly inside (engines.execute labels s m inside.lexical inside.deep)
  | call f this arguments =>
    exact Machine.stays_inside_of_steady steady (.call f this arguments) inside
      (congrArg (fun calls => m.run (calls f this arguments)) engines.call)
  | construct f arguments =>
    exact Machine.stays_inside_of_steady steady (.construct f arguments) inside
      (congrArg (fun constructs => m.run (constructs f arguments)) engines.construct)

/-! ## Engines -/

/-- Code that runs inside never leaves: the engine that would be stopped where it did is no different. -/
theorem agrees_inside (e : EnvironmentId) (depth steps : Nat) :
    (engineAt steps).AgreesInside e depth (withinAt e depth steps) := by
  induction steps with
  | zero => exact ⟨rfl, fun _ _ _ _ => rfl, fun _ _ _ _ _ => rfl, rfl, rfl⟩
  | succ steps ih =>
    have steady := engine_steady Terms.lenient_any steps
    have inside {m : Machine} (within : m.callers.length = depth → m.environments.Within m.context.lexical e)
        (deep : depth ≤ m.callers.length) : m.Inside e depth .confined :=
      ⟨deep, within, fun _ _ no => no.elim, fun _ _ no => no.elim⟩
    refine ⟨rfl, fun x m within deep => ?_, fun labels s m within deep => ?_, rfl, rfl⟩
    · refine (Machine.run_only_where within _).trans ?_
      have orderly : Orderly .any .confined false fun E => evaluateForm E x.form := orderly_evaluate_form x.form
      exact (orderly.stays_inside steady ih (inside within deep)).same
    · refine (Machine.run_only_where within _).trans ?_
      have orderly : Orderly .any .confined false fun E => executeForm E labels s.form :=
        orderly_execute_form labels fun named => named.elim
      exact (orderly.stays_inside steady ih (inside within deep)).same

/-! ## Functions -/

/-- What is run in the context of a function that was made inside an environment runs inside. -/
theorem run_inside_context {environment : EnvironmentId} (within : m.environments.Within environment e)
    (steps : Nat) (vars : EnvironmentId) (this : Value) (strict : Bool) (body : List Stmt) :
    m.run (inContext ⟨environment, vars, this, strict⟩
        (executeAll (withinAt e (m.callers.length + 1) steps) none body)) =
      m.run (inContext ⟨environment, vars, this, strict⟩ (executeAll (engineAt steps) none body)) := by
  let entered : Machine := { m with context := ⟨environment, vars, this, strict⟩, callers := m.context :: m.callers }
  have inside : entered.Inside e (m.callers.length + 1) Rights.confined.inside :=
    ⟨Nat.le_refl _, fun _ => within, fun _ _ no => no.elim, fun _ _ no => no.elim⟩
  have orderly : Orderly .any Rights.confined.inside false fun E => executeAll E none body :=
    orderly_execute_inside none body
  have stays := orderly.stays_inside (engine_steady Terms.lenient_any steps) (agrees_inside e _ steps) inside
  rw [Machine.run_in_context, Machine.run_in_context]
  dsimp only
  rw [stays.same]

/-- A function that was made inside an environment runs inside, however it came to be called. -/
theorem enter_function_inside (rooted : m.Rooted) {f : ScriptFunction} (within : m.environments.Within f.environment e)
    (placed : m.environments.Clear nothing f.environment) (steps : Nat) (callee : ObjectId) (this : Value)
    (arguments : List Value) :
    m.run (enterFunction (withinAt e (m.callers.length + 1) steps) callee f this arguments) =
      m.run (enterFunction (engineAt steps) callee f this arguments) := by
  unfold enterFunction
  refine Machine.run_bind_congr fun own found ran => ?_
  have finds : Orderly .any .confined false fun _ => thisFor f this := orderly_this_for f this
  have outside : m.Outside nothing fun _ => True := Machine.outside_nothing rooted
  have early := finds.stays_outside (E := .spent) spent_stays_outside outside (Rights.clear_confined ..)
  rw [ran] at early
  let added := found.environments.add (.declarative (some f.environment))
  have new : added.2.Clear nothing added.1 :=
    EnvironmentStore.clear_add (fun _ no => no.elim) rfl (placed.grows early.grows)
  have inside : added.2.Within added.1 e := EnvironmentStore.within_add rfl (within.grows early.grows)
  have binds : Orderly .any (Rights.confined.constructing added.1) false fun _ =>
      bindDeclarations callee f.code added.1 arguments :=
    orderly_bind_declarations callee f.code (Rights.builds_new ..) (Rights.reaches_new ..) arguments
  have made : found.StaysOutside nothing (fun _ => True) false { found with environments := added.2 } :=
    Machine.stays_outside_add early.outside _
  have middle := binds.stays_outside (E := .spent) spent_stays_outside made.outside
    ((Rights.clear_confined ..).constructing new)
  rw [Machine.run_bind_ok (Machine.run_new_environment ..), Machine.run_bind_ok (Machine.run_new_environment ..)]
  refine Machine.run_bind_congr fun _ bound ended => ?_
  rw [ended] at middle
  -- Neither `this` nor the declarations leave the context, so the body has one caller more than the call.
  have callers : bound.callers.length = m.callers.length :=
    congrArg List.length (middle.callers.trans early.callers)
  rw [← callers]
  exact Machine.run_bind_same (run_inside_context (inside.grows middle.grows) steps _ _ _ _) _

theorem call_script_inside (rooted : m.Rooted) {f : ScriptFunction} (within : m.environments.Within f.environment e)
    (placed : m.environments.Clear nothing f.environment) (steps : Nat) (callee : ObjectId) (this : Value)
    (arguments : List Value) :
    m.run (callScript (withinAt e (m.callers.length + 1) steps) callee f this arguments) =
      m.run (callScript (engineAt steps) callee f this arguments) := by
  unfold callScript
  rcases Nat.lt_or_ge m.callDepth m.options.maxCallDepth with room | full
  · let deeper : Machine := { m with callDepth := m.callDepth + 1 }
    have rooted : deeper.Rooted := ⟨rooted.functions, rooted.lexical, rooted.shared⟩
    have same : deeper.run (enterFunction (withinAt e (deeper.callers.length + 1) steps) callee f this arguments) =
        deeper.run (enterFunction (engineAt steps) callee f this arguments) :=
      enter_function_inside rooted within placed steps callee this arguments
    rw [Machine.run_nested room, Machine.run_nested room]
    dsimp only
    rw [same]
  · rw [Machine.run_nested_refused full, Machine.run_nested_refused full]

end ScriptEngine
