import ScriptEngine.Proofs.Environment.Scope
import ScriptEngine.Proofs.Inheritance.BoundLayers
import ScriptEngine.Proofs.Inheritance.Finite

/-!
Functions with bound arguments in the course of runs. Whatever runs, each of them comes after the function that it
calls. So to call one is to call the function below all its layers, on the value that the innermost layer was given
and with the arguments of all layers, innermost first, before one's own.
-/

namespace ScriptEngine

/-! ## What runs make of functions -/

/-- A heap has grown, and functions with bound arguments come after those that they call. -/
structure Heap.Orders (before after : Heap) : Prop where
  size : before.objects.size ≤ after.objects.size
  older : after.TargetsOlder

/-- An action makes functions with bound arguments of functions that there are. -/
def KeepsOrder {α : Type} (action : Eval α) : Prop :=
  ∀ m : Machine, m.heap.TargetsOlder → m.heap.Orders (m.run action).2.heap

/-- All actions that an engine offers make functions with bound arguments of functions that there are. -/
structure Engine.KeepsOrder (E : Engine) : Prop where
  evaluate : ∀ e, ScriptEngine.KeepsOrder (E.evaluate e)
  execute : ∀ labels s, ScriptEngine.KeepsOrder (E.execute labels s)
  call : ∀ f this arguments, ScriptEngine.KeepsOrder (E.call f this arguments)
  construct : ∀ f arguments, ScriptEngine.KeepsOrder (E.construct f arguments)

variable {α β : Type} {own : Rights} {moves : Bool} {E : Engine} {m : Machine}

theorem Heap.orders_refl {h : Heap} (older : h.TargetsOlder) : h.Orders h :=
  ⟨Nat.le_refl _, older⟩

theorem Heap.orders_trans {first second third : Heap} (early : first.Orders second) (late : second.Orders third) :
    first.Orders third :=
  ⟨Nat.le_trans early.size late.size, late.older⟩

theorem Heap.orders_add {h : Heap} (older : h.TargetsOlder) {o : Object} (aimed : o.Aimed h.Holds) :
    h.Orders (h.add o).2 :=
  ⟨by simp, targets_older_add older aimed⟩

theorem Heap.orders_set {h : Heap} (older : h.TargetsOlder) {id : ObjectId} {o : Object}
    (aimed : o.Aimed fun target => target.index < id.index) : h.Orders (h.set id o) :=
  ⟨by simp, targets_older_set older aimed⟩

/-- What a run may bind is there. -/
def Rights.Finds (own : Rights) (h : Heap) : Prop :=
  ∀ target, own.targets target → h.Holds target

theorem Rights.Finds.later {before after : Heap} (finds : own.Finds before) (orders : before.Orders after) :
    own.Finds after :=
  fun target found => Nat.lt_of_lt_of_le (finds target found) orders.size

theorem Machine.orders_bind {first : Eval α} {rest : α → Eval β} (early : m.heap.Orders (m.run first).2.heap)
    (late : ∀ a (after : Machine), m.heap.Orders after.heap → after.heap.Orders (after.run (rest a)).2.heap) :
    m.heap.Orders (m.run (first >>= rest)).2.heap := by
  rw [Machine.run_bind]
  cases ends : m.run first with
  | mk outcome after =>
    rw [ends] at early
    cases outcome with
    | ok a => exact Heap.orders_trans early (late a after early)
    | error e => exact early

/-- An orderly action makes functions with bound arguments of functions that there are if the engine does that it
goes back to. -/
theorem Orderly.orders {action : Engine → Eval α} (keeps : E.KeepsOrder) (orderly : Orderly .any own moves action)
    (m : Machine) (older : m.heap.TargetsOlder) (finds : own.Finds m.heap) :
    m.heap.Orders (m.run (action E)).2.heap := by
  induction orderly generalizing m with
  | pure | raise | read | construction | alter | firstValue | setLexicalEnvironment | printLine =>
    exact Heap.orders_refl older
  | bind first next ihFirst ihNext =>
    exact Machine.orders_bind (ihFirst m older finds) fun a after orders =>
      ihNext a after orders.older (finds.later orders)
  | attempt tried ended failed passed ihTried ihEnded ihFailed =>
    rw [Machine.run_bind_ok (Machine.run_attempt ..)]
    have orders := ihTried m older finds
    have still := finds.later orders
    apply Heap.orders_trans orders
    cases (m.run _).1 with
    | ok a => exact ihEnded a _ orders.older still
    | error e => exact ihFailed e (fun _ _ => trivial) _ orders.older still
  | here next ih => exact ih m.context.lexical m older finds
  | find ask place blind found next ih => exact ih (ask m) m older finds
  | consult next ih =>
    rw [Machine.run_bind_ok (Machine.run_ask ..)]
    exact ih m.heap (Heap.known_any _) m older finds
  | @aim own moves α rest target next ih =>
    rw [Machine.run_bind_ok (Machine.run_ask ..)]
    apply ih (m.heap.callable? (.object target)) m older
    -- An object that is a function is there.
    rintro other (before | also)
    · exact finds other before
    · obtain ⟨f, runs, rfl⟩ := Option.map_eq_some_iff.1 also
      exact Heap.holds_of_callable runs
  | rounds loop each ih => exact ih E.rounds m older finds
  | newObject o proper => exact Heap.orders_add older fun f runs => finds _ (proper.aimed f runs)
  | make o proper next ih =>
    rw [Machine.run_bind_ok (Machine.run_new_object ..)]
    have orders : m.heap.Orders (m.heap.add o).2 :=
      Heap.orders_add older fun f runs => finds _ (proper.aimed f runs)
    exact Heap.orders_trans orders
      (ih (m.heap.add o).1 { m with heap := (m.heap.add o).2 } orders.older (finds.later orders))
  | change id f checked =>
    apply Heap.orders_set older
    intro g runs
    have same : (f (m.heap.get id)).2.kind = (m.heap.get id).kind := Object.change_kind (checked _)
    exact older id g (by simpa only [Object.callable?, same] using runs)
  | changeOwn id f mine proper =>
    apply Heap.orders_set older
    have before : (m.heap.get id).Proper .any (fun _ => True) fun target => target.index < id.index :=
      ⟨Heap.known_any _ id, fun _ _ => trivial, older id⟩
    exact (proper _ _ _ before).aimed
  | build e firm inside made next ihMade ihNext =>
    rw [Machine.run_bind_ok (Machine.run_new_environment ..)]
    let begun : Machine := { m with environments := (m.environments.add e).2 }
    exact Machine.orders_bind (m := begun) (ihMade _ begun older finds) fun b after orders =>
      ihNext _ b after orders.older (finds.later orders)
  | inContext c made body ih =>
    rw [Machine.run_in_context]
    simp only [Machine.heap_pop_context]
    exact ih { m with context := c, callers := m.context :: m.callers } older finds
  | inEnvironment id made body ih =>
    rw [Machine.run_in_environment]
    exact ih { m with context := { m.context with lexical := id } } older finds
  | script c names reached refused begun ihRefused ihBegun =>
    rw [Machine.run_in_context]
    simp only [Machine.heap_pop_context, Machine.run_declare_in]
    split
    · exact ihRefused { m with context := c, callers := m.context :: m.callers } older finds
    · exact ihBegun { m with context := c, callers := m.context :: m.callers, environments := _ } older finds
  | nested body ih =>
    rcases Nat.lt_or_ge m.callDepth m.options.maxCallDepth with room | full
    · rw [Machine.run_nested room]
      exact ih { m with callDepth := m.callDepth + 1 } older finds
    · rw [Machine.run_nested_refused full]
      exact Heap.orders_refl older
  | evaluate e => exact keeps.evaluate e m older
  | execute labels s => exact keeps.execute labels s m older
  | call f this arguments => exact keeps.call f this arguments m older
  | construct f arguments => exact keeps.construct f arguments m older

theorem keeps_order_of_orderly {action : Engine → Eval α} (keeps : E.KeepsOrder)
    (orderly : Orderly .any .none false action) : KeepsOrder (action E) :=
  fun m older => orderly.orders keeps m older fun _ no => no.elim

theorem keeps_order_spent : Engine.spent.KeepsOrder := by
  have nothing {β : Type} : KeepsOrder (throw .exhausted : Eval β) := fun _ older => Heap.orders_refl older
  exact ⟨fun _ => nothing, fun _ _ => nothing, fun _ _ _ => nothing, fun _ _ => nothing⟩

theorem keeps_order_next (keeps : E.KeepsOrder) (rounds : Nat) : (E.next rounds).KeepsOrder where
  evaluate e := keeps_order_of_orderly keeps (orderly_evaluate_form e.form)
  execute labels _ := keeps_order_of_orderly keeps (orderly_execute_form labels fun named => named.elim)
  call f this arguments := keeps_order_of_orderly keeps (orderly_call_value (fun _ => trivial) f this arguments)
  construct f arguments := keeps_order_of_orderly keeps (orderly_construct_value (fun _ => trivial) f arguments)

theorem keeps_order_halted {halts : Machine → Bool} (keeps : E.KeepsOrder) :
    (E.interrupted (stopsAt halts)).KeepsOrder := by
  have stopped {γ : Type} {action : Eval γ} (convert : Alarm → Eval γ) (ends : convert .stop = throw .exhausted)
      (keeps : KeepsOrder action) :
      KeepsOrder (interrupt (fun m => (stopsAt halts m).map convert) action) :=
    fun m older => Machine.stopped_in (fun after => m.heap.Orders after.heap) m action convert ends
      (Heap.orders_refl older) (keeps m older)
  constructor
  · exact fun e => stopped Alarm.value rfl (keeps.evaluate e)
  · exact fun labels s => stopped Alarm.completion rfl (keeps.execute labels s)
  · exact fun f this arguments => stopped Alarm.value rfl (keeps.call f this arguments)
  · exact fun f arguments => stopped Alarm.value rfl (keeps.construct f arguments)

/-- The engine keeps functions in order, wherever it is stopped. -/
theorem stopped_engine_keeps_order (halts : Machine → Bool) (steps : Nat) :
    (interruptedAt (stopsAt halts) steps).KeepsOrder := by
  induction steps with
  | zero => exact keeps_order_halted keeps_order_spent
  | succ steps ih => exact keeps_order_halted (keeps_order_next ih steps)

/-! ## States that there are -/

/-- A state of an engine that arises: it is new, or what a task leaves that may be stopped anywhere, or what the host
makes of one; its heap the host changes step by step. -/
inductive Machine.Arises : Machine → Prop
  | new (options : EngineOptions) : Arises (.new options)
  | task {m : Machine} (arises : m.Arises) (halts : Machine → Bool) (steps : Nat) (task : Task) :
      Arises (m.run (task.perform (interruptedAt (stopsAt halts) steps))).2
  | host {m after : Machine} (arises : m.Arises) (change : after.heap = m.heap ∨ Heap.Step m.heap after.heap) :
      Arises after

theorem new_engine_targets_older (options : EngineOptions) : (Machine.new options).heap.TargetsOlder := by
  have none : (Machine.bare options).heap.TargetsOlder := by
    have unbound := bare_all (p := fun o => ∀ f, o.callable? ≠ some (.bound f)) options
      (fun o member f runs => nomatch first_function member runs) (fun f runs => nomatch runs)
    exact fun id f runs => absurd runs (unbound id f)
  have orderly : Orderly .any anyObject false fun _ => installLibrary := orderly_install_library
  have orders := orderly.orders keeps_order_spent _ none fun _ no => no.elim
  rw [run_install_library] at orders
  exact orders.older

/-- In every state that arises, functions with bound arguments come after those that they call. -/
theorem Machine.Arises.targets_older (arises : m.Arises) : m.heap.TargetsOlder := by
  induction arises with
  | new options => exact new_engine_targets_older options
  | task _ halts steps task ih =>
    have orderly : Orderly .any .none false fun E => task.perform E := task.orderly_perform trivial id
    exact (orderly.orders (stopped_engine_keeps_order halts steps) _ ih fun _ no => no.elim).older
  | host _ change ih =>
    rcases change with same | step
    · exact same ▸ ih
    · exact Heap.targets_older_step ih step

/-! ## Calls through layers -/

section Layers

variable {f t : ObjectId} {b : BoundFunction} {layers : List BoundFunction} {g : Callable}

theorem run_call_bound (runs : (m.heap.get f).callable? = some (.bound b)) (steps : Nat) (this : Value)
    (xs : List Value) :
    m.run ((engineAt (steps + 1)).call (.object f) this xs) =
      m.run ((engineAt steps).call (.object b.target) b.this (b.arguments ++ xs)) := by
  change m.run (callValue (engineAt steps) (.object f) this xs) = _
  rw [call_value_finds, Machine.run_bind_ok (Machine.run_ask ..)]
  have found : m.heap.callable? (.object f) = some (.bound b) := runs
  rw [found]
  rfl

/-- The value and the arguments that come to the function below all layers. -/
theorem run_call_over (lies : m.heap.BoundOver t layers f) (steps : Nat) (this : Value) (xs : List Value) :
    m.run ((engineAt (steps + layers.length)).call (.object f) this xs) =
      m.run ((engineAt steps).call (.object t) ((layers.head?.map BoundFunction.this).getD this)
        (layers.flatMap BoundFunction.arguments ++ xs)) := by
  induction lies generalizing this xs with
  | itself => rfl
  | @layer layers f b runs inner ih =>
    rw [List.length_append, List.length_singleton, ← Nat.add_assoc, run_call_bound runs, ih]
    have innermost : ((layers ++ [b]).head?.map BoundFunction.this).getD this =
        (layers.head?.map BoundFunction.this).getD b.this := by
      cases layers <;> rfl
    rw [innermost, List.flatMap_append, List.flatMap_singleton, List.append_assoc]

theorem display_function {h : Heap} (runs : (h.get f).callable? = some g) :
    h.display (.object f) = "[object Function]" := by
  have name : (h.get f).className = "Function" := by
    unfold Object.callable? at runs
    unfold Object.className
    cases kind : (h.get f).kind with
    | function g => rfl
    | _ =>
      rw [kind] at runs
      cases runs
  unfold Heap.display Value.textWith
  dsimp only
  rw [name]
  rfl

/-- What is no constructor is refused without a look at what it runs. -/
theorem run_construct_refused (runs : (m.heap.get f).callable? = some g) (refused : m.heap.isConstructor g = false)
    (steps : Nat) (xs : List Value) :
    m.run ((engineAt (steps + 1)).construct (.object f) xs) =
      m.run (throwFault (.notConstructor "[object Function]")) := by
  change m.run (constructValue (engineAt steps) (.object f) xs) = _
  have found : (m.heap.callable? (.object f)).filter m.heap.isConstructor = none := by
    change ((m.heap.get f).callable?).filter m.heap.isConstructor = none
    rw [runs, Option.filter_some, refused]
    rfl
  rw [construct_value_finds, Machine.run_bind_ok (Machine.run_ask ..), found]
  change m.run (displayValue (.object f) >>= fun text => throwFault (.notConstructor text)) = _
  unfold displayValue
  rw [Machine.run_bind_ok (Machine.run_ask ..), display_function runs]

theorem run_construct_bound (runs : (m.heap.get f).callable? = some (.bound b))
    (constructs : m.heap.isConstructor (.bound b) = true) (steps : Nat) (xs : List Value) :
    m.run ((engineAt (steps + 1)).construct (.object f) xs) =
      m.run ((engineAt steps).construct (.object b.target) (b.arguments ++ xs)) := by
  change m.run (constructValue (engineAt steps) (.object f) xs) = _
  have found : (m.heap.callable? (.object f)).filter m.heap.isConstructor = some (.bound b) := by
    change ((m.heap.get f).callable?).filter m.heap.isConstructor = some (.bound b)
    rw [runs, Option.filter_some, constructs]
    rfl
  rw [construct_value_finds, Machine.run_bind_ok (Machine.run_ask ..), found]
  rfl

/-- A function constructs as the one below all its layers. -/
theorem run_construct_over (older : m.heap.TargetsOlder) (lies : m.heap.BoundOver t layers f)
    (runs : (m.heap.get t).callable? = some g) (unbound : ∀ b, g ≠ .bound b) (steps : Nat) (xs : List Value) :
    m.run ((engineAt (steps + 1 + layers.length)).construct (.object f) xs) =
      m.run ((engineAt (steps + 1)).construct (.object t) (layers.flatMap BoundFunction.arguments ++ xs)) := by
  induction lies generalizing xs with
  | itself => rfl
  | @layer layers f b bound inner ih =>
    obtain ⟨-, c, below, constructs, -⟩ := (Heap.BoundOver.layer bound inner).shows older runs unbound
    obtain rfl : Callable.bound b = c := Option.some.inj (bound.symm.trans below)
    rw [List.length_append, List.length_singleton, ← Nat.add_assoc]
    cases can : m.heap.isConstructor g with
    | true =>
      rw [run_construct_bound bound (constructs.trans can), ih, List.flatMap_append, List.flatMap_singleton,
        List.append_assoc]
    | false =>
      rw [run_construct_refused bound (constructs.trans can), run_construct_refused runs can]

/-- A value is an instance of a function if it is one of the function below all its layers. -/
theorem run_instance_of_over (older : m.heap.TargetsOlder) (lies : m.heap.BoundOver t layers f)
    (runs : (m.heap.get t).callable? = some g) (unbound : ∀ b, g ≠ .bound b) (E : Engine) (value : Value) :
    m.run (instanceOf E value (.object f)) = m.run (instanceOf E value (.object t)) := by
  obtain ⟨target, c, below, -, -⟩ := lies.shows older runs unbound
  obtain ⟨same, -⟩ := Heap.BoundOver.itself.shows older runs unbound
  have callable {id : ObjectId} {c : Callable} (runs : (m.heap.get id).callable? = some c) :
      m.heap.isCallable (.object id) = true := by
    change ((m.heap.get id).callable?).isSome = true
    rw [runs]
    rfl
  unfold instanceOf
  dsimp only [Value.asObject?]
  rw [Machine.run_bind_ok (Machine.run_ask ..), if_pos (callable below), Machine.run_bind_ok (Machine.run_ask ..),
    if_pos (callable runs)]
  cases value with
  | object id =>
    dsimp only
    rw [Machine.run_bind_ok (Machine.run_ask ..), Machine.run_bind_ok (Machine.run_ask ..), target, same]
  | _ => rfl

/-- Binding a function puts a layer over it. -/
theorem layer_of_bind {E : Engine} {arguments : List Value} {value : Value} {after : Machine}
    (ran : m.run (Library.run E .functionBind (.object f) arguments) = (.ok value, after)) :
    ∃ id, value = .object id ∧ (after.heap.get id).callable? =
      some (.bound ⟨f, Library.argument arguments 0, arguments.drop 1⟩) := by
  change m.run (Library.bind E (.object f) arguments) = _ at ran
  unfold Library.bind at ran
  obtain ⟨found, _, -, ran⟩ := Machine.ran_bind ran
  cases found with
  | none => cases ran
  | some c =>
    obtain ⟨length, _, -, ran⟩ := Machine.ran_bind ran
    obtain ⟨name, between, -, ran⟩ := Machine.ran_bind ran
    obtain ⟨id, _, made, ran⟩ := Machine.ran_bind ran
    cases made
    cases ran
    exact ⟨_, rfl, congrArg Object.callable? (Heap.get_add_self ..)⟩

/-- What is said of functions with bound arguments does not go on for ever: it comes to the function below them. -/
structure Heap.Layered (h : Heap) : Prop where
  founded : WellFounded fun target f => h.BindsTo f target
  bottom : ∀ f, ∃ t layers, h.BoundOver t layers f ∧ ∀ b, (h.get t).callable? ≠ some (.bound b)
  name : ∀ b, h.functionName (.bound b) = "bound " ++ ((h.get b.target).callable?.map h.functionName).getD ""
  isConstructor : ∀ b, h.isConstructor (.bound b) = ((h.get b.target).callable?.map h.isConstructor).getD false
  instanceTarget : ∀ f, LoopEnds h.targetRound f (h.target f)

/-- A function is as good as the one below its layers, of which the innermost decides what that is called on. From
the same state both lead to the same end, so no call is counted for a layer; all that a layer takes is one step. -/
structure Machine.CallsThrough (m : Machine) (t : ObjectId) (innermost : BoundFunction) (outer : List BoundFunction)
    (f : ObjectId) : Prop where
  few : (innermost :: outer).length ≤ f.index
  call : ∀ steps this xs,
    m.run ((engineAt (steps + (innermost :: outer).length)).call (.object f) this xs) =
      m.run ((engineAt steps).call (.object t) innermost.this
        ((innermost :: outer).flatMap BoundFunction.arguments ++ xs))
  construct : ∀ steps xs,
    m.run ((engineAt (steps + 1 + (innermost :: outer).length)).construct (.object f) xs) =
      m.run ((engineAt (steps + 1)).construct (.object t)
        ((innermost :: outer).flatMap BoundFunction.arguments ++ xs))
  instanceOf : ∀ (E : Engine) value, m.run (instanceOf E value (.object f)) = m.run (instanceOf E value (.object t))

/-- In every state that arises, functions with bound arguments lie in finitely many layers over others, each put there
by binding, and they are called, construct and have instances as those below do. -/
theorem bound_functions_call_through (arises : m.Arises) :
    m.heap.Layered ∧
      (∀ (E : Engine) f arguments value after,
        m.run (Library.run E .functionBind (.object f) arguments) = (.ok value, after) →
        ∃ id, value = .object id ∧ (after.heap.get id).callable? =
          some (.bound ⟨f, Library.argument arguments 0, arguments.drop 1⟩)) ∧
      ∀ t innermost outer f g, m.heap.BoundOver t (innermost :: outer) f →
        (m.heap.get t).callable? = some g → (∀ b, g ≠ .bound b) → m.CallsThrough t innermost outer f := by
  have older := arises.targets_older
  refine ⟨?_, fun E f arguments value after ran => layer_of_bind ran, ?_⟩
  · exact {
      founded := Heap.binds_to_well_founded older
      bottom := Heap.exists_bound_over older
      name := Heap.function_name_bound older
      isConstructor := Heap.is_constructor_bound older
      instanceTarget := Heap.target_ends older }
  · intro t innermost outer f g lies runs unbound
    exact {
      few := Nat.le_trans (Nat.le_add_right ..) (lies.length_le older)
      call := run_call_over lies
      construct := run_construct_over older lies runs unbound
      instanceOf := run_instance_of_over older lies runs unbound }

end Layers

section Example

/-- A function object without properties. -/
def Object.bare (f : Callable) : Object := .new (.function f) none

/-- A function on nothing with one argument. -/
def BoundFunction.inner (target : Nat) : BoundFunction := ⟨⟨target⟩, .null, [.boolean true]⟩

/-- A function with another argument. -/
def BoundFunction.outer (target : Nat) : BoundFunction := ⟨⟨target⟩, .undefined, [.boolean false]⟩

/-- A function that does nothing, bound once and bound again. -/
def Machine.bindTwice (m : Machine) : Machine :=
  let size := m.heap.objects.size
  let plain := (m.heap.add (.bare (.native ⟨"", .nothing, none⟩))).2
  let once := (plain.add (.bare (.bound (.inner size)))).2
  { m with heap := (once.add (.bare (.bound (.outer (size + 1))))).2 }

theorem arises_bind_twice (arises : m.Arises) : m.bindTwice.Arises := by
  let size := m.heap.objects.size
  let plain : Heap := (m.heap.add (.bare (.native ⟨"", .nothing, none⟩))).2
  let once : Heap := (plain.add (.bare (.bound (.inner size)))).2
  have made : m.heap.Step plain := .create _ ⟨nofun, nofun⟩
  have bound : plain.Step once := by
    refine .create _ ⟨nofun, ?_⟩
    rintro _ ⟨⟩
    exact Heap.index_add_lt m.heap _
  have again : once.Step m.bindTwice.heap := by
    refine .create _ ⟨nofun, ?_⟩
    rintro _ ⟨⟩
    change size + 1 < once.objects.size
    simp [once, plain, size]
  have first : Machine.Arises { m with heap := plain } := .host arises (.inr made)
  have second : Machine.Arises { m with heap := once } := .host first (.inr bound)
  exact .host second (.inr again)

theorem bind_twice_over (m : Machine) :
    (m.bindTwice.heap.get ⟨m.heap.objects.size⟩).callable? = some (.native ⟨"", .nothing, none⟩) ∧
      m.bindTwice.heap.BoundOver ⟨m.heap.objects.size⟩
        [.inner m.heap.objects.size, .outer (m.heap.objects.size + 1)] ⟨m.heap.objects.size + 2⟩ := by
  let size := m.heap.objects.size
  let plain : Heap := (m.heap.add (.bare (.native ⟨"", .nothing, none⟩))).2
  let once : Heap := (plain.add (.bare (.bound (.inner size)))).2
  have plain_size : plain.objects.size = size + 1 := Heap.size_add ..
  have once_size : once.objects.size = size + 2 := (Heap.size_add ..).trans (congrArg (· + 1) plain_size)
  have plain_holds : size < plain.objects.size := by omega
  have once_holds : size < once.objects.size ∧ size + 1 < once.objects.size := by omega
  have below : m.bindTwice.heap.get ⟨size⟩ = .bare (.native ⟨"", .nothing, none⟩) :=
    calc m.bindTwice.heap.get ⟨size⟩
        = once.get ⟨size⟩ := Heap.get_add_of_lt _ once_holds.1
      _ = plain.get ⟨size⟩ := Heap.get_add_of_lt _ plain_holds
      _ = .bare (.native ⟨"", .nothing, none⟩) := Heap.get_add_self ..
  have middle : m.bindTwice.heap.get ⟨size + 1⟩ = .bare (.bound (.inner size)) :=
    calc m.bindTwice.heap.get ⟨size + 1⟩
        = once.get ⟨size + 1⟩ := Heap.get_add_of_lt _ once_holds.2
      _ = once.get ⟨plain.objects.size⟩ := by rw [plain_size]
      _ = .bare (.bound (.inner size)) := Heap.get_add_self ..
  have above : m.bindTwice.heap.get ⟨size + 2⟩ = .bare (.bound (.outer (size + 1))) :=
    calc m.bindTwice.heap.get ⟨size + 2⟩
        = m.bindTwice.heap.get ⟨once.objects.size⟩ := by rw [once_size]
      _ = .bare (.bound (.outer (size + 1))) := Heap.get_add_self ..
  have first : m.bindTwice.heap.BoundOver ⟨size⟩ ([] ++ [.inner size]) ⟨size + 1⟩ :=
    .layer (congrArg Object.callable? middle) .itself
  have second : m.bindTwice.heap.BoundOver ⟨size⟩ ([.inner size] ++ [.outer (size + 1)]) ⟨size + 2⟩ :=
    .layer (congrArg Object.callable? above) first
  exact ⟨congrArg Object.callable? below, second⟩

/-- In a new engine with such functions the one below is called on nothing, and with the argument of the inner layer
first. -/
theorem bound_twice_calls_through :
    (Machine.new {}).bindTwice.Arises ∧ ∀ steps this,
      (Machine.new {}).bindTwice.run
          ((engineAt (steps + 2)).call (.object ⟨(Machine.new {}).heap.objects.size + 2⟩) this [.undefined]) =
        (Machine.new {}).bindTwice.run
          ((engineAt steps).call (.object ⟨(Machine.new {}).heap.objects.size⟩) .null
            [.boolean true, .boolean false, .undefined]) := by
  have arises := arises_bind_twice (.new {})
  obtain ⟨below, lies⟩ := bind_twice_over (.new {})
  obtain ⟨-, -, through⟩ := bound_functions_call_through arises
  have calls := through _ _ _ _ _ lies below nofun
  exact ⟨arises, fun steps this => calls.call steps this [.undefined]⟩

end Example

end ScriptEngine
