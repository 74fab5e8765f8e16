import ScriptEngine.Proofs.Orderly.Calls

/-!
Code that runs outside an environment. It comes to the environments around it by their names, and to none but
those; it makes environments and functions inside these, and where it calls a function, the function runs inside
the environment that it was made in. So nothing that is said of the bindings of an environment ceases to hold
while code runs outside it, unless a function that was made inside it is called.
-/

namespace ScriptEngine

open EnvironmentStore (nothing)

/-! ## Places -/

/-- All environments around the functions of scripts, around the current place and around whole scripts are
there. -/
structure Machine.Rooted (m : Machine) : Prop where
  functions : ∀ id, (m.heap.get id).Placed (m.environments.Clear nothing)
  lexical : m.environments.Clear nothing m.context.lexical
  shared : m.environments.Clear nothing m.realm.scriptEnvironment

/-- A state in which the current place and that of whole scripts are outside some environments, of which something
holds. -/
structure Machine.Outside (barred : EnvironmentId → Prop) (holds : Environment → Prop) (m : Machine) : Prop where
  functions : ∀ id, (m.heap.get id).Placed (m.environments.Clear nothing)
  lexical : m.environments.Clear barred m.context.lexical
  shared : m.environments.Clear barred m.realm.scriptEnvironment
  there : ∀ id, barred id → id.index < m.environments.environments.size
  holds : ∀ id, barred id → holds (m.environments.get id)

/-- What becomes of such a state: it stays one. Names are looked up elsewhere afterwards only if the run
`moves`. -/
structure Machine.StaysOutside (barred : EnvironmentId → Prop) (holds : Environment → Prop) (moves : Bool)
    (before after : Machine) : Prop where
  outside : after.Outside barred holds
  grows : before.environments.Grows after.environments
  realm : after.realm = before.realm
  callers : after.callers = before.callers
  lexical : moves = false → after.context.lexical = before.context.lexical

/-- Nothing that an action may use is inside certain environments. -/
structure Rights.Clear (own : Rights) (barred : EnvironmentId → Prop) (s : EnvironmentStore) : Prop where
  building : ∀ id, own.building id → s.Clear barred id
  entered : ∀ id, own.entered id → s.Clear barred id
  around : ∀ id, own.around id → s.Clear barred id
  reached : ∀ id, own.reached id → s.Clear barred id

/-- The actions of an engine leave it outside some environments. -/
structure Engine.StaysOutside (barred : EnvironmentId → Prop) (holds : Environment → Prop) (E : Engine) : Prop where
  evaluate : ∀ e (m : Machine), m.Outside barred holds → m.StaysOutside barred holds false (m.run (E.evaluate e)).2
  execute : ∀ labels s (m : Machine), m.Outside barred holds →
    m.StaysOutside barred holds false (m.run (E.execute labels s)).2
  call : ∀ f this arguments (m : Machine), m.Outside barred holds →
    m.StaysOutside barred holds false (m.run (E.call f this arguments)).2
  construct : ∀ f arguments (m : Machine), m.Outside barred holds →
    m.StaysOutside barred holds false (m.run (E.construct f arguments)).2

/-- A run stays outside, and another one is no different. -/
structure Machine.AgreesOutside {α : Type} (barred : EnvironmentId → Prop) (holds : Environment → Prop) (moves : Bool)
    (m : Machine) (run other : Except Abrupt α × Machine) : Prop where
  same : other = run
  stays : m.StaysOutside barred holds moves run.2

/-- Two engines whose actions are no different outside some environments, and leave them there. -/
structure Engine.AgreesOutside (barred : EnvironmentId → Prop) (holds : Environment → Prop) (E F : Engine) :
    Prop where
  rounds : F.rounds = E.rounds
  evaluate : ∀ e (m : Machine), m.Outside barred holds →
    m.AgreesOutside barred holds false (m.run (E.evaluate e)) (m.run (F.evaluate e))
  execute : ∀ labels s (m : Machine), m.Outside barred holds →
    m.AgreesOutside barred holds false (m.run (E.execute labels s)) (m.run (F.execute labels s))
  call : ∀ f this arguments (m : Machine), m.Outside barred holds →
    m.AgreesOutside barred holds false (m.run (E.call f this arguments)) (m.run (F.call f this arguments))
  construct : ∀ f arguments (m : Machine), m.Outside barred holds →
    m.AgreesOutside barred holds false (m.run (E.construct f arguments)) (m.run (F.construct f arguments))

variable {barred : EnvironmentId → Prop} {holds : Environment → Prop} {own : Rights} {moves : Bool} {α β : Type}
  {m : Machine} {s : EnvironmentStore} {E F : Engine}

/-! ## Rights -/

namespace Rights

theorem clear_confined (barred : EnvironmentId → Prop) (s : EnvironmentStore) : confined.Clear barred s :=
  ⟨fun _ no => no.elim, fun _ no => no.elim, fun _ no => no.elim, fun _ no => no.elim⟩

theorem Clear.grows {after : EnvironmentStore} (clear : own.Clear barred s) (grows : s.Grows after) :
    own.Clear barred after where
  building id mine := (clear.building id mine).grows grows
  entered id mine := (clear.entered id mine).grows grows
  around id mine := (clear.around id mine).grows grows
  reached id mine := (clear.reached id mine).grows grows

theorem Clear.finding {place : Option EnvironmentId} (clear : own.Clear barred s)
    (found : ∀ id, place = some id → s.Clear barred id) : (own.finding place).Clear barred s where
  building := clear.building
  entered := clear.entered
  around := clear.around
  reached id := (·.elim (clear.reached id) (found id))

theorem Clear.reaching {id : EnvironmentId} (clear : own.Clear barred s) (also : s.Clear barred id) :
    (own.reaching id).Clear barred s :=
  clear.finding fun other same => by
    obtain rfl := Option.some.inj same
    exact also

theorem Clear.standing {id : EnvironmentId} (clear : own.Clear barred s) (also : s.Clear barred id) :
    (own.standing id).Clear barred s where
  building := clear.building
  entered := clear.entered
  around other := (·.elim (clear.around other) fun same => same ▸ also)
  reached := (clear.reaching also).reached

theorem Clear.constructing {id : EnvironmentId} (clear : own.Clear barred s) (also : s.Clear barred id) :
    (own.constructing id).Clear barred s where
  building other := (·.elim (clear.building other) fun same => same ▸ also)
  entered := clear.entered
  around := clear.around
  reached := (clear.reaching also).reached

theorem Clear.entering {id : EnvironmentId} (clear : own.Clear barred s) (also : s.Clear barred id) :
    (own.entering id).Clear barred s where
  building := clear.building
  entered other := (·.elim (clear.entered other) fun same => same ▸ also)
  around := clear.around
  reached := clear.reached

end Rights

/-! ## States -/

namespace Machine

/-- Where nothing is barred, being outside is being rooted. -/
theorem outside_nothing (rooted : m.Rooted) : m.Outside nothing holds :=
  ⟨rooted.functions, rooted.lexical, rooted.shared, fun _ no => no.elim, fun _ no => no.elim⟩

theorem Outside.rooted (outside : m.Outside barred holds) : m.Rooted :=
  ⟨outside.functions, outside.lexical.mono fun _ no => no.elim, outside.shared.mono fun _ no => no.elim⟩

/-- The place is outside an environment if it does not lie within it. -/
theorem outside_of_rooted {e : EnvironmentId} (rooted : m.Rooted) (there : e.index < m.environments.environments.size)
    (away : ¬m.environments.Within m.context.lexical e)
    (unshared : ¬m.environments.Within m.realm.scriptEnvironment e) (now : holds (m.environments.get e)) :
    m.Outside (· = e) holds where
  functions := rooted.functions
  lexical := EnvironmentStore.clear_of_not_within rooted.lexical fun bar same => by rwa [same]
  shared := EnvironmentStore.clear_of_not_within rooted.shared fun bar same => by rwa [same]
  there id same := same ▸ there
  holds id same := same ▸ now

/-- A place that the code comes to by its names is as far outside as the code. -/
theorem Outside.reaches (outside : m.Outside barred holds) {id : EnvironmentId} (reaches : m.Reaches id) :
    m.environments.Clear barred id := by
  rcases reaches with within | rfl
  · exact outside.lexical.outward within
  · exact outside.shared

theorem stays_outside_trans {first second third : Machine} (early : first.StaysOutside barred holds moves second)
    (late : second.StaysOutside barred holds moves third) : first.StaysOutside barred holds moves third where
  outside := late.outside
  grows := EnvironmentStore.grows_trans early.grows late.grows
  realm := late.realm.trans early.realm
  callers := late.callers.trans early.callers
  lexical still := (late.lexical still).trans (early.lexical still)

theorem stays_outside_of_still {after : Machine} (stays : m.StaysOutside barred holds false after) :
    m.StaysOutside barred holds moves after :=
  ⟨stays.outside, stays.grows, stays.realm, stays.callers, fun _ => stays.lexical rfl⟩

/-- Nothing happened to functions, environments and contexts. -/
theorem stays_outside_of_same (outside : m.Outside barred holds) {after : Machine} (heap : after.heap = m.heap)
    (environments : after.environments = m.environments) (context : after.context = m.context)
    (callers : after.callers = m.callers) (realm : after.realm = m.realm) :
    m.StaysOutside barred holds moves after where
  outside := by
    obtain ⟨functions, lexical, shared, there, now⟩ := outside
    constructor
    · rwa [heap, environments]
    · rwa [environments, context]
    · rwa [environments, realm]
    · rwa [environments]
    · rwa [environments]
  grows := environments ▸ EnvironmentStore.grows_refl _
  realm := realm
  callers := callers
  lexical _ := by rw [context]

/-- Only the objects are other ones, and all functions of scripts among them are where functions may be. -/
theorem stays_outside_of_heap (outside : m.Outside barred holds) {heap : Heap}
    (placed : ∀ id, (heap.get id).Placed (m.environments.Clear nothing)) :
    m.StaysOutside barred holds moves { m with heap } where
  outside := ⟨placed, outside.lexical, outside.shared, outside.there, outside.holds⟩
  grows := EnvironmentStore.grows_refl _
  realm := rfl
  callers := rfl
  lexical _ := rfl

/-- An environment is added. -/
theorem stays_outside_add (outside : m.Outside barred holds) (e : Environment) :
    m.StaysOutside barred holds moves { m with environments := (m.environments.add e).2 } := by
  have grows := EnvironmentStore.grows_add m.environments e
  refine ⟨⟨fun id f runs => ?_, ?_, ?_, fun id bars => ?_, fun id bars => ?_⟩, grows, rfl, rfl, fun _ => rfl⟩
  · exact (outside.functions id f runs).grows grows
  · exact outside.lexical.grows grows
  · exact outside.shared.grows grows
  · exact Nat.lt_of_lt_of_le (outside.there id bars) grows.size
  · dsimp only
    rw [EnvironmentStore.get_add_of_lt e (outside.there id bars)]
    exact outside.holds id bars

/-- An environment is changed that is not barred. -/
theorem stays_outside_modify (outside : m.Outside barred holds) {id : EnvironmentId} (clear : m.environments.Clear barred id)
    {f : Environment → Environment} (outer : (f (m.environments.get id)).outer = (m.environments.get id).outer) :
    m.StaysOutside barred holds moves (m.run (modifyEnvironment id f)).2 := by
  have grows : m.environments.Grows (m.environments.set id (f (m.environments.get id))) :=
    EnvironmentStore.grows_set _ id outer
  refine ⟨⟨fun other g runs => ?_, ?_, ?_, fun other bars => ?_, fun other bars => ?_⟩, grows, rfl, rfl, fun _ => rfl⟩
  · exact (outside.functions other g runs).grows grows
  · exact outside.lexical.grows grows
  · exact outside.shared.grows grows
  · exact Nat.lt_of_lt_of_le (outside.there other bars) grows.size
  · have apart : id ≠ other := by
      rintro rfl
      exact clear.free bars
    rw [run_modify_environment, EnvironmentStore.get_set_of_ne _ apart]
    exact outside.holds other bars

theorem agrees_outside_trans {after : Machine} {run other : Except Abrupt α × Machine}
    (early : m.StaysOutside barred holds moves after) (late : after.AgreesOutside barred holds moves run other) :
    m.AgreesOutside barred holds moves run other :=
  ⟨late.same, stays_outside_trans early late.stays⟩

theorem agrees_outside_of_still {run other : Except Abrupt α × Machine}
    (agrees : m.AgreesOutside barred holds false run other) : m.AgreesOutside barred holds moves run other :=
  ⟨agrees.same, stays_outside_of_still agrees.stays⟩

theorem agrees_outside_bind {first otherFirst : Eval α} {rest otherRest : α → Eval β}
    (begins : m.AgreesOutside barred holds moves (m.run first) (m.run otherFirst))
    (goesOn : ∀ a (after : Machine), m.StaysOutside barred holds moves after →
      after.AgreesOutside barred holds moves (after.run (rest a)) (after.run (otherRest a))) :
    m.AgreesOutside barred holds moves (m.run (first >>= rest)) (m.run (otherFirst >>= otherRest)) := by
  rw [run_bind, run_bind, begins.same]
  cases ended : m.run first with
  | mk outcome after =>
    rw [ended] at begins
    cases outcome with
    | ok a => exact agrees_outside_trans begins.stays (goesOn a after begins.stays)
    | error e => exact ⟨rfl, begins.stays⟩

/-- What is done in a context of its own is left for the context around it. -/
theorem agrees_outside_in_context (outside : m.Outside barred holds) {c : Context} {action other : Eval α}
    (body : ({ m with context := c, callers := m.context :: m.callers } : Machine).AgreesOutside barred holds true
      (({ m with context := c, callers := m.context :: m.callers } : Machine).run action)
      (({ m with context := c, callers := m.context :: m.callers } : Machine).run other)) :
    m.AgreesOutside barred holds moves (m.run (inContext c action)) (m.run (inContext c other)) := by
  rw [run_in_context, run_in_context, body.same]
  dsimp only
  rw [run_pop_context body.stays.callers]
  obtain ⟨⟨functions, -, shared, there, now⟩, grows, realm, -, -⟩ := body.stays
  exact ⟨rfl, ⟨functions, outside.lexical.grows grows, shared, there, now⟩, grows, realm, rfl, fun _ => rfl⟩

end Machine

/-! ## Orderly actions -/

theorem proper_of_any (outside : m.Outside barred holds) (id : ObjectId) :
    (m.heap.get id).Proper .any (m.environments.Clear nothing) fun _ => True :=
  ⟨Heap.known_any _ id, outside.functions id, fun _ _ => trivial⟩

/-- An orderly action stays outside some environments if the engine does that it goes back to, and if nothing that
it may use is inside them. It is no different under an engine that is no different there. -/
theorem Orderly.agrees_outside {action : Engine → Eval α} (engines : E.AgreesOutside barred holds F)
    (orderly : Orderly .any own moves action) (outside : m.Outside barred holds)
    (clear : own.Clear barred m.environments) :
    m.AgreesOutside barred holds moves (m.run (action E)) (m.run (action F)) := by
  induction orderly generalizing m with
  | pure | raise | read | printLine => exact ⟨rfl, Machine.stays_outside_of_same outside rfl rfl rfl rfl rfl⟩
  | bind first next ihFirst ihNext =>
    refine Machine.agrees_outside_bind (ihFirst outside clear) fun a after stays => ?_
    exact ihNext a stays.outside (clear.grows stays.grows)
  | attempt tried ended failed passed ihTried ihEnded ihFailed =>
    have begins := ihTried outside clear
    rw [Machine.run_bind_ok (Machine.run_attempt ..), Machine.run_bind_ok (Machine.run_attempt ..), begins.same]
    have stays := begins.stays
    refine Machine.agrees_outside_trans stays ?_
    cases (m.run _).1 with
    | ok a => exact ihEnded a stays.outside (clear.grows stays.grows)
    | error e => exact ihFailed e (fun _ _ => trivial) stays.outside (clear.grows stays.grows)
  | here next ih => exact ih m.context.lexical outside (clear.standing outside.lexical)
  | find ask place blind found next ih =>
    exact ih (ask m) outside (clear.finding fun id same => outside.reaches (found m id same))
  | consult next ih => exact ih m.heap (Heap.known_any _) outside clear
  | aim target next ih =>
    exact ih (m.heap.callable? (.object target)) outside
      ⟨clear.building, clear.entered, clear.around, clear.reached⟩
  | rounds loop each ih =>
    dsimp only
    rw [engines.rounds]
    exact ih E.rounds outside clear
  | newObject o proper =>
    refine ⟨rfl, Machine.stays_outside_of_heap outside ?_⟩
    apply Heap.all_add outside.functions (proper_of_plain rfl : Object.Proper .any _ noObject default).placed
    exact fun f runs => (clear.reached _ (proper.placed f runs)).mono fun _ no => no.elim
  | make o proper next ih =>
    have placed : ∀ id, ((m.heap.add o).2.get id).Placed (m.environments.Clear nothing) := by
      apply Heap.all_add outside.functions (proper_of_plain rfl : Object.Proper .any _ noObject default).placed
      exact fun f runs => (clear.reached _ (proper.placed f runs)).mono fun _ no => no.elim
    have made : m.StaysOutside barred holds false { m with heap := (m.heap.add o).2 } :=
      Machine.stays_outside_of_heap outside placed
    refine Machine.agrees_outside_trans (Machine.stays_outside_of_still made) (ih (m.heap.add o).1 made.outside ?_)
    exact ⟨clear.building, clear.entered, clear.around, clear.reached⟩
  | change id f checked =>
    have same : (f (m.heap.get id)).2.kind = (m.heap.get id).kind := Object.change_kind (checked _)
    have placed := (proper_of_kind same (proper_of_any outside id)).placed
    exact ⟨rfl, Machine.stays_outside_of_heap outside (Heap.all_set outside.functions placed)⟩
  | changeOwn id f mine proper =>
    have placed := (proper _ _ _ (proper_of_any outside id)).placed
    exact ⟨rfl, Machine.stays_outside_of_heap outside (Heap.all_set outside.functions placed)⟩
  | build e firm inside made next ihMade ihNext =>
    obtain ⟨outer, found, around⟩ := inside
    -- A new environment is as far outside as the one around it, so it may be built and entered.
    have new := EnvironmentStore.clear_add outside.there found (clear.around outer around)
    have further := clear.grows (EnvironmentStore.grows_add m.environments e)
    have added : m.StaysOutside barred holds false { m with environments := (m.environments.add e).2 } :=
      Machine.stays_outside_add outside e
    have building := ihMade _ added.outside (further.constructing new)
    rw [Machine.run_bind_ok (Machine.run_new_environment ..), Machine.run_bind_ok (Machine.run_new_environment ..)]
    apply Machine.agrees_outside_trans (Machine.stays_outside_of_still added)
    refine Machine.agrees_outside_bind (Machine.agrees_outside_of_still building) fun b after stays => ?_
    exact ihNext _ b stays.outside ((further.entering new).grows stays.grows)
  | construction id f mine firm outer =>
    exact ⟨rfl, Machine.stays_outside_modify outside (clear.building id mine) (outer _)⟩
  | alter id f reached lawful firm =>
    exact ⟨rfl, Machine.stays_outside_modify outside (clear.reached id reached) (lawful _).outer⟩
  | firstValue name value allowed =>
    exact ⟨rfl, Machine.stays_outside_modify (f := fun e => (e.initialize? name value).2) outside outside.lexical
      (Environment.outer_initialize ..)⟩
  | inContext c made body ih =>
    apply Machine.agrees_outside_in_context outside
    refine ih ⟨outside.functions, clear.entered _ made, outside.shared, outside.there, outside.holds⟩ ?_
    exact ⟨clear.building, clear.entered, clear.around, clear.reached⟩
  | inEnvironment id made body ih =>
    have entered : ({ m with context := { m.context with lexical := id } } : Machine).Outside barred holds :=
      ⟨outside.functions, clear.entered _ made, outside.shared, outside.there, outside.holds⟩
    have agrees := ih entered ⟨clear.building, clear.entered, clear.around, clear.reached⟩
    rw [Machine.run_in_environment, Machine.run_in_environment, agrees.same]
    obtain ⟨⟨functions, -, shared, there, now⟩, grows, realm, callers, -⟩ := agrees.stays
    exact ⟨rfl, ⟨functions, outside.lexical.grows grows, shared, there, now⟩, grows, realm, callers, fun _ => rfl⟩
  | script c names reached refused begun ihRefused ihBegun =>
    -- A whole script runs in the place that all of them share, wherever it is begun.
    have entered : ({ m with context := c, callers := m.context :: m.callers } : Machine).Outside barred holds :=
      ⟨outside.functions, clear.reached _ reached, outside.shared, outside.there, outside.holds⟩
    apply Machine.agrees_outside_in_context outside
    rw [Machine.run_declare_in, Machine.run_declare_in]
    split
    · exact ihRefused entered ⟨clear.building, clear.entered, clear.around, clear.reached⟩
    · let opened : Machine := { m with context := c, callers := m.context :: m.callers }
      have declared : opened.StaysOutside barred holds true
          (opened.run (modifyEnvironment c.lexical (·.createLexical names))).2 :=
        Machine.stays_outside_modify entered (clear.reached _ reached) (Environment.outer_create_lexical ..)
      have further := clear.grows declared.grows
      refine Machine.agrees_outside_trans declared (ihBegun declared.outside ?_)
      exact ⟨further.building, further.entered, further.around, further.reached⟩
  | setLexicalEnvironment id made =>
    have entered : ({ m with context := { m.context with lexical := id } } : Machine).Outside barred holds :=
      ⟨outside.functions, clear.entered _ made, outside.shared, outside.there, outside.holds⟩
    exact ⟨rfl, entered, EnvironmentStore.grows_refl _, rfl, rfl, nofun⟩
  | nested body ih =>
    rcases Nat.lt_or_ge m.callDepth m.options.maxCallDepth with room | full
    · have deeper : ({ m with callDepth := m.callDepth + 1 } : Machine).Outside barred holds :=
        ⟨outside.functions, outside.lexical, outside.shared, outside.there, outside.holds⟩
      have agrees := ih deeper clear
      rw [Machine.run_nested room, Machine.run_nested room, agrees.same]
      obtain ⟨⟨functions, lexical, shared, there, now⟩, grows, realm, callers, still⟩ := agrees.stays
      exact ⟨rfl, ⟨functions, lexical, shared, there, now⟩, grows, realm, callers, still⟩
    · rw [Machine.run_nested_refused full, Machine.run_nested_refused full]
      exact ⟨rfl, Machine.stays_outside_of_same outside rfl rfl rfl rfl rfl⟩
  | evaluate e => exact Machine.agrees_outside_of_still (engines.evaluate e m outside)
  | execute labels s => exact Machine.agrees_outside_of_still (engines.execute labels s m outside)
  | call f this arguments => exact Machine.agrees_outside_of_still (engines.call f this arguments m outside)
  | construct f arguments => exact Machine.agrees_outside_of_still (engines.construct f arguments m outside)

/-- An engine is no different from itself. -/
theorem agrees_outside_self (engine : E.StaysOutside barred holds) : E.AgreesOutside barred holds E where
  rounds := rfl
  evaluate e m outside := ⟨rfl, engine.evaluate e m outside⟩
  execute labels s m outside := ⟨rfl, engine.execute labels s m outside⟩
  call f this arguments m outside := ⟨rfl, engine.call f this arguments m outside⟩
  construct f arguments m outside := ⟨rfl, engine.construct f arguments m outside⟩

theorem Orderly.stays_outside {action : Engine → Eval α} (engine : E.StaysOutside barred holds)
    (orderly : Orderly .any own moves action) (outside : m.Outside barred holds)
    (clear : own.Clear barred m.environments) : m.StaysOutside barred holds moves (m.run (action E)).2 :=
  (orderly.agrees_outside (agrees_outside_self engine) outside clear).stays

/-! ## Engines -/

/-- Where a function of a script was made that a value is found to be. -/
theorem placed_callable {within : EnvironmentId → Prop} {h : Heap} (placed : ∀ id, (h.get id).Placed within)
    {value : Value} {f : ScriptFunction} (found : h.callable? value = some (.script f)) : within f.environment := by
  cases value with
  | object id => exact placed id f found
  | _ => cases found

section Next

variable (engines : E.AgreesOutside barred holds F) (outside : m.Outside barred holds)
include engines outside

/-- A call stays outside if the function was made outside. -/
theorem Machine.agrees_outside_call (f this : Value) (arguments : List Value)
    (apart : ∀ g, m.heap.callable? f = some (.script g) → m.environments.Clear barred g.environment) :
    m.AgreesOutside barred holds false (m.run (callValue E f this arguments))
      (m.run (callValue F f this arguments)) := by
  let own : Rights :=
    { Rights.confined with around := fun id => ∃ g, m.heap.callable? f = some (.script g) ∧ g.environment = id }
  have orderly : Orderly .any own false fun E => callFound E f this arguments (m.heap.callable? f) :=
    orderly_call_found f this arguments (fun g _ => Terms.known_any g) fun g found => ⟨g, found, rfl⟩
  rw [call_value_finds, call_value_finds, Machine.run_bind_ok (Machine.run_ask ..),
    Machine.run_bind_ok (Machine.run_ask ..)]
  apply orderly.agrees_outside engines outside
  refine ⟨fun _ no => no.elim, fun _ no => no.elim, ?_, fun _ no => no.elim⟩
  rintro _ ⟨g, found, rfl⟩
  exact apart g found

theorem Machine.agrees_outside_construct (f : Value) (arguments : List Value)
    (apart : ∀ g, m.heap.callable? f = some (.script g) → m.environments.Clear barred g.environment) :
    m.AgreesOutside barred holds false (m.run (constructValue E f arguments))
      (m.run (constructValue F f arguments)) := by
  let own : Rights :=
    { Rights.confined with around := fun id => ∃ g, m.heap.callable? f = some (.script g) ∧ g.environment = id }
  have orderly : Orderly .any own false fun E =>
      constructFound E f arguments ((m.heap.callable? f).filter m.heap.isConstructor) :=
    orderly_construct_found f arguments (fun g _ => Terms.known_any g)
      fun g found => ⟨g, (Option.filter_eq_some_iff.1 found).1, rfl⟩
  rw [construct_value_finds, construct_value_finds, Machine.run_bind_ok (Machine.run_ask ..),
    Machine.run_bind_ok (Machine.run_ask ..)]
  apply orderly.agrees_outside engines outside
  refine ⟨fun _ no => no.elim, fun _ no => no.elim, ?_, fun _ no => no.elim⟩
  rintro _ ⟨g, found, rfl⟩
  exact apart g found

end Next

theorem spent_stays_outside : Engine.spent.StaysOutside barred holds := by
  have nothing {γ : Type} (m : Machine) (outside : m.Outside barred holds) :
      m.StaysOutside barred holds false (m.run (throw .exhausted : Eval γ)).2 :=
    Machine.stays_outside_of_same outside rfl rfl rfl rfl rfl
  exact ⟨fun _ => nothing, fun _ _ => nothing, fun _ _ _ => nothing, fun _ _ => nothing⟩

/-- Where nothing is barred, all functions are made outside. -/
theorem next_agrees_rooted (engines : E.AgreesOutside nothing holds F) (rounds : Nat) :
    (E.next rounds).AgreesOutside nothing holds (F.next rounds) := by
  constructor
  · rfl
  · intro x m outside
    exact (orderly_evaluate_form x.form).agrees_outside engines outside (Rights.clear_confined ..)
  · intro labels s m outside
    have orderly : Orderly .any .confined false fun E => executeForm E labels s.form :=
      orderly_execute_form labels fun named => named.elim
    exact orderly.agrees_outside engines outside (Rights.clear_confined ..)
  · intro f this arguments m outside
    exact Machine.agrees_outside_call engines outside f this arguments fun g => placed_callable outside.functions
  · intro f arguments m outside
    exact Machine.agrees_outside_construct engines outside f arguments fun g => placed_callable outside.functions

theorem next_stays_rooted (engine : E.StaysOutside nothing holds) (rounds : Nat) :
    (E.next rounds).StaysOutside nothing holds := by
  have agrees := next_agrees_rooted (agrees_outside_self engine) rounds
  constructor
  · exact fun e m outside => (agrees.evaluate e m outside).stays
  · exact fun labels s m outside => (agrees.execute labels s m outside).stays
  · exact fun f this arguments m outside => (agrees.call f this arguments m outside).stays
  · exact fun f arguments m outside => (agrees.construct f arguments m outside).stays

theorem engine_stays_rooted (holds : Environment → Prop) (steps : Nat) :
    (engineAt steps).StaysOutside nothing holds := by
  induction steps with
  | zero => exact spent_stays_outside
  | succ steps ih => exact next_stays_rooted ih steps

/-! ## Runs in rooted states -/

open Classical in
/-- Does something in states that meet a condition: in others it stops. -/
noncomputable def onlyWhere {α : Type} (meets : Machine → Prop) (action : Eval α) : Eval α := fun m =>
  if meets m then action m else .error .exhausted m

/-- The engine with a number of steps that stops wherever it comes to a state that is not rooted. -/
noncomputable def rootedAt : Nat → Engine
  | 0 => .spent
  | steps + 1 => {
    rounds := steps
    evaluate := fun e => onlyWhere Machine.Rooted (evaluateForm (rootedAt steps) e.form)
    execute := fun labels s => onlyWhere Machine.Rooted (executeForm (rootedAt steps) labels s.form)
    call := fun f this arguments => onlyWhere Machine.Rooted (callValue (rootedAt steps) f this arguments)
    construct := fun f arguments => onlyWhere Machine.Rooted (constructValue (rootedAt steps) f arguments) }

theorem Machine.run_only_where {meets : Machine → Prop} (met : meets m) (action : Eval α) :
    m.run (onlyWhere meets action) = m.run action := by
  have same : onlyWhere meets action m = action m := by
    unfold onlyWhere
    rw [if_pos met]
  unfold Machine.run
  rw [same]

/-- From a rooted state no run comes to any other one. -/
theorem rooted_engine_agrees (holds : Environment → Prop) (steps : Nat) :
    (engineAt steps).AgreesOutside nothing holds (rootedAt steps) := by
  induction steps with
  | zero => exact agrees_outside_self spent_stays_outside
  | succ steps ih =>
    have next := next_agrees_rooted ih steps
    have checked {γ : Type} {m : Machine} (outside : m.Outside nothing holds) {action other : Eval γ}
        (agrees : m.AgreesOutside nothing holds false (m.run action) (m.run other)) :
        m.AgreesOutside nothing holds false (m.run action) (m.run (onlyWhere Machine.Rooted other)) :=
      ⟨(Machine.run_only_where outside.rooted other).trans agrees.same, agrees.stays⟩
    constructor
    · rfl
    · exact fun e m outside => checked outside (next.evaluate e m outside)
    · exact fun labels s m outside => checked outside (next.execute labels s m outside)
    · exact fun f this arguments m outside => checked outside (next.call f this arguments m outside)
    · exact fun f arguments m outside => checked outside (next.construct f arguments m outside)

/-! ## What is said of an environment -/

/-- A value is a function of a script that was made inside an environment. -/
def Machine.LivesIn (m : Machine) (e : EnvironmentId) (function : Value) : Prop :=
  ∃ f, m.heap.callable? function = some (.script f) ∧ m.environments.Within f.environment e

open Classical in
/-- Calls a function as usual if it was made inside an environment and something holds of the environment once the
call is over; if it does not, the run stops before the call. Any other function is called in another way. -/
noncomputable def guardCall (e : EnvironmentId) (holds : Environment → Prop) (function : Value)
    (usual other : Eval Value) : Eval Value := fun m =>
  if m.LivesIn e function then
    if holds ((m.run usual).2.environments.get e) then usual m else .error .exhausted m
  else other m

/-- The engine with a number of steps that stops before it calls a function that was made inside an environment, if
something would no longer hold of the environment after the call. -/
noncomputable def guardingAt (e : EnvironmentId) (holds : Environment → Prop) : Nat → Engine
  | 0 => .spent
  | steps + 1 => { (guardingAt e holds steps).next steps with
      call := fun f this arguments =>
        guardCall e holds f ((engineAt (steps + 1)).call f this arguments)
          (callValue (guardingAt e holds steps) f this arguments)
      construct := fun f arguments =>
        guardCall e holds f ((engineAt (steps + 1)).construct f arguments)
          (constructValue (guardingAt e holds steps) f arguments) }

/-- A state that is outside one environment. -/
theorem Machine.outside_again {e : EnvironmentId} {after : Machine} (outside : m.Outside (· = e) holds)
    (stays : m.StaysOutside nothing (fun _ => True) false after) (now : holds (after.environments.get e)) :
    m.StaysOutside (· = e) holds false after where
  outside := by
    refine ⟨stays.outside.functions, ?_, ?_, fun id same => ?_, fun id same => same ▸ now⟩
    · rw [stays.lexical rfl]
      exact outside.lexical.grows stays.grows
    · rw [stays.realm]
      exact outside.shared.grows stays.grows
    · exact Nat.lt_of_lt_of_le (outside.there id same) stays.grows.size
  grows := stays.grows
  realm := stays.realm
  callers := stays.callers
  lexical := stays.lexical

open Classical in
theorem Machine.run_guard_call (e : EnvironmentId) (holds : Environment → Prop) (f : Value)
    (usual other : Eval Value) :
    m.run (guardCall e holds f usual other) =
      if m.LivesIn e f then
        if holds ((m.run usual).2.environments.get e) then m.run usual else (.error .exhausted, m)
      else m.run other := by
  have runs {action : Eval Value} (same : guardCall e holds f usual other m = action m) :
      m.run (guardCall e holds f usual other) = m.run action := by
    unfold run
    rw [same]
  unfold guardCall at runs ⊢
  split
  · next lives =>
    split
    · next kept => exact runs (by rw [if_pos lives, if_pos kept])
    · next broken =>
      have stops : (if m.LivesIn e f then if holds ((m.run usual).2.environments.get e) then usual m
          else .error .exhausted m else other m) = (throw .exhausted : Eval Value) m := by
        rw [if_pos lives, if_neg broken]
        rfl
      exact runs stops
  · next apart => exact runs (if_neg apart)

/-- A call that is guarded stays outside. -/
theorem Machine.stays_outside_guarded {e : EnvironmentId} (outside : m.Outside (· = e) holds) (f : Value)
    {usual other : Eval Value} (rooted : m.StaysOutside nothing (fun _ => True) false (m.run usual).2)
    (apart : (∀ g, m.heap.callable? f = some (.script g) → m.environments.Clear (· = e) g.environment) →
      m.StaysOutside (· = e) holds false (m.run other).2) :
    m.StaysOutside (· = e) holds false (m.run (guardCall e holds f usual other)).2 := by
  rw [run_guard_call]
  split
  · split
    -- The function may do anything inside, but what is said still holds when it is done.
    · next kept => exact outside_again outside rooted kept
    · exact stays_outside_of_same outside rfl rfl rfl rfl rfl
  · next apartFrom =>
    apply apart
    intro g found
    apply EnvironmentStore.clear_of_not_within (placed_callable outside.functions found)
    rintro _ rfl within
    exact apartFrom ⟨g, found, within⟩

/-- Whatever the engine does that is guarded, what is said of an environment goes on to hold as long as the run
starts outside. -/
theorem guarding_stays_outside (e : EnvironmentId) (holds : Environment → Prop) (steps : Nat) :
    (guardingAt e holds steps).StaysOutside (· = e) holds := by
  induction steps with
  | zero => exact spent_stays_outside
  | succ steps ih =>
    have rooted := engine_stays_rooted (fun _ => True) (steps + 1)
    constructor
    · intro x m outside
      exact (orderly_evaluate_form x.form).stays_outside ih outside (Rights.clear_confined ..)
    · intro labels s m outside
      have orderly : Orderly .any .confined false fun E => executeForm E labels s.form :=
        orderly_execute_form labels fun named => named.elim
      exact orderly.stays_outside ih outside (Rights.clear_confined ..)
    · intro f this arguments m outside
      apply Machine.stays_outside_guarded outside f
      · exact rooted.call f this arguments m (Machine.outside_nothing outside.rooted)
      · intro apart
        exact (Machine.agrees_outside_call (agrees_outside_self ih) outside f this arguments apart).stays
    · intro f arguments m outside
      apply Machine.stays_outside_guarded outside f
      · exact rooted.construct f arguments m (Machine.outside_nothing outside.rooted)
      · intro apart
        exact (Machine.agrees_outside_construct (agrees_outside_self ih) outside f arguments apart).stays

end ScriptEngine
