import ScriptEngine.Proofs.Environment.GlobalObject
import ScriptEngine.Proofs.Environment.Lifetime
import ScriptEngine.Proofs.Evaluation.HeapHistory

/-!
What is left when the names of a script cannot all be declared. The names of `let` and `const` are all looked up
before any of them is declared, but the global object is not asked beforehand whether it takes the functions and
variables: where it refuses one, the names before it have been declared.
-/

namespace ScriptEngine

/-! ## Declarations -/

/-- The global object. -/
def Machine.globals (m : Machine) : Object := m.heap.get m.realm.globalObject

/-- There is a global object, which is no array, and an environment for the names of scripts, which holds its
bindings itself. -/
structure Machine.HasGlobals (m : Machine) : Prop where
  there : m.realm.globalObject.index < m.heap.objects.size
  plain : m.globals.isArray = false
  scope : m.realm.scriptEnvironment.index < m.environments.environments.size
  holds : (m.environments.get m.realm.scriptEnvironment).isDeclarative = true

/-- Between two states functions have been declared by some names as properties of the global object, which is
the same otherwise. Each of these functions is a new object. -/
structure Machine.Declares (before after : Machine) (names : List String) : Prop where
  environments : after.environments = before.environments
  realm : after.realm = before.realm
  size : before.heap.objects.size ≤ after.heap.objects.size
  kind : after.globals.kind = before.globals.kind
  extensible : after.globals.extensible = before.globals.extensible
  declared : ∀ name ∈ names, ∃ f : ObjectId, before.heap.objects.size ≤ f.index ∧
    after.globals.getOwn? name = some (globalProperty (.object f))
  kept : ∀ name, name ∉ names → after.globals.getOwn? name = before.globals.getOwn? name

/-- A new engine has what it shares among scripts. -/
theorem new_has_globals : (Machine.new {}).HasGlobals := by
  constructor <;> decide +kernel

/-- No task takes away what scripts share. -/
theorem has_globals_lasts (steps : Nat) (task : Task) {m : Machine} (has : m.HasGlobals) :
    (m.run (task.perform (engineAt steps))).2.HasGlobals := by
  have orderly : Orderly .any .none false fun E => task.perform E := task.orderly_perform trivial id
  have continues := orderly.continues_steady Terms.lenient_any (engine_steady Terms.lenient_any steps) m
  have evolves := orderly.evolves (engine_keeps_history steps) m
  have kind := Object.changes_kind (evolves.changes m.realm.globalObject has.there fun no => no)
  have keeps := continues.environments.environments m.realm.scriptEnvironment has.scope id
  constructor
  · rw [continues.realm]
    exact Nat.lt_of_lt_of_le has.there evolves.size
  · have plain := has.plain
    unfold Machine.globals Object.isArray at plain ⊢
    rw [continues.realm, kind]
    exact plain
  · rw [continues.realm]
    exact Nat.lt_of_lt_of_le has.scope continues.environments.size
  · rw [continues.realm, keeps.declarative]
    exact has.holds

theorem has_globals_after_tasks (steps : Nat) (tasks : List Task) {m : Machine} (has : m.HasGlobals) :
    (m.afterTasks (engineAt steps) tasks).HasGlobals := by
  induction tasks generalizing m with
  | nil => exact has
  | cons task rest ih => exact ih (has_globals_lasts steps task has)

section Declaring

variable {m here after : Machine} {names : List String} (has : m.HasGlobals)
include has

theorem has_globals_of_declares (declares : m.Declares here names) : here.HasGlobals where
  there := by
    rw [declares.realm]
    exact Nat.lt_of_lt_of_le has.there declares.size
  plain := by
    have plain := has.plain
    unfold Object.isArray at plain ⊢
    rw [declares.kind]
    exact plain
  scope := by
    rw [declares.realm, declares.environments]
    exact has.scope
  holds := by
    rw [declares.realm, declares.environments]
    exact has.holds

/-- Whatever is added does not concern the global object. -/
theorem declares_of_adds (declares : m.Declares here names) (adds : here.Adds after) :
    m.Declares after names := by
  have same : after.globals = here.globals := by
    unfold Machine.globals
    rw [adds.realm]
    exact adds.objects _ (has_globals_of_declares has declares).there
  exact ⟨adds.environments.trans declares.environments, adds.realm.trans declares.realm,
    Nat.le_trans declares.size adds.size, same ▸ declares.kind, same ▸ declares.extensible,
    same ▸ declares.declared, same ▸ declares.kept⟩

/-- The global object with a further function. -/
theorem declares_of_gains (declares : m.Declares here names) {changed : Object} {name : String} {f : ObjectId}
    (gains : here.globals.Gains changed name (globalProperty (.object f)))
    (new : m.heap.objects.size ≤ f.index) :
    m.Declares { here with heap := here.heap.set here.realm.globalObject changed } (names ++ [name]) := by
  have now : Machine.globals { here with heap := here.heap.set here.realm.globalObject changed } = changed :=
    Heap.get_set_self _ (has_globals_of_declares has declares).there
  refine ⟨declares.environments, declares.realm, ?_, ?_, ?_, fun other among => ?_, fun other absent => ?_⟩
  · rw [Heap.size_set]
    exact declares.size
  · rw [now, gains.kind, declares.kind]
  · rw [now, gains.extensible, declares.extensible]
  · rw [now, gains.own]
    split
    · exact ⟨f, new, rfl⟩
    · next different =>
      refine declares.declared other ((List.mem_append.mp among).resolve_right fun last => ?_)
      exact different (List.mem_singleton.mp last).symm
  · have different : name ≠ other := fun same => absent (List.mem_append_right _ (same ▸ .head _))
    rw [now, gains.own, if_neg different]
    exact declares.kept other fun mem => absent (List.mem_append_left _ mem)

omit has in
/-- A function may be declared after others as it could have been before them, or again. -/
theorem accepts_of_declares (declares : m.Declares here names) (name : String) :
    here.globals.acceptsFunction name = (names.contains name || m.globals.acceptsFunction name) := by
  unfold Object.acceptsFunction
  cases among : names.contains name with
  | true =>
    obtain ⟨f, -, own⟩ := declares.declared name (List.contains_iff_mem.mp among)
    rw [own]
    rfl
  | false =>
    have absent : name ∉ names := fun mem => by
      rw [List.contains_iff_mem.mpr mem] at among
      cases among
    rw [declares.kept name absent, declares.extensible, Bool.false_or]

end Declaring

/-! ## Single declarations -/

section Single

variable {E : Engine} {m : Machine} (has : m.HasGlobals)
include has

/-- A property of the global object is defined, or an error is thrown. -/
theorem run_define_global (name : String) (patch : PropertyPatch) (throws : Bool) {accepted : Bool}
    {changed : Object} (defined : m.globals.define name patch = (accepted, changed)) :
    let after : Machine := { m with heap := m.heap.set m.realm.globalObject changed }
    m.run (defineProperty E m.realm.globalObject name patch throws) =
      if !accepted && throws then after.run (throwFault (.redefinition name)) else (.ok accepted, after) := by
  intro after
  have plain : (m.heap.get m.realm.globalObject).isArray = false := has.plain
  have defined : (m.heap.get m.realm.globalObject).define name patch = (accepted, changed) := defined
  unfold defineProperty
  rw [Machine.run_bind_ok (Machine.run_ask ..), plain, Bool.false_and]
  rw [if_neg Bool.false_ne_true, pure_bind, Machine.run_bind_ok (Machine.run_update_object ..), defined]
  dsimp only
  split
  · rw [throw_fault_bind]
  · rfl

/-- A property that is accepted is defined, and nothing else is done. -/
theorem run_define_accepted {name : String} {patch : PropertyPatch} {throws : Bool} {changed : Object}
    (defined : m.globals.define name patch = (true, changed)) :
    m.run (discard (defineProperty E m.realm.globalObject name patch throws)) =
      (.ok (), { m with heap := m.heap.set m.realm.globalObject changed }) := by
  have ran := Machine.run_map m (fun _ => ()) (defineProperty E m.realm.globalObject name patch throws)
  rw [run_define_global has name patch throws defined] at ran
  exact ran

/-- A new property of an object that takes no more of them is an error. -/
theorem run_define_refused {name : String} (absent : m.globals.getOwn? name = none)
    (full : m.globals.extensible = false) (patch : PropertyPatch) :
    ∃ e after, m.run (discard (defineProperty E m.realm.globalObject name patch true)) = (.error e, after) ∧
      m.Adds after := by
  have ran := Machine.run_map m (fun _ => ()) (defineProperty E m.realm.globalObject name patch true)
  rw [run_define_global has name patch true (Object.define_of_full has.plain absent full patch)] at ran
  let same : Machine := { m with heap := m.heap.set m.realm.globalObject m.globals }
  have adds : m.Adds same := by
    refine ⟨rfl, rfl, Nat.le_of_eq (Heap.size_set ..).symm, fun id _ => ?_⟩
    by_cases equal : m.realm.globalObject = id
    · subst equal
      exact Heap.get_set_self _ has.there
    · exact Heap.get_set_of_ne _ equal
  obtain ⟨e, after, thrown, more⟩ := run_throw_fault Bool same (.redefinition name)
  refine ⟨e, after, ran.trans ?_, adds_trans adds more⟩
  have ended : (if !false && true then same.run (throwFault (.redefinition name)) else (.ok false, same)) =
      (.error e, after) := thrown
  rw [ended]
  rfl

end Single

/-- Gives a global name to a function that has been made. -/
def giveGlobal (engine : Engine) (global : ObjectId) (name : String) (f : ObjectId) (strict : Bool) :
    Eval Unit := do
  match (← getObject global).getOwn? name with
  | some ⟨kind, enumerable, false⟩ =>
    unless (⟨kind, enumerable, false⟩ : Property).isWritable && enumerable do
      throwFault (.globalFunctionRefused name)
    putProperty engine global name (.object f) strict
  | _ => discard (defineProperty engine global name (.data (.object f) globalAttributes) true)

theorem declare_global_function_eq (E : Engine) (strict : Bool) (code : FunctionCode) :
    declareGlobalFunction E strict code =
      (match code.name with
      | none => pure ()
      | some name => do
        let realm ← getRealm
        let f ← createScriptFunction code realm.scriptEnvironment
        giveGlobal E realm.globalObject name f strict) := rfl

section Giving

variable {m : Machine} (has : m.HasGlobals) (E : Engine) {name : String} (f : ObjectId) (strict : Bool)
include has

theorem give_global_accepted (accepted : m.globals.acceptsFunction name = true) :
    ∃ changed, m.run (giveGlobal E m.realm.globalObject name f strict) =
        (.ok (), { m with heap := m.heap.set m.realm.globalObject changed }) ∧
      m.globals.Gains changed name (globalProperty (.object f)) := by
  have asked : m.run (getObject m.realm.globalObject) = (.ok m.globals, m) := rfl
  unfold giveGlobal
  rw [Machine.run_bind_ok asked]
  unfold Object.acceptsFunction at accepted
  cases own : m.globals.getOwn? name with
  | none =>
    rw [own] at accepted
    obtain ⟨changed, defined, gains⟩ := Object.gains_of_absent has.plain own accepted (.object f)
    exact ⟨changed, run_define_accepted has defined, gains⟩
  | some p =>
    obtain ⟨kind, enumerable, configurable⟩ := p
    rw [own] at accepted
    cases configurable with
    | true =>
      obtain ⟨changed, defined, gains⟩ := Object.gains_of_configurable has.plain own rfl (.object f)
      exact ⟨changed, run_define_accepted has defined, gains⟩
    | false =>
      obtain ⟨writable, seen⟩ := Bool.and_eq_true_iff.mp accepted
      cases kind with
      | accessor get set => cases writable
      | data old mutable =>
        obtain rfl : mutable = true := writable
        obtain rfl : enumerable = true := seen
        obtain ⟨changed, defined, gains⟩ := Object.gains_of_writable has.plain own (.object f)
        refine ⟨changed, ?_, gains⟩
        change m.run (putProperty E m.realm.globalObject name (.object f) strict) = _
        unfold putProperty
        rw [Machine.run_bind_ok asked]
        dsimp only
        rw [own]
        exact run_define_accepted has defined

theorem give_global_refused (refused : m.globals.acceptsFunction name = false) :
    ∃ e after, m.run (giveGlobal E m.realm.globalObject name f strict) = (.error e, after) ∧ m.Adds after := by
  have asked : m.run (getObject m.realm.globalObject) = (.ok m.globals, m) := rfl
  unfold giveGlobal
  rw [Machine.run_bind_ok asked]
  unfold Object.acceptsFunction at refused
  cases own : m.globals.getOwn? name with
  | none =>
    rw [own] at refused
    exact run_define_refused has own refused _
  | some p =>
    obtain ⟨kind, enumerable, configurable⟩ := p
    rw [own] at refused
    cases configurable with
    | true => cases refused
    | false =>
      dsimp only
      have refused : ((⟨kind, enumerable, false⟩ : Property).isWritable && enumerable) = false := refused
      rw [refused]
      obtain ⟨e, after, thrown, adds⟩ := run_throw_fault Unit m (.globalFunctionRefused name)
      exact ⟨e, after, Machine.run_bind_error thrown _, adds⟩

end Giving

section Lists

variable {E : Engine} {m here after : Machine} {names : List String} (has : m.HasGlobals)
  (declares : m.Declares here names)
include has declares

/-- A function that the global object accepts is declared. -/
theorem declares_accepted (strict : Bool) {code : FunctionCode} {name : String} (named : code.name = some name)
    (accepted : here.globals.acceptsFunction name = true) :
    ∃ after, here.run (declareGlobalFunction E strict code) = (.ok (), after) ∧
      m.Declares after (names ++ [name]) := by
  rw [declare_global_function_eq, named]
  obtain ⟨f, created, makes, adds, new, -⟩ := run_create_script_function here code here.realm.scriptEnvironment
  have now := declares_of_adds has declares adds
  rw [accepts_of_declares declares, ← accepts_of_declares now] at accepted
  obtain ⟨changed, gives, gains⟩ :=
    give_global_accepted (has_globals_of_declares has now) E f strict accepted
  refine ⟨_, ?_, declares_of_gains has now gains (Nat.le_trans declares.size new)⟩
  dsimp only
  rw [Machine.run_bind_ok (rfl : here.run getRealm = (.ok here.realm, here)), Machine.run_bind_ok makes,
    ← adds.realm]
  exact gives

/-- A function that the global object does not accept is an error. -/
theorem declares_refused (strict : Bool) {code : FunctionCode} {name : String} (named : code.name = some name)
    (refused : here.globals.acceptsFunction name = false) :
    ∃ e after, here.run (declareGlobalFunction E strict code) = (.error e, after) ∧ m.Declares after names := by
  rw [declare_global_function_eq, named]
  obtain ⟨f, created, makes, adds, -⟩ := run_create_script_function here code here.realm.scriptEnvironment
  have now := declares_of_adds has declares adds
  rw [accepts_of_declares declares, ← accepts_of_declares now] at refused
  obtain ⟨e, after, gives, more⟩ :=
    give_global_refused (has_globals_of_declares has now) E f strict refused
  refine ⟨e, after, ?_, declares_of_adds has now more⟩
  dsimp only
  rw [Machine.run_bind_ok (rfl : here.run getRealm = (.ok here.realm, here)), Machine.run_bind_ok makes,
    ← adds.realm]
  exact gives

/-- Functions are declared up to the first that the global object did not accept from the start. -/
theorem declares_functions (strict : Bool) (functions : List FunctionCode)
    (fine : ∀ name ∈ names, m.globals.acceptsFunction name = true) :
    m.Declares (here.run (functions.forM (declareGlobalFunction E strict))).2
      (names ++ (functions.takeWhile m.globals.acceptsDeclared).filterMap FunctionCode.name) := by
  rw [List.forM_eq_forM]
  induction functions generalizing here names with
  | nil =>
    rw [List.takeWhile_nil, List.filterMap_nil, List.append_nil]
    exact declares
  | cons code rest ih =>
    rw [List.forM_cons]
    cases named : code.name with
    | none =>
      have skipped : here.run (declareGlobalFunction E strict code) = (.ok (), here) := by
        rw [declare_global_function_eq, named]
        rfl
      have accepted : m.globals.acceptsDeclared code = true := by
        unfold Object.acceptsDeclared
        rw [named]
      rw [Machine.run_bind_ok skipped, List.takeWhile_cons_of_pos accepted, List.filterMap_cons_none named]
      exact ih declares fine
    | some name =>
      have same : m.globals.acceptsDeclared code = m.globals.acceptsFunction name := by
        unfold Object.acceptsDeclared
        rw [named]
      cases accepted : m.globals.acceptsFunction name with
      | true =>
        obtain ⟨next, ran, now⟩ := declares_accepted (E := E) has declares strict named (by
          rw [accepts_of_declares declares, accepted, Bool.or_true])
        rw [Machine.run_bind_ok ran, List.takeWhile_cons_of_pos (same.trans accepted),
          List.filterMap_cons_some named, List.append_cons]
        refine ih now fun other mem => ?_
        rcases List.mem_append.mp mem with old | new
        · exact fine other old
        · rw [List.mem_singleton.mp new]
          exact accepted
      | false =>
        have fresh : name ∉ names := fun among => by
          have accepts := fine name among
          rw [accepted] at accepts
          cases accepts
        obtain ⟨e, after, ran, now⟩ := declares_refused (E := E) has declares strict named (by
          rw [accepts_of_declares declares, accepted, Bool.or_false]
          exact Bool.eq_false_iff.mpr fun among => fresh (List.contains_iff_mem.mp among))
        rw [Machine.run_bind_error ran, List.takeWhile_cons_of_neg (by rw [same, accepted]; exact nofun),
          List.filterMap_nil, List.append_nil]
        exact now

end Lists

section Vars

variable {E : Engine} {m here after : Machine} {name : String}

/-- A variable is not declared where the global object has a property of its name. -/
theorem run_declare_global_var (E : Engine) (here : Machine) (name : String) :
    here.run (declareGlobalVar E name) = here.run (if (here.globals.getOwn? name).isSome then pure () else
      discard (defineProperty E here.realm.globalObject name (.data .undefined globalAttributes) true)) := rfl

/-- All variables can be declared while the global object takes new properties. -/
theorem vars_succeed (has : here.HasGlobals) (room : here.globals.extensible = true) (vars : List String) :
    (here.run (vars.forM (declareGlobalVar E))).1 = .ok () := by
  rw [List.forM_eq_forM]
  induction vars generalizing here with
  | nil => rfl
  | cons name rest ih =>
    rw [List.forM_cons]
    cases own : (here.globals.getOwn? name).isSome with
    | true =>
      have skipped := run_declare_global_var E here name
      rw [own, if_pos rfl] at skipped
      rw [Machine.run_bind_ok skipped]
      exact ih has room
    | false =>
      have absent := Option.not_isSome_iff_eq_none.mp (Bool.eq_false_iff.mp own)
      obtain ⟨changed, defined, gains⟩ := Object.gains_of_absent has.plain absent room .undefined
      have declared := run_declare_global_var E here name
      rw [own, if_neg Bool.false_ne_true, run_define_accepted has defined] at declared
      rw [Machine.run_bind_ok declared]
      let next : Machine := { here with heap := here.heap.set here.realm.globalObject changed }
      have now : next.globals = changed := Heap.get_set_self _ has.there
      have plain : changed.isArray = false := by
        have plain := has.plain
        unfold Object.isArray at plain ⊢
        rw [gains.kind]
        exact plain
      refine ih ⟨?_, (congrArg Object.isArray now).trans plain, has.scope, has.holds⟩ ?_
      · exact Nat.lt_of_lt_of_eq has.there (Heap.size_set ..).symm
      · exact (congrArg Object.extensible now).trans (gains.extensible.trans room)

/-- A variable that is an error leaves the global object as it was: where there is room for none, none before it
was new. -/
theorem declares_vars {names : List String} (has : m.HasGlobals) (declares : m.Declares here names)
    {vars : List String} {e : Abrupt} (failed : here.run (vars.forM (declareGlobalVar E)) = (.error e, after)) :
    m.Declares after names := by
  have now := has_globals_of_declares has declares
  have full : here.globals.extensible = false := by
    refine Bool.eq_false_iff.mpr fun room => ?_
    have succeeds := vars_succeed (E := E) now room vars
    rw [failed] at succeeds
    cases succeeds
  rw [List.forM_eq_forM] at failed
  induction vars with
  | nil => cases failed
  | cons name rest ih =>
    rw [List.forM_cons] at failed
    cases own : (here.globals.getOwn? name).isSome with
    | true =>
      have skipped := run_declare_global_var E here name
      rw [own, if_pos rfl] at skipped
      rw [Machine.run_bind_ok skipped] at failed
      exact ih failed
    | false =>
      have absent := Option.not_isSome_iff_eq_none.mp (Bool.eq_false_iff.mp own)
      obtain ⟨error, last, refused, adds⟩ :=
        run_define_refused (E := E) now absent full (.data .undefined globalAttributes)
      have ran := run_declare_global_var E here name
      rw [own, if_neg Bool.false_ne_true, refused] at ran
      rw [Machine.run_bind_error ran] at failed
      cases failed
      exact declares_of_adds has declares adds

end Vars

/-! ## Whole scripts -/

theorem EnvironmentStore.set_get (s : EnvironmentStore) (id : EnvironmentId) : s.set id (s.get id) = s := by
  unfold EnvironmentStore.set EnvironmentStore.get
  congr 1
  refine Array.ext_getElem? fun i => ?_
  rw [Array.getElem?_setIfInBounds]
  split
  · next same =>
    subst same
    split
    · next there => simp [there]
    · next beyond => exact (Array.getElem?_eq_none (Nat.le_of_not_lt beyond)).symm
  · rfl

/-- Whatever else is declared, a name that is declared is bound. -/
theorem bound_of_create_lexical {e : Environment} (holds : e.isDeclarative = true) {names : List LexicalName}
    {n : LexicalName} (among : n ∈ names) : (e.createLexical names).binding? n.name ≠ none := by
  induction names generalizing e n with
  | nil => cases among
  | cons first rest ih =>
    have still : (e.createName first).isDeclarative = true :=
      (Environment.isDeclarative_create_name e first).trans holds
    by_cases later : ∃ other ∈ rest, other.name = n.name
    · obtain ⟨other, mem, same⟩ := later
      have bound := ih still mem
      rw [same] at bound
      exact bound
    · have absent : ∀ other ∈ rest, other.name ≠ n.name := fun other mem same => later ⟨other, mem, same⟩
      have here : first = n := (List.mem_cons.mp among).elim Eq.symm fun mem => absurd rfl (absent n mem)
      change ((e.createName first).createLexical rest).binding? n.name ≠ none
      rw [Environment.binding_create_lexical_of_absent still absent, Environment.binding_create_name holds,
        here, if_pos rfl]
      exact nofun

/-- The names of `let` and `const` that stay declared when not all names of a script can be declared. -/
def Program.strayNames (p : Program) (m : Machine) : List LexicalName :=
  if (m.taken? m.realm.scriptEnvironment p.scope.lexical).isSome then [] else p.scope.lexical

/-- The functions that stay declared when not all names of a script can be declared. -/
def Program.strayFunctions (p : Program) (m : Machine) : List String :=
  if (m.taken? m.realm.scriptEnvironment p.scope.lexical).isSome then []
  else (p.scope.functions.takeWhile m.globals.acceptsDeclared).filterMap FunctionCode.name

/-- The state after names of `let` and `const` were declared for scripts. -/
def Machine.withNames (m : Machine) (names : List LexicalName) : Machine :=
  let script := m.realm.scriptEnvironment
  { m with environments := m.environments.set script ((m.environments.get script).createLexical names) }

theorem declares_refl (m : Machine) : m.Declares m [] :=
  ⟨rfl, rfl, Nat.le_refl _, rfl, rfl, fun _ no => absurd no List.not_mem_nil, fun _ _ => rfl⟩

theorem with_no_names (m : Machine) : m.withNames [] = m := by
  unfold Machine.withNames
  dsimp only [Environment.createLexical, List.foldl_nil]
  rw [EnvironmentStore.set_get]

theorem has_globals_with_names {m : Machine} (has : m.HasGlobals) (names : List LexicalName) :
    (m.withNames names).HasGlobals where
  there := has.there
  plain := has.plain
  scope := Nat.lt_of_lt_of_eq has.scope (EnvironmentStore.size_set ..).symm
  holds := by
    unfold Machine.withNames
    dsimp only
    rw [EnvironmentStore.get_set_self _ has.scope, Environment.isDeclarative_create_lexical]
    exact has.holds

/-- What a script that cannot declare its names leaves behind. -/
theorem declares_of_failed {E : Engine} {p : Program} {m after : Machine} {e : Abrupt} (has : m.HasGlobals)
    (failed : m.run (bindGlobals E p) = (.error e, after)) :
    (m.withNames (p.strayNames m)).Declares after (p.strayFunctions m) := by
  unfold Machine.run bindGlobals at failed
  rw [check_redeclared_bind] at failed
  unfold Program.strayNames Program.strayFunctions
  cases taken : m.taken? m.realm.scriptEnvironment p.scope.lexical with
  | some n =>
    rw [taken] at failed
    obtain ⟨error, last, thrown, adds⟩ := run_throw_fault Unit m (.alreadyDeclared n.name)
    obtain ⟨-, rfl⟩ := Prod.mk.inj (failed.symm.trans thrown)
    rw [Option.isSome_some, if_pos rfl, if_pos rfl, with_no_names]
    exact declares_of_adds has (declares_refl m) adds
  | none =>
    rw [taken] at failed
    rw [Option.isSome_none, if_neg Bool.false_ne_true, if_neg Bool.false_ne_true]
    let declared := m.withNames p.scope.lexical
    have now : declared.HasGlobals := has_globals_with_names has p.scope.lexical
    have failed : declared.run (p.scope.functions.forM (declareGlobalFunction E p.strict) >>= fun _ =>
        p.scope.vars.forM (declareGlobalVar E)) = (.error e, after) := failed
    have functions := declares_functions (E := E) now (declares_refl declared) p.strict p.scope.functions
      fun _ no => absurd no List.not_mem_nil
    rw [List.nil_append] at functions
    rw [Machine.run_bind] at failed
    cases ran : declared.run (p.scope.functions.forM (declareGlobalFunction E p.strict)) with
    | mk outcome between =>
      rw [ran] at failed functions
      cases outcome with
      | ok u => exact declares_vars now functions failed
      | error error =>
        cases failed
        exact functions

/-- A script that cannot declare all its names leaves nothing behind if one of `let` or `const` is taken.
Otherwise all of these stay declared without values, and so do the functions before the first that the global
object does not accept. Only where there are none of either kind is everything as it was before. -/
theorem failed_declarations_stay {E : Engine} {p : Program} {m after : Machine} {e : Abrupt} (has : m.HasGlobals)
    (failed : m.run (bindGlobals E p) = (.error e, after)) :
    (m.withNames (p.strayNames m)).Declares after (p.strayFunctions m) ∧
    ((∀ name, (after.environments.get m.realm.scriptEnvironment).binding? name =
        (m.environments.get m.realm.scriptEnvironment).binding? name) ↔ p.strayNames m = []) ∧
    ((∀ name f, m.globals.getOwn? name = some (globalProperty (.object f)) → f.index < m.heap.objects.size) →
      ((∀ name, after.globals.getOwn? name = m.globals.getOwn? name) ↔ p.strayFunctions m = [])) := by
  have declares := declares_of_failed has failed
  have left : after.environments.get m.realm.scriptEnvironment =
      (m.environments.get m.realm.scriptEnvironment).createLexical (p.strayNames m) := by
    rw [declares.environments]
    exact EnvironmentStore.get_set_self _ has.scope
  refine ⟨declares, ⟨fun same => ?_, fun none name => ?_⟩, fun known => ⟨fun same => ?_, fun none name => ?_⟩⟩
  · refine List.eq_nil_iff_forall_not_mem.mpr fun n among => ?_
    obtain ⟨free, declared⟩ :
        ¬(m.taken? m.realm.scriptEnvironment p.scope.lexical).isSome = true ∧ n ∈ p.scope.lexical := by
      unfold Program.strayNames at among
      split at among
      · cases among
      · next free => exact ⟨free, among⟩
    refine bound_of_create_lexical has.holds among ?_
    rw [← left, same]
    exact Machine.unbound_of_free free n declared
  · rw [left, none]
    rfl
  · refine List.eq_nil_iff_forall_not_mem.mpr fun name among => ?_
    obtain ⟨f, new, own⟩ := declares.declared name among
    rw [same] at own
    exact Nat.lt_irrefl _ (Nat.lt_of_lt_of_le (known name f own) new)
  · exact declares.kept name (none ▸ List.not_mem_nil)

/-- A name of each kind. -/
def declaresEach : String := "var seen = 1; let kept = 2; function f() {}"

/-- A new engine behind a script that declares names, for the next one. -/
def declaredIn : Machine := (Machine.new {}).afterTasks (engineAt 9) [.source declaresEach]

/-- A variable and a function whose name the global object has for good. -/
def refusedFunction : String := "let x = 1; function NaN() {}"

/-- Behind another script such a script leaves its variable declared. -/
theorem refused_function_leaves_variable :
    ∃ p e after, Program.ofSource refusedFunction false = .ok p ∧
      declaredIn.run (bindGlobals (engineAt 1) p) = (.error e, after) ∧
      ¬∀ name, (after.environments.get declaredIn.realm.scriptEnvironment).binding? name =
        (declaredIn.environments.get declaredIn.realm.scriptEnvironment).binding? name := by
  have fails : (Program.ofSource refusedFunction false).toOption.any (fun p =>
      !(declaredIn.run (bindGlobals (engineAt 1) p)).1.isOk && !(p.strayNames declaredIn).isEmpty) = true := by
    decide +kernel
  have has : declaredIn.HasGlobals := has_globals_after_tasks 9 [.source declaresEach] new_has_globals
  cases read : Program.ofSource refusedFunction false with
  | error d =>
    rw [read] at fails
    cases fails
  | ok p =>
    rw [read] at fails
    change (_ && _) = true at fails
    obtain ⟨cut, some⟩ := Bool.and_eq_true_iff.mp fails
    cases failed : declaredIn.run (bindGlobals (engineAt 1) p) with
    | mk outcome after =>
      rw [failed] at cut
      cases outcome with
      | ok u => cases cut
      | error e =>
        refine ⟨p, e, after, rfl, failed, fun same => ?_⟩
        have none := (failed_declarations_stay has failed).2.1.mp same
        rw [none] at some
        cases some

end ScriptEngine
