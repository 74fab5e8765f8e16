import ScriptEngine.Proofs.Environment.Instantiation

/-!
First values of names. When a function, a block, the clauses of a `switch` statement or a script begin, their
names of `let` and `const` wait for their values. Each declaration of a program that was read then gives to its
names the values that it computes. It only drops the values of variables of a function that had values when it
was entered, and of names that the head of a `for` statement declares twice.
-/

namespace ScriptEngine

variable {E : Engine} {m here : Machine} {names : List LexicalName} {taken : List String} {constant : Bool}
  {declarators : List Declarator} {body : List Stmt}

theorem consistent_of_distinct (distinct : DistinctNames names) : Environment.Consistent names := by
  induction names with
  | nil => exact fun _ no => absurd no List.not_mem_nil
  | cons first rest ih =>
    obtain ⟨new, distinct⟩ := List.nodup_cons.mp distinct
    intro n among other also same
    cases among with
    | head =>
      cases also with
      | head => rfl
      | tail _ late => exact absurd (same ▸ List.mem_map_of_mem late) new
    | tail _ early =>
      cases also with
      | head => exact absurd (same ▸ List.mem_map_of_mem early) new
      | tail _ late => exact ih distinct n early other late same

/-! ## Waiting names -/

/-- Names of `let` and `const` are bound in the current environment, and wait for their values there but for
variables whose names have been taken. -/
def Machine.Opens (m : Machine) (names : List LexicalName) (taken : List String) : Prop :=
  ∀ n ∈ names, ∃ b, m.bound? n.name = some b ∧ b.deletable = false ∧ (n.constant = true → b.mutable = false) ∧
    (b.initialized = false ↔ n.constant = true ∨ n.name ∉ taken)

namespace Machine

/-- The state in which names are looked up in a certain environment. -/
def inside (m : Machine) (id : EnvironmentId) : Machine :=
  { m with context := { m.context with lexical := id } }

theorem opens_of_subset {fewer : List LexicalName} (subset : fewer ⊆ names) (opens : m.Opens names taken) :
    m.Opens fewer taken :=
  fun n among => opens n (subset among)

/-- Where nothing was bound, all names that are added wait. -/
theorem opens_of_unbound {e : Environment} (holds : e.isDeclarative = true)
    (consistent : Environment.Consistent names) (unbound : ∀ n ∈ names, e.binding? n.name = none)
    (same : ∀ name, m.bound? name = (e.createLexical names).binding? name) : m.Opens names [] := by
  intro n among
  refine ⟨.uninitialized n, ?_, rfl, fun const => ?_, fun _ => .inr List.not_mem_nil, fun _ => rfl⟩
  · rw [same, Environment.binding_create_lexical holds consistent among, unbound n among, Option.getD_none,
      ite_self]
  · exact congrArg not const

/-- Names wait on while others get their values. -/
theorem opens_of_stays {begins : String → Prop} (opens : m.Opens names taken) (stays : m.Stays begins here)
    (quiet : ∀ n ∈ names, ¬begins n.name) : here.Opens names taken := by
  intro n among
  obtain ⟨b, found, deletable, fixed, waits⟩ := opens n among
  obtain ⟨kept, there, lasts, begun⟩ := stays.bindings n.name b found deletable
  refine ⟨kept, there, lasts.deletable.trans deletable, fun const => lasts.mutable.trans (fixed const), ?_⟩
  rw [← waits, Bool.eq_false_iff, Bool.eq_false_iff]
  exact not_congr ⟨fun ready => (begun ready).resolve_right (quiet n among), lasts.initialized⟩

theorem waits_of_opens (opens : m.Opens names taken) {n : LexicalName} (among : n ∈ names) :
    m.Waits n.name ↔ n.constant = true ∨ n.name ∉ taken := by
  obtain ⟨b, found, -, -, waits⟩ := opens n among
  rw [← waits]
  refine ⟨fun ⟨other, same, waiting⟩ => ?_, fun waiting => ⟨b, found, waiting⟩⟩
  obtain rfl : b = other := Option.some.inj (found.symm.trans same)
  exact waiting

/-- Statements that were read are about to run, whose names wait but for those that have been taken. -/
structure Starts (m : Machine) (body : List Stmt) (taken : List String) : Prop where
  distinct : DistinctNames (declaredNames body)
  sound : ∀ s ∈ body, ∃ place, (Node.stmt place s).Sound
  opens : m.Opens (declaredNames body) taken

end Machine

/-! ## Declarations where they stand -/

theorem establishes_congr {kept other : List Declarator → Declarator → Prop}
    (same : ∀ earlier d later, declarators = earlier ++ d :: later → (kept earlier d ↔ other earlier d))
    (establishes : E.Establishes m constant declarators kept) : E.Establishes m constant declarators other where
  taken earlier d value after computes := by
    obtain ⟨later, place⟩ := computes.among
    rw [← same earlier d later place]
    exact establishes.taken earlier d value after computes
  holds earlier d value after computes keeps := by
    obtain ⟨later, place⟩ := computes.among
    exact establishes.holds earlier d value after computes ((same earlier d later place).mpr keeps)
  ends final ran earlier d value after computes := by
    obtain ⟨later, place⟩ := computes.among
    rw [← same earlier d later place]
    exact establishes.ends final ran earlier d value after computes

section Steady

variable (steady : E.Steady .naming)
include steady

/-- The names of a declaration get their values from it where they are declared first in it, but for variables
whose names have been taken. -/
theorem establishes_of_opens (opens : m.Opens names taken)
    (among : ∀ d ∈ declarators, (⟨d.name, constant⟩ : LexicalName) ∈ names) :
    E.Establishes m constant declarators fun earlier d =>
      (constant = true ∨ d.name ∉ taken) ∧ ∀ other ∈ earlier, other.name ≠ d.name := by
  refine establishes_congr ?_ (establishes steady (fun d mem => ?_) fun const d mem b found => ?_)
  · rintro earlier d later rfl
    rw [Machine.waits_of_opens opens (among d (List.mem_append_right _ (.head _)))]
  · obtain ⟨b, found, deletable, -⟩ := opens _ (among d mem)
    exact ⟨b, found, deletable⟩
  · obtain ⟨other, same, -, fixed, -⟩ := opens _ (among d mem)
    obtain rfl : b = other := Option.some.inj (found.symm.trans same)
    exact fixed const

/-- The statements before a declaration leave its names alone, since they are sound and declare other names. -/
theorem establishes_in_list {before after : List Stmt} {span : Span} {last : Option Value}
    (starts : m.Starts body taken)
    (stands : body = before ++ ⟨.lexical constant declarators, span⟩ :: after)
    (ran : m.run (executeAll E none before) = (.ok (.normal last), here)) :
    E.Establishes here constant declarators fun _ d => constant = true ∨ d.name ∉ taken := by
  subst stands
  obtain ⟨distinct, sound, opens⟩ := starts
  have names : declaredNames (before ++ ⟨.lexical constant declarators, span⟩ :: after) =
      declaredNames before ++ ((declarators.map fun d => ⟨d.name, constant⟩) ++ declaredNames after) :=
    declared_names_append ..
  rw [names] at distinct opens
  have apart : (declaredNames before).map LexicalName.name ++ (declarators.map Declarator.name ++
      (declaredNames after).map LexicalName.name) |>.Nodup := by
    simpa [DistinctNames, Function.comp_def] using distinct
  have stays : m.Stays (fun name => ∃ s ∈ before, s.form.Introduces name) here := by
    have orderly : Orderly .naming (Rights.none.naming fun name => ∃ s ∈ before, s.form.Introduces name) false
        fun E => executeAll E none before :=
      orderly_execute_all none fun s mem _ name introduces => ⟨s, mem, introduces⟩
    have stays := orderly.stays steady m
    rw [ran] at stays
    exact stays
  have quiet : ∀ d ∈ declarators, ¬∃ s ∈ before, s.form.Introduces d.name := by
    rintro d declared ⟨s, mem, introduces⟩
    obtain ⟨place, holds⟩ := sound s (List.mem_append_left _ mem)
    obtain ⟨other, also, same⟩ := declared_of_introduces introduces holds
    have early : d.name ∈ (declaredNames before).map LexicalName.name :=
      List.mem_map.mpr ⟨other, List.mem_flatMap.mpr ⟨s, mem, also⟩, same⟩
    have late : d.name ∈ declarators.map Declarator.name ++ (declaredNames after).map LexicalName.name :=
      List.mem_append_left _ (List.mem_map_of_mem declared)
    exact (List.nodup_append.mp apart).2.2 _ early _ late rfl
  have waiting : here.Opens (declarators.map fun d => ⟨d.name, constant⟩) taken := by
    refine Machine.opens_of_stays (Machine.opens_of_subset (fun n mem => ?_) opens) stays fun n mem => ?_
    · exact List.mem_append_right _ (List.mem_append_left _ mem)
    · obtain ⟨d, declared, rfl⟩ := List.mem_map.mp mem
      exact quiet d declared
  refine establishes_congr ?_ (establishes_of_opens steady waiting fun d mem => List.mem_map_of_mem mem)
  rintro earlier d later rfl
  refine and_iff_left fun other mem same => ?_
  have distinct := (List.nodup_append.mp (List.nodup_append.mp apart).2.1).1
  rw [List.map_append, List.map_cons] at distinct
  exact (List.nodup_append.mp distinct).2.2 _ (List.mem_map_of_mem mem) _ (.head _) same

end Steady

/-! ## Beginnings -/

/-- A run of a program is about to run a list of statements, of whose variables some have been taken. -/
inductive Program.Enters (p : Program) (E : Engine) : List Stmt → List String → Machine → Prop where
  /-- The names of a script have been declared in its environment, which holds its bindings itself. -/
  | script {m after : Machine} (current : m.context.lexical = m.realm.scriptEnvironment)
    (there : m.realm.scriptEnvironment.index < m.environments.environments.size)
    (holds : (m.environments.get m.realm.scriptEnvironment).isDeclarative = true)
    (bound : m.run (bindGlobals E p) = (.ok (), after)) : Enters p E p.body [] after
  /-- The names of a function have been declared in a new environment. -/
  | function {code : FunctionCode} {callee : ObjectId} {outer id : EnvironmentId} {this : Value}
    {arguments : List Value} {m made after : Machine} (contained : p.Contains (.code code))
    (begun : m.run (newEnvironment (.declarative (some outer))) = (.ok id, made))
    (bound : made.run (bindDeclarations callee code id arguments) = (.ok (), after)) :
    Enters p E code.body code.instantiated
      { after with context := ⟨id, id, this, code.strict⟩, callers := after.context :: after.callers }
  /-- A block has an environment for its names. -/
  | block {place : Place} {s : Stmt} {b : Block} {id : EnvironmentId} {m made : Machine}
    (contained : p.Contains (.stmt place s)) (among : b ∈ s.form.blocks)
    (begun : m.run (newBlockEnvironment b.lexical) = (.ok id, made)) :
    Enters p E b.body [] (made.inside id)
  /-- A `switch` statement has an environment for its names, and has chosen the clauses that it runs. -/
  | switch {place : Place} {discriminant : Expr} {clauses selected : List SwitchClause}
    {names : List LexicalName} {span : Span} {id : EnvironmentId} {value : Value} {m made after : Machine}
    (contained : p.Contains (.stmt place ⟨.switch discriminant clauses names, span⟩))
    (begun : m.run (newBlockEnvironment names) = (.ok id, made))
    (chosen : (made.inside id).run (selectClause E value clauses) = (.ok selected, after)) :
    Enters p E ((if selected.isEmpty then clauses.dropWhile (·.test.isSome) else selected).flatMap
      SwitchClause.body) [] after

/-- The names of a block wait in the environment that is made for them. -/
theorem opens_of_new_block {id : EnvironmentId} {made : Machine} (consistent : Environment.Consistent names)
    (begun : m.run (newBlockEnvironment names) = (.ok id, made)) : (made.inside id).Opens names [] := by
  have inside : made.inside id = m.inNew (.ofBlock m.context.lexical names) := by
    cases begun
    rfl
  rw [inside]
  exact Machine.opens_of_unbound rfl consistent (fun _ _ => rfl) (Machine.bound_in_new m _)

/-- Blocks of sound statements are where they may be, and so are their members. -/
theorem sound_block {place : Place} {s : Stmt} (sound : (Node.stmt place s).Sound) {b : Block}
    (among : b ∈ s.form.blocks) : b.InPlace ∧ ∀ s ∈ b.body, ∃ place, (Node.stmt place s).Sound := by
  obtain ⟨inPlace, inner⟩ := (Node.sound_iff _).mp sound
  obtain ⟨form, span⟩ := s
  have members (around : Place) (all : around.nodes b.body ⊆ (Node.stmt place ⟨form, span⟩).children) :
      ∀ s ∈ b.body, ∃ place, (Node.stmt place s).Sound :=
    fun s mem => ⟨around, inner _ (all (List.mem_map_of_mem mem))⟩
  cases form with
  | block b =>
    obtain rfl := List.mem_singleton.mp among
    exact ⟨inPlace, members place.inside fun _ mem => mem⟩
  | attempt guarded handler finalizer =>
    rcases List.mem_cons.mp among with rfl | later
    · refine ⟨inPlace.1, members place.inside ?_⟩
      exact List.subset_append_of_subset_left _ (List.subset_append_left _ _)
    rcases List.mem_append.mp later with inHandler | inFinalizer
    · obtain ⟨h, handles, rfl⟩ := List.mem_map.mp inHandler
      refine ⟨inPlace.2.1 h (Option.mem_toList.mp handles), members place.inside ?_⟩
      refine List.subset_append_of_subset_left _ (List.subset_append_of_subset_right _ fun n mem => ?_)
      exact List.mem_flatMap.mpr ⟨h, handles, mem⟩
    · refine ⟨inPlace.2.2 b (Option.mem_toList.mp inFinalizer), members place.inside ?_⟩
      exact List.subset_append_of_subset_right _ fun n mem => List.mem_flatMap.mpr ⟨b, inFinalizer, mem⟩
  | _ => cases among

/-- Statements that are about to run behind others may as well be the first. -/
theorem starts_of_append {before rest : List Stmt} (starts : m.Starts (before ++ rest) taken) :
    m.Starts rest taken := by
  obtain ⟨distinct, sound, opens⟩ := starts
  rw [declared_names_append] at distinct opens
  refine ⟨?_, fun s mem => sound s (List.mem_append_right _ mem), ?_⟩
  · exact distinct.sublist ((List.sublist_append_right _ _).map _)
  · exact Machine.opens_of_subset (List.subset_append_right _ _) opens

theorem starts_of_suffix {clauses chosen : List SwitchClause} (suffix : chosen <:+ clauses)
    (starts : m.Starts (clauses.flatMap SwitchClause.body) taken) :
    m.Starts (chosen.flatMap SwitchClause.body) taken := by
  obtain ⟨before, rfl⟩ := suffix
  rw [List.flatMap_append] at starts
  exact starts_of_append starts

section Entering

variable (steady : E.Steady .naming) {p : Program}

include steady in
/-- What a script does while it declares its names leaves those of `let` and `const` alone. -/
theorem opens_of_bind_globals (current : m.context.lexical = m.realm.scriptEnvironment)
    (there : m.realm.scriptEnvironment.index < m.environments.environments.size)
    (holds : (m.environments.get m.realm.scriptEnvironment).isDeclarative = true)
    (distinct : DistinctNames p.scope.lexical) (bound : m.run (bindGlobals E p) = (.ok (), here)) :
    here.Opens p.scope.lexical [] := by
  let id := m.realm.scriptEnvironment
  let e := (m.environments.get id).createLexical p.scope.lexical
  let declared : Machine := { m with environments := m.environments.set id e }
  let others : Engine → Eval Unit := fun E => do
    p.scope.functions.forM (declareGlobalFunction E p.strict)
    p.scope.vars.forM (declareGlobalVar E)
  obtain ⟨free, ran⟩ :
      ¬(m.taken? id p.scope.lexical).isSome = true ∧ declared.run (others E) = (.ok (), here) := by
    unfold Machine.run bindGlobals at bound
    rw [check_redeclared_bind] at bound
    cases taken : m.taken? id p.scope.lexical with
    | none =>
      rw [taken] at bound
      exact ⟨nofun, bound⟩
    | some n =>
      rw [taken] at bound
      cases bound
  have opens : declared.Opens p.scope.lexical [] := by
    have unbound := Machine.unbound_of_free free
    refine Machine.opens_of_unbound holds (consistent_of_distinct distinct) unbound fun name => ?_
    unfold Machine.bound?
    rw [show declared.context.lexical = id from current, EnvironmentStore.get_set_self _ there]
  have quiet : Orderly .naming (Rights.none.naming fun _ => False) false others :=
    .bind (.forM _ (orderly_declare_global_function p.strict)) fun _ => .forM _ orderly_declare_global_var
  have stays := quiet.stays steady declared
  rw [ran] at stays
  exact Machine.opens_of_stays opens stays fun _ _ no => no

include steady in
/-- To choose the clauses of a `switch` statement expressions are evaluated, which give no first values. -/
theorem select_clause_stays (value : Value) (clauses : List SwitchClause) (m : Machine) :
    m.Stays (fun _ => False) (m.run (selectClause E value clauses)).2 :=
  (orderly_select_clause value clauses).stays steady m

include steady in
/-- Whatever list of statements a program that was read is about to run, its names wait. -/
theorem starts_of_enters (sound : p.Sound) (enters : p.Enters E body taken m) : m.Starts body taken := by
  have parts {n : Node} (contained : p.Contains n) : n.Sound := by
    obtain ⟨outer, direct, within⟩ := contained
    exact (sound.inner outer direct).within within
  cases enters with
  | script current there holds bound =>
    have opens := opens_of_bind_globals steady current there holds sound.names.distinct bound
    refine ⟨sound.names.same ▸ sound.names.distinct, fun s mem => ⟨.script, ?_⟩, sound.names.same ▸ opens⟩
    exact sound.inner _ (List.mem_append_left _ (List.mem_map_of_mem mem))
  | @function code callee outer id this arguments begins made entered contained begun bound =>
    obtain ⟨names, inner⟩ := (Node.sound_iff _).mp (parts contained)
    have opens : Machine.Opens
        { entered with context := ⟨id, id, this, code.strict⟩, callers := entered.context :: entered.callers }
        code.scope.lexical code.instantiated := fun n among =>
      waiting_of_bind_declarations (instantiates_new begun) (consistent_of_distinct names.distinct) bound among
    refine ⟨names.same ▸ names.distinct, fun s mem => ⟨.function, ?_⟩, names.same ▸ opens⟩
    exact inner _ (List.mem_append_left _ (List.mem_map_of_mem mem))
  | block contained among begun =>
    obtain ⟨inPlace, members⟩ := sound_block (parts contained) among
    have distinct := inPlace.distinct
    have opens := opens_of_new_block (consistent_of_distinct distinct) begun
    rw [inPlace.same] at distinct opens
    exact ⟨distinct, members, opens⟩
  | @switch place discriminant clauses selected names span id value begins made chose contained begun chosen =>
    obtain ⟨inPlace, inner⟩ := (Node.sound_iff _).mp (parts contained)
    have distinct := inPlace.distinct
    have opens := opens_of_new_block (consistent_of_distinct distinct) begun
    have stays := select_clause_stays steady value clauses (made.inside id)
    rw [chosen] at stays
    have opens := Machine.opens_of_stays opens stays fun _ _ no => no
    rw [inPlace.same] at distinct opens
    have all : m.Starts (clauses.flatMap SwitchClause.body) [] := by
      refine ⟨distinct, fun s mem => ?_, opens⟩
      obtain ⟨clause, among, within⟩ := List.mem_flatMap.mp mem
      refine ⟨place.inChoice, inner _ (.tail _ (List.mem_flatMap.mpr ⟨clause, among, ?_⟩))⟩
      exact List.mem_append_right _ (List.mem_map_of_mem within)
    refine starts_of_suffix ?_ all
    split
    · exact List.dropWhile_suffix _
    · exact yields_select_clause E value clauses _ selected (by rw [chosen])

end Entering

/-! ## Programs -/

/-- Every declaration of a program by `let` or `const` gives first values to its names wherever it is executed,
but for those of which it is said that they are dropped. -/
structure Program.Initializes (p : Program) (E : Engine) : Prop where
  /-- A declaration stands in a list of statements, unless it is the head of a loop. -/
  stands : ∀ place constant declarators span, p.Contains (.stmt place ⟨.lexical constant declarators, span⟩) →
    declarators ≠ [] → ⟨.lexical constant declarators, span⟩ ∈ p.body ∨
      ∃ n, p.Contains n ∧ ∃ body ∈ n.lists, ⟨.lexical constant declarators, span⟩ ∈ body
  /-- Whenever the statements before it have been executed, it drops the values of no constants, and only of
  variables whose names had been taken when the list was entered. -/
  lists : ∀ body taken m, p.Enters E body taken m → ∀ before constant declarators span after,
    body = before ++ ⟨.lexical constant declarators, span⟩ :: after →
    ∀ last here, m.run (executeAll E none before) = (.ok (.normal last), here) →
      E.Establishes here constant declarators fun _ d => constant = true ∨ d.name ∉ taken
  /-- The head of a `for` statement drops the values of names that it has declared already. -/
  heads : ∀ place constant declarators test update body span,
    p.Contains (.stmt place ⟨.forLoop (some (.lexical constant declarators)) test update body, span⟩) →
    ∀ (m : Machine) id made,
      m.run (newBlockEnvironment ((declarators.map Declarator.name).map (⟨·, constant⟩))) = (.ok id, made) →
      E.Establishes (made.inside id) constant declarators fun earlier d => ∀ other ∈ earlier, other.name ≠ d.name
  /-- The name in the head of a `for`-`in` statement gets each key in an environment of its own. -/
  keys : ∀ place constant name object body span,
    p.Contains (.stmt place ⟨.forIn (.lexical constant name) object body, span⟩) →
    ∀ (m : Machine) id made, m.run (newBlockEnvironment [⟨name, constant⟩]) = (.ok id, made) → ∀ key,
      ((made.environments.get id).initialize? name key).1 = true ∧
        ∃ b, ((made.environments.get id).initialize? name key).2.binding? name = some b ∧
          b.initialized = true ∧ b.value = key

/-- The declarations of a program that was read give first values to their names in every execution, but for
variables of functions that were parameters or declared otherwise, and names that the head of a loop repeats. -/
theorem declarations_initialize {source : String} {strict : Bool} {p : Program}
    (accepted : Program.ofSource source strict = .ok p) (steps : Nat) : p.Initializes (engineAt steps) where
  stands place constant declarators span contained some := by
    refine listed_in_program (program_sound_of_source accepted) contained fun none => some ?_
    exact List.map_eq_nil_iff.mp none
  lists body taken m enters before constant declarators span after stands last here ran := by
    have steady := engine_steady Terms.lenient_naming steps
    have starts := starts_of_enters steady (program_sound_of_source accepted) enters
    exact establishes_in_list steady starts stands ran
  heads place constant declarators test update body span contained m id made begun := by
    have steady := engine_steady Terms.lenient_naming steps
    have opens := opens_of_new_block (Environment.consistent_of_constant constant _) begun
    refine establishes_congr ?_ (establishes_of_opens steady opens fun d mem => ?_)
    · exact fun earlier d later _ => and_iff_right (.inr List.not_mem_nil)
    · exact List.mem_map_of_mem (List.mem_map_of_mem mem)
  keys place constant name object body span contained m id made begun key := by
    have opens := opens_of_new_block (Environment.consistent_of_constant constant [name]) begun
    obtain ⟨b, found, -, -, waits⟩ := opens ⟨name, constant⟩ (.head _)
    have found : (made.environments.get id).binding? name = some b := found
    rw [Environment.initialize_of_waiting found (waits.mpr (.inr List.not_mem_nil))]
    have given := Environment.binding?_set (Environment.isDeclarative_of_binding found) name name
      { b with value := key, initialized := true }
    exact ⟨rfl, _, given.trans (if_pos rfl), rfl, rfl⟩

/-- A function with a variable that has the name of its parameter. -/
def shadowedParameter : String := "(function (a) { let a = 1; return a; })(5)"

/-- The function that is called by a script of a single call. -/
def Program.calledInPlace? (p : Program) : Option FunctionCode :=
  match p.body with
  | [⟨.expr ⟨.call ⟨.function code, _⟩ _, _⟩, _⟩] => some code
  | _ => none

theorem contains_called {p : Program} {code : FunctionCode} (called : p.calledInPlace? = some code) :
    p.Contains (.code code) := by
  unfold Program.calledInPlace? at called
  split at called
  · next found inner arguments middle span body =>
    cases called
    let s : Stmt := ⟨.expr ⟨.call ⟨.function code, inner⟩ arguments, middle⟩, span⟩
    have within : (Node.code code).Within (.stmt .script s) :=
      .deeper (.deeper (.deeper (.here _) (.head _)) (.head _)) (.head _)
    have member : s ∈ p.body := body ▸ .head _
    exact ⟨_, List.mem_append_left _ (List.mem_map_of_mem member), within⟩
  · cases called

/-- Such a function is read, and the name of its variable has been taken when its body is entered. -/
theorem shadowed_parameter_is_taken :
    ∃ p, Program.ofSource shadowedParameter false = .ok p ∧ p.Initializes (engineAt 1000) ∧
      ∃ code, p.Contains (.code code) ∧
        ∃ n ∈ code.scope.lexical, n.constant = false ∧ n.name ∈ code.instantiated := by
  have taken : ((Program.ofSource shadowedParameter false).toOption.bind Program.calledInPlace?).any
      (fun code => code.scope.lexical.any fun n => !n.constant && code.instantiated.contains n.name) = true := by
    decide +kernel
  cases read : Program.ofSource shadowedParameter false with
  | ok p =>
    rw [read] at taken
    change (p.calledInPlace?.any _) = true at taken
    cases called : p.calledInPlace? with
    | none =>
      rw [called] at taken
      cases taken
    | some code =>
      rw [called] at taken
      obtain ⟨n, among, holds⟩ := List.any_eq_true.mp taken
      simp only [Bool.and_eq_true, Bool.not_eq_true', List.contains_iff_mem] at holds
      exact ⟨p, rfl, declarations_initialize read 1000, code, contains_called called, n, among, holds⟩
  | error d =>
    rw [read] at taken
    cases taken

end ScriptEngine
