import ScriptEngine.Proofs.Evaluation.BindingHistory

/-!
What a declaration of `let` or `const` does where it is executed. A name gets the first value that is computed for
it in the declaration unless it has a value already, before the declaration or from it. Nothing else that runs in
the meantime gives a value to it.
-/

namespace ScriptEngine

/-! ## New names -/

/-- What a name of `let` or `const` is bound to before it is initialized. -/
def Binding.uninitialized (n : LexicalName) : Binding :=
  ⟨.undefined, !n.constant, false, false, n.constant⟩

namespace Environment


/-- One of the names that are added. -/
def createName (e : Environment) (n : LexicalName) : Environment :=
  if n.constant then e.createImmutable n.name true else e.createMutable n.name false

variable {e : Environment}

theorem isDeclarative_create_name (e : Environment) (n : LexicalName) :
    (e.createName n).isDeclarative = e.isDeclarative := by
  unfold createName
  split
  · exact isDeclarative_set ..
  · unfold createMutable
    split
    · rfl
    · exact isDeclarative_set ..

/-- A constant takes the place of what was bound, and a variable leaves it. -/
theorem binding_create_name (holds : e.isDeclarative) (n : LexicalName) (name : String) :
    (e.createName n).binding? name =
      if n.name = name then
        some (if n.constant then .uninitialized n else (e.binding? name).getD (.uninitialized n))
      else e.binding? name := by
  unfold createName
  split
  · next constant =>
    unfold createImmutable
    rw [binding?_set holds]
    simp [Binding.uninitialized, constant]
  · next variable_ =>
    unfold createMutable
    split
    · next bound =>
      obtain ⟨b, found⟩ := Option.isSome_iff_exists.mp bound
      split
      · next same => simp [← same, found]
      · rfl
    · next unbound =>
      rw [binding?_set holds]
      have none : e.binding? n.name = none := Option.not_isSome_iff_eq_none.mp unbound
      split
      · next same => simp [← same, none, Binding.uninitialized, variable_]
      · rfl

theorem isDeclarative_create_lexical (e : Environment) (names : List LexicalName) :
    (e.createLexical names).isDeclarative = e.isDeclarative := by
  induction names generalizing e with
  | nil => rfl
  | cons n rest ih => exact (ih (e.createName n)).trans (isDeclarative_create_name e n)

/-- Other names stay as they are. -/
theorem binding_create_lexical_of_absent (holds : e.isDeclarative) {names : List LexicalName} {name : String}
    (absent : ∀ n ∈ names, n.name ≠ name) : (e.createLexical names).binding? name = e.binding? name := by
  induction names generalizing e with
  | nil => rfl
  | cons n rest ih =>
    have first := binding_create_name holds n name
    rw [if_neg (absent n (.head _))] at first
    rw [← first]
    exact ih (isDeclarative_create_name e n ▸ holds) fun other mem => absent other (.tail _ mem)

/-- Names of one kind each: no name is declared both by `let` and by `const`. -/
def Consistent (names : List LexicalName) : Prop :=
  ∀ n ∈ names, ∀ other ∈ names, n.name = other.name → n = other

theorem consistent_of_constant (constant : Bool) (names : List String) :
    Consistent (names.map (⟨·, constant⟩)) := by
  intro n among other also same
  obtain ⟨name, -, rfl⟩ := List.mem_map.mp among
  obtain ⟨twin, -, rfl⟩ := List.mem_map.mp also
  obtain rfl : name = twin := same
  rfl

/-- Names are added without values; only a variable leaves what was bound before. -/
theorem binding_create_lexical (holds : e.isDeclarative) {names : List LexicalName}
    (consistent : Consistent names) {n : LexicalName} (among : n ∈ names) :
    (e.createLexical names).binding? n.name =
      some (if n.constant then .uninitialized n else (e.binding? n.name).getD (.uninitialized n)) := by
  induction names generalizing e with
  | nil => cases among
  | cons first rest ih =>
    have still : (e.createName first).isDeclarative := isDeclarative_create_name e first ▸ holds
    change ((e.createName first).createLexical rest).binding? n.name = _
    by_cases later : ∃ other ∈ rest, other.name = n.name
    · obtain ⟨other, mem, same⟩ := later
      obtain rfl : other = n := consistent other (.tail _ mem) n among same
      rw [ih still (fun a m b k => consistent a (.tail _ m) b (.tail _ k)) mem, binding_create_name holds]
      split
      · rfl
      · split
        · next same =>
          obtain rfl : first = other := consistent first (.head _) other among same
          simp_all
        · rfl
    · have absent : ∀ other ∈ rest, other.name ≠ n.name := fun other mem same => later ⟨other, mem, same⟩
      rw [binding_create_lexical_of_absent still absent, binding_create_name holds]
      have same : first = n := by
        cases among with
        | head => rfl
        | tail _ mem => exact absurd rfl (absent n mem)
      rw [same, if_pos rfl]

/-! ## First values -/

theorem initialize_of_initialized {name : String} {b : Binding} (found : e.binding? name = some b)
    (ready : b.initialized = true) (value : Value) : e.initialize? name value = (false, e) := by
  unfold initialize?
  simp only [found, ready, if_true]

theorem initialize_of_waiting {name : String} {b : Binding} (found : e.binding? name = some b)
    (waiting : b.initialized = false) (value : Value) :
    e.initialize? name value = (true, e.set name { b with value, initialized := true }) := by
  unfold initialize?
  simp only [found, waiting, Bool.false_eq_true, if_false]

/-- The environment of a block inside another one, before its names are initialized. -/
def ofBlock (outer : EnvironmentId) (names : List LexicalName) : Environment :=
  (declarative (some outer)).createLexical names

/-- The names of a block start without values. -/
theorem binding_of_block {outer : EnvironmentId} {names : List LexicalName} (consistent : Consistent names)
    {n : LexicalName} (among : n ∈ names) : (ofBlock outer names).binding? n.name = some (.uninitialized n) := by
  have unbound : (declarative (some outer)).binding? n.name = none := rfl
  unfold ofBlock
  rw [binding_create_lexical rfl consistent among, unbound, Option.getD_none, ite_self]

end Environment

/-! ## The current environment -/

namespace Machine

/-- What a name is bound to in the current environment itself. -/
def bound? (m : Machine) (name : String) : Option Binding :=
  (m.environments.get m.context.lexical).binding? name

/-- A name is bound in the current environment for good. -/
def Binds (m : Machine) (name : String) : Prop :=
  ∃ b, m.bound? name = some b ∧ b.deletable = false

/-- A name is bound in the current environment without a value. -/
def Waits (m : Machine) (name : String) : Prop :=
  ∃ b, m.bound? name = some b ∧ b.initialized = false

/-- From one state to another names are looked up in the same place, where bindings last; only certain names
get their first values there. -/
structure Stays (begins : String → Prop) (before after : Machine) : Prop where
  context : after.context = before.context
  bindings : ∀ name b, before.bound? name = some b → b.deletable = false →
    ∃ kept, after.bound? name = some kept ∧ b.Lasts kept ∧
      (kept.initialized = true → b.initialized = true ∨ begins name)

/-- The state after a binding of the current environment was given its first value, if it had none. -/
def firstValue (m : Machine) (name : String) (value : Value) : Machine :=
  let e := m.environments.get m.context.lexical
  { m with environments := m.environments.set m.context.lexical (e.initialize? name value).2 }

/-- The state in which names are looked up in a new environment. -/
def inNew (m : Machine) (e : Environment) : Machine :=
  { m with
    environments := (m.environments.add e).2
    context := { m.context with lexical := (m.environments.add e).1 } }

theorem bound_in_new (m : Machine) (e : Environment) (name : String) :
    (m.inNew e).bound? name = e.binding? name := by
  unfold bound? inNew
  rw [EnvironmentStore.get_add_self]

/-- Inside a new block its names wait for their values. -/
theorem bound_in_block (m : Machine) (outer : EnvironmentId) {names : List LexicalName}
    (consistent : Environment.Consistent names) {n : LexicalName} (among : n ∈ names) :
    (m.inNew (.ofBlock outer names)).bound? n.name = some (.uninitialized n) :=
  (bound_in_new ..).trans (Environment.binding_of_block consistent among)

variable {begins more : String → Prop} {first second third : Machine} {m : Machine} {name : String} {b : Binding}

theorem stays_mono (wider : ∀ name, begins name → more name) (stays : first.Stays begins second) :
    first.Stays more second where
  context := stays.context
  bindings name b found for_good := by
    obtain ⟨kept, there, lasts, begun⟩ := stays.bindings name b found for_good
    exact ⟨kept, there, lasts, fun ready => (begun ready).imp_right (wider name)⟩

theorem stays_trans (early : first.Stays begins second) (late : second.Stays begins third) :
    first.Stays begins third where
  context := late.context.trans early.context
  bindings name b found stays := by
    obtain ⟨between, there, lasts, begun⟩ := early.bindings name b found stays
    obtain ⟨kept, still, onward, later⟩ := late.bindings name between there (lasts.deletable.trans stays)
    exact ⟨kept, still, Binding.lasts_trans lasts onward, fun ready => (later ready).elim begun .inr⟩

theorem binds_of_stays (stays : first.Stays begins second) (binds : first.Binds name) : second.Binds name := by
  obtain ⟨b, found, deletable⟩ := binds
  obtain ⟨kept, there, lasts, -⟩ := stays.bindings name b found deletable
  exact ⟨kept, there, lasts.deletable.trans deletable⟩

/-- A name waits after a run as it did before, unless it is one of those that get their values. -/
theorem waits_of_stays (stays : first.Stays begins second) (binds : first.Binds name) (quiet : ¬begins name) :
    second.Waits name ↔ first.Waits name := by
  obtain ⟨b, found, deletable⟩ := binds
  obtain ⟨kept, there, lasts, begun⟩ := stays.bindings name b found deletable
  constructor
  · rintro ⟨other, same, waiting⟩
    obtain rfl : kept = other := Option.some.inj (there.symm.trans same)
    refine ⟨b, found, Bool.eq_false_iff.mpr fun ready => ?_⟩
    rw [lasts.initialized ready] at waiting
    cases waiting
  · rintro ⟨other, same, waiting⟩
    obtain rfl : b = other := Option.some.inj (found.symm.trans same)
    refine ⟨kept, there, Bool.eq_false_iff.mpr fun ready => ?_⟩
    rcases begun ready with before | begins
    · rw [before] at waiting
      cases waiting
    · exact quiet begins

/-- An environment that binds a name is one of those that there are. -/
theorem index_of_bound (found : m.bound? name = some b) :
    m.context.lexical.index < m.environments.environments.size := by
  refine Nat.lt_of_not_le fun beyond => ?_
  unfold bound? at found
  rw [EnvironmentStore.get_beyond beyond] at found
  cases found

theorem bound_first_value (found : m.bound? name = some b) (waiting : b.initialized = false) (value : Value)
    (other : String) :
    (m.firstValue name value).bound? other =
      if name = other then some { b with value, initialized := true } else m.bound? other := by
  unfold bound? firstValue
  rw [EnvironmentStore.get_set_self _ (index_of_bound found), Environment.initialize_of_waiting found waiting]
  exact Environment.binding?_set (Environment.isDeclarative_of_binding found) name other _

theorem bound_first_value_of_initialized (found : m.bound? name = some b) (ready : b.initialized = true)
    (value : Value) (other : String) : (m.firstValue name value).bound? other = m.bound? other := by
  unfold bound? firstValue
  rw [EnvironmentStore.get_set_self _ (index_of_bound found), Environment.initialize_of_initialized found ready]

theorem stays_first_value (m : Machine) (name : String) (value : Value) :
    m.Stays (· = name) (m.firstValue name value) where
  context := rfl
  bindings other b found deletable := by
    have there := index_of_bound found
    have keeps : (m.environments.get m.context.lexical).Keeps (· = name)
        ((m.environments.get m.context.lexical).initialize? name value).2 := by
      refine Environment.keeps_first_value ?_ _ value
      rfl
    obtain ⟨kept, still, lasts, begun⟩ := keeps.bindings other b found deletable
    refine ⟨kept, ?_, lasts, begun⟩
    unfold bound? firstValue
    rw [EnvironmentStore.get_set_self _ there]
    exact still

end Machine

/-- An orderly action that may give first values to certain names only. -/
theorem Orderly.stays {α : Type} {action : Engine → Eval α} {E : Engine} {begins : String → Prop}
    (steady : E.Steady .naming) (orderly : Orderly .naming (Rights.none.naming begins) false action)
    (m : Machine) : m.Stays begins (m.run (action E)).2 := by
  have context := Machine.context_of_settles (orderly.settles_steady Terms.lenient_naming steady m)
  have continues := orderly.continues_steady Terms.lenient_naming steady m
  refine ⟨context, fun name b found stays => ?_⟩
  have keeps := continues.environments.environments m.context.lexical (Machine.index_of_bound found) id
  obtain ⟨kept, there, lasts, begun⟩ := keeps.bindings name b found stays
  refine ⟨kept, ?_, lasts, fun ready => (begun ready).imp_right fun begins => ?_⟩
  · unfold Machine.bound?
    rw [context]
    exact there
  · exact (begins trivial).elim False.elim And.right

/-! ## Declarations -/

section Declarations

variable {E : Engine} {m : Machine} {name : String} {b : Binding} {d : Declarator}
  {declarators earlier later : List Declarator}

theorem run_execute_lexical_cons (E : Engine) (d : Declarator) (rest : List Declarator) (m : Machine) :
    m.run (executeLexical E (d :: rest)) =
      match m.run (initialValue E d) with
      | (.ok value, after) => (after.firstValue d.name value).run (executeLexical E rest)
      | (.error e, after) => (.error e, after) := by
  have steps : executeLexical E (d :: rest) = initialValue E d >>= fun value =>
      (lexicalEnvironment >>= fun id => modifyEnvironment id fun e => (e.initialize? d.name value).2) >>=
        fun _ => executeLexical E rest := by
    unfold executeLexical
    rw [List.forM_eq_forM, List.forM_cons, bind_assoc]
  rw [steps, Machine.run_bind]
  cases m.run (initialValue E d) with
  | mk outcome after =>
    cases outcome with
    | ok value => rfl
    | error e => rfl

theorem run_execute_lexical_append {before : Machine}
    (ran : m.run (executeLexical E earlier) = (.ok (), before)) (later : List Declarator) :
    m.run (executeLexical E (earlier ++ later)) = before.run (executeLexical E later) := by
  unfold executeLexical at ran ⊢
  rw [List.forM_eq_forM] at ran ⊢
  rw [List.forM_append, Machine.run_bind_ok ran]

/-- What a declaration that ends well has done with its first declarator. -/
theorem ran_of_execute_lexical_cons {final : Machine}
    (ran : m.run (executeLexical E (d :: later)) = (.ok (), final)) :
    ∃ value after, m.run (initialValue E d) = (.ok value, after) ∧
      (after.firstValue d.name value).run (executeLexical E later) = (.ok (), final) := by
  rw [run_execute_lexical_cons] at ran
  cases begun : m.run (initialValue E d) with
  | mk outcome after =>
    rw [begun] at ran
    cases outcome with
    | ok value => exact ⟨value, after, rfl, ran⟩
    | error e => cases ran

/-- A name has a value in the current environment, which it keeps. -/
def Machine.Ready (m : Machine) (name : String) : Prop :=
  ∃ b, m.bound? name = some b ∧ b.deletable = false ∧ b.initialized = true

theorem Machine.ready_of_stays {begins : String → Prop} {before after : Machine}
    (stays : before.Stays begins after) (ready : before.Ready name) : after.Ready name := by
  obtain ⟨b, found, deletable, initialized⟩ := ready
  obtain ⟨kept, there, lasts, -⟩ := stays.bindings name b found deletable
  exact ⟨kept, there, lasts.deletable.trans deletable, lasts.initialized initialized⟩

theorem Machine.ready_first_value (binds : m.Binds name) (value : Value) :
    (m.firstValue name value).Ready name := by
  obtain ⟨b, found, deletable⟩ := binds
  cases initialized : b.initialized with
  | true =>
    exact ⟨b, (bound_first_value_of_initialized found initialized ..).trans found, deletable, initialized⟩
  | false => exact ⟨_, (bound_first_value found initialized ..).trans (if_pos rfl), deletable, rfl⟩

variable (steady : E.Steady .naming)
include steady

/-- The first value of a name is computed where the declaration stands, and gives none to any name there. -/
theorem initial_value_stays (d : Declarator) (m : Machine) :
    m.Stays (fun _ => False) (m.run (initialValue E d)).2 :=
  (orderly_initial_value d).stays steady m

/-- A declaration gives values to no names but its own. -/
theorem execute_lexical_stays (declarators : List Declarator) (m : Machine) :
    m.Stays (fun name => ∃ d ∈ declarators, d.name = name) (m.run (executeLexical E declarators)).2 := by
  refine Orderly.stays steady (orderly_execute_lexical fun _ d mem => ?_) m
  exact ⟨d, mem, rfl⟩

/-- Whatever a declaration does with its names, all of them have values in the end. -/
theorem execute_lexical_ready {final : Machine} (bound : ∀ d ∈ declarators, m.Binds d.name)
    (ran : m.run (executeLexical E declarators) = (.ok (), final)) (among : d ∈ declarators) :
    final.Ready d.name := by
  induction declarators generalizing m with
  | nil => cases among
  | cons first rest ih =>
    obtain ⟨value, after, begun, goesOn⟩ := ran_of_execute_lexical_cons ran
    have computed := initial_value_stays steady first m
    rw [begun] at computed
    have given := Machine.stays_first_value after first.name value
    cases among with
    | head =>
      have rest_stays := execute_lexical_stays steady rest (after.firstValue d.name value)
      rw [goesOn] at rest_stays
      refine Machine.ready_of_stays rest_stays (Machine.ready_first_value ?_ value)
      exact Machine.binds_of_stays computed (bound d (.head _))
    | tail _ later =>
      refine ih (fun other mem => ?_) goesOn later
      exact Machine.binds_of_stays given (Machine.binds_of_stays computed (bound other (.tail _ mem)))

/-! ## What a declaration achieves -/

/-- In a declaration that starts in a certain state, the first value of one of its names has just been
computed, behind those of the names before it. -/
structure Engine.Computes (E : Engine) (m : Machine) (declarators earlier : List Declarator) (d : Declarator)
    (value : Value) (after : Machine) : Prop where
  among : ∃ later, declarators = earlier ++ d :: later
  ran : ∃ before, m.run (executeLexical E earlier) = (.ok (), before) ∧
    before.run (initialValue E d) = (.ok value, after)

/-- A declaration by `let` or `const` that starts in a certain state gives its names their first values, in the
environment where it stands, but for those that are dropped. -/
structure Engine.Establishes (E : Engine) (m : Machine) (constant : Bool) (declarators : List Declarator)
    (kept : List Declarator → Declarator → Prop) : Prop where
  /-- A first value is taken exactly if it is not to be dropped. -/
  taken : ∀ earlier d value after, E.Computes m declarators earlier d value after →
    (((after.environments.get m.context.lexical).initialize? d.name value).1 = true ↔ kept earlier d)
  /-- The name then has this value. -/
  holds : ∀ earlier d value after, E.Computes m declarators earlier d value after → kept earlier d →
    ∀ done, m.run (executeLexical E (earlier ++ [d])) = (.ok (), done) →
      ∃ b, (done.environments.get m.context.lexical).binding? d.name = some b ∧ b.initialized = true ∧
        b.value = value
  /-- At the end of the declaration all of its names have values, and constants still the same. -/
  ends : ∀ final, m.run (executeLexical E declarators) = (.ok (), final) →
    ∀ earlier d value after, E.Computes m declarators earlier d value after →
      ∃ b, (final.environments.get m.context.lexical).binding? d.name = some b ∧ b.initialized = true ∧
        (kept earlier d → constant = true → b.value = value)

omit steady in
theorem Machine.taken_iff_waits (binds : m.Binds name) (value : Value) :
    ((m.environments.get m.context.lexical).initialize? name value).1 = true ↔ m.Waits name := by
  obtain ⟨b, found, -⟩ := binds
  cases initialized : b.initialized with
  | true =>
    rw [Environment.initialize_of_initialized found initialized]
    refine ⟨nofun, fun ⟨other, same, waiting⟩ => ?_⟩
    obtain rfl : b = other := Option.some.inj (found.symm.trans same)
    rw [initialized] at waiting
    cases waiting
  | false =>
    rw [Environment.initialize_of_waiting found initialized]
    exact ⟨fun _ => ⟨b, found, initialized⟩, fun _ => rfl⟩

/-- While a first value is computed nothing happens to names but those before it. -/
theorem computes_stays {value : Value} {after : Machine}
    (computes : E.Computes m declarators earlier d value after) :
    m.Stays (fun name => ∃ other ∈ earlier, other.name = name) after := by
  obtain ⟨before, ran, computed⟩ := computes.ran
  have first := execute_lexical_stays steady earlier m
  have second := initial_value_stays steady d before
  rw [ran] at first
  rw [computed] at second
  exact Machine.stays_trans first (Machine.stays_mono (fun _ no => no.elim) second)

/-- A first value is dropped if the name had one before the declaration or got one from it. -/
theorem waits_of_computes {value : Value} {after : Machine} (bound : ∀ d ∈ declarators, m.Binds d.name)
    (computes : E.Computes m declarators earlier d value after) :
    after.Waits d.name ↔ m.Waits d.name ∧ ∀ other ∈ earlier, other.name ≠ d.name := by
  have stays := computes_stays steady computes
  obtain ⟨later, rfl⟩ := computes.among
  have binds : m.Binds d.name := bound d (List.mem_append_right _ (.head _))
  by_cases again : ∃ other ∈ earlier, other.name = d.name
  · obtain ⟨other, mem, same⟩ := again
    obtain ⟨before, ran, computed⟩ := computes.ran
    have ready := execute_lexical_ready steady (fun d mem => bound d (List.mem_append_left _ mem)) ran mem
    have second := initial_value_stays steady d before
    rw [computed] at second
    obtain ⟨b, found, -, initialized⟩ := Machine.ready_of_stays second ready
    rw [same] at found
    refine ⟨fun ⟨kept, there, waiting⟩ => ?_, fun both => absurd same (both.2 other mem)⟩
    obtain rfl : b = kept := Option.some.inj (found.symm.trans there)
    rw [initialized] at waiting
    cases waiting
  · rw [Machine.waits_of_stays stays binds again]
    exact ⟨fun waits => ⟨waits, fun other mem same => again ⟨other, mem, same⟩⟩, And.left⟩

/-- A declaration drops the first values of names that have one already. -/
theorem establishes (bound : ∀ d ∈ declarators, m.Binds d.name) {constant : Bool}
    (fixed : constant = true → ∀ d ∈ declarators, ∀ b, m.bound? d.name = some b → b.mutable = false) :
    E.Establishes m constant declarators fun earlier d =>
      m.Waits d.name ∧ ∀ other ∈ earlier, other.name ≠ d.name where
  taken earlier d value after computes := by
    have stays := computes_stays steady computes
    obtain ⟨later, same⟩ := computes.among
    have binds : m.Binds d.name := bound d (same ▸ List.mem_append_right _ (.head _))
    rw [← waits_of_computes steady bound computes, ← stays.context]
    exact Machine.taken_iff_waits (Machine.binds_of_stays stays binds) value
  holds earlier d value after computes kept done ran := by
    have stays := computes_stays steady computes
    obtain ⟨b, found, waiting⟩ := (waits_of_computes steady bound computes).mpr kept
    obtain ⟨before, began, computed⟩ := computes.ran
    rw [run_execute_lexical_append began, run_execute_lexical_cons, computed] at ran
    obtain rfl : after.firstValue d.name value = done := congrArg Prod.snd ran
    refine ⟨{ b with value, initialized := true }, ?_, rfl, rfl⟩
    rw [← stays.context]
    exact (Machine.bound_first_value found waiting value d.name).trans (if_pos rfl)
  ends final ran earlier d value after computes := by
    have stays := computes_stays steady computes
    obtain ⟨later, rfl⟩ := computes.among
    have among : d ∈ earlier ++ d :: later := List.mem_append_right _ (.head _)
    have whole := execute_lexical_stays steady (earlier ++ d :: later) m
    rw [ran] at whole
    obtain ⟨b, found, deletable, initialized⟩ := execute_lexical_ready steady bound ran among
    refine ⟨b, whole.context ▸ found, initialized, fun kept const => ?_⟩
    -- From where the constant got its value on it lasts.
    obtain ⟨old, there, waiting⟩ := (waits_of_computes steady bound computes).mpr kept
    obtain ⟨before, began, computed⟩ := computes.ran
    rw [run_execute_lexical_append began, run_execute_lexical_cons, computed] at ran
    have rest := execute_lexical_stays steady later (after.firstValue d.name value)
    rw [show (after.firstValue d.name value).run (executeLexical E later) = (.ok (), final) from ran] at rest
    obtain ⟨first, begins, stay⟩ := bound d among
    obtain ⟨same, again, lasts, -⟩ := stays.bindings d.name first begins stay
    obtain rfl : old = same := Option.some.inj (there.symm.trans again)
    have given := (Machine.bound_first_value there waiting value d.name).trans (if_pos rfl)
    obtain ⟨last, still, onward, -⟩ := rest.bindings d.name _ given (lasts.deletable.trans stay)
    obtain rfl : b = last := Option.some.inj (found.symm.trans still)
    exact onward.value rfl (lasts.mutable.trans (fixed const d among first begins))

end Declarations
end ScriptEngine
