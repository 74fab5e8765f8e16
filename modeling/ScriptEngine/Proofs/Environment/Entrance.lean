import ScriptEngine.Proofs.Environment.GlobalObject
import ScriptEngine.Proofs.Environment.Instantiation

/-!
What each name of a function is bound to when its body starts. Five passes go over one environment: parameters and
declared functions take the place of what is there, the object of the arguments is made for a name that neither of
them has, names of `var` leave what is there, and names of `let` and `const` come last.
-/

namespace ScriptEngine

/-- What a name is bound to that has a value from the start. -/
def Binding.declared (value : Value) : Binding := ⟨value, true, true, false, false⟩

/-! ## One environment -/

namespace Environment

variable {e : Environment} {name : String}

theorem binding_declare (holds : e.isDeclarative) (other : String) (value : Value) (name : String) :
    (e.declare other value).binding? name = if other = name then some (.declared value) else e.binding? name :=
  binding?_set holds ..

theorem isDeclarative_bind_parameters (e : Environment) (parameters : List String) (values : List Value) :
    (bindParameters e parameters values).isDeclarative = e.isDeclarative := by
  induction parameters generalizing e values with
  | nil => rfl
  | cons first rest ih => cases values <;> exact (ih ..).trans (isDeclarative_set ..)

/-- The parameters behind some others get the arguments behind theirs. -/
theorem bind_parameters_append (e : Environment) (before later : List String) (values : List Value) :
    bindParameters e (before ++ later) values =
      bindParameters (bindParameters e before values) later (values.drop before.length) := by
  induction before generalizing e values with
  | nil => rfl
  | cons first rest ih =>
    cases values with
    | nil => exact (ih ..).trans (by rw [List.drop_nil, List.drop_nil]; rfl)
    | cons v values => exact ih ..

theorem binding_bind_parameters_of_absent (holds : e.isDeclarative) {parameters : List String}
    (absent : name ∉ parameters) (values : List Value) :
    (bindParameters e parameters values).binding? name = e.binding? name := by
  induction parameters generalizing e values with
  | nil => rfl
  | cons first rest ih =>
    have other : first ≠ name := fun same => absent (same ▸ .head _)
    have later : name ∉ rest := fun among => absent (.tail _ among)
    have declares (value : Value) (values : List Value) :
        (bindParameters (e.declare first value) rest values).binding? name = e.binding? name := by
      rw [ih (isDeclarative_set e first _ ▸ holds) later, binding_declare holds, if_neg other]
    cases values with
    | nil => exact declares .undefined []
    | cons v values => exact declares v values

/-- The last of the parameters of one name decides; what is missing is undefined. -/
theorem binding_bind_parameters_of_last (holds : e.isDeclarative) (before : List String) {later : List String}
    (last : name ∉ later) (values : List Value) :
    (bindParameters e (before ++ name :: later) values).binding? name =
      some (.declared (values.getD before.length .undefined)) := by
  rw [bind_parameters_append]
  have still := isDeclarative_bind_parameters e before values ▸ holds
  have declares (value : Value) (rest : List Value) :
      (bindParameters ((bindParameters e before values).declare name value) later rest).binding? name =
        some (.declared value) := by
    have now : ((bindParameters e before values).declare name value).isDeclarative :=
      (isDeclarative_set ..).trans still
    rw [binding_bind_parameters_of_absent now last, binding_declare still, if_pos rfl]
  rw [List.getD_eq_getElem?_getD, ← List.head?_drop]
  cases values.drop before.length with
  | nil => exact declares .undefined []
  | cons v rest => exact declares v rest

theorem isDeclarative_bind_vars (e : Environment) (vars : List String) :
    (bindVars e vars).isDeclarative = e.isDeclarative := by
  induction vars generalizing e with
  | nil => rfl
  | cons first rest ih =>
    refine (ih _).trans ?_
    dsimp only
    split
    · rfl
    · exact isDeclarative_set ..

/-- Names of `var` leave what is bound. -/
theorem binding_bind_vars (holds : e.isDeclarative) (vars : List String) (name : String) :
    (bindVars e vars).binding? name =
      (e.binding? name).or (if name ∈ vars then some (.declared .undefined) else none) := by
  induction vars generalizing e with
  | nil => exact (Option.or_none ..).symm
  | cons first rest ih =>
    change (bindVars (if (e.binding? first).isSome then e else e.declare first .undefined) rest).binding? name = _
    by_cases bound : (e.binding? first).isSome
    · rw [if_pos bound, ih holds]
      by_cases same : name = first
      · obtain ⟨b, found⟩ := Option.isSome_iff_exists.mp (same ▸ bound)
        rw [found, Option.some_or, Option.some_or]
      · simp only [List.mem_cons, same, false_or]
    · rw [if_neg bound, ih (isDeclarative_set e first _ ▸ holds), binding_declare holds]
      by_cases same : first = name
      · subst same
        rw [Option.not_isSome_iff_eq_none.mp bound, if_pos rfl, Option.some_or, Option.none_or,
          if_pos (List.mem_cons_self ..)]
      · simp only [List.mem_cons, same, Ne.symm same, false_or, if_false]

/-- Names of `let` leave what is bound. -/
theorem binding_create_lexical_of_variables (holds : e.isDeclarative) {lexical : List LexicalName} {b : Binding}
    (varies : ∀ n ∈ lexical, n.name = name → n.constant = false) (bound : e.binding? name = some b) :
    (e.createLexical lexical).binding? name = some b := by
  induction lexical generalizing e with
  | nil => exact bound
  | cons n rest ih =>
    have kept : (e.createName n).binding? name = some b := by
      rw [binding_create_name holds]
      by_cases same : n.name = name
      · rw [if_pos same, varies n (.head _) same, bound]
        rfl
      · rw [if_neg same, bound]
    exact ih (isDeclarative_create_name e n ▸ holds) (fun other among => varies other (.tail _ among)) kept

/-- What waits for its value goes on waiting when more names are added. -/
theorem waits_create_lexical (holds : e.isDeclarative) {b : Binding} (bound : e.binding? name = some b)
    (waiting : b.initialized = false) (lexical : List LexicalName) :
    ∃ kept, (e.createLexical lexical).binding? name = some kept ∧ kept.initialized = false := by
  induction lexical generalizing e b with
  | nil => exact ⟨b, bound, waiting⟩
  | cons n rest ih =>
    have found := binding_create_name holds n name
    have still := isDeclarative_create_name e n ▸ holds
    by_cases same : n.name = name
    · rw [if_pos same] at found
      cases constant : n.constant with
      | true =>
        rw [constant, if_pos rfl] at found
        exact ih still found rfl
      | false =>
        rw [constant, if_neg Bool.false_ne_true, bound] at found
        exact ih still found waiting
    · rw [if_neg same, bound] at found
      exact ih still found waiting

/-- A constant waits for its value, and so does every name of `let` that was not bound. -/
theorem waits_of_created (holds : e.isDeclarative) {lexical : List LexicalName} {n : LexicalName}
    (among : n ∈ lexical) (new : n.constant = true ∨ e.binding? n.name = none) :
    ∃ b, (e.createLexical lexical).binding? n.name = some b ∧ b.initialized = false := by
  induction lexical generalizing e with
  | nil => cases among
  | cons first rest ih =>
    have still := isDeclarative_create_name e first ▸ holds
    change ∃ b, ((e.createName first).createLexical rest).binding? n.name = some b ∧ b.initialized = false
    have found := binding_create_name holds first n.name
    by_cases same : first.name = n.name
    · by_cases fresh : first.constant = true ∨ e.binding? n.name = none
      · have begun : (e.createName first).binding? n.name = some (.uninitialized first) := by
          rw [found, if_pos same]
          rcases fresh with constant | unbound
          · rw [constant, if_pos rfl]
          · rw [unbound, Option.getD_none, ite_self]
        exact waits_create_lexical still begun rfl rest
      · -- A name of `let` that is bound is left alone, so that the constant comes later.
        cases among with
        | head => exact absurd new fresh
        | tail _ later => exact ih still later (.inl (new.resolve_right fun unbound => fresh (.inr unbound)))
    · rw [if_neg same] at found
      cases among with
      | head => exact absurd rfl same
      | tail _ later => exact ih still later (found ▸ new)

end Environment

/-! ## Filling one environment -/

/-- An object was made between two states. -/
structure Machine.Made (before after : Machine) (id : ObjectId) : Prop where
  new : before.heap.objects.size ≤ id.index
  there : id.index < after.heap.objects.size

/-- Between two states objects have been added, and one environment has other bindings; nothing else has
changed. -/
structure Machine.Fills (id : EnvironmentId) (before after : Machine) : Prop where
  size : after.environments.environments.size = before.environments.environments.size
  others : ∀ other, other ≠ id → after.environments.get other = before.environments.get other
  adds : ({ before with environments := after.environments } : Machine).Adds after
  context : after.context = before.context

section Filling

variable {first m after last : Machine} {id : EnvironmentId} {name : String}

theorem fills_refl (id : EnvironmentId) (m : Machine) : m.Fills id m :=
  ⟨rfl, fun _ _ => rfl, adds_refl m, rfl⟩

theorem fills_trans (early : m.Fills id after) (late : after.Fills id last) : m.Fills id last where
  size := late.size.trans early.size
  others other distinct := (late.others other distinct).trans (early.others other distinct)
  adds := {
    environments := rfl
    realm := late.adds.realm.trans early.adds.realm
    size := Nat.le_trans early.adds.size late.adds.size
    objects := fun o there =>
      (late.adds.objects o (Nat.lt_of_lt_of_le there early.adds.size)).trans (early.adds.objects o there) }
  context := late.context.trans early.context

theorem made_of_fills {o : ObjectId} (early : m.Fills id after) (made : after.Made last o) : m.Made last o :=
  ⟨Nat.le_trans early.adds.size made.new, made.there⟩

theorem Machine.Made.later {o : ObjectId} (made : m.Made after o) (late : after.Fills id last) : m.Made last o :=
  ⟨made.new, Nat.lt_of_lt_of_le made.there late.adds.size⟩

theorem fills_of_adds (adds : m.Adds after) (context : after.context = m.context) : m.Fills id after where
  size := by rw [adds.environments]
  others other _ := by rw [adds.environments]
  adds := ⟨rfl, adds.realm, adds.size, adds.objects⟩
  context := context

/-- The bindings of an environment in a state. -/
def Machine.bindingIn? (m : Machine) (id : EnvironmentId) (name : String) : Option Binding :=
  (m.environments.get id).binding? name

/-- An environment is there and holds its bindings itself. -/
structure Machine.Open (m : Machine) (id : EnvironmentId) : Prop where
  there : id.index < m.environments.environments.size
  declarative : (m.environments.get id).isDeclarative = true

/-- An environment is changed to another one that holds its bindings itself. -/
theorem run_modify_open (opened : m.Open id) {f : Environment → Environment}
    (stays : ∀ e : Environment, (f e).isDeclarative = e.isDeclarative) :
    ∃ after, m.run (modifyEnvironment id f) = (.ok (), after) ∧ m.Fills id after ∧ after.Open id ∧
      after.heap = m.heap ∧ after.environments.get id = f (m.environments.get id) := by
  have changed := EnvironmentStore.get_set_self (f (m.environments.get id)) opened.there
  refine ⟨_, Machine.run_modify_environment m id f, ?_, ?_, rfl, changed⟩
  · exact {
      size := EnvironmentStore.size_set ..
      others := fun other distinct => EnvironmentStore.get_set_of_ne _ (Ne.symm distinct)
      adds := adds_refl _
      context := rfl }
  · constructor
    · exact (EnvironmentStore.size_set ..).symm ▸ opened.there
    · dsimp only
      rw [changed, stays, opened.declarative]

/-- The function objects that are made are bound by the names of the functions. -/
theorem run_bind_function (opened : m.Open id) {code : FunctionCode} (named : code.name = some name)
    (rest : List FunctionCode) :
    ∃ f after, m.run (bindFunctions id (code :: rest)) = after.run (bindFunctions id rest) ∧ m.Fills id after ∧
      after.Open id ∧ m.Made after f ∧
      (after.heap.get f).callable? = some (.script (m.closure code id)) ∧
      ∀ other, after.bindingIn? id other =
        if name = other then some (.declared (.object f)) else m.bindingIn? id other := by
  obtain ⟨f, created, makes, adds, new, context, there, runs⟩ := run_create_script_function m code id
  have openly : created.Open id := ⟨adds.environments ▸ opened.there, adds.environments ▸ opened.declarative⟩
  obtain ⟨after, binds, fills, now, heap, changed⟩ :=
    run_modify_open openly (f := (·.declare name (.object f))) fun e => Environment.isDeclarative_set ..
  have whole : m.Fills id after := fills_trans (fills_of_adds adds context) fills
  refine ⟨f, after, ?_, whole, now, ⟨new, heap ▸ there⟩, heap ▸ runs, ?_⟩
  · unfold bindFunctions
    rw [List.forM_eq_forM, List.forM_cons, named]
    dsimp only
    rw [bind_assoc, Machine.run_bind_ok makes, Machine.run_bind_ok binds]
  · intro other
    unfold Machine.bindingIn?
    rw [changed, Environment.binding_declare openly.declarative, adds.environments]

theorem run_bind_functions (opened : m.Open id) (functions : List FunctionCode) :
    ∃ after, m.run (bindFunctions id functions) = (.ok (), after) ∧ m.Fills id after ∧ after.Open id ∧
      ∀ name, (∀ code ∈ functions, code.name ≠ some name) → after.bindingIn? id name = m.bindingIn? id name := by
  induction functions generalizing m with
  | nil => exact ⟨m, rfl, fills_refl id m, opened, fun _ _ => rfl⟩
  | cons code rest ih =>
    cases named : code.name with
    | none =>
      obtain ⟨after, ran, fills, now, kept⟩ := ih opened
      refine ⟨after, ?_, fills, now, fun name absent => kept name fun other among => absent other (.tail _ among)⟩
      unfold bindFunctions at ran ⊢
      rw [List.forM_eq_forM] at ran ⊢
      rw [List.forM_cons, named, ← ran]
      rfl
    | some name =>
      obtain ⟨f, bound, goesOn, fills, now, -, -, binding⟩ := run_bind_function opened named rest
      obtain ⟨after, ran, later, last, kept⟩ := ih now
      refine ⟨after, goesOn.trans ran, fills_trans fills later, last, fun other absent => ?_⟩
      have distinct : name ≠ other := by
        rintro rfl
        exact absent code (.head _) named
      rw [kept other fun code among => absent code (.tail _ among), binding, if_neg distinct]

theorem closure_of_fills (fills : m.Fills id after) (code : FunctionCode) (environment : EnvironmentId) :
    after.closure code environment = m.closure code environment := by
  unfold Machine.closure
  rw [fills.context]

/-- The last of the functions of one name decides. -/
theorem run_bind_functions_of_last (opened : m.Open id) (earlier : List FunctionCode) {code : FunctionCode}
    {later : List FunctionCode} (named : code.name = some name) (last : ∀ other ∈ later, other.name ≠ some name) :
    ∃ f after, m.run (bindFunctions id (earlier ++ code :: later)) = (.ok (), after) ∧
      m.Made after f ∧ (after.heap.get f).callable? = some (.script (m.closure code id)) ∧
      after.bindingIn? id name = some (.declared (.object f)) := by
  obtain ⟨between, ran, fills, now, -⟩ := run_bind_functions opened earlier
  obtain ⟨f, bound, goesOn, -, openly, made, runs, binding⟩ := run_bind_function now named later
  obtain ⟨after, ends, rest, -, kept⟩ := run_bind_functions openly later
  have inOrder : m.run (bindFunctions id (earlier ++ code :: later)) =
      m.run (bindFunctions id earlier >>= fun _ => bindFunctions id (code :: later)) := by
    unfold bindFunctions
    rw [List.forM_eq_forM, List.forM_append]
  refine ⟨f, after, ?_, (made_of_fills fills made).later rest, ?_, ?_⟩
  · rw [inOrder, Machine.run_bind_ok ran, goesOn, ends]
  · rw [rest.adds.objects f made.there, runs, closure_of_fills fills]
  · rw [kept name last, binding, if_pos rfl]

end Filling

/-! ## The object of the arguments -/

/-- A function makes an object of its arguments. -/
structure FunctionCode.HasArguments (code : FunctionCode) : Prop where
  mentioned : code.usesArguments = true
  ordinary : code.isArrow = false
  parameters : argumentsName ∉ code.parameters
  functions : ∀ f ∈ code.scope.functions, f.name ≠ some argumentsName

theorem makes_arguments_iff (code : FunctionCode) : makesArguments code = true ↔ code.HasArguments := by
  have undeclared : code.scope.functions.any (·.name == some argumentsName) = false ↔
      ∀ f ∈ code.scope.functions, f.name ≠ some argumentsName := by
    simp only [List.any_eq_false, beq_iff_eq, ne_eq]
  unfold makesArguments
  simp only [Bool.and_eq_true, Bool.not_eq_true', undeclared, List.contains_eq_mem, decide_eq_false_iff_not]
  exact ⟨fun ⟨⟨⟨a, b⟩, c⟩, d⟩ => ⟨a, b, c, d⟩, fun ⟨a, b, c, d⟩ => ⟨⟨⟨a, b⟩, c⟩, d⟩⟩

/-- The object that holds the arguments of a call, as an object by itself. -/
def Object.argumentsOf (proto callee : ObjectId) (arguments : List Value) (strict : Bool) : Object :=
  if strict then .ofArguments proto arguments
  else (Object.ofArguments proto arguments).setData "callee" (.object callee) .hidden

/-- What the object of the arguments is bound by; in strict code the name keeps it. -/
def Binding.ofArguments (object : ObjectId) (strict : Bool) : Binding :=
  ⟨.object object, !strict, true, false, false⟩

/-- Binds the object of the arguments. -/
def Environment.bindArguments (e : Environment) (object : ObjectId) (strict : Bool) : Environment :=
  if strict then ((e.createImmutable argumentsName false).initialize? argumentsName (.object object)).2
  else e.declare argumentsName (.object object)

theorem Environment.isDeclarative_first_value (e : Environment) (name : String) (value : Value) :
    (e.initialize? name value).2.isDeclarative = e.isDeclarative := by
  unfold initialize?
  split
  · split
    · rfl
    · exact isDeclarative_set ..
  · rfl

theorem Environment.isDeclarative_bind_arguments (e : Environment) (object : ObjectId) (strict : Bool) :
    (e.bindArguments object strict).isDeclarative = e.isDeclarative := by
  cases strict with
  | false => exact isDeclarative_set ..
  | true => exact (isDeclarative_first_value ..).trans (isDeclarative_set ..)

theorem Environment.binding_bind_arguments {e : Environment} (holds : e.isDeclarative) (object : ObjectId)
    (strict : Bool) (name : String) :
    (e.bindArguments object strict).binding? name =
      if argumentsName = name then some (.ofArguments object strict) else e.binding? name := by
  unfold bindArguments
  cases strict with
  | false => exact binding_declare holds ..
  | true =>
    have found : (e.createImmutable argumentsName false).binding? argumentsName =
        some ⟨.undefined, false, false, false, false⟩ :=
      (binding?_set holds argumentsName argumentsName _).trans (if_pos rfl)
    rw [if_pos rfl, initialize_of_waiting found rfl]
    exact (binding_set_set holds ..).trans (binding?_set holds ..)

/-! ## Entering a function -/

/-- A name has a value when the body of a function starts. -/
inductive FunctionCode.Gives (code : FunctionCode) : String → Prop
  | parameter {name : String} (among : name ∈ code.parameters) : code.Gives name
  | function {name : String} {f : FunctionCode} (among : f ∈ code.scope.functions) (named : f.name = some name) :
      code.Gives name
  | arguments (makes : code.HasArguments) : code.Gives argumentsName
  | var {name : String} (among : name ∈ code.scope.vars) : code.Gives name

/-- What a name is bound to in the environment of a function from the start. The states are those before and after
the names of the function are bound. -/
inductive Machine.BindsFirst (before after : Machine) (id : EnvironmentId) (callee : ObjectId) (code : FunctionCode)
    (arguments : List Value) (name : String) : Binding → Prop
  | function {earlier later : List FunctionCode} {f : FunctionCode} {object : ObjectId}
      (written : code.scope.functions = earlier ++ f :: later) (named : f.name = some name)
      (last : ∀ other ∈ later, other.name ≠ some name) (made : before.Made after object)
      (runs : (after.heap.get object).callable? = some (.script (before.closure f id))) :
      before.BindsFirst after id callee code arguments name (.declared (.object object))
  | arguments {object : ObjectId} (makes : code.HasArguments) (same : name = argumentsName)
      (made : before.Made after object)
      (holds : after.heap.get object =
        .argumentsOf before.realm.intrinsics.objectPrototype callee arguments code.strict) :
      before.BindsFirst after id callee code arguments name (.ofArguments object code.strict)
  | parameter {earlier later : List String} (undeclared : ∀ f ∈ code.scope.functions, f.name ≠ some name)
      (written : code.parameters = earlier ++ name :: later) (last : name ∉ later) :
      before.BindsFirst after id callee code arguments name
        (.declared (arguments.getD earlier.length .undefined))
  | var (undeclared : ∀ f ∈ code.scope.functions, f.name ≠ some name) (unasked : name ∉ code.parameters)
      (unmade : code.HasArguments → name ≠ argumentsName) (among : name ∈ code.scope.vars) :
      before.BindsFirst after id callee code arguments name (.declared .undefined)

/-- The environment of a function when its body starts. -/
structure Machine.Enters (before after : Machine) (id : EnvironmentId) (callee : ObjectId) (code : FunctionCode)
    (arguments : List Value) : Prop where
  /-- Nothing happens elsewhere. -/
  fills : before.Fills id after
  /-- The bound names are those that have values and those of `let` and `const`. -/
  bound : ∀ name, (∃ b, after.bindingIn? id name = some b) ↔
    code.Gives name ∨ ∃ n ∈ code.scope.lexical, n.name = name
  /-- A name has its value unless it is a constant, even if it is also one of `let`. -/
  ready : ∀ name, code.Gives name → (∀ n ∈ code.scope.lexical, n.name = name → n.constant = false) →
    ∃ b, after.bindingIn? id name = some b ∧ b.initialized = true ∧
      before.BindsFirst after id callee code arguments name b
  /-- Constants wait for their values, and so do the other names of `let`. -/
  waiting : ∀ n ∈ code.scope.lexical, n.constant = true ∨ ¬code.Gives n.name →
    ∃ b, after.bindingIn? id n.name = some b ∧ b.initialized = false

section Entering

variable {m before after last : Machine} {id : EnvironmentId} {callee : ObjectId} {code : FunctionCode}
variable {arguments : List Value} {name : String} {b : Binding}

theorem Machine.BindsFirst.initialized (first : before.BindsFirst after id callee code arguments name b) :
    b.initialized = true := by
  cases first <;> rfl

/-- What is made for a name stays what it is while others are bound. -/
theorem Machine.BindsFirst.later (first : before.BindsFirst after id callee code arguments name b)
    (fills : after.Fills id last) : before.BindsFirst last id callee code arguments name b := by
  cases first with
  | function written named last made runs =>
    exact .function written named last (made.later fills) (fills.adds.objects _ made.there ▸ runs)
  | arguments makes same made holds =>
    exact .arguments makes same (made.later fills) ((fills.adds.objects _ made.there).trans holds)
  | parameter undeclared written last => exact .parameter undeclared written last
  | var undeclared unasked unmade among => exact .var undeclared unasked unmade among

theorem last_of_exists {α : Type} {meets : α → Prop} {items : List α} (some : ∃ a ∈ items, meets a) :
    ∃ earlier a later, items = earlier ++ a :: later ∧ meets a ∧ ∀ other ∈ later, ¬meets other := by
  induction items with
  | nil => exact absurd some fun ⟨_, among, _⟩ => nomatch among
  | cons first rest ih =>
    by_cases behind : ∃ a ∈ rest, meets a
    · obtain ⟨earlier, a, later, rfl, met, last⟩ := ih behind
      exact ⟨first :: earlier, a, later, rfl, met, last⟩
    · obtain ⟨a, among, met⟩ := some
      cases among with
      | head => exact ⟨[], first, rest, rfl, met, fun other among also => behind ⟨other, among, also⟩⟩
      | tail _ among => exact absurd ⟨a, among, met⟩ behind

/-- A declared function or a parameter has a name. -/
def FunctionCode.Names (code : FunctionCode) (name : String) : Prop :=
  (∃ f ∈ code.scope.functions, f.name = some name) ∨ name ∈ code.parameters

/-- What a function binds before it may make an object of its arguments. -/
theorem run_first_passes (opened : m.Open id) (empty : ∀ name, m.bindingIn? id name = none) (callee : ObjectId)
    (code : FunctionCode) (arguments : List Value) :
    ∃ first second : Machine,
      m.run (modifyEnvironment id (bindParameters · code.parameters arguments)) = (.ok (), first) ∧
      first.run (bindFunctions id code.scope.functions) = (.ok (), second) ∧ m.Fills id second ∧ second.Open id ∧
      (∀ name, code.Names name →
        ∃ b, second.bindingIn? id name = some b ∧ m.BindsFirst second id callee code arguments name b) ∧
      ∀ name, ¬code.Names name → second.bindingIn? id name = none := by
  obtain ⟨first, binds, fills, openly, -, changed⟩ := run_modify_open opened
    (f := (bindParameters · code.parameters arguments)) fun e => Environment.isDeclarative_bind_parameters ..
  obtain ⟨second, declares, more, now, kept⟩ := run_bind_functions openly code.scope.functions
  have undeclared {name : String} (none : ¬∃ f ∈ code.scope.functions, f.name = some name) :
      ∀ f ∈ code.scope.functions, f.name ≠ some name := fun f among named => none ⟨f, among, named⟩
  refine ⟨first, second, binds, declares, fills_trans fills more, now, ?_, ?_⟩
  · intro name named
    by_cases declared : ∃ f ∈ code.scope.functions, f.name = some name
    · obtain ⟨earlier, f, later, written, named, last⟩ := last_of_exists declared
      obtain ⟨object, after, ran, made, runs, bound⟩ := run_bind_functions_of_last openly earlier named last
      rw [← written, declares] at ran
      obtain rfl : second = after := congrArg Prod.snd ran
      rw [closure_of_fills fills] at runs
      exact ⟨_, bound, .function written named last (made_of_fills fills made) runs⟩
    · have asked : ∃ parameter ∈ code.parameters, parameter = name := ⟨name, named.resolve_left declared, rfl⟩
      obtain ⟨earlier, parameter, later, written, rfl, last⟩ := last_of_exists asked
      have absent : parameter ∉ later := fun among => last parameter among rfl
      refine ⟨_, ?_, .parameter (undeclared declared) written absent⟩
      rw [kept parameter (undeclared declared)]
      unfold Machine.bindingIn?
      rw [changed, written, Environment.binding_bind_parameters_of_last opened.declarative earlier absent]
  · intro name unnamed
    rw [kept name (undeclared fun declared => unnamed (.inl declared))]
    unfold Machine.bindingIn?
    rw [changed, Environment.binding_bind_parameters_of_absent opened.declarative fun among => unnamed (.inr among)]
    exact empty name

/-- Makes the object of the arguments of a call and binds it, if a function has such an object. -/
def bindArgumentsOf (callee : ObjectId) (code : FunctionCode) (environment : EnvironmentId)
    (arguments : List Value) : Eval Unit := do
  if makesArguments code then
    let object ← createArguments callee arguments code.strict
    modifyEnvironment environment (·.bindArguments object code.strict)

theorem bind_declarations_eq (callee : ObjectId) (code : FunctionCode) (environment : EnvironmentId)
    (arguments : List Value) :
    bindDeclarations callee code environment arguments = (do
      modifyEnvironment environment (bindParameters · code.parameters arguments)
      bindFunctions environment code.scope.functions
      bindArgumentsOf callee code environment arguments
      modifyEnvironment environment fun e => (bindVars e code.scope.vars).createLexical code.scope.lexical) := by
  unfold bindDeclarations bindArgumentsOf
  cases makesArguments code <;> rfl

theorem run_bind_arguments (opened : m.Open id) (callee : ObjectId) (code : FunctionCode)
    (arguments : List Value) :
    ∃ after, m.run (bindArgumentsOf callee code id arguments) = (.ok (), after) ∧ m.Fills id after ∧
      after.Open id ∧
      (code.HasArguments → ∃ object, m.Made after object ∧
        after.heap.get object = .argumentsOf m.realm.intrinsics.objectPrototype callee arguments code.strict ∧
        after.bindingIn? id argumentsName = some (.ofArguments object code.strict)) ∧
      ∀ name, (code.HasArguments → name ≠ argumentsName) → after.bindingIn? id name = m.bindingIn? id name := by
  unfold bindArgumentsOf
  by_cases makes : makesArguments code = true
  · have has := (makes_arguments_iff code).mp makes
    let o : Object := .argumentsOf m.realm.intrinsics.objectPrototype callee arguments code.strict
    let object : ObjectId := (m.heap.add o).1
    let created : Machine := (m.run (newObject o)).2
    have creates : m.run (createArguments callee arguments code.strict) = (.ok object, created) := rfl
    have fills : m.Fills id created := fills_of_adds (adds_new_object (adds_refl m) o) rfl
    have openly : created.Open id := ⟨opened.there, opened.declarative⟩
    obtain ⟨after, binds, more, now, heap, changed⟩ := run_modify_open openly
      (f := (·.bindArguments object code.strict)) fun e => Environment.isDeclarative_bind_arguments ..
    have binding (name : String) : after.bindingIn? id name =
        if argumentsName = name then some (.ofArguments object code.strict) else m.bindingIn? id name := by
      unfold Machine.bindingIn?
      rw [changed, Environment.binding_bind_arguments openly.declarative]
      rfl
    refine ⟨after, ?_, fills_trans fills more, now, fun _ => ⟨object, ?_, ?_, ?_⟩, fun name other => ?_⟩
    · rw [if_pos makes, Machine.run_bind_ok creates, binds]
    · exact ⟨Nat.le_refl _, heap ▸ Heap.index_add_lt ..⟩
    · rw [heap]
      exact Heap.get_add_self ..
    · rw [binding, if_pos rfl]
    · rw [binding, if_neg (Ne.symm (other has))]
  · have lacks : ¬code.HasArguments := fun has => makes ((makes_arguments_iff code).mpr has)
    rw [if_neg makes]
    exact ⟨m, rfl, fills_refl id m, opened, fun has => absurd has lacks, fun _ _ => rfl⟩

theorem names_of_gives (given : code.Gives name) (unmade : code.HasArguments → name ≠ argumentsName)
    (unnamed : ¬code.Names name) : name ∈ code.scope.vars := by
  cases given with
  | parameter among => exact absurd (.inr among) unnamed
  | function among named => exact absurd (.inl ⟨_, among, named⟩) unnamed
  | arguments makes => exact absurd rfl (unmade makes)
  | var among => exact among

/-- What is bound before the names of `let` and `const` are added. -/
theorem run_passes (opened : m.Open id) (empty : ∀ name, m.bindingIn? id name = none) (callee : ObjectId)
    (code : FunctionCode) (arguments : List Value) :
    ∃ (after : Machine) (e : Environment),
      m.run (bindDeclarations callee code id arguments) = (.ok (), after) ∧ m.Fills id after ∧
      e.isDeclarative ∧ after.environments.get id = e.createLexical code.scope.lexical ∧
      (∀ name, code.Gives name →
        ∃ b, e.binding? name = some b ∧ m.BindsFirst after id callee code arguments name b) ∧
      ∀ name, ¬code.Gives name → e.binding? name = none := by
  obtain ⟨first, second, binds, declares, fills, now, named, unnamed⟩ :=
    run_first_passes opened empty callee code arguments
  obtain ⟨third, makes, more, still, made, kept⟩ := run_bind_arguments now callee code arguments
  let finish (e : Environment) : Environment := (bindVars e code.scope.vars).createLexical code.scope.lexical
  have declarative (e : Environment) : (bindVars e code.scope.vars).isDeclarative = e.isDeclarative :=
    Environment.isDeclarative_bind_vars e code.scope.vars
  obtain ⟨after, ends, rest, -, -, changed⟩ := run_modify_open still (f := finish) fun e =>
    (Environment.isDeclarative_create_lexical ..).trans (declarative e)
  have binding (name : String) : (bindVars (third.environments.get id) code.scope.vars).binding? name =
      (third.bindingIn? id name).or (if name ∈ code.scope.vars then some (.declared .undefined) else none) :=
    Environment.binding_bind_vars still.declarative ..
  refine ⟨after, _, ?_, fills_trans fills (fills_trans more rest), ?_, changed, fun name given => ?_,
    fun name absent => ?_⟩
  · rw [bind_declarations_eq, Machine.run_bind_ok binds, Machine.run_bind_ok declares, Machine.run_bind_ok makes]
    exact ends
  · rw [declarative]
    exact still.declarative
  · rw [binding]
    by_cases isArguments : code.HasArguments ∧ name = argumentsName
    · obtain ⟨has, rfl⟩ := isArguments
      obtain ⟨object, new, holds, bound⟩ := made has
      rw [fills.adds.realm] at holds
      rw [bound, Option.some_or]
      exact ⟨_, rfl, .later (.arguments has rfl (made_of_fills fills new) holds) rest⟩
    · have unmade : code.HasArguments → name ≠ argumentsName := fun has same => isArguments ⟨has, same⟩
      rw [kept name unmade]
      by_cases known : code.Names name
      · obtain ⟨b, bound, binds⟩ := named name known
        rw [bound, Option.some_or]
        exact ⟨b, rfl, (binds.later more).later rest⟩
      · rw [unnamed name known, Option.none_or, if_pos (names_of_gives given unmade known)]
        exact ⟨_, rfl, .var (fun f among same => known (.inl ⟨f, among, same⟩)) (fun among => known (.inr among))
          unmade (names_of_gives given unmade known)⟩
  · have unmade : code.HasArguments → name ≠ argumentsName := fun has same => absent (same ▸ .arguments has)
    have unknown : ¬code.Names name := by
      rintro (⟨f, among, named⟩ | among)
      · exact absent (.function among named)
      · exact absent (.parameter among)
    rw [binding, kept name unmade, unnamed name unknown, if_neg fun among => absent (.var among), Option.or_none]

/-- The names of `let` and `const` come last. -/
theorem enters_of_given {e : Environment} (fills : before.Fills id after) (declarative : e.isDeclarative)
    (changed : after.environments.get id = e.createLexical code.scope.lexical)
    (given : ∀ name, code.Gives name →
      ∃ b, e.binding? name = some b ∧ before.BindsFirst after id callee code arguments name b)
    (absent : ∀ name, ¬code.Gives name → e.binding? name = none) :
    before.Enters after id callee code arguments := by
  have binding (name : String) : after.bindingIn? id name = (e.createLexical code.scope.lexical).binding? name :=
    congrArg (Environment.binding? · name) changed
  have ready (name : String) (gives : code.Gives name)
      (varies : ∀ n ∈ code.scope.lexical, n.name = name → n.constant = false) :
      ∃ b, after.bindingIn? id name = some b ∧ b.initialized = true ∧
        before.BindsFirst after id callee code arguments name b := by
    obtain ⟨b, bound, first⟩ := given name gives
    have kept := Environment.binding_create_lexical_of_variables declarative varies bound
    exact ⟨b, (binding name).trans kept, first.initialized, first⟩
  have waiting (n : LexicalName) (among : n ∈ code.scope.lexical) (new : n.constant = true ∨ ¬code.Gives n.name) :
      ∃ b, after.bindingIn? id n.name = some b ∧ b.initialized = false := by
    rw [binding]
    exact Environment.waits_of_created declarative among (new.imp_right (absent n.name))
  refine ⟨fills, fun name => ⟨?_, ?_⟩, ready, waiting⟩
  · rintro ⟨b, bound⟩
    apply Classical.byContradiction
    intro neither
    rw [not_or] at neither
    have others : ∀ n ∈ code.scope.lexical, n.name ≠ name := fun n among same => neither.2 ⟨n, among, same⟩
    rw [binding, Environment.binding_create_lexical_of_absent declarative others, absent name neither.1] at bound
    cases bound
  · intro either
    by_cases waits : ∃ n ∈ code.scope.lexical, n.name = name ∧ (n.constant = true ∨ ¬code.Gives n.name)
    · obtain ⟨n, among, rfl, new⟩ := waits
      obtain ⟨b, bound, -⟩ := waiting n among new
      exact ⟨b, bound⟩
    · have others (n : LexicalName) (among : n ∈ code.scope.lexical) (same : n.name = name) :
          n.constant = false ∧ code.Gives name := by
        have neither : ¬(n.constant = true ∨ ¬code.Gives n.name) := fun new => waits ⟨n, among, same, new⟩
        rw [not_or, Bool.not_eq_true, Classical.not_not, same] at neither
        exact neither
      have gives : code.Gives name := either.elim (fun gives => gives) fun ⟨n, among, same⟩ => (others n among same).2
      obtain ⟨b, bound, -⟩ := ready name gives fun n among same => (others n among same).1
      exact ⟨b, bound⟩

/-- When the body of a function starts, the environment that is made for it binds the parameters, the declared
functions, the names of `var`, `let` and `const` and the object of the arguments as it should, and nothing else. -/
theorem function_binds_its_names (m : Machine) (callee : ObjectId) (f : ScriptFunction) (arguments : List Value) :
    ∃ id begun after, m.run (newEnvironment (.declarative (some f.environment))) = (.ok id, begun) ∧
      begun.run (bindDeclarations callee f.code id arguments) = (.ok (), after) ∧
      begun.Enters after id callee f.code arguments := by
  let new : Environment := .declarative (some f.environment)
  let id : EnvironmentId := (m.environments.add new).1
  let begun : Machine := { m with environments := (m.environments.add new).2 }
  have same : begun.environments.get id = new := EnvironmentStore.get_add_self ..
  have opened : begun.Open id := ⟨by simp [begun, id, EnvironmentStore.add], by rw [same]; rfl⟩
  have empty (name : String) : begun.bindingIn? id name = none := congrArg (Environment.binding? · name) same
  obtain ⟨after, e, ran, fills, declarative, changed, given, absent⟩ :=
    run_passes opened empty callee f.code arguments
  exact ⟨id, begun, after, rfl, ran, enters_of_given fills declarative changed given absent⟩

end Entering
end ScriptEngine
