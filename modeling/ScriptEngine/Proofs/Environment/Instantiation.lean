import ScriptEngine.Proofs.Environment.Declaring

/-!
The names that are bound when a function is entered. Parameters, declared functions, the object of the arguments
and names of `var` have values before the body runs; names of `let` among them keep these, all others wait.
-/

namespace ScriptEngine

/-! ## Bound names -/

/-- An environment binds exactly some names, all of them to values for good. -/
structure Environment.Exactly (e : Environment) (names : List String) : Prop where
  declarative : e.isDeclarative = true
  bound : ∀ name ∈ names, ∃ b, e.binding? name = some b ∧ b.deletable = false ∧ b.initialized = true
  free : ∀ name, name ∉ names → e.binding? name = none

namespace Environment

variable {e : Environment} {names : List String}

theorem exactly_declarative (outer : Option EnvironmentId) : (Environment.declarative outer).Exactly [] :=
  ⟨rfl, fun _ no => absurd no List.not_mem_nil, fun _ _ => rfl⟩

/-- A name more is bound, or once more. -/
theorem exactly_set (exactly : e.Exactly names) (name : String) {b : Binding} (stays : b.deletable = false)
    (ready : b.initialized = true) : (e.set name b).Exactly (names ++ [name]) where
  declarative := isDeclarative_set e name b ▸ exactly.declarative
  bound other among := by
    rw [binding?_set exactly.declarative]
    split
    · exact ⟨b, rfl, stays, ready⟩
    · next different =>
      rcases List.mem_append.mp among with old | new
      · exact exactly.bound other old
      · exact absurd (List.mem_singleton.mp new).symm different
  free other absent := by
    rw [binding?_set exactly.declarative, if_neg]
    · exact exactly.free other fun mem => absent (List.mem_append_left _ mem)
    · rintro rfl
      exact absent (List.mem_append_right _ (.head _))

theorem exactly_declare (exactly : e.Exactly names) (name : String) (value : Value) :
    (e.declare name value).Exactly (names ++ [name]) :=
  exactly_set exactly name rfl rfl

theorem exactly_bind_parameters (exactly : e.Exactly names) (parameters : List String) (values : List Value) :
    (bindParameters e parameters values).Exactly (names ++ parameters) := by
  induction parameters generalizing e names values with
  | nil =>
    rw [List.append_nil]
    exact exactly
  | cons name rest ih =>
    rw [List.append_cons]
    cases values with
    | nil => exact ih (exactly_declare exactly name _) []
    | cons v values => exact ih (exactly_declare exactly name _) values

theorem exactly_congr {other : List String} (exactly : e.Exactly names)
    (same : ∀ name, name ∈ other ↔ name ∈ names) : e.Exactly other where
  declarative := exactly.declarative
  bound name among := exactly.bound name ((same name).mp among)
  free name absent := exactly.free name fun mem => absent ((same name).mpr mem)

theorem exactly_of_same {other : Environment} (exactly : e.Exactly names)
    (declarative : other.isDeclarative = e.isDeclarative) (same : ∀ name, other.binding? name = e.binding? name) :
    other.Exactly names where
  declarative := declarative.trans exactly.declarative
  bound name among := by
    rw [same]
    exact exactly.bound name among
  free name absent := by
    rw [same]
    exact exactly.free name absent

theorem exactly_bind_vars (exactly : e.Exactly names) (vars : List String) :
    (bindVars e vars).Exactly (names ++ vars) := by
  induction vars generalizing e names with
  | nil =>
    rw [List.append_nil]
    exact exactly
  | cons name rest ih =>
    rw [List.append_cons]
    refine ih ?_
    dsimp only
    split
    · next bound =>
      refine exactly_congr exactly fun other => ?_
      have among : name ∈ names := by
        refine Decidable.byContradiction fun absent => ?_
        rw [exactly.free name absent] at bound
        cases bound
      rw [List.mem_append, List.mem_singleton]
      exact or_iff_left_of_imp fun same => same ▸ among
    · exact exactly_declare exactly name _

theorem binding_set_set (holds : e.isDeclarative) (name : String) (first second : Binding) (other : String) :
    ((e.set name first).set name second).binding? other = (e.set name second).binding? other := by
  rw [binding?_set ((isDeclarative_set ..).trans holds), binding?_set holds, binding?_set holds]
  split <;> rfl

/-- The object of the arguments is bound once and for all in strict code. -/
theorem exactly_arguments (exactly : e.Exactly names) (strict : Bool) (object : Value) :
    (if strict then ((e.createImmutable argumentsName false).initialize? argumentsName object).2
      else e.declare argumentsName object).Exactly (names ++ [argumentsName]) := by
  split
  · have holds := exactly.declarative
    have found : (e.createImmutable argumentsName false).binding? argumentsName =
        some ⟨.undefined, false, false, false, false⟩ :=
      (binding?_set holds argumentsName argumentsName _).trans (if_pos rfl)
    rw [initialize_of_waiting found rfl]
    have once : (e.set argumentsName ⟨object, false, true, false, false⟩).Exactly (names ++ [argumentsName]) :=
      exactly_set exactly argumentsName rfl rfl
    refine exactly_of_same once ?_ fun name => binding_set_set holds ..
    exact (isDeclarative_set ..).trans ((isDeclarative_set ..).trans (isDeclarative_set ..).symm)
  · exact exactly_declare exactly _ _

end Environment

/-! ## Entering a function -/

/-- The names that have values when the body of a function starts: its parameters, the functions that it
declares, the object of its arguments if it makes one, and its names of `var`. -/
def FunctionCode.instantiated (code : FunctionCode) : List String :=
  code.parameters ++ code.scope.functions.filterMap FunctionCode.name ++
    (if makesArguments code then [argumentsName] else []) ++ code.scope.vars

section Entering

variable {m after : Machine} {id : EnvironmentId} {names : List String}

/-- An environment that there is binds exactly some names. -/
structure Machine.Instantiates (m : Machine) (id : EnvironmentId) (names : List String) : Prop where
  there : id.index < m.environments.environments.size
  exactly : (m.environments.get id).Exactly names

theorem instantiates_new {outer : Option EnvironmentId}
    (begun : m.run (newEnvironment (.declarative outer)) = (.ok id, after)) : after.Instantiates id [] := by
  rw [Machine.run_new_environment] at begun
  cases begun
  refine ⟨by simp [EnvironmentStore.add], ?_⟩
  rw [EnvironmentStore.get_add_self]
  exact Environment.exactly_declarative outer

theorem instantiates_of_modify {more : List String} {f : Environment → Environment} (now : m.Instantiates id names)
    (ran : m.run (modifyEnvironment id f) = (.ok (), after))
    (change : ∀ e : Environment, e.Exactly names → (f e).Exactly more) : after.Instantiates id more := by
  obtain rfl : { m with environments := m.environments.set id (f (m.environments.get id)) } = after :=
    congrArg Prod.snd ran
  refine ⟨by simpa using now.there, ?_⟩
  dsimp only
  rw [EnvironmentStore.get_set_self _ now.there]
  exact change _ now.exactly

theorem instantiates_of_same (now : m.Instantiates id names) (same : after.environments = m.environments) :
    after.Instantiates id names :=
  ⟨same ▸ now.there, same ▸ now.exactly⟩

theorem environments_create_script_function (m : Machine) (code : FunctionCode) (environment : EnvironmentId) :
    (m.run (createScriptFunction code environment)).2.environments = m.environments := by
  unfold createScriptFunction
  cases code.isArrow <;> rfl

theorem environments_create_arguments (m : Machine) (callee : ObjectId) (arguments : List Value)
    (strict : Bool) : (m.run (createArguments callee arguments strict)).2.environments = m.environments := rfl

theorem instantiates_bind_functions {functions : List FunctionCode} (now : m.Instantiates id names)
    (ran : m.run (bindFunctions id functions) = (.ok (), after)) :
    after.Instantiates id (names ++ functions.filterMap FunctionCode.name) := by
  unfold bindFunctions at ran
  rw [List.forM_eq_forM] at ran
  induction functions generalizing m names with
  | nil =>
    obtain rfl : m = after := congrArg Prod.snd ran
    simpa using now
  | cons code rest ih =>
    rw [List.forM_cons] at ran
    obtain ⟨u, between, bound, goesOn⟩ := Machine.ran_bind ran
    cases named : code.name with
    | none =>
      rw [named] at bound
      obtain rfl : m = between := congrArg Prod.snd bound
      rw [List.filterMap_cons_none named]
      exact ih now goesOn
    | some name =>
      rw [named] at bound
      obtain ⟨f, created, makes, binds⟩ := Machine.ran_bind bound
      have same := environments_create_script_function m code id
      rw [makes] at same
      rw [List.filterMap_cons_some named, List.append_cons]
      refine ih (instantiates_of_modify (instantiates_of_same now same) binds fun e exactly => ?_) goesOn
      exact Environment.exactly_declare exactly name _

/-- Before names of `let` and `const` are declared in the environment of a function, its other names have been. -/
theorem instantiated_by_bind_declarations {callee : ObjectId} {code : FunctionCode} {arguments : List Value}
    (now : m.Instantiates id []) (ran : m.run (bindDeclarations callee code id arguments) = (.ok (), after)) :
    ∃ e : Environment, e.Exactly code.instantiated ∧
      after.environments.get id = e.createLexical code.scope.lexical := by
  unfold bindDeclarations at ran
  obtain ⟨u, first, parameters, ran⟩ := Machine.ran_bind ran
  obtain ⟨u, second, functions, ran⟩ := Machine.ran_bind ran
  have now := instantiates_of_modify now parameters fun e exactly =>
    Environment.exactly_bind_parameters exactly code.parameters arguments
  have now := instantiates_bind_functions now functions
  have made : ∃ third : Machine, third.Instantiates id (code.parameters ++
        code.scope.functions.filterMap FunctionCode.name ++ if makesArguments code then [argumentsName] else []) ∧
      third.run (modifyEnvironment id fun e => (bindVars e code.scope.vars).createLexical code.scope.lexical) =
        (.ok (), after) := by
    split at ran
    · next makes =>
      obtain ⟨object, created, creates, ran⟩ := Machine.ran_bind ran
      obtain ⟨u, third, binds, ran⟩ := Machine.ran_bind ran
      have same := environments_create_arguments second callee arguments code.strict
      rw [creates] at same
      refine ⟨third, ?_, ran⟩
      rw [if_pos makes]
      exact instantiates_of_modify (instantiates_of_same now same) binds fun e exactly =>
        Environment.exactly_arguments exactly code.strict (.object object)
    · next none =>
      refine ⟨second, ?_, ran⟩
      rw [if_neg none, List.append_nil]
      exact now
  obtain ⟨third, now, ran⟩ := made
  let e := bindVars (third.environments.get id) code.scope.vars
  obtain rfl : { third with environments := third.environments.set id (e.createLexical code.scope.lexical) } =
      after := congrArg Prod.snd ran
  exact ⟨e, Environment.exactly_bind_vars now.exactly code.scope.vars, EnvironmentStore.get_set_self _ now.there⟩

/-- Where some names have values, constants that are declared wait for theirs, and of variables those of other
names. -/
theorem Environment.waiting_create_lexical {e : Environment} {lexical : List LexicalName}
    (exactly : e.Exactly names) (consistent : Environment.Consistent lexical) {n : LexicalName}
    (among : n ∈ lexical) :
    ∃ b, (e.createLexical lexical).binding? n.name = some b ∧ b.deletable = false ∧
      (n.constant = true → b.mutable = false) ∧ (b.initialized = false ↔ n.constant = true ∨ n.name ∉ names) := by
  have found := Environment.binding_create_lexical exactly.declarative consistent among
  cases constant : n.constant with
  | true =>
    rw [constant, if_pos rfl] at found
    refine ⟨_, found, rfl, fun _ => ?_, fun _ => .inl rfl, fun _ => rfl⟩
    simp only [Binding.uninitialized, constant, Bool.not_true]
  | false =>
    rw [constant, if_neg Bool.false_ne_true] at found
    by_cases taken : n.name ∈ names
    · obtain ⟨b, bound, stays, ready⟩ := exactly.bound n.name taken
      rw [bound, Option.getD_some] at found
      refine ⟨b, found, stays, fun same => absurd same Bool.false_ne_true, fun waiting => ?_, fun free => ?_⟩
      · rw [ready] at waiting
        cases waiting
      · exact absurd taken (free.resolve_left Bool.false_ne_true)
    · rw [exactly.free n.name taken, Option.getD_none] at found
      exact ⟨_, found, rfl, fun same => absurd same Bool.false_ne_true, fun _ => .inr taken, fun _ => rfl⟩

/-- Before the body of a function starts, its constants wait for their values, and of its variables those whose
names do not have values already. -/
theorem waiting_of_bind_declarations {callee : ObjectId} {code : FunctionCode} {arguments : List Value}
    (now : m.Instantiates id []) (consistent : Environment.Consistent code.scope.lexical)
    (ran : m.run (bindDeclarations callee code id arguments) = (.ok (), after)) {n : LexicalName}
    (among : n ∈ code.scope.lexical) :
    ∃ b, (after.environments.get id).binding? n.name = some b ∧ b.deletable = false ∧
      (n.constant = true → b.mutable = false) ∧
      (b.initialized = false ↔ n.constant = true ∨ n.name ∉ code.instantiated) := by
  obtain ⟨e, exactly, made⟩ := instantiated_by_bind_declarations now ran
  rw [made]
  exact Environment.waiting_create_lexical exactly consistent among

end Entering
end ScriptEngine
