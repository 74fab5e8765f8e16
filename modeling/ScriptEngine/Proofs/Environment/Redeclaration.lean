import ScriptEngine.Proofs.Evaluation.Outcome

/-!
The names of `let` and `const` that a script declares are looked up before anything else is done: the first
that is taken is reported, and otherwise nothing happened. A script therefore declares its names only where
none of them is taken.
-/

namespace ScriptEngine

/-- Nothing is done after a fault. -/
theorem throw_fault_bind {α β : Type} (fault : Fault) (rest : α → Eval β) :
    (throwFault fault >>= rest) = throwFault fault := by
  funext m
  change EStateM.bind (throwFault fault) rest m = _
  unfold EStateM.bind
  cases created : createError fault.kind fault.message m with
  | ok error made =>
    simp only [throwFault, bind, EStateM.bind, created]
    rfl
  | error e made => simp only [throwFault, bind, EStateM.bind, created]

/-- The first of some names that is taken in an environment. -/
def Machine.taken? (m : Machine) (id : EnvironmentId) (names : List LexicalName) : Option LexicalName :=
  names.find? fun n => (m.environments.get id).has m.heap n.name

/-! ## Looking names up -/

theorem check_redeclared_step (n : LexicalName) (rest : List LexicalName) (m : Machine) :
    checkRedeclared (n :: rest) m =
      if (m.environments.get m.realm.scriptEnvironment).has m.heap n.name then
        throwFault (.alreadyDeclared n.name) m
      else checkRedeclared rest m := by
  change ((if (m.environments.get m.realm.scriptEnvironment).has m.heap n.name then
      throwFault (.alreadyDeclared n.name) else pure ()) >>= fun _ => _) m = _
  split
  · rw [throw_fault_bind]
  · rfl

/-- The first name that is taken is reported. -/
theorem check_redeclared_eq (names : List LexicalName) (m : Machine) :
    checkRedeclared names m =
      match m.taken? m.realm.scriptEnvironment names with
      | some n => throwFault (.alreadyDeclared n.name) m
      | none => .ok () m := by
  induction names with
  | nil => rfl
  | cons n rest ih =>
    rw [check_redeclared_step, Machine.taken?, List.find?_cons, ih]
    split
    · next taken => simp only [taken]
    · next free => simp only [free, Machine.taken?]

/-- A script goes on after its names were looked up if none of them is taken. -/
theorem check_redeclared_bind {α : Type} (names : List LexicalName) (rest : Eval α) (m : Machine) :
    (checkRedeclared names >>= fun _ => rest) m =
      match m.taken? m.realm.scriptEnvironment names with
      | some n => throwFault (.alreadyDeclared n.name) m
      | none => rest m := by
  change EStateM.bind (checkRedeclared names) (fun _ => rest) m = _
  unfold EStateM.bind
  rw [check_redeclared_eq]
  cases m.taken? m.realm.scriptEnvironment names with
  | none => rfl
  | some n =>
    have stops := throw_fault_bind (.alreadyDeclared n.name) fun _ : Unit => rest
    exact congrFun stops m

/-! ## Declaring names -/

/-- Declares the names of a script in an environment and goes on. If any of them is taken already, something
else is done. -/
def declareIn {α : Type} (id : EnvironmentId) (names : List LexicalName) (taken free : Eval α) : Eval α :=
  fun m =>
    if (m.taken? id names).isSome then taken m
    else (modifyEnvironment id (·.createLexical names) >>= fun _ => free) m

theorem Machine.run_declare_in {α : Type} (m : Machine) (id : EnvironmentId) (names : List LexicalName)
    (taken free : Eval α) :
    m.run (declareIn id names taken free) =
      if (m.taken? id names).isSome then m.run taken
      else ({ m with environments :=
        m.environments.set id ((m.environments.get id).createLexical names) } : Machine).run free := by
  unfold declareIn
  by_cases taken : (m.taken? id names).isSome = true
  · simp only [Machine.run, taken, if_true]
  · simp only [Machine.run, taken]
    rfl

theorem Environment.binding_of_not_has {e : Environment} {h : Heap} {name : String}
    (absent : e.has h name = false) : e.binding? name = none := by
  obtain ⟨outer, bindings⟩ := e
  cases bindings with
  | declarative names => exact Option.not_isSome_iff_eq_none.mp (Bool.not_eq_true _ ▸ absent)
  | properties object providesThis => rfl

/-- Where no name is taken, none is bound. -/
theorem Machine.unbound_of_free {m : Machine} {id : EnvironmentId} {names : List LexicalName}
    (free : ¬(m.taken? id names).isSome = true) :
    ∀ n ∈ names, (m.environments.get id).binding? n.name = none := by
  intro n among
  have none : m.taken? id names = none := Option.not_isSome_iff_eq_none.mp free
  exact Environment.binding_of_not_has (Bool.not_eq_true _ ▸ List.find?_eq_none.mp none n among)

/-- What is done with a script whose names are taken: it is refused. -/
def refuseScript {α : Type} (names : List LexicalName) : Eval α :=
  checkRedeclared names >>= fun _ => throw .exhausted

/-- What is done with a script once its names of `let` and `const` are declared. -/
def beginScript (engine : Engine) (p : Program) : Eval (Option Value) := do
  p.scope.functions.forM (declareGlobalFunction engine p.strict)
  p.scope.vars.forM (declareGlobalVar engine)
  runStatements engine none p.body

/-- A script is refused, or its names are declared before it begins. -/
theorem run_script_declares (engine : Engine) (p : Program) (m : Machine) :
    runScript engine p m =
      declareIn m.realm.scriptEnvironment p.scope.lexical (refuseScript p.scope.lexical)
        (beginScript engine p) m := by
  unfold runScript bindGlobals declareIn refuseScript
  simp only [bind_assoc, check_redeclared_bind]
  cases m.taken? m.realm.scriptEnvironment p.scope.lexical with
  | some n => rfl
  | none => simp only [beginScript]; rfl

/-- A program declares its names in the environment that its context starts in. -/
theorem run_program_declares (engine : Engine) (p : Program) :
    runProgram engine p = (scriptContext p.strict >>= fun c =>
      inContext c (declareIn c.lexical p.scope.lexical (refuseScript p.scope.lexical)
        (beginScript engine p)) >>= fun value => pure (value.getD .undefined)) := by
  funext m
  let c : Context :=
    ⟨m.realm.scriptEnvironment, m.realm.globalEnvironment, .object m.realm.globalObject, p.strict⟩
  let inside : Machine := { m with context := c, callers := m.context :: m.callers }
  have runs : attempt (runScript engine p) inside = attempt (declareIn c.lexical p.scope.lexical
      (refuseScript p.scope.lexical) (beginScript engine p)) inside := by
    unfold attempt
    rw [run_script_declares engine p inside]
  have entered : inContext c (runScript engine p) m = inContext c (declareIn c.lexical p.scope.lexical
      (refuseScript p.scope.lexical) (beginScript engine p)) m := by
    change EStateM.bind (attempt _) _ inside = EStateM.bind (attempt _) _ inside
    unfold EStateM.bind
    rw [runs]
  change EStateM.bind (inContext c (runScript engine p)) _ m = EStateM.bind (inContext c _) _ m
  unfold EStateM.bind
  rw [entered]

end ScriptEngine
