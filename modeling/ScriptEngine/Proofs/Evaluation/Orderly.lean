import ScriptEngine.Interpreter
import ScriptEngine.Proofs.Environment.Binding
import ScriptEngine.Proofs.Environment.Naming
import ScriptEngine.Proofs.Environment.Redeclaration
import ScriptEngine.Proofs.Environment.Within
import ScriptEngine.Proofs.Evaluation.Outcome
import ScriptEngine.Proofs.Object.Change

/-!
The ways in which actions of evaluation are put together. An action that goes back to an engine is
orderly if it is built from a few basic ones: objects that were there before are only changed by checked
operations and bindings are only used as they may be, contexts, environments and nested calls are entered
and left in pairs, and an outcome is only reported as it came. Every action of evaluation and of the library
is orderly, whatever engine it goes back to. What holds of the basic actions and carries over to their
combinations therefore holds of every run, without another look at any single action.
-/

namespace ScriptEngine

/-! ## Functions of a host -/

namespace HostProgram

/-- Too many nested calls are reported only by numbers that are fine, as long as only such numbers are told. -/
def Reports (fine : Nat → Prop) : HostProgram → Prop
  | .done outcome => ∀ depth, outcome = .error (.overflow depth) → fine depth
  | .ask _ next =>
    ∀ answer, (∀ depth, answer = .error (.overflow depth) → fine depth) → (next answer).Reports fine
  | .offer _ _ run next =>
    (∀ this arguments, (run this arguments).Reports fine) ∧ ∀ f, (next f).Reports fine
  | .enter _ next =>
    ∀ answer, (∀ e depth, answer = .error e → e.depth = some depth → fine depth) → (next answer).Reports fine
  | .describe _ next => ∀ text, (next text).Reports fine

/-- A request that was cut short by too many nested calls is the last one, and the program ends as it did. Nothing is
described as thrown, since this leaves out what goes wrong on the way. The same holds of the functions that are made. -/
def PassesOn : HostProgram → Prop
  | .done _ => True
  | .ask _ next =>
    (∀ depth, next (.error (.overflow depth)) = .done (.error (.overflow depth))) ∧
      ∀ answer, (next answer).PassesOn
  | .offer _ _ run next => (∀ this arguments, (run this arguments).PassesOn) ∧ ∀ f, (next f).PassesOn
  | .enter _ next => ∀ answer, (next answer).PassesOn
  | .describe _ _ => False

/-- A script may be run, by the program itself or by a function that it makes. -/
def Enters : HostProgram → Prop
  | .done _ => False
  | .ask _ next => ∃ answer, (next answer).Enters
  | .offer _ _ run next => (∃ this arguments, (run this arguments).Enters) ∨ ∃ f, (next f).Enters
  | .enter _ _ => True
  | .describe _ next => ∃ text, (next text).Enters

/-- Where any number is fine, nothing is asked of a program. -/
theorem reports_any {fine : Nat → Prop} (all : ∀ depth, fine depth) (p : HostProgram) : p.Reports fine := by
  induction p with
  | done outcome => exact fun depth _ => all depth
  | ask request next ih => exact fun answer _ => ih answer
  | offer name length run next ihRun ihNext => exact ⟨ihRun, ihNext⟩
  | enter source next ih => exact fun answer _ => ih answer
  | describe value next ih => exact ih

end HostProgram

namespace NativeFunction

/-- A function of the engine or the host leaves it to a function of the host what it does when it is called, or when
it constructs. -/
def Uses (f : NativeFunction) (g : HostFunction) : Prop :=
  f.call = .host g ∨ f.construct = some (.call (.host g))

/-- Whatever of it a host has written reports as too many nested calls only numbers that are fine. -/
def Reports (fine : Nat → Prop) (f : NativeFunction) : Prop :=
  ∀ g, f.Uses g → ∀ this arguments, (g.run this arguments).Reports fine

/-- Whatever of it a host has written passes on what cuts its requests short. -/
def PassesOn (f : NativeFunction) : Prop :=
  ∀ g, f.Uses g → ∀ this arguments, (g.run this arguments).PassesOn

/-- Something of it that a host has written runs a script inside the one that is running. -/
def Enters (f : NativeFunction) : Prop :=
  ∃ g, f.Uses g ∧ ∃ this arguments, (g.run this arguments).Enters

end NativeFunction

/-! ## Terms -/

/-- What is taken as given about a run: whether the host offers any functions, which numbers of nested calls may be
reported as too many, whether the end of a script that no script can catch may be looked at, and whether the
statements that run are taken to initialize only the names of their scripts. -/
structure Terms where
  hosted : Prop
  reported : Nat → Prop
  probed : Prop
  named : Prop

/-- Nothing is taken as given. -/
def Terms.any : Terms where
  hosted := True
  reported _ := True
  probed := True
  named := False

/-- What a function of the host does is possible with what is taken as given. -/
structure HostProgram.Fits (t : Terms) (p : HostProgram) : Prop where
  hosted : t.hosted
  reports : p.Reports t.reported
  passes : t.probed ∨ (p.PassesOn ∧ ¬p.Enters)

/-- A function of the host is possible with what is taken as given. -/
def HostFunction.Fits (t : Terms) (f : HostFunction) : Prop :=
  ∀ this arguments, (f.run this arguments).Fits t

/-- If it is one of the host, it is possible with what is taken as given. -/
def Terms.Allows (t : Terms) (f : Builtin) : Prop :=
  ∀ g, f = .host g → g.Fits t

/-- Whatever of a function a host has written is possible with what is taken as given. -/
def Terms.known (t : Terms) (f : NativeFunction) : Prop :=
  ∀ g, f.Uses g → g.Fits t

theorem Terms.known_of {t : Terms} {f : NativeFunction} (hosted : t.hosted) (reports : f.Reports t.reported)
    (passes : t.probed ∨ (f.PassesOn ∧ ¬f.Enters)) : t.known f := by
  intro g uses this arguments
  refine ⟨hosted, reports g uses this arguments, passes.imp_right fun ⟨passes, alone⟩ => ?_⟩
  exact ⟨passes g uses this arguments, fun enters => alone ⟨g, uses, this, arguments, enters⟩⟩

/-- Where nothing is asked of numbers and the end of scripts may be looked at, all functions of a host are possible. -/
theorem Terms.known_of_lenient {t : Terms} (hosted : t.hosted) (reported : ∀ depth, t.reported depth)
    (probed : t.probed) (f : NativeFunction) : t.known f :=
  Terms.known_of hosted (fun g _ this arguments => (g.run this arguments).reports_any reported) (.inl probed)

theorem Terms.known_any (f : NativeFunction) : Terms.any.known f :=
  Terms.known_of_lenient trivial (fun _ => trivial) trivial f

theorem Terms.allows_call {t : Terms} {f : NativeFunction} (known : t.known f) : t.Allows f.call :=
  fun g same => known g (.inl same)

theorem Terms.allows_construct {t : Terms} {f : NativeFunction} (known : t.known f) {call : Builtin}
    (constructs : f.construct = some (.call call)) : t.Allows call :=
  fun g same => known g (.inr (same ▸ constructs))

/-- If the object is a function of the engine or the host, it is a possible one. -/
def Object.Known (t : Terms) (o : Object) : Prop :=
  ∀ f, o.callable? = some (.native f) → t.known f

/-- All functions of the engine and the host are possible ones. -/
def Heap.Known (t : Terms) (h : Heap) : Prop :=
  ∀ id, (h.get id).Known t

theorem Heap.known_any (h : Heap) : h.Known .any := fun _ f _ => Terms.known_any f

/-- If too many calls were nested, their number is one that may be reported. -/
def Abrupt.Reported (t : Terms) (e : Abrupt) : Prop :=
  ∀ depth, e = .overflow depth → t.reported depth

/-- No script can catch what cut an action short. -/
def Abrupt.Fatal (e : Abrupt) : Prop :=
  ∀ value, e ≠ .thrown value

variable {t : Terms}

/-- If the object is a function of a script, it was made in one of certain environments. -/
def Object.Placed (within : EnvironmentId → Prop) (o : Object) : Prop :=
  ∀ f, o.callable? = some (.script f) → within f.environment

/-- If the object is a function with bound arguments, it calls one of certain objects. -/
def Object.Aimed (targets : ObjectId → Prop) (o : Object) : Prop :=
  ∀ f, o.callable? = some (.bound f) → targets f.target

/-- What is asked of an object that is added: it runs nothing but what there is, and where it may. -/
structure Object.Proper (t : Terms) (within : EnvironmentId → Prop) (targets : ObjectId → Prop) (o : Object) :
    Prop where
  known : o.Known t
  placed : o.Placed within
  aimed : o.Aimed targets

variable {within : EnvironmentId → Prop} {targets : ObjectId → Prop}

/-- What an object runs is a matter of its kind. -/
theorem known_of_kind {o changed : Object} (same : changed.kind = o.kind) (known : o.Known t) :
    changed.Known t := by
  intro f runs
  exact known f (by simpa [Object.callable?, same] using runs)

/-- Objects that are no functions are no matter. -/
theorem known_of_plain {o : Object} (plain : o.callable? = none) : o.Known t := by
  intro f runs
  rw [plain] at runs
  cases runs

theorem proper_of_kind {o changed : Object} (same : changed.kind = o.kind) (proper : o.Proper t within targets) :
    changed.Proper t within targets where
  known := known_of_kind same proper.known
  placed f runs := proper.placed f (by simpa [Object.callable?, same] using runs)
  aimed f runs := proper.aimed f (by simpa [Object.callable?, same] using runs)

theorem proper_of_plain {o : Object} (plain : o.callable? = none) : o.Proper t within targets where
  known := known_of_plain plain
  placed f runs := by
    rw [plain] at runs
    cases runs
  aimed f runs := by
    rw [plain] at runs
    cases runs

/-- A change keeps objects proper, wherever what they run may be and whatever they may call. -/
def KeepsProper (t : Terms) (f : Object → Object) : Prop :=
  ∀ o within targets, o.Proper t within targets → (f o).Proper t within targets

/-- What keeps objects proper keeps them within what there is. -/
theorem known_of_proper {f : Object → Object} (keeps : KeepsProper t f) {o : Object} (known : o.Known t) :
    (f o).Known t :=
  (keeps o (fun _ => True) (fun _ => True) ⟨known, fun _ _ => trivial, fun _ _ => trivial⟩).known

/-- What holds of all objects and of a new one holds of all objects once that one is added. -/
theorem Heap.all_add {fits : Object → Prop} {h : Heap} {o : Object} (all : ∀ id, fits (h.get id))
    (absent : fits default) (new : fits o) (id : ObjectId) : fits ((h.add o).2.get id) := by
  rcases Nat.lt_trichotomy id.index h.objects.size with there | last | beyond
  · rw [Heap.get_add_of_lt o there]
    exact all id
  · obtain rfl : (h.add o).1 = id := ObjectId.ext last.symm
    rw [Heap.get_add_self]
    exact new
  · have nowhere : (h.add o).2.get id = default := by
      simp [Heap.get, Heap.add, Array.getD_eq_getD_getElem?, Nat.not_lt.2 (Nat.succ_le_of_lt beyond)]
    rw [nowhere]
    exact absent

/-- What holds of all objects still does once one of them is replaced by another one of which it holds. -/
theorem Heap.all_set {fits : Object → Prop} {h : Heap} {o : Object} (all : ∀ id, fits (h.get id)) {id : ObjectId}
    (new : fits o) (other : ObjectId) : fits ((h.set id o).get other) := by
  by_cases same : id = other
  · subst same
    by_cases there : id.index < h.objects.size
    · rw [Heap.get_set_self o there]
      exact new
    · have unchanged : (h.set id o).get id = h.get id := by
        simp [Heap.get, Heap.set, Array.getD_eq_getD_getElem?, there]
      rw [unchanged]
      exact all id
  · rw [Heap.get_set_of_ne o same]
    exact all other

theorem known_add {h : Heap} {o : Object} (known : h.Known t) (new : o.Known t) : (h.add o).2.Known t :=
  Heap.all_add known (known_of_plain rfl) new

theorem known_set {h : Heap} {id : ObjectId} {o : Object} (known : h.Known t) (new : o.Known t) :
    (h.set id o).Known t :=
  Heap.all_set known new

/-! ## Rights -/

/-- No object is a run's own. -/
def noObject (_ : ObjectId) : Prop := False

/-- What an action may do: anything to objects that are its own and to the bindings of environments that it
is building, enter environments that were made for it, and initialize some names where it is. It makes new
environments inside some that are around it, and functions in some that it has reached, whose bindings it may
use. Functions with bound arguments it makes for some that it has found. -/
structure Rights where
  objects : ObjectId → Prop
  building : EnvironmentId → Prop
  entered : EnvironmentId → Prop
  names : String → Prop
  around : EnvironmentId → Prop
  reached : EnvironmentId → Prop
  targets : ObjectId → Prop

namespace Rights

/-- No rights, but to use whatever environments were there before. -/
def none : Rights where
  objects := noObject
  building _ := False
  entered _ := False
  names _ := False
  around _ := True
  reached _ := True
  targets := noObject

/-- No rights, but to use the environments that the action itself comes to. -/
def confined : Rights := { none with around := fun _ => False, reached := fun _ => False }

/-- A further object is one's own. -/
def owning (id : ObjectId) (own : Rights) : Rights :=
  { own with objects := fun other => own.objects other ∨ other = id }

/-- A further environment may be used, if there is one. -/
def finding (place : Option EnvironmentId) (own : Rights) : Rights :=
  { own with reached := fun other => own.reached other ∨ place = some other }

/-- A further environment may be used. -/
def reaching (id : EnvironmentId) (own : Rights) : Rights :=
  own.finding (some id)

/-- A further environment is around the action. -/
def standing (id : EnvironmentId) (own : Rights) : Rights :=
  { own.reaching id with around := fun other => own.around other ∨ other = id }

/-- A further environment is under construction. -/
def constructing (id : EnvironmentId) (own : Rights) : Rights :=
  { own.reaching id with building := fun other => own.building other ∨ other = id }

/-- A further environment may be entered. -/
def entering (id : EnvironmentId) (own : Rights) : Rights :=
  { own with entered := fun other => own.entered other ∨ other = id }

/-- A further function may be called by one with bound arguments, if there is one. -/
def aiming (target : Option ObjectId) (own : Rights) : Rights :=
  { own with targets := fun other => own.targets other ∨ target = some other }

/-- Other names may be initialized. -/
def naming (names : String → Prop) (own : Rights) : Rights :=
  { own with names }

/-- Inside an environment that was made for the action all names may be initialized. -/
def inside (own : Rights) : Rights :=
  own.naming fun _ => True

theorem owns_new (own : Rights) (id : ObjectId) : (own.owning id).objects id := .inr rfl

theorem owns_old {own : Rights} {id : ObjectId} (mine : own.objects id) (new : ObjectId) :
    (own.owning new).objects id :=
  .inl mine

theorem builds_new (own : Rights) (id : EnvironmentId) : (own.constructing id).building id := .inr rfl

theorem reaches_new (own : Rights) (id : EnvironmentId) : (own.reaching id).reached id := .inr rfl

theorem stands_new (own : Rights) (id : EnvironmentId) : (own.standing id).around id := .inr rfl

theorem enters_new (own : Rights) (id : EnvironmentId) : (own.entering id).entered id := .inr rfl

theorem aims_new (own : Rights) (id : ObjectId) : (own.aiming (some id)).targets id := .inr rfl

/-- What a statement initializes where it stands may be initialized there. -/
def Covers (own : Rights) (t : Terms) (form : StmtForm) : Prop :=
  t.named → ∀ name, form.Introduces name → own.names name

theorem covers_inside (own : Rights) (form : StmtForm) : own.inside.Covers t form :=
  fun _ _ _ => trivial

theorem covers_sharing {own : Rights} {form : StmtForm} (covers : own.Covers t form) {s : Stmt}
    (shared : s ∈ form.sharing) : own.Covers t s.form :=
  fun named name introduces => covers named name (.inside shared introduces)

end Rights

/-! ## Orderly actions -/

/-- An environment that code comes to by its names: it is around the code, or shared by all scripts. -/
def Machine.Reaches (m : Machine) (id : EnvironmentId) : Prop :=
  m.environments.Within m.context.lexical id ∨ id = m.realm.scriptEnvironment

/-- An action is orderly, whatever engine it goes back to; `own` says what it may do. Where `moves` is set it
may leave names to be looked up elsewhere. -/
inductive Orderly (t : Terms) : (own : Rights) → (moves : Bool) → {α : Type} → (Engine → Eval α) → Prop
  | pure {own : Rights} {moves : Bool} {α : Type} (a : α) :
    Orderly t own moves fun _ => (Pure.pure a : Eval α)
  | raise {own : Rights} {moves : Bool} {α : Type} (e : Abrupt) (honest : e.Reported t) :
    Orderly t own moves fun _ => (throw e : Eval α)
  | bind {own : Rights} {moves : Bool} {α β : Type} {action : Engine → Eval α}
    {rest : Engine → α → Eval β} (first : Orderly t own moves action)
    (next : ∀ a, Orderly t own moves fun E => rest E a) :
    Orderly t own moves fun E => action E >>= rest E
  /-- An outcome may be looked at, and then anything orderly may be done. Only what a script can catch is
  looked at by every run. -/
  | attempt {own : Rights} {moves : Bool} {α β : Type} {action : Engine → Eval α}
    {rest : Engine → Except Abrupt α → Eval β} (tried : Orderly t own moves action)
    (ended : ∀ a, Orderly t own moves fun E => rest E (.ok a))
    (failed : ∀ e, e.Reported t → Orderly t own moves fun E => rest E (.error e))
    (passed : t.probed ∨ ∀ e, e.Fatal → ∀ E, rest E (.error e) = throw e) :
    Orderly t own moves fun E => ScriptEngine.attempt (action E) >>= rest E
  /-- Anything may be asked of the state but what has been printed. -/
  | read {own : Rights} {moves : Bool} {α : Type} (ask : Machine → α)
    (blind : ∀ m output, ask { m with output } = ask m) :
    Orderly t own moves fun _ => ((fun m => .ok (ask m) m) : Eval α)
  /-- Where code runs is around it. -/
  | here {own : Rights} {moves : Bool} {α : Type} {rest : Engine → EnvironmentId → Eval α}
    (next : ∀ id, Orderly t (own.standing id) moves fun E => rest E id) :
    Orderly t own moves fun E => lexicalEnvironment >>= rest E
  /-- An environment that code comes to by its names may be used. -/
  | find {own : Rights} {moves : Bool} {α β : Type} {rest : Engine → α → Eval β} (ask : Machine → α)
    (place : α → Option EnvironmentId) (blind : ∀ m output, ask { m with output } = ask m)
    (found : ∀ m id, place (ask m) = some id → m.Reaches id)
    (next : ∀ a, Orderly t (own.finding (place a)) moves fun E => rest E a) :
    Orderly t own moves fun E => ((fun m => .ok (ask m) m) : Eval α) >>= rest E
  /-- What the heap says may be relied on as far as it concerns functions of the engine and the host. -/
  | consult {own : Rights} {moves : Bool} {α β : Type} {ask : Heap → α}
    {rest : Engine → α → Eval β}
    (next : ∀ h : Heap, h.Known t → Orderly t own moves fun E => rest E (ask h)) :
    Orderly t own moves fun E => askHeap ask >>= rest E
  /-- What is found to be a function may be called by one with bound arguments. -/
  | aim {own : Rights} {moves : Bool} {α : Type} {rest : Engine → Option Callable → Eval α} (target : ObjectId)
    (next : ∀ f : Option Callable, Orderly t (own.aiming (f.map fun _ => target)) moves fun E => rest E f) :
    Orderly t own moves fun E => askHeap (·.callable? (.object target)) >>= rest E
  | rounds {own : Rights} {moves : Bool} {α : Type} (loop : Nat → Engine → Eval α)
    (each : ∀ n, Orderly t own moves (loop n)) : Orderly t own moves fun E => loop E.rounds E
  | newObject {own : Rights} {moves : Bool} (o : Object)
    (proper : o.Proper t own.reached own.targets) :
    Orderly t own moves fun _ => ScriptEngine.newObject o
  /-- A new object is one's own. -/
  | make {own : Rights} {moves : Bool} {α : Type} {rest : Engine → ObjectId → Eval α} (o : Object)
    (proper : o.Proper t own.reached own.targets)
    (next : ∀ id, Orderly t (own.owning id) moves fun E => rest E id) :
    Orderly t own moves fun E => ScriptEngine.newObject o >>= rest E
  | change {own : Rights} {moves : Bool} {α : Type} (id : ObjectId) (f : Object → α × Object)
    (checked : ∀ o, Object.Change o (f o).2) : Orderly t own moves fun _ => updateObject id f
  | changeOwn {own : Rights} {moves : Bool} {α : Type} (id : ObjectId) (f : Object → α × Object)
    (mine : own.objects id) (proper : KeepsProper t fun o => (f o).2) :
    Orderly t own moves fun _ => updateObject id f
  /-- A new environment is built without going back to the engine, and may then be entered. -/
  | build {own : Rights} {moves : Bool} {α β : Type} {make : EnvironmentId → Eval β}
    {rest : Engine → EnvironmentId → β → Eval α} (e : Environment) (firm : e.Firm)
    (inside : ∃ outer, e.outer = some outer ∧ own.around outer)
    (made : ∀ id, Orderly t (own.constructing id) false fun _ => make id)
    (next : ∀ id b, Orderly t (own.entering id) moves fun E => rest E id b) :
    Orderly t own moves fun E => ScriptEngine.newEnvironment e >>= fun id =>
      make id >>= fun b => rest E id b
  | construction {own : Rights} {moves : Bool} (id : EnvironmentId) (f : Environment → Environment)
    (mine : own.building id) (firm : ∀ e, e.Firm → (f e).Firm) (outer : ∀ e, (f e).outer = e.outer) :
    Orderly t own moves fun _ => modifyEnvironment id f
  | alter {own : Rights} {moves : Bool} (id : EnvironmentId) (f : Environment → Environment)
    (reached : own.reached id) (lawful : ∀ e : Environment, e.Keeps (fun _ => False) (f e)) (firm : ∀ e, e.Firm → (f e).Firm) :
    Orderly t own moves fun _ => modifyEnvironment id f
  | firstValue {own : Rights} {moves : Bool} (name : String) (value : Value)
    (allowed : t.named → own.names name) :
    Orderly t own moves fun _ => lexicalEnvironment >>= fun id =>
      modifyEnvironment id fun e => (e.initialize? name value).2
  | inContext {own : Rights} {moves : Bool} {α : Type} {action : Engine → Eval α} (c : Context)
    (made : own.entered c.lexical) (body : Orderly t own.inside true action) :
    Orderly t own moves fun E => ScriptEngine.inContext c (action E)
  | inEnvironment {own : Rights} {moves : Bool} {α : Type} {action : Engine → Eval α}
    (id : EnvironmentId) (made : own.entered id) (body : Orderly t own.inside true action) :
    Orderly t own moves fun E => ScriptEngine.inEnvironment id (action E)
  /-- A script declares names that are not taken in an environment that was there before, and may initialize
  them. -/
  | script {own : Rights} {moves : Bool} {α : Type} {taken free : Engine → Eval α} (c : Context)
    (names : List LexicalName) (reached : own.reached c.lexical) (refused : Orderly t (own.naming fun _ => False) true taken)
    (begun : Orderly t (own.naming fun name => ∃ n ∈ names, n.name = name) true free) :
    Orderly t own moves fun E =>
      ScriptEngine.inContext c (declareIn c.lexical names (taken E) (free E))
  | setLexicalEnvironment {own : Rights} (id : EnvironmentId) (made : own.entered id) :
    Orderly t own true fun _ => ScriptEngine.setLexicalEnvironment id
  | nested {own : Rights} {moves : Bool} {α : Type} {action : Engine → Eval α}
    (body : Orderly t own moves action) : Orderly t own moves fun E => ScriptEngine.nested (action E)
  | printLine {own : Rights} {moves : Bool} (line : String) :
    Orderly t own moves fun _ => ScriptEngine.printLine line
  | evaluate {own : Rights} {moves : Bool} (e : Expr) : Orderly t own moves fun E => E.evaluate e
  | execute {own : Rights} {moves : Bool} (labels : List String) (s : Stmt) (covers : own.Covers t s.form) :
    Orderly t own moves fun E => E.execute labels s
  | call {own : Rights} {moves : Bool} (f this : Value) (arguments : List Value) :
    Orderly t own moves fun E => E.call f this arguments
  | construct {own : Rights} {moves : Bool} (f : Value) (arguments : List Value) :
    Orderly t own moves fun E => E.construct f arguments

namespace Orderly

variable {own : Rights} {moves : Bool} {α β : Type}

/-! ## Combinations -/

theorem map {action : Engine → Eval α} (f : α → β) (done : Orderly t own moves action) :
    Orderly t own moves fun E => f <$> action E :=
  .bind done fun a => .pure (f a)

/-- A result may be relied on as far as it does not depend on the engine or the state. -/
theorem bindYields {action : Engine → Eval α} {rest : Engine → α → Eval β} {good : α → Prop}
    (first : Orderly t own moves action) (yields : ∀ E, Yields good (action E))
    (next : ∀ a, good a → Orderly t own moves fun E => rest E a) :
    Orderly t own moves fun E => action E >>= rest E := by
  classical
  have same : (fun E => action E >>= rest E) = fun E => action E >>= fun a =>
      if good a then rest E a else throw .exhausted :=
    funext fun E => (yields E).bind_congr fun a holds => (if_pos holds).symm
  rw [same]
  refine .bind first fun a => ?_
  by_cases holds : good a
  · simpa only [holds, if_true] using next a holds
  · simpa only [holds, if_false] using .raise .exhausted nofun

theorem discard {action : Engine → Eval α} (done : Orderly t own moves action) :
    Orderly t own moves fun E => Functor.discard (action E) :=
  .bind done fun _ => .pure ()

/-- An outcome that came may be passed on. -/
theorem resume (outcome : Except Abrupt α) (honest : ∀ e, outcome = .error e → e.Reported t) :
    Orderly t own moves fun _ => ScriptEngine.resume outcome := by
  cases outcome with
  | ok a => exact .pure a
  | error e => exact .raise e (honest e rfl)

theorem ite {c : Prop} [Decidable c] {yes no : Engine → Eval α} (taken : Orderly t own moves yes)
    (other : Orderly t own moves no) : Orderly t own moves fun E => if c then yes E else no E := by
  by_cases holds : c
  · simpa only [holds, if_true] using taken
  · simpa only [holds, if_false] using other

theorem forM {action : Engine → α → Eval Unit} (items : List α)
    (each : ∀ a, Orderly t own moves fun E => action E a) :
    Orderly t own moves fun E => items.forM (action E) := by
  induction items with
  | nil => exact .pure ()
  | cons a rest ih => exact .bind (each a) fun _ => ih

theorem mapM {action : Engine → α → Eval β} (items : List α)
    (each : ∀ a, Orderly t own moves fun E => action E a) :
    Orderly t own moves fun E => items.mapM (action E) := by
  induction items with
  | nil => exact .pure []
  | cons a rest ih =>
    simp only [List.mapM_cons]
    exact .bind (each a) fun b => .bind ih fun bs => .pure (b :: bs)

/-- A new environment may be entered. -/
theorem enter {rest : Engine → EnvironmentId → Eval α} (e : Environment) (firm : e.Firm)
    (inside : ∃ outer, e.outer = some outer ∧ own.around outer)
    (next : ∀ id, Orderly t (own.entering id) moves fun E => rest E id) :
    Orderly t own moves fun E => ScriptEngine.newEnvironment e >>= rest E :=
  .build e firm inside (fun _ => .pure ()) fun id _ => next id

/-- A new environment is built for later. -/
theorem prepare {make : EnvironmentId → Eval α} (e : Environment) (firm : e.Firm)
    (inside : ∃ outer, e.outer = some outer ∧ own.around outer)
    (made : ∀ id, Orderly t (own.constructing id) false fun _ => make id) :
    Orderly t own moves fun _ => ScriptEngine.newEnvironment e >>= make := by
  have whole : Orderly t own moves fun _ => ScriptEngine.newEnvironment e >>= fun id =>
      make id >>= fun a => Pure.pure a :=
    .build e firm inside made fun _ a => .pure a
  simpa only [bind_pure] using whole

end Orderly

/-! ## Questions -/

section Questions

variable {own : Rights} {moves : Bool} {α : Type}

theorem orderly_ask_heap (f : Heap → α) : Orderly t own moves fun _ => askHeap f :=
  .read (fun m => f m.heap) fun _ _ => rfl

theorem orderly_get_object (id : ObjectId) : Orderly t own moves fun _ => getObject id :=
  orderly_ask_heap _

theorem orderly_get_realm : Orderly t own moves fun _ => getRealm :=
  .read Machine.realm fun _ _ => rfl

theorem orderly_get_intrinsics : Orderly t own moves fun _ => getIntrinsics :=
  .read (fun m => m.realm.intrinsics) fun _ _ => rfl

theorem orderly_display_value (value : Value) : Orderly t own moves fun _ => displayValue value :=
  orderly_ask_heap _

theorem orderly_get_environment (id : EnvironmentId) :
    Orderly t own moves fun _ => getEnvironment id :=
  .read (fun m => m.environments.get id) fun _ _ => rfl

theorem orderly_get_context : Orderly t own moves fun _ => getContext :=
  .read Machine.context fun _ _ => rfl

theorem orderly_lexical_environment : Orderly t own moves fun _ => lexicalEnvironment :=
  .read (fun m => m.context.lexical) fun _ _ => rfl

theorem orderly_is_strict_code : Orderly t own moves fun _ => isStrictCode :=
  .read (fun m => m.context.strict) fun _ _ => rfl

end Questions
end ScriptEngine
