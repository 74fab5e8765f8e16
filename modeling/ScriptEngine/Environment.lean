import ScriptEngine.Heap

/-!
Environments: what names mean at a place of a script. Each but the outermost has an environment around
it. An environment holds its bindings itself, or takes the properties of an object as bindings.
-/

namespace ScriptEngine

/-- What a name is bound to. It cannot be used before it is initialized. An immutable binding keeps its
value; an attempt to change it is an error in strict code, and in any code if the binding is strict. -/
structure Binding where
  value : Value
  mutable : Bool
  initialized : Bool
  deletable : Bool
  strict : Bool
  deriving DecidableEq, Inhabited

/-- Where an environment has its bindings. -/
inductive Bindings where
  | declarative (names : OrderedMap Binding)
  /-- The properties of an object; a function called by such a name may be given the object as
  `this`. -/
  | properties (object : ObjectId) (providesThis : Bool)

/-- An environment. -/
structure Environment where
  outer : Option EnvironmentId
  bindings : Bindings

instance : Inhabited Environment := ⟨⟨none, .declarative .empty⟩⟩

namespace Environment

/-- An environment that holds no bindings yet. -/
def declarative (outer : Option EnvironmentId) : Environment :=
  ⟨outer, .declarative .empty⟩

/-- An environment over the properties of an object. -/
def ofObject (object : ObjectId) (providesThis : Bool) (outer : Option EnvironmentId) : Environment :=
  ⟨outer, .properties object providesThis⟩

/-- The binding that an environment itself holds. -/
def binding? (e : Environment) (name : String) : Option Binding :=
  match e.bindings with
  | .declarative names => names.find? name
  | .properties .. => none

/-- A name is bound in an environment. No function runs to find that out. -/
def has (e : Environment) (h : Heap) (name : String) : Bool :=
  match e.bindings with
  | .declarative names => names.contains name
  | .properties object _ => h.has object name

/-- Sets a binding that the environment itself holds. -/
def set (e : Environment) (name : String) (b : Binding) : Environment :=
  match e.bindings with
  | .declarative names => { e with bindings := .declarative (names.insert name b) }
  | .properties .. => e

/-- Removes a binding that the environment itself holds. -/
def erase (e : Environment) (name : String) : Environment :=
  match e.bindings with
  | .declarative names => { e with bindings := .declarative (names.erase name) }
  | .properties .. => e

/-- Adds a mutable binding that is not initialized, unless the name is bound. -/
def createMutable (e : Environment) (name : String) (deletable : Bool) : Environment :=
  if (e.binding? name).isSome then e else e.set name ⟨.undefined, true, false, deletable, false⟩

/-- Adds an immutable binding that is not initialized, in place of any other. -/
def createImmutable (e : Environment) (name : String) (strict : Bool) : Environment :=
  e.set name ⟨.undefined, false, false, false, strict⟩

/-- Adds a mutable binding with a value, in place of any other. -/
def declare (e : Environment) (name : String) (value : Value) : Environment :=
  e.set name ⟨value, true, true, false, false⟩

/-- Gives a binding its first value. It says whether there was such a binding without one. -/
def initialize? (e : Environment) (name : String) (value : Value) : Bool × Environment :=
  match e.binding? name with
  | some b =>
    if b.initialized then (false, e) else (true, e.set name { b with value, initialized := true })
  | none => (false, e)

/-- Adds the names of `let` and `const` without initializing them. -/
def createLexical (e : Environment) (names : List LexicalName) : Environment :=
  names.foldl (fun e n => if n.constant then e.createImmutable n.name true
    else e.createMutable n.name false) e

/-! ## Bindings after a change -/

/-- An environment that holds its bindings itself. -/
def isDeclarative (e : Environment) : Bool :=
  match e.bindings with
  | .declarative _ => true
  | .properties .. => false

theorem isDeclarative_set (e : Environment) (name : String) (b : Binding) :
    (e.set name b).isDeclarative = e.isDeclarative := by
  obtain ⟨outer, bindings⟩ := e
  cases bindings <;> rfl

theorem binding?_set {e : Environment} (holds : e.isDeclarative) (name other : String)
    (b : Binding) :
    (e.set name b).binding? other = if name = other then some b else e.binding? other := by
  obtain ⟨outer, bindings⟩ := e
  cases bindings with
  | declarative names => exact names.find?_insert name other b
  | properties object providesThis => cases holds

theorem binding?_erase {e : Environment} (holds : e.isDeclarative) (name other : String) :
    (e.erase name).binding? other = if name = other then none else e.binding? other := by
  obtain ⟨outer, bindings⟩ := e
  cases bindings with
  | declarative names => exact names.find?_erase name other
  | properties object providesThis => cases holds

/-- What a function is called on that is called by a name of this environment. -/
def implicitThis (e : Environment) : Value :=
  match e.bindings with
  | .properties object true => .object object
  | _ => .undefined

end Environment

/-- All environments of a running engine. -/
structure EnvironmentStore where
  environments : Array Environment

namespace EnvironmentStore

/-- No environments. -/
def empty : EnvironmentStore := ⟨#[]⟩

instance : Inhabited EnvironmentStore := ⟨empty⟩

/-- The environment at an address. -/
def get (s : EnvironmentStore) (id : EnvironmentId) : Environment :=
  s.environments.getD id.index default

/-- Adds an environment at a new address. -/
def add (s : EnvironmentStore) (e : Environment) : EnvironmentId × EnvironmentStore :=
  (⟨s.environments.size⟩, ⟨s.environments.push e⟩)

/-- Replaces the environment at an address. -/
def set (s : EnvironmentStore) (id : EnvironmentId) (e : Environment) : EnvironmentStore :=
  ⟨s.environments.setIfInBounds id.index e⟩

/-- Replaces the environment at an address by what an operation makes of it. -/
def update {α : Type} (s : EnvironmentStore) (id : EnvironmentId)
    (f : Environment → α × Environment) : α × EnvironmentStore :=
  let (a, e) := f (s.get id)
  (a, s.set id e)

@[simp] theorem size_set (s : EnvironmentStore) (id : EnvironmentId) (e : Environment) :
    (s.set id e).environments.size = s.environments.size := by
  simp [set]

@[simp] theorem size_add (s : EnvironmentStore) (e : Environment) :
    (s.add e).2.environments.size = s.environments.size + 1 := by
  simp [add]

theorem get_set_self {s : EnvironmentStore} {id : EnvironmentId} (e : Environment)
    (there : id.index < s.environments.size) : (s.set id e).get id = e := by
  simp [get, set, Array.getD_eq_getD_getElem?, there]

theorem get_set_of_ne {s : EnvironmentStore} {id other : EnvironmentId} (e : Environment)
    (distinct : id ≠ other) : (s.set id e).get other = s.get other := by
  have places : id.index ≠ other.index := fun same => distinct (EnvironmentId.ext same)
  simp [get, set, Array.getD_eq_getD_getElem?, places]

/-- A new environment is at its address. -/
theorem get_add_self (s : EnvironmentStore) (e : Environment) :
    (s.add e).2.get (s.add e).1 = e := by
  simp [get, add]

/-- The environments that were there stay where they are. -/
theorem get_add_of_lt {s : EnvironmentStore} {id : EnvironmentId} (e : Environment)
    (there : id.index < s.environments.size) : (s.add e).2.get id = s.get id := by
  simp [get, add, Array.getD_eq_getD_getElem?, Array.getElem?_push, Nat.ne_of_lt there]

/-- The first environment that binds a name, from a given one outward over at most `fuel`. -/
def resolveFrom? (s : EnvironmentStore) (h : Heap) (name : String) (fuel : Nat)
    (start : Option EnvironmentId) : Option EnvironmentId :=
  match fuel, start with
  | fuel + 1, some id =>
    let e := s.get id
    if e.has h name then some id else s.resolveFrom? h name fuel e.outer
  | _, _ => none

/-- The environment that a name is bound in, as seen from a given one. An environment is made after
the one around it, so the way outward is no longer than there are environments. -/
def resolve? (s : EnvironmentStore) (h : Heap) (start : EnvironmentId) (name : String) :
    Option EnvironmentId :=
  s.resolveFrom? h name (s.environments.size + 1) (some start)

end EnvironmentStore
end ScriptEngine
