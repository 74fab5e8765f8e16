import ScriptEngine.Proofs.Evaluation.Outcome
import ScriptEngine.Proofs.Object.Permanence

/-!
What an object has to do with a name that a script declares: when it accepts a function by that name, and what it
gains by one. New objects leave those that were there as they were.
-/

namespace ScriptEngine

/-! ## Properties of the global object -/

/-- The property that a global function or variable is at first. -/
def globalProperty (value : Value) : Property := .data value globalAttributes

/-- A function may be declared by a name. If an object has a property of this name that is not configurable, it
has to be a value that may be replaced and that loops see. -/
def Object.acceptsFunction (o : Object) (name : String) : Bool :=
  match o.getOwn? name with
  | some p => p.configurable || (p.isWritable && p.enumerable)
  | none => o.extensible

/-- A function may be declared. One without a name need not be. -/
def Object.acceptsDeclared (o : Object) (code : FunctionCode) : Bool :=
  match code.name with
  | some name => o.acceptsFunction name
  | none => true

/-- An object gets a property, perhaps in place of another one, and stays the same otherwise. -/
structure Object.Gains (before after : Object) (name : String) (p : Property) : Prop where
  kind : after.kind = before.kind
  extensible : after.extensible = before.extensible
  own : ∀ key, after.getOwn? key = if name = key then some p else before.getOwn? key

namespace Object

variable {o : Object} {name : String}

theorem gains_set (o : Object) (name : String) (p : Property) : o.Gains (o.set name p) name p :=
  ⟨rfl, rfl, fun key => get_own_set o name key p⟩

/-- An object that is no array is defined a property of like any other. -/
theorem define_plain (plain : o.isArray = false) (name : String) (patch : PropertyPatch) :
    o.define name patch = o.defineOrdinary name patch := by
  unfold define
  rw [plain]
  rfl

theorem define_of_full (plain : o.isArray = false) (absent : o.getOwn? name = none)
    (full : o.extensible = false) (patch : PropertyPatch) : o.define name patch = (false, o) := by
  rw [define_plain plain]
  unfold defineOrdinary
  simp [absent, full]

/-- A global name may be declared where nothing has this name yet. -/
theorem gains_of_absent (plain : o.isArray = false) (absent : o.getOwn? name = none)
    (room : o.extensible = true) (value : Value) :
    ∃ changed, o.define name (.data value globalAttributes) = (true, changed) ∧
      o.Gains changed name (globalProperty value) := by
  refine ⟨o.set name (globalProperty value), ?_, gains_set o name _⟩
  rw [define_plain plain]
  unfold defineOrdinary
  simp only [absent, room, if_true]
  rfl

/-- A global name may be declared in place of what is configurable. -/
theorem gains_of_configurable (plain : o.isArray = false) {p : Property} (own : o.getOwn? name = some p)
    (free : p.configurable = true) (value : Value) :
    ∃ changed, o.define name (.data value globalAttributes) = (true, changed) ∧
      o.Gains changed name (globalProperty value) := by
  refine ⟨o.set name (globalProperty value), ?_, gains_set o name _⟩
  have differs : (PropertyPatch.data value globalAttributes).matchesProperty p = false := by
    simp [PropertyPatch.matchesProperty, PropertyPatch.data, PropertyPatch.agrees, globalAttributes, free]
  have updated : (PropertyPatch.data value globalAttributes).update? p = some (globalProperty value) := by
    obtain ⟨kind, enumerable, configurable⟩ := p
    obtain rfl : configurable = true := free
    cases kind <;> rfl
  rw [define_plain plain]
  unfold defineOrdinary
  simp only [own, differs, updated]
  rfl

/-- The value of a global name may be replaced. -/
theorem gains_of_writable (plain : o.isArray = false) {old : Value}
    (own : o.getOwn? name = some (globalProperty old)) (value : Value) :
    ∃ changed, o.define name (.ofValue value) = (true, changed) ∧
      o.Gains changed name (globalProperty value) := by
  rw [define_plain plain]
  unfold defineOrdinary
  simp only [own]
  by_cases same : (PropertyPatch.ofValue value).matchesProperty (globalProperty old) = true
  · obtain rfl : value = old := by
      simpa [PropertyPatch.matchesProperty, PropertyPatch.ofValue, globalProperty, Property.data,
        PropertyPatch.agrees, Value.same_value_iff] using same
    refine ⟨o, by simp [same], rfl, rfl, fun key => ?_⟩
    split
    · next equal => rw [← equal, own]
    · rfl
  · refine ⟨o.set name (globalProperty value), ?_, gains_set o name _⟩
    simp only [same]
    rfl

end Object

/-! ## New objects -/

/-- Between two states objects have been added, and nothing else has changed. -/
structure Machine.Adds (before after : Machine) : Prop where
  environments : after.environments = before.environments
  realm : after.realm = before.realm
  size : before.heap.objects.size ≤ after.heap.objects.size
  objects : ∀ id : ObjectId, id.index < before.heap.objects.size → after.heap.get id = before.heap.get id

section Adding

variable {m after : Machine}

theorem adds_refl (m : Machine) : m.Adds m :=
  ⟨rfl, rfl, Nat.le_refl _, fun _ _ => rfl⟩

theorem adds_trans {last : Machine} (early : m.Adds after) (late : after.Adds last) : m.Adds last where
  environments := late.environments.trans early.environments
  realm := late.realm.trans early.realm
  size := Nat.le_trans early.size late.size
  objects id there :=
    (late.objects id (Nat.lt_of_lt_of_le there early.size)).trans (early.objects id there)

theorem adds_new_object (adds : m.Adds after) (o : Object) : m.Adds (after.run (newObject o)).2 where
  environments := adds.environments
  realm := adds.realm
  size := by
    rw [Machine.run_new_object, Heap.size_add]
    exact Nat.le_succ_of_le adds.size
  objects id there := by
    rw [Machine.run_new_object, Heap.get_add_of_lt o (Nat.lt_of_lt_of_le there adds.size)]
    exact adds.objects id there

/-- What was added may be changed. -/
theorem adds_modify_object (adds : m.Adds after) {id : ObjectId} (new : m.heap.objects.size ≤ id.index)
    (f : Object → Object) : m.Adds (after.run (modifyObject id f)).2 where
  environments := adds.environments
  realm := adds.realm
  size := by
    unfold modifyObject
    rw [Machine.run_update_object, Heap.size_set]
    exact adds.size
  objects other there := by
    have distinct : id ≠ other := by
      rintro rfl
      exact Nat.lt_irrefl _ (Nat.lt_of_lt_of_le there new)
    unfold modifyObject
    rw [Machine.run_update_object, Heap.get_set_of_ne _ distinct]
    exact adds.objects other there

theorem run_throw_fault (α : Type) (m : Machine) (fault : Fault) :
    ∃ e after, m.run (throwFault fault : Eval α) = (.error e, after) ∧ m.Adds after :=
  ⟨_, _, rfl, adds_new_object (adds_refl m) _⟩

/-- A function of a script that sees an environment; an arrow function goes on with the current `this`. -/
def Machine.closure (m : Machine) (code : FunctionCode) (environment : EnvironmentId) : ScriptFunction :=
  ⟨code, environment, if code.isArrow then some m.context.this else none⟩

/-- A function of a script is a new object. -/
theorem run_create_script_function (m : Machine) (code : FunctionCode) (environment : EnvironmentId) :
    ∃ f after, m.run (createScriptFunction code environment) = (.ok f, after) ∧ m.Adds after ∧
      m.heap.objects.size ≤ f.index ∧ after.context = m.context ∧ f.index < after.heap.objects.size ∧
      (after.heap.get f).callable? = some (.script (m.closure code environment)) := by
  unfold createScriptFunction Machine.closure
  cases code.isArrow with
  | true =>
    let o : Object := .ofCallable m.realm.intrinsics.functionPrototype
      (.script ⟨code, environment, some m.context.this⟩) code.parameters.length (code.name.getD "")
    exact ⟨_, _, rfl, adds_new_object (adds_refl m) o, Nat.le_refl _, rfl, Heap.index_add_lt ..,
      congrArg Object.callable? (Heap.get_add_self ..)⟩
  | false =>
    let o : Object := .ofCallable m.realm.intrinsics.functionPrototype (.script ⟨code, environment, none⟩)
      code.parameters.length (code.name.getD "")
    let f : ObjectId := (m.heap.add o).1
    let made : Machine := (m.run (newObject o)).2
    let base : Object := .new .ordinary (some m.realm.intrinsics.objectPrototype)
    let proto : ObjectId := (made.heap.add base).1
    let both : Machine := (made.run (newObject base)).2
    let linked : Machine := (both.run (modifyObject proto (·.setData "constructor" (.object f) .hidden))).2
    let link : Object → Object := (·.setData "prototype" (.object proto) ⟨true, false, false⟩)
    have there : f.index < made.heap.objects.size := Heap.index_add_lt ..
    have makes : made.Adds linked :=
      adds_modify_object (adds_new_object (adds_refl made) base) (Nat.le_refl _) _
    have adds : m.Adds linked := adds_trans (adds_new_object (adds_refl m) o) makes
    have still : f.index < linked.heap.objects.size := Nat.lt_of_lt_of_le there makes.size
    have same : linked.heap.get f = o := (makes.objects f there).trans (Heap.get_add_self ..)
    refine ⟨f, (linked.run (modifyObject f link)).2, rfl, adds_modify_object adds (Nat.le_refl _) link,
      Nat.le_refl _, rfl, ?_, ?_⟩
    · unfold modifyObject
      rw [Machine.run_update_object, Heap.size_set]
      exact still
    · unfold modifyObject
      rw [Machine.run_update_object, Heap.get_set_self _ still, same]
      rfl

end Adding

end ScriptEngine
