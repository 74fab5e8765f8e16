import ScriptEngine.Proofs.Evaluation.ArrayRuns
import ScriptEngine.Proofs.Evaluation.DefinePaths
import ScriptEngine.Proofs.Inheritance.Loops
import ScriptEngine.Proofs.Object.Mixed

/-!
Descriptions of properties as objects. What describes a property is read as a description of all of it, unless
parts of descriptions are inherited. So to define a property by what describes it changes nothing where it is, and
makes the same property elsewhere.

A host may also give a description that mentions both a value and functions, as no object of a script does. It is not
refused as such: one part of it is passed over, which one depends on whether there is a property already.
-/

namespace ScriptEngine

/-! ## A property defined as it is -/

theorem PropertyPatch.matches_of_property (p : Property) : (ofProperty p).matchesProperty p = true := by
  obtain ⟨kind, enumerable, configurable⟩ := p
  cases kind with
  | data value writable => simp [ofProperty, matchesProperty, agrees, Value.same_value_iff]
  | accessor get set => simp [ofProperty, matchesProperty, agrees]

theorem PropertyPatch.create_of_property (p : Property) : (ofProperty p).create = p := by
  obtain ⟨kind, enumerable, configurable⟩ := p
  cases kind <;> rfl

theorem PropertyPatch.of_property_not_mixed (p : Property) : (ofProperty p).isMixed = false := by
  obtain ⟨kind, enumerable, configurable⟩ := p
  cases kind <;> rfl

namespace Object

variable {o : Object} {key : String} {p : Property}

theorem define_ordinary_same (own : o.getOwn? key = some p) : o.defineOrdinary key (.ofProperty p) = (true, o) := by
  simp only [defineOrdinary, own, PropertyPatch.matches_of_property, Bool.or_true, if_true]

/-- A property that is defined as it is changes nothing, the length and the elements of an array included. -/
theorem define_same (formed : o.isArray → o.WellFormedArray maxWord) (own : o.getOwn? key = some p) :
    o.define key (.ofProperty p) = (true, o) := by
  have same := define_ordinary_same own
  unfold define
  by_cases array : o.isArray
  · rw [if_pos array]
    obtain ⟨_, n, _, ⟨writable, has⟩, below⟩ := formed array
    have length := array_length_of_nat has
    by_cases isLength : key = lengthKey
    · subst isLength
      obtain rfl : (⟨.data (.number (.ofNat n)) writable, false, false⟩ : Property) = p :=
        Option.some.inj ((get_own_of_find has).symm.trans own)
      rw [if_pos (beq_self_eq_true _)]
      have again : (Number.ofNat n).clampTo maxWord = Nat.min n maxWord :=
        Number.clampTo_ofNat (by decide) n
      simp only [defineLength, length, PropertyPatch.ofProperty, again, Nat.le_refl, if_true]
      exact same
    · rw [if_neg (by simpa using isLength)]
      cases isIndex : arrayIndex? key with
      | none => exact same
      | some index =>
        have inside : index < Nat.min n maxWord :=
          indices_below_min below key index (by rw [own]; rfl) isIndex
        simp [defineElement, length, same, Nat.not_le.2 inside]
  · rw [if_neg array]
    exact same

/-- A property that is defined anew is as it is described. -/
theorem define_new (plain : o.isArray = false) (extensible : o.extensible = true) (absent : o.getOwn? key = none) :
    o.define key (.ofProperty p) = (true, o.set key p) := by
  simp [define, plain, defineOrdinary, absent, extensible, PropertyPatch.create_of_property]

end Object

/-! ## Reading a description -/

/-- An object has the parts of a description as data, and no others. The functions among them can be called. -/
structure Heap.Describes (h : Heap) (d : ObjectId) (patch : PropertyPatch) : Prop where
  value : h.find? (some d) "value" = patch.value.map fun value => .data value .all
  writable : h.find? (some d) "writable" = patch.writable.map fun flag => .data (.boolean flag) .all
  get : h.find? (some d) "get" = patch.get.map fun f => .data (functionValue f) .all
  set : h.find? (some d) "set" = patch.set.map fun f => .data (functionValue f) .all
  enumerable : h.find? (some d) "enumerable" = patch.enumerable.map fun flag => .data (.boolean flag) .all
  configurable : h.find? (some d) "configurable" = patch.configurable.map fun flag => .data (.boolean flag) .all
  callable : ∀ f, patch.get = some (some f) ∨ patch.set = some (some f) → (h.get f).isCallable = true

namespace Machine

variable {m after : Machine} {E : Engine} {id d : ObjectId} {key part : String} {patch : PropertyPatch} {p : Property}

theorem run_descriptor_part {value : Option Value}
    (found : m.heap.find? (some d) part = value.map fun value => .data value .all) :
    m.run (descriptorPart E d part) = (.ok value, m) := by
  unfold descriptorPart
  rw [run_bind_ok (run_ask ..), Heap.has, found]
  cases value with
  | none => rfl
  | some value =>
    have read : m.run (getProperty E d part) = (.ok value, m) := by
      rw [getProperty, run_bind_ok (run_ask ..), found]
      rfl
    rw [Option.map_some, Option.isSome_some, if_pos rfl, run_map, read]
    rfl

theorem run_descriptor_flag {flag : Option Bool}
    (found : m.heap.find? (some d) part = flag.map fun flag => .data (.boolean flag) .all) :
    m.run (descriptorPart E d part) = (.ok (flag.map .boolean), m) := by
  apply run_descriptor_part
  rw [found, Option.map_map]
  rfl

theorem run_descriptor_function {f : Option (Option ObjectId)}
    (found : m.heap.find? (some d) part = f.map fun f => .data (functionValue f) .all)
    (callable : ∀ g, f = some (some g) → (m.heap.get g).isCallable = true) :
    m.run (descriptorFunction E d part) = (.ok f, m) := by
  have read : m.run (descriptorPart E d part) = (.ok (f.map functionValue), m) := by
    apply run_descriptor_part
    rw [found, Option.map_map]
    rfl
  rw [descriptorFunction, run_bind_ok read]
  match f with
  | none | some none => rfl
  | some (some g) =>
    have runs : (m.heap.get g).isCallable = true := callable g rfl
    simp only [Option.map_some, functionValue, Value.asObject?]
    rw [run_bind_ok (run_ask ..), if_pos runs]
    rfl

/-- An object that has the parts of a description is read as that description. -/
theorem run_to_patch (describes : m.heap.Describes d patch) (unmixed : patch.isMixed = false) :
    m.run (toPatch E (.object d)) = (.ok patch, m) := by
  have get := run_descriptor_function (E := E) describes.get fun g given => describes.callable g (.inl given)
  have set := run_descriptor_function (E := E) describes.set fun g given => describes.callable g (.inr given)
  have flag (flag : Option Bool) : (flag.map Value.boolean).map Value.toBoolean = flag := by
    cases flag <;> rfl
  unfold toPatch
  rw [run_bind_ok (run_descriptor_flag describes.enumerable), run_bind_ok (run_descriptor_flag describes.configurable),
    run_bind_ok (run_descriptor_part describes.value), run_bind_ok (run_descriptor_flag describes.writable),
    run_bind_ok get, run_bind_ok set]
  simp only [flag]
  rw [if_neg (by rw [← PropertyPatch.isMixed, unmixed]; exact Bool.false_ne_true)]
  rfl

/-! ## The description of a property -/

/-- The names of the parts of a description. -/
def descriptionParts : List String :=
  ["value", "writable", "get", "set", "enumerable", "configurable"]

/-- Nothing that all objects inherit is a part of a description. -/
def PlainDescriptions (m : Machine) : Prop :=
  ∀ part ∈ descriptionParts, m.heap.has m.realm.intrinsics.objectPrototype part = false

end Machine

/-- The functions of a property, if it has any, can be called. -/
def Heap.CanCall (h : Heap) (p : Property) : Prop :=
  ∀ get set f, p.kind = .accessor get set → get = some f ∨ set = some f → (h.get f).isCallable = true

/-- The object that describes a property, as an object by itself. -/
def Object.describing (proto : ObjectId) (p : Property) : Object :=
  let o := Object.new .ordinary (some proto)
  let o := match p.kind with
    | .data value writable => (o.setData "value" value .all).setData "writable" (.boolean writable) .all
    | .accessor get set =>
      (o.setData "get" (functionValue get) .all).setData "set" (functionValue set) .all
  (o.setData "enumerable" (.boolean p.enumerable) .all).setData "configurable" (.boolean p.configurable) .all

namespace Machine

variable {m after : Machine} {E : Engine} {id d : ObjectId} {key part : String} {patch : PropertyPatch} {p : Property}

/-- The machine with a further object that describes a property. -/
def describing (m : Machine) (p : Property) : Machine :=
  { m with heap := (m.heap.add (.describing m.realm.intrinsics.objectPrototype p)).2 }

/-- Where the next object comes to be. -/
def next (m : Machine) : ObjectId := ⟨m.heap.objects.size⟩

theorem run_of_property (m : Machine) (p : Property) : m.run (ofProperty p) = (.ok m.next, m.describing p) := by
  obtain ⟨kind, enumerable, configurable⟩ := p
  cases kind <;> rfl

theorem get_describing (there : m.heap.Holds id) : (m.describing p).heap.get id = m.heap.get id :=
  Heap.get_add_of_lt _ there

/-- A property is described by the object for it. -/
theorem describes_property (plain : m.PlainDescriptions) (callable : m.heap.CanCall p) :
    (m.describing p).heap.Describes m.next (.ofProperty p) := by
  have found (part : String) (known : part ∈ descriptionParts) :
      (m.describing p).heap.find? (some m.next) part =
        (Object.describing m.realm.intrinsics.objectPrototype p).getOwn? part := by
    have nothing := plain part known
    rw [Heap.has, Option.isSome_eq_false_iff, Option.isNone_iff_eq_none] at nothing
    have whole := Heap.find_add_self m.heap (.describing m.realm.intrinsics.objectPrototype p) part
    have above : (Object.describing m.realm.intrinsics.objectPrototype p).proto =
        some m.realm.intrinsics.objectPrototype := by
      obtain ⟨kind, enumerable, configurable⟩ := p
      cases kind <;> rfl
    rwa [above, nothing, Option.or_none] at whole
  have still (f : ObjectId) (runs : (m.heap.get f).isCallable = true) :
      ((m.describing p).heap.get f).isCallable = true := by
    obtain ⟨g, there⟩ := Option.isSome_iff_exists.1 runs
    rwa [get_describing (Heap.holds_of_callable there)]
  obtain ⟨kind, enumerable, configurable⟩ := p
  exact {
    value := (found "value" (by decide)).trans (by cases kind <;> rfl)
    writable := (found "writable" (by decide)).trans (by cases kind <;> rfl)
    get := (found "get" (by decide)).trans (by cases kind <;> rfl)
    set := (found "set" (by decide)).trans (by cases kind <;> rfl)
    enumerable := (found "enumerable" (by decide)).trans (by cases kind <;> rfl)
    configurable := (found "configurable" (by decide)).trans (by cases kind <;> rfl)
    callable := by
      intro f given
      cases kind with
      | data value writable => rcases given with given | given <;> cases given
      | accessor get set =>
        exact still f (callable get set f rfl (given.imp Option.some.inj Option.some.inj)) }

/-! ## Definitions by description -/

/-- A length that an array may have passes its check as it is. -/
theorem run_define_fitting {throws : Bool}
    (fits : (m.heap.get id).isArray → key = Object.lengthKey → ∀ v, patch.value = some v → v.IsLength) :
    m.run (defineProperty E id key patch throws) = m.defined id key patch throws := by
  cases given : patch.value with
  | none => exact run_define_property fun _ _ => given
  | some v =>
    by_cases checked : ((m.heap.get id).isArray && key == Object.lengthKey) = true
    · obtain ⟨array, isLength⟩ : (m.heap.get id).isArray = true ∧ key = Object.lengthKey := by simpa using checked
      obtain ⟨n, small, rfl⟩ := fits array isLength v given
      obtain ⟨same, valid⟩ := Value.as_length_of_length ⟨n, small, rfl⟩
      have number : m.run (toNumber E (.ofNat n)) = (.ok (Value.ofNat n).primitiveToNumber, m) := rfl
      have whole : ({ patch with value := some (.number (Value.ofNat n).asLength) } : PropertyPatch) = patch := by
        rw [same, ← given]
      unfold defineProperty
      dsimp only
      rw [run_bind_ok (run_ask ..), if_pos checked, check_length_bind, given]
      dsimp only
      rw [run_bind_ok number]
      apply (congrArg m.run (if_pos valid)).trans
      change m.run (updateObject id (·.define key { patch with value := some (.number (Value.ofNat n).asLength) }) >>=
        _) = _
      rw [whole]
      exact run_define_reported ..
    · exact run_define_property fun array isLength => absurd (by simp [array, isLength]) checked

/-- To define a property as it is succeeds and changes nothing. -/
theorem run_define_same (formed : (m.heap.get id).isArray → (m.heap.get id).WellFormedArray Object.maxWord)
    (own : (m.heap.get id).getOwn? key = some p) :
    m.run (defineProperty E id key (.ofProperty p) true) = (.ok true, m) := by
  have fits (array : (m.heap.get id).isArray) (isLength : key = Object.lengthKey) (v : Value)
      (given : (PropertyPatch.ofProperty p).value = some v) : v.IsLength := by
    obtain ⟨_, n, small, ⟨writable, has⟩, _⟩ := formed array
    subst isLength
    obtain rfl := Option.some.inj ((Object.get_own_of_find has).symm.trans own)
    exact ⟨n, small, (Option.some.inj given).symm⟩
  rw [run_define_fitting fits, defined, Object.define_same formed own]
  simp

/-- To define a property anew succeeds, and adds it as it is described. -/
theorem run_define_new (plain : (m.heap.get id).isArray = false) (extensible : (m.heap.get id).extensible = true)
    (absent : (m.heap.get id).getOwn? key = none) :
    m.run (defineProperty E id key (.ofProperty p) true) = (.ok true, m.withObject id ((m.heap.get id).set key p)) := by
  rw [run_define_fitting (fun array => by rw [plain] at array; cases array), defined,
    Object.define_new plain extensible absent]
  rfl

end Machine

/-! ## Descriptions in scripts -/

/-- What a script does that describes a property of one object and defines one of another object by that. -/
def Library.copyProperty (E : Engine) (this : Value) (id : ObjectId) (key : String) (target : ObjectId)
    (name : String) : Eval Value := do
  let description ← Library.run E .getOwnPropertyDescriptor this [.object id, .string key]
  Library.run E .defineProperty this [.object target, .string name, description]

namespace Machine

variable {m after : Machine} {E : Engine} {id target : ObjectId} {key name : String} {p : Property} {this : Value}

theorem run_get_own_property_descriptor (own : (m.heap.get id).getOwn? key = some p) :
    m.run (Library.run E .getOwnPropertyDescriptor this [.object id, .string key]) =
      (.ok (.object m.next), m.describing p) := by
  change m.run (Library.getOwnPropertyDescriptor E [.object id, .string key]) = _
  unfold Library.getOwnPropertyDescriptor
  rw [run_bind_ok (rfl : m.run _ = (.ok id, m)), run_bind_ok (rfl : m.run _ = (.ok key, m)),
    run_bind_ok (run_get_object m id), own]
  exact run_bind_ok (run_of_property m p) _

theorem run_define_one {description : Value} {patch : PropertyPatch} {accepted : Bool}
    (read : m.run (toPatch E description) = (.ok patch, m))
    (defines : m.run (defineProperty E id key patch true) = (.ok accepted, after)) :
    m.run (Library.run E .defineProperty this [.object id, .string key, description]) = (.ok (.object id), after) := by
  have done : m.run (discard (defineProperty E id key patch true)) = (.ok (), after) := by
    rw [run_discard, defines]
    rfl
  change m.run (Library.defineOne E [.object id, .string key, description]) = _
  unfold Library.defineOne
  rw [run_bind_ok (rfl : m.run _ = (.ok id, m)), run_bind_ok (rfl : m.run _ = (.ok key, m))]
  exact (run_bind_ok read _).trans (run_bind_ok done _)

/-- A property is described first, and then defined as it was. -/
theorem run_copy_property (plain : m.PlainDescriptions) (own : (m.heap.get id).getOwn? key = some p)
    (callable : m.heap.CanCall p)
    (defines : (m.describing p).run (defineProperty E target name (.ofProperty p) true) = (.ok true, after)) :
    m.run (Library.copyProperty E this id key target name) = (.ok (.object target), after) := by
  have read : (m.describing p).run (toPatch E (.object m.next)) = (.ok (.ofProperty p), m.describing p) :=
    run_to_patch (describes_property plain callable) (PropertyPatch.of_property_not_mixed p)
  unfold Library.copyProperty
  rw [run_bind_ok (run_get_own_property_descriptor own)]
  exact run_define_one read defines

/-- Properties and the objects that describe them say the same. A description is read as all of the property. To
define a property by its description succeeds and changes no object; under a new name of an object that is no array
and takes new properties, the description among them, it makes the same property there. -/
structure ReadsDescriptionsBack (m : Machine) : Prop where
  read : ∀ E p, m.heap.CanCall p →
    m.run (ofProperty p >>= fun d => toPatch E (.object d)) = (.ok (.ofProperty p), m.describing p)
  again : ∀ E this id key p, (m.heap.get id).getOwn? key = some p → m.heap.CanCall p →
    ((m.heap.get id).isArray → (m.heap.get id).WellFormedArray Object.maxWord) →
    m.run (Library.copyProperty E this id key id key) = (.ok (.object id), m.describing p) ∧
      ∀ other, m.heap.Holds other → (m.describing p).heap.get other = m.heap.get other
  anew : ∀ E this id key p target name, (m.heap.get id).getOwn? key = some p → m.heap.CanCall p →
    ∀ o, (m.describing p).heap.Holds target → (m.describing p).heap.get target = o →
    o.isArray = false → o.extensible = true → o.getOwn? name = none →
    ∃ after, m.run (Library.copyProperty E this id key target name) = (.ok (.object target), after) ∧
      after.heap.get target = o.set name p ∧ (after.heap.get target).getOwn? name = some p

/-- That all objects inherit no part of a description is enough. -/
theorem descriptions_read_back (m : Machine) (plain : m.PlainDescriptions) : m.ReadsDescriptionsBack where
  read E p callable := by
    rw [run_bind_ok (run_of_property m p)]
    exact run_to_patch (describes_property plain callable) (PropertyPatch.of_property_not_mixed p)
  again E this id key p own callable formed := by
    have still : (m.describing p).heap.get id = m.heap.get id := get_describing (Heap.holds_of_get_own own)
    have defines : (m.describing p).run (defineProperty E id key (.ofProperty p) true) = (.ok true, m.describing p) :=
      run_define_same (by rwa [still]) (by rwa [still])
    exact ⟨run_copy_property plain own callable defines, fun other there => get_describing there⟩
  anew := by
    rintro E this id key p target name own callable o there rfl noArray extensible absent
    have made : ((m.describing p).withObject target (((m.describing p).heap.get target).set name p)).heap.get target =
        ((m.describing p).heap.get target).set name p := Heap.get_set_self _ there
    refine ⟨_, run_copy_property plain own callable (run_define_new noArray extensible absent), made, ?_⟩
    rw [made, Object.get_own_set, if_pos rfl]

end Machine

/-- In a new engine a property with a function is described, the length of the first array is defined again, and it
is made a property of the first object. -/
theorem first_properties_described :
    (Machine.bare {}).PlainDescriptions ∧
      ((Machine.bare {}).run
        (ofProperty ⟨.accessor (some Intrinsics.first.functionPrototype) none, true, false⟩ >>= fun d =>
          toPatch (engineAt 0) (.object d))).1 =
        .ok (.ofProperty ⟨.accessor (some Intrinsics.first.functionPrototype) none, true, false⟩) ∧
      ((Machine.bare {}).run (Library.copyProperty (engineAt 0) .undefined Intrinsics.first.arrayPrototype "length"
        Intrinsics.first.arrayPrototype "length")).1 = .ok (.object Intrinsics.first.arrayPrototype) ∧
      ((Machine.bare {}).run (Library.copyProperty (engineAt 0) .undefined Intrinsics.first.arrayPrototype "length"
        Intrinsics.first.objectPrototype "size")).1 = .ok (.object Intrinsics.first.objectPrototype) := by
  have plain : (Machine.bare {}).PlainDescriptions := by
    unfold Machine.PlainDescriptions
    decide
  obtain ⟨read, again, anew⟩ := Machine.descriptions_read_back (Machine.bare {}) plain
  let f : Property := ⟨.accessor (some Intrinsics.first.functionPrototype) none, true, false⟩
  let p : Property := ⟨.data (.ofNat 0) true, false, false⟩
  have getter : (Machine.bare {}).heap.CanCall f := by
    rintro get set g ⟨⟩ (⟨⟨⟩⟩ | ⟨⟨⟩⟩)
    rfl
  have value : (Machine.bare {}).heap.CanCall p := nofun
  have own : ((Machine.bare {}).heap.get Intrinsics.first.arrayPrototype).getOwn? "length" = some p := rfl
  have there : ((Machine.bare {}).describing p).heap.Holds Intrinsics.first.objectPrototype := by
    rw [Heap.Holds, Machine.describing, Heap.size_add]
    exact Nat.succ_pos _
  obtain ⟨same, -⟩ := again (engineAt 0) .undefined _ "length" p own value fun _ => first_array_well_formed
  obtain ⟨after, made, -⟩ := anew (engineAt 0) .undefined _ "length" p Intrinsics.first.objectPrototype "size" own
    value _ there rfl rfl rfl rfl
  rw [read (engineAt 0) f getter, same, made]
  exact ⟨plain, rfl, rfl, rfl⟩

/-! ## Mixed descriptions -/

variable {m after : Machine} {id : ObjectId} {key : String} {patch : PropertyPatch} {throws : Bool}

/-- The description that an object of a script gives is not mixed. -/
theorem to_patch_not_mixed {engine : Engine} {value : Value}
    (read : m.run (toPatch engine value) = (.ok patch, after)) : patch.isMixed = false := by
  unfold toPatch at read
  cases value with
  | object id =>
    dsimp only at read
    obtain ⟨enumerable, _, _, read⟩ := Machine.ran_bind read
    obtain ⟨configurable, _, _, read⟩ := Machine.ran_bind read
    obtain ⟨data, _, _, read⟩ := Machine.ran_bind read
    obtain ⟨writable, _, _, read⟩ := Machine.ran_bind read
    obtain ⟨get, _, _, read⟩ := Machine.ran_bind read
    obtain ⟨set, _, _, read⟩ := Machine.ran_bind read
    split at read
    · obtain ⟨_, _, thrown, _⟩ := Machine.ran_bind read
      cases thrown
    · rename_i plain
      cases read
      simpa [PropertyPatch.isMixed] using plain
  | _ =>
    obtain ⟨_, _, _, read⟩ := Machine.ran_bind read
    cases read

/-- What a mixed description comes to for an object that is no array. -/
theorem run_define_mixed {engine : Engine} (plain : (m.heap.get id).isArray = false) (mixed : patch.isMixed) :
    m.run (defineProperty engine id key patch throws) =
      match (m.heap.get id).mixedResult? key patch with
      | some p => (.ok true, m.withObject id ((m.heap.get id).set key p))
      | none => if throws then m.run (throwFault (.redefinition key)) else (.ok false, m) := by
  have free : (m.heap.get id).isArray → key = Object.lengthKey → patch.value = none := by simp [plain]
  have ordinary : (m.heap.get id).define key patch = (m.heap.get id).defineOrdinary key patch := by
    simp [Object.define, plain]
  rw [Machine.run_define_property free, Machine.defined, ordinary, Object.define_ordinary_mixed mixed]
  cases (m.heap.get id).mixedResult? key patch with
  | none => simp
  | some p => simp

/-- Where there is no property only the functions that a mixed description mentions count. -/
theorem run_define_mixed_absent {engine : Engine}
    (formed : (m.heap.get id).isArray → (m.heap.get id).WellFormedArray Object.maxWord) (mixed : patch.isMixed)
    (absent : (m.heap.get id).getOwn? key = none) :
    m.run (defineProperty engine id key patch throws) =
      m.run (defineProperty engine id key patch.functionPart throws) := by
  have other (array : (m.heap.get id).isArray) : key ≠ Object.lengthKey := by
    rintro rfl
    obtain ⟨_, _, _, ⟨_, has⟩, _⟩ := formed array
    rw [Object.get_own_of_find has] at absent
    cases absent
  have free (array : (m.heap.get id).isArray) (isLength : key = Object.lengthKey) : patch.value = none :=
    absurd isLength (other array)
  rw [Machine.run_define_property free, Machine.run_define_property fun _ _ => rfl, Machine.defined,
    Object.define_mixed_absent absent other mixed]
  rfl

/-- Where an object holds a property the functions of a mixed description do not count. The length of an array
is converted first, whatever else is described. -/
theorem run_define_mixed_held {steps : Nat} (there : id.index < m.heap.objects.size)
    (formed : (m.heap.get id).isArray → (m.heap.get id).WellFormedArray Object.maxWord) (mixed : patch.isMixed)
    {p : Property} (found : (m.heap.get id).properties.find? key = some p) :
    m.run (defineProperty (engineAt steps) id key patch throws) =
      m.run (defineProperty (engineAt steps) id key patch.valuePart throws) := by
  have sameValue : patch.valuePart.value = patch.value := rfl
  by_cases checked : ((m.heap.get id).isArray && key == Object.lengthKey) = true
  · obtain ⟨array, rfl⟩ : (m.heap.get id).isArray = true ∧ key = Object.lengthKey := by simpa using checked
    cases given : patch.value with
    | none =>
      rw [Machine.run_define_property fun _ _ => given, Machine.run_define_property fun _ _ => sameValue.trans given,
        Machine.defined, Object.define_mixed_held found mixed]
      rfl
    | some requested =>
      unfold defineProperty
      dsimp only
      rw [Machine.run_bind_ok (Machine.run_ask ..), Machine.run_bind_ok (Machine.run_ask ..), if_pos checked,
        if_pos checked, check_length_bind, check_length_bind, sameValue, given]
      refine Machine.run_bind_congr fun n between ran => ?_
      split
      · rename_i valid
        -- The conversion may run anything, but the array has a length of its own afterwards as well.
        have evolves : m.heap.Evolves noObject between.heap := by
          have orderly : Orderly .any .none false fun E => toNumber E requested := orderly_to_number requested
          have kept := orderly.evolves (engine_keeps_history steps) m
          rwa [ran] at kept
        obtain ⟨_, _, _, ⟨_, has⟩, _⟩ := Object.well_formed_changes (Nat.le_refl _) (formed array)
          (evolves.changes id there fun no => no)
        have mixedNumber : ({ patch with value := some (.number (.ofUint32 n.toUint32)) } : PropertyPatch).isMixed :=
          PropertyPatch.mixed_iff.2 ⟨(PropertyPatch.mixed_iff.1 mixed).1, rfl⟩
        rw [Machine.run_define_reported, Machine.run_define_reported, Machine.defined,
          Object.define_mixed_held has mixedNumber]
        rfl
      · rfl
  · have free (array : (m.heap.get id).isArray) (isLength : key = Object.lengthKey) : patch.value = none :=
      absurd (by simp [array, isLength]) checked
    have freePart (array : (m.heap.get id).isArray) (isLength : key = Object.lengthKey) :
        patch.valuePart.value = none := sameValue.trans (free array isLength)
    rw [Machine.run_define_property free, Machine.run_define_property freePart, Machine.defined,
      Object.define_mixed_held found mixed]
    rfl

/-- A description that mentions both a value, or whether it may be replaced, and a function is never given by
an object of a script. If it is given all the same it is not refused for that. Where there is no property it
makes one with functions, without the value. Where the object holds a property, of either kind, it makes one
with a value, without the functions, if that is allowed. For an object that is no array this is what the
definition comes to, whatever the key: it is accepted with the property that is made, and refused only if the
object is not extensible or what is said of a value is not allowed. -/
theorem mixed_description_taken_in_part (steps : Nat) (m : Machine) (id : ObjectId) (key : String)
    (patch : PropertyPatch) (throws : Bool) (there : id.index < m.heap.objects.size)
    (formed : (m.heap.get id).isArray → (m.heap.get id).WellFormedArray Object.maxWord) (mixed : patch.isMixed) :
    (¬∃ (value : Value) (before after : Machine),
      before.run (toPatch (engineAt steps) value) = (.ok patch, after)) ∧
    ((m.heap.get id).getOwn? key = none →
      m.run (defineProperty (engineAt steps) id key patch throws) =
        m.run (defineProperty (engineAt steps) id key patch.functionPart throws)) ∧
    (((m.heap.get id).properties.find? key).isSome →
      m.run (defineProperty (engineAt steps) id key patch throws) =
        m.run (defineProperty (engineAt steps) id key patch.valuePart throws)) ∧
    ((m.heap.get id).isArray = false →
      m.run (defineProperty (engineAt steps) id key patch throws) =
        match (m.heap.get id).mixedResult? key patch with
        | some p => (.ok true, m.withObject id ((m.heap.get id).set key p))
        | none => if throws then m.run (throwFault (.redefinition key)) else (.ok false, m)) := by
  refine ⟨?_, run_define_mixed_absent formed mixed, fun held => ?_, fun plain => run_define_mixed plain mixed⟩
  · rintro ⟨value, before, after, read⟩
    rw [to_patch_not_mixed read] at mixed
    cases mixed
  · obtain ⟨p, found⟩ := Option.isSome_iff_exists.1 held
    exact run_define_mixed_held there formed mixed found

/-- In a new engine the first object takes a value and a function under a new key, and keeps the function. -/
theorem first_object_takes_mixed :
    ((Machine.bare {}).run (defineProperty (engineAt 0) Intrinsics.first.objectPrototype "mixed"
      { value := some (.boolean true), get := some none } true)).1 = .ok true ∧
    ((Machine.bare {}).run (defineProperty (engineAt 0) Intrinsics.first.objectPrototype "mixed"
      { value := some (.boolean true), get := some none } true)).2 =
      (Machine.bare {}).withObject Intrinsics.first.objectPrototype
        (((Machine.bare {}).heap.get Intrinsics.first.objectPrototype).set "mixed"
          ⟨.accessor none none, false, false⟩) := by
  obtain ⟨_, _, _, plain⟩ := mixed_description_taken_in_part 0 (Machine.bare {}) Intrinsics.first.objectPrototype
    "mixed" { value := some (.boolean true), get := some none } true (by decide) (fun array => by cases array) rfl
  rw [plain rfl]
  exact ⟨rfl, rfl⟩

end ScriptEngine
