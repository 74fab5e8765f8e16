import ScriptEngine.Proofs.Evaluation.Outcome
import ScriptEngine.Proofs.Inheritance.Loops
import ScriptEngine.Proofs.Object.Change

/-!
Properties of booleans, numbers and strings. They are read without the object that would wrap the value, and are
the ones that it would have: those that a string has by itself, and else what is inherited from the prototype that
all such objects have, whatever a script has made of it.
-/

namespace ScriptEngine

variable {m later : Machine} {E : Engine} {base : Value} {wrapper : ObjectId} {text key : String}

/-- The object that wraps a string has by itself what the string has by itself, and none of it may be replaced. -/
theorem kind_own_wrapping (intrinsics : Intrinsics) (text key : String) :
    ((Object.wrapping intrinsics (.string text)).getOwn? key).map Property.kind =
      (stringProperty? text key).map (PropertyKind.data · false) := by
  rw [Object.wrapping, Object.setData, Object.get_own_set, stringProperty?]
  by_cases length : Object.lengthKey = key
  · rw [if_pos length, if_pos (beq_iff_eq.2 length.symm)]
    rfl
  · rw [if_neg length, if_neg fun same => length (beq_iff_eq.1 same).symm]
    change (Object.unitProperty? text key).map Property.kind = _
    unfold Object.unitProperty?
    cases arrayIndex? key with
    | none => rfl
    | some index =>
      simp only [Option.bind_eq_bind, Option.bind_some]
      cases (Text.units text)[index]? <;> rfl

/-! ## Both ways of reading -/

/-- A property is read from a value and from the object that wraps it. If it is a function that is called, that is
the same one, on the value and on the object; and else the same value is read. -/
structure Machine.ReadsAlike (m later : Machine) (E : Engine) (base : Value) (wrapper : ObjectId) (key : String) :
    Prop where
  called : ∀ p getter setter, later.heap.find? (some wrapper) key = some p → p.kind = .accessor (some getter) setter →
    m.run (getValueProperty E base key) = m.run (E.call (.object getter) base []) ∧
      later.run (getProperty E wrapper key) = later.run (E.call (.object getter) (.object wrapper) [])
  held : (∀ p getter setter, later.heap.find? (some wrapper) key = some p → p.kind ≠ .accessor (some getter) setter) →
    ∃ value, m.run (getValueProperty E base key) = (.ok value, m) ∧
      later.run (getProperty E wrapper key) = (.ok value, later)

/-- All properties are read from a value as from the object that wraps it. -/
def Machine.ReadsAsWrapped (m : Machine) (base : Value) : Prop :=
  ∃ wrapper later, m.run (toObject base) = (.ok wrapper, later) ∧ ∀ E key, m.ReadsAlike later E base wrapper key

/-- It is enough that what is found on the object is read for the value. -/
theorem reads_alike_of_found
    (reads : m.run (getValueProperty E base key) =
      m.run (readProperty E (later.heap.find? (some wrapper) key) base)) :
    m.ReadsAlike later E base wrapper key := by
  have wrapped : later.run (getProperty E wrapper key) =
      later.run (readProperty E (later.heap.find? (some wrapper) key) (.object wrapper)) := rfl
  constructor
  · rintro ⟨_, _, _⟩ getter setter found rfl
    rw [reads, wrapped, found]
    exact ⟨rfl, rfl⟩
  · intro plain
    rw [reads, wrapped]
    cases found : later.heap.find? (some wrapper) key with
    | none => exact ⟨.undefined, rfl, rfl⟩
    | some p =>
      obtain ⟨kind, enumerable, configurable⟩ := p
      cases kind with
      | data value writable => exact ⟨value, rfl, rfl⟩
      | accessor get set =>
        cases get with
        | none => exact ⟨.undefined, rfl, rfl⟩
        | some getter => exact absurd rfl (plain _ getter set found)

/-- The object that wraps a value is new, so what is found on it is what it has by itself or what its prototype had
before. -/
theorem reads_as_wrapped_of {kind : ObjectKind} (wraps : m.run (toObject base) = m.run (createWrapper kind))
    (reads : ∀ E key,
      m.run (getValueProperty E base key) =
        m.run (readProperty E (((Object.wrapping m.realm.intrinsics kind).getOwn? key).or
          (m.heap.find? (Object.wrapping m.realm.intrinsics kind).proto key)) base)) :
    m.ReadsAsWrapped base := by
  let o := Object.wrapping m.realm.intrinsics kind
  refine ⟨(m.heap.add o).1, { m with heap := (m.heap.add o).2 }, wraps, fun E key => reads_alike_of_found ?_⟩
  rw [reads, Heap.find_add_self]

theorem reads_as_wrapped_boolean (m : Machine) (b : Bool) : m.ReadsAsWrapped (.boolean b) := by
  have wraps : m.run (toObject (.boolean b)) = m.run (createWrapper (.boolean b)) := rfl
  exact reads_as_wrapped_of wraps fun _ _ => rfl

theorem reads_as_wrapped_number (m : Machine) (n : Number) : m.ReadsAsWrapped (.number n) := by
  have wraps : m.run (toObject (.number n)) = m.run (createWrapper (.number n)) := rfl
  exact reads_as_wrapped_of wraps fun _ _ => rfl

/-! ## Strings -/

theorem run_get_string_own {value : Value} (own : stringProperty? text key = some value) :
    m.run (getValueProperty E (.string text) key) = (.ok value, m) := by
  simp only [getValueProperty, own]
  rfl

theorem run_get_string_inherited (other : stringProperty? text key = none) :
    m.run (getValueProperty E (.string text) key) =
      m.run (readProperty E (m.heap.find? (some m.realm.intrinsics.stringPrototype) key) (.string text)) := by
  simp only [getValueProperty, other]
  rfl

theorem reads_as_wrapped_string (m : Machine) (text : String) : m.ReadsAsWrapped (.string text) := by
  have wraps : m.run (toObject (.string text)) = m.run (createWrapper (.string text)) := rfl
  apply reads_as_wrapped_of wraps
  intro E key
  have kinds := kind_own_wrapping m.realm.intrinsics text key
  cases own : stringProperty? text key with
  | none =>
    rw [own, Option.map_none, Option.map_eq_none_iff] at kinds
    rw [run_get_string_inherited own, kinds, Option.none_or]
    rfl
  | some value =>
    rw [own, Option.map_some] at kinds
    obtain ⟨⟨_, _, _⟩, wrapped, rfl⟩ := Option.map_eq_some_iff.1 kinds
    rw [run_get_string_own own, wrapped]
    rfl

/-- What is read from a string: its length, its code units one by one, and whatever else is inherited. -/
structure Machine.ReadsUnits (m : Machine) (text : String) : Prop where
  length : ∀ E, m.run (getValueProperty E (.string text) Object.lengthKey) =
    (.ok (.ofNat (Text.units text).length), m)
  inside : ∀ E key index unit, arrayIndex? key = some index → (Text.units text)[index]? = some unit →
    m.run (getValueProperty E (.string text) key) = (.ok (.string (Text.ofUnits [unit])), m)
  outside : ∀ E key, key ≠ Object.lengthKey →
    (∀ index, arrayIndex? key = some index → (Text.units text).length ≤ index) →
    m.run (getValueProperty E (.string text) key) =
      m.run (readProperty E (m.heap.find? (some m.realm.intrinsics.stringPrototype) key) (.string text))

theorem reads_units (m : Machine) (text : String) : m.ReadsUnits text where
  length E := run_get_string_own rfl
  inside E key index unit isIndex here := by
    have other : ¬(key == Object.lengthKey) = true := by
      intro same
      rw [beq_iff_eq.1 same] at isIndex
      cases isIndex
    apply run_get_string_own
    simp only [stringProperty?, if_neg other, isIndex, here, Option.bind_eq_bind, Option.bind_some, Option.pure_def]
  outside E key other beyond := by
    apply run_get_string_inherited
    rw [stringProperty?, if_neg fun same => other (beq_iff_eq.1 same)]
    cases isIndex : arrayIndex? key with
    | none => rfl
    | some index =>
      have missing : (Text.units text)[index]? = none := List.getElem?_eq_none (beyond index isIndex)
      simp only [missing, Option.bind_eq_bind, Option.bind_some, Option.bind_none]

/-- Properties of booleans, numbers and strings are those of the objects that wrap them, in every state. -/
theorem primitives_read_as_wrapped (m : Machine) :
    (∀ b, m.ReadsAsWrapped (.boolean b)) ∧ (∀ n, m.ReadsAsWrapped (.number n)) ∧
      ∀ text, m.ReadsAsWrapped (.string text) ∧ m.ReadsUnits text :=
  ⟨reads_as_wrapped_boolean m, reads_as_wrapped_number m,
    fun text => ⟨reads_as_wrapped_string m text, reads_units m text⟩⟩

end ScriptEngine
