import Mathlib.Data.List.Perm.Subperm
import ScriptEngine.Library.Reflection
import ScriptEngine.Proofs.Object.AnyLength
import ScriptEngine.Proofs.Object.ArrayLength
import ScriptEngine.Proofs.Object.KeyOrder

/-!
Objects whose properties are fixed. Those of which nothing can be changed are the ones that a test for it
accepts: no checked operation changes such an object, and there is one that changes any other. Restricting an
object changes each of its properties by a definition that is always accepted.
-/

namespace ScriptEngine

/-- A property that can no longer be configured, and whose value can no longer be replaced if it is frozen. -/
def Property.restricted (p : Property) (freezes : Bool) : Property where
  kind :=
    match p.kind with
    | .data value writable => .data value (writable && !freezes)
    | .accessor get set => .accessor get set
  enumerable := p.enumerable
  configurable := false

/-- What there is to a property besides what it holds: its kind, and whether loops see it and it can be
configured. -/
def Property.shape (p : Property) : Bool × Bool × Bool :=
  (p.isData, p.enumerable, p.configurable)

variable {p q : Property} {freezes : Bool}

theorem shape_of_lasts (lasts : p.Lasts q) (fixed : p.configurable = false) : q.shape = p.shape := by
  have isData : q.isData = p.isData := by
    have kind := lasts.kind
    unfold Property.isData
    generalize p.kind = before at kind
    generalize q.kind = after at kind
    cases kind <;> rfl
  rw [Property.shape, Property.shape, isData, lasts.enumerable, lasts.configurable, fixed]

/-- A read-only property that cannot be configured lasts only as it is. -/
theorem eq_of_lasts (lasts : p.Lasts q) (fixed : p.configurable = false) (readOnly : p.isWritable = false) :
    q = p := by
  obtain ⟨kind, enumerable, configurable⟩ := p
  obtain ⟨kindNow, enumerableNow, configurableNow⟩ := q
  obtain ⟨rfl, rfl, kindLasts⟩ := lasts
  have same : kindNow = kind := by
    cases kindLasts with
    | accessor => rfl
    | writable => cases readOnly
    | readOnly before after same => rw [Value.same_value_iff.1 same]
  subst fixed same
  rfl

theorem restricted_writable (p : Property) : (p.restricted true).isWritable = false := by
  obtain ⟨kind, _, _⟩ := p
  cases kind <;> simp [Property.restricted, Property.isWritable]

/-- A property is restricted once and for all. -/
theorem restricted_twice (p : Property) (freezes : Bool) :
    (p.restricted freezes).restricted freezes = p.restricted freezes := by
  obtain ⟨kind, _, _⟩ := p
  cases kind <;> simp [Property.restricted]

/-! ## The definition that restricts a property -/

/-- A property is never too fixed to be restricted. -/
theorem update_restriction (p : Property) (freezes : Bool) :
    (Library.restriction p freezes).update? p = some (p.restricted freezes) := by
  have flags : (Library.restriction p freezes).flagsAllowed p = true := by
    simp [Library.restriction, PropertyPatch.flagsAllowed, PropertyPatch.agrees]
  obtain ⟨kind, enumerable, configurable⟩ := p
  cases kind with
  | data value writable =>
    cases freezes with
    | true =>
      rw [PropertyPatch.update_of_data rfl, flags]
      simp [Library.restriction, PropertyPatch.valueAllowed, PropertyPatch.valued, PropertyPatch.agrees,
        Property.isData, Property.restricted]
    | false =>
      rw [PropertyPatch.update_of_generic rfl, if_pos flags]
      simp [Library.restriction, Property.restricted]
  | accessor get set =>
    have generic : (Library.restriction ⟨.accessor get set, enumerable, configurable⟩ freezes).isGeneric = true := by
      simp [Library.restriction, PropertyPatch.isGeneric, PropertyPatch.mentionsAccessor,
        PropertyPatch.mentionsData, Property.isData]
    rw [PropertyPatch.update_of_generic generic, if_pos flags]
    rfl

/-- A property that is as restricted as it is to be is left alone. -/
theorem restricted_of_unchanged
    (unchanged : (Library.restriction p freezes).isEmpty || (Library.restriction p freezes).matchesProperty p) :
    p.restricted freezes = p := by
  obtain ⟨kind, enumerable, configurable⟩ := p
  cases kind with
  | data value writable =>
    cases freezes <;> cases configurable <;> cases writable <;>
      simp_all [Library.restriction, PropertyPatch.isEmpty, PropertyPatch.matchesProperty, PropertyPatch.agrees,
        Property.isData, Property.restricted]
  | accessor get set =>
    cases freezes <;> cases configurable <;>
      simp_all [Library.restriction, PropertyPatch.isEmpty, PropertyPatch.matchesProperty, PropertyPatch.agrees,
        Property.isData, Property.restricted]

namespace Object

variable {o after : Object} {key : String} {patch : PropertyPatch} {frozen : Bool}

/-- An own property is defined as any other, as long as no value is mentioned that may be a length. -/
theorem define_own_unvalued (formed : o.isArray → o.WellFormedArray maxWord) (own : o.getOwn? key = some p)
    (unvalued : patch.value = none) : o.define key patch = o.defineOrdinary key patch := by
  unfold define
  split
  · rename_i array
    split
    · rename_i isLength
      obtain rfl : key = lengthKey := by simpa using isLength
      simp [defineLength, unvalued]
    · split
      · rename_i index isIndex
        obtain ⟨_, n, within, ⟨writable, has⟩, below⟩ := formed array
        have inside : index < n := below key index (by rw [own, Option.isSome_some]) isIndex
        have small : Nat.min n maxWord = n := Nat.min_eq_left within
        have covered : ¬n ≤ index := Nat.not_le.2 inside
        unfold defineElement
        rw [array_length_of_nat has, small]
        simp only [covered, decide_false, Bool.false_and, Bool.false_eq_true, if_false]
        cases o.defineOrdinary key patch with
        | mk accepted defined => cases accepted <;> rfl
      · rfl
  · rfl

/-- The definition that restricts an own property is accepted and does nothing else. -/
theorem define_restriction (formed : o.isArray → o.WellFormedArray maxWord) (own : o.getOwn? key = some p)
    (freezes : Bool) :
    (o.define key (Library.restriction p freezes)).1 = true ∧
      ∀ other, (o.define key (Library.restriction p freezes)).2.getOwn? other =
        if key = other then some (p.restricted freezes) else o.getOwn? other := by
  rw [define_own_unvalued formed own rfl]
  unfold defineOrdinary
  rw [own]
  dsimp only
  split
  · rename_i unchanged
    refine ⟨rfl, fun other => ?_⟩
    split
    · rename_i same
      rw [← same, own, restricted_of_unchanged unchanged]
    · rfl
  · rw [update_restriction]
    exact ⟨rfl, fun other => get_own_set ..⟩

/-! ## Objects that no operation changes -/

/-- What a test for restrictions asks for. -/
theorem restricted_iff : Library.isRestricted o frozen = true ↔ o.extensible = false ∧
    ∀ key p, o.getOwn? key = some p → p.configurable = false ∧ (frozen = true → p.isWritable = false) := by
  have one (key : String) : (o.getOwn? key).all (fun p => !p.configurable && !(frozen && p.isWritable)) = true ↔
      ∀ p, o.getOwn? key = some p → p.configurable = false ∧ (frozen = true → p.isWritable = false) := by
    cases o.getOwn? key with
    | none => simp
    | some p => cases frozen <;> simp
  simp only [Library.isRestricted, Bool.and_eq_true, Bool.not_eq_true', List.all_eq_true, one]
  refine and_congr_right fun _ => ⟨fun all key p own => ?_, fun all key _ => all key⟩
  exact all key (mem_own_keys own) p own

/-- Nothing about the own properties of an object has changed. -/
structure Unchanged (o after : Object) : Prop where
  keys : after.ownKeys = o.ownKeys
  own : ∀ key, after.getOwn? key = o.getOwn? key

/-- No property was added or removed, and none is of another kind, or has become one that loops see or do not
see, or that can or cannot be configured. -/
def SameShapes (o after : Object) : Prop :=
  ∀ key, (after.getOwn? key).map Property.shape = (o.getOwn? key).map Property.shape

theorem steady_of_formed (formed : o.isArray → o.WellFormedArray maxWord) : o.Steady := by
  refine .inl fun array => ?_
  obtain ⟨_, n, _, ⟨writable, has⟩, _⟩ := formed array
  exact ⟨_, _, _, has⟩

/-- If the same names are listed they are listed in the same order. -/
theorem own_keys_of_same (operation : Operation)
    (same : ∀ key, ((operation.apply o).getOwn? key).isSome = (o.getOwn? key).isSome) :
    (operation.apply o).ownKeys = o.ownKeys := by
  have kind := operation.apply_kind o
  have members (key : String) : key ∈ (operation.apply o).ownKeys ↔ key ∈ o.ownKeys := by
    rw [mem_own_keys_iff_own, mem_own_keys_iff_own, same, HasFarUnit, HasFarUnit, kind]
  have fewer : (operation.apply o).ownKeys.Sublist o.ownKeys := by
    rcases operation.held_keys_apply o with fewer | ⟨key, new, more⟩
    · rw [own_keys_eq, own_keys_eq, unit_keys_of_kind kind]
      exact fewer.append_left _
    · -- The name that could be new is not listed afterwards either.
      have absent : key ∉ (operation.apply o).ownKeys := fun listed => new ((members key).1 listed)
      have sub : (operation.apply o).ownKeys.Sublist (o.ownKeys ++ [key]) := by
        rw [own_keys_eq, own_keys_eq, unit_keys_of_kind kind, List.append_assoc]
        exact more.append_left _
      have others := sub.filter (· != key)
      rw [List.filter_append, List.filter_singleton, bne_self_eq_false, cond_false,
        List.append_nil, List.filter_eq_self.2 fun name listed => ?_] at others
      · exact others.trans List.filter_sublist
      · rw [bne_iff_ne]
        rintro rfl
        exact absent listed
  exact fewer.eq_of_length_le (List.subperm_of_subset o.nodup_own_keys fun key own => (members key).2 own).length_le

theorem unchanged_of_keeps (frozen : Library.isRestricted o true) (kept : o.Keeps after) (key : String) :
    after.getOwn? key = o.getOwn? key := by
  obtain ⟨closed, fixed⟩ := restricted_iff.1 frozen
  cases own : o.getOwn? key with
  | none => exact kept.missing closed key own
  | some p =>
    obtain ⟨q, now, lasts⟩ := kept.fixed key p own (fixed key p own).1
    rw [now, eq_of_lasts lasts (fixed key p own).1 ((fixed key p own).2 rfl)]

/-- No sequence of checked operations changes a frozen object. -/
theorem unchanged_of_changes (steady : o.Steady) (frozen : Library.isRestricted o true) (changes : Changes o after) :
    o.Unchanged after := by
  have own : ∀ {later}, Changes o later → ∀ key, later.getOwn? key = o.getOwn? key :=
    fun changes => unchanged_of_keeps frozen (keeps_changes changes steady).1
  refine ⟨?_, own changes⟩
  induction changes with
  | refl => rfl
  | @tail before later early change ih =>
    refine Eq.trans ?_ ih
    have same (key : String) : (later.getOwn? key).isSome = (before.getOwn? key).isSome := by
      rw [own (early.tail change), own early]
    cases change with
    | stay => rfl
    | define key patch => exact own_keys_of_same (.define key patch) same
    | delete key => exact own_keys_of_same (.delete key) same
    | preventExtensions => exact own_keys_of_same .preventExtensions same

/-- No sequence of checked operations changes the shape of a sealed object. -/
theorem same_shapes_of_changes (steady : o.Steady) (closed : Library.isRestricted o false)
    (changes : Changes o after) : o.SameShapes after := by
  obtain ⟨shut, fixed⟩ := restricted_iff.1 closed
  obtain ⟨kept, _⟩ := keeps_changes changes steady
  intro key
  cases own : o.getOwn? key with
  | none => rw [kept.missing shut key own]
  | some p =>
    obtain ⟨q, now, lasts⟩ := kept.fixed key p own (fixed key p own).1
    rw [now, Option.map_some, Option.map_some, shape_of_lasts lasts (fixed key p own).1]

/-! ## Operations that change the others -/

/-- There is always a name for one more property. -/
theorem exists_new_key (o : Object) :
    ∃ key, arrayIndex? key = none ∧ key ≠ lengthKey ∧ o.getOwn? key = none := by
  -- A name that is longer than all others, and begins as no index and no length does.
  let all : List Char := (o.ownKeys.map String.toList).flatten
  refine ⟨String.ofList ('k' :: all), ?_, ?_, ?_⟩
  · have letter : 'k'.isDigit = false := by decide
    simp [arrayIndex?, arrayIndexAfter, letter]
  · intro same
    have letters := congrArg String.toList same
    simp [lengthKey] at letters
  · rw [← Option.not_isSome_iff_eq_none]
    intro own
    obtain ⟨p, found⟩ := Option.isSome_iff_exists.1 own
    have within : (String.ofList ('k' :: all)).toList.Sublist all :=
      List.sublist_flatten_of_mem (List.mem_map_of_mem (mem_own_keys found))
    have shorter := within.length_le
    rw [String.toList_ofList, List.length_cons] at shorter
    omega

/-- An object that can be extended gets a property under any name that is no index. -/
theorem define_new_name (extensible : o.extensible = true) (noIndex : arrayIndex? key = none) (other : key ≠ lengthKey)
    (absent : o.getOwn? key = none) : ((o.define key {}).2.getOwn? key).isSome := by
  have ordinary : o.define key {} = o.defineOrdinary key {} := by
    unfold define
    split
    · simp [other, noIndex]
    · rfl
  rw [ordinary, defineOrdinary, absent]
  simp [extensible, get_own_set]

/-- What takes the place of a removed property, if anything, cannot be configured. -/
theorem get_own_delete {q : Property} (own : o.getOwn? key = some p) (configurable : p.configurable = true)
    (now : (o.delete key).2.getOwn? key = some q) : q.configurable = false := by
  unfold delete at now
  simp only [own, configurable, if_true] at now
  unfold getOwn? at now
  simp only [OrderedMap.find?_erase, if_true] at now
  split at now
  · obtain ⟨_, rfl⟩ := unit_read_only now
    rfl
  · cases now

/-- A value that may be replaced can be made read-only. -/
theorem define_read_only_value {value : Value} {enumerable configurable : Bool}
    (formed : o.isArray → o.WellFormedArray maxWord)
    (own : o.getOwn? key = some ⟨.data value true, enumerable, configurable⟩) :
    (o.define key { writable := some false }).2.getOwn? key = some ⟨.data value false, enumerable, configurable⟩ := by
  rw [define_own_unvalued formed own rfl]
  unfold defineOrdinary
  rw [own]
  dsimp only
  have differs : (({ writable := some false } : PropertyPatch).isEmpty ||
      ({ writable := some false } : PropertyPatch).matchesProperty ⟨.data value true, enumerable, configurable⟩) =
      false := by
    simp [PropertyPatch.isEmpty, PropertyPatch.isGeneric, PropertyPatch.mentionsAccessor,
      PropertyPatch.mentionsData, PropertyPatch.matchesProperty, PropertyPatch.agrees]
  rw [differs, PropertyPatch.update_of_data rfl]
  simp [PropertyPatch.flagsAllowed, PropertyPatch.valueAllowed, PropertyPatch.valued, PropertyPatch.agrees,
    get_own_set]

theorem same_shapes_of_unchanged (unchanged : o.Unchanged after) : o.SameShapes after :=
  fun key => congrArg (Option.map Property.shape) (unchanged.own key)

/-- The shape of an object that is not sealed can be changed: a property can be added, or one can be removed. -/
theorem exists_reshaping (unsealed : Library.isRestricted o false = false) :
    (∃ key, ¬o.SameShapes (o.define key {}).2) ∨ ∃ key, ¬o.SameShapes (o.delete key).2 := by
  cases extensible : o.extensible with
  | true =>
    obtain ⟨key, noIndex, other, absent⟩ := o.exists_new_key
    refine .inl ⟨key, fun same => ?_⟩
    have added := define_new_name extensible noIndex other absent
    have shapes := same key
    rw [absent, Option.map_none, Option.map_eq_none_iff] at shapes
    rw [shapes] at added
    cases added
  | false =>
    have some_free : ∃ key p, o.getOwn? key = some p ∧ p.configurable = true := by
      by_contra none_free
      have all : Library.isRestricted o false = true := restricted_iff.2 ⟨extensible, fun key p own =>
        ⟨Bool.eq_false_iff.2 fun configurable => none_free ⟨key, p, own, configurable⟩, fun frozen => by cases frozen⟩⟩
      rw [unsealed] at all
      cases all
    obtain ⟨key, p, own, configurable⟩ := some_free
    refine .inr ⟨key, fun same => ?_⟩
    have shapes := same key
    rw [own, Option.map_some, Option.map_eq_some_iff] at shapes
    obtain ⟨q, now, shape⟩ := shapes
    have flags : q.configurable = p.configurable := congrArg (·.2.2) shape
    rw [get_own_delete own configurable now, configurable] at flags
    cases flags

/-- An object that is not frozen can be changed, if not in its shape then by making a value read-only. -/
theorem exists_change (formed : o.isArray → o.WellFormedArray maxWord)
    (unfrozen : Library.isRestricted o true = false) :
    (∃ key patch, patch.value = none ∧ ¬o.Unchanged (o.define key patch).2) ∨
      ∃ key, ¬o.Unchanged (o.delete key).2 := by
  cases isSealed : Library.isRestricted o false with
  | false =>
    rcases exists_reshaping isSealed with ⟨key, differs⟩ | ⟨key, differs⟩
    · exact .inl ⟨key, {}, rfl, fun same => differs (same_shapes_of_unchanged same)⟩
    · exact .inr ⟨key, fun same => differs (same_shapes_of_unchanged same)⟩
  | true =>
    obtain ⟨closed, fixed⟩ := restricted_iff.1 isSealed
    have some_free : ∃ key p, o.getOwn? key = some p ∧ p.isWritable = true := by
      by_contra none_free
      have all : Library.isRestricted o true = true := restricted_iff.2 ⟨closed, fun key p own =>
        ⟨(fixed key p own).1, fun _ => Bool.eq_false_iff.2 fun writable => none_free ⟨key, p, own, writable⟩⟩⟩
      rw [unfrozen] at all
      cases all
    obtain ⟨key, ⟨kind, enumerable, configurable⟩, own, writable⟩ := some_free
    cases kind with
    | accessor => cases writable
    | data value flag =>
      obtain rfl : flag = true := writable
      refine .inl ⟨key, { writable := some false }, rfl, fun same => ?_⟩
      have now := define_read_only_value formed own
      rw [same.own, own] at now
      cases now

end Object
end ScriptEngine
