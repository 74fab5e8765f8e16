import ScriptEngine.Proofs.Object.Change

/-!
What no checked operation can undo. A property that cannot be configured stays, with its flags and its
kind; its functions stay, and so does its value once it is read-only. An object that cannot be extended
gets no new properties. The one thing asked for is that the length of an array is a number: where it is
not, a new element replaces it even if it is read-only.
-/

namespace ScriptEngine

/-- Nothing but itself is the same value. -/
theorem Value.same_value_iff {x y : Value} : x.sameValue y ↔ x = y := by
  cases x <;> cases y <;> simp [Value.sameValue, Value.strictEquals]

/-- What becomes of the kind of a property that cannot be configured: functions stay, a read-only value
stays, and a value that may be replaced can at most become read-only. -/
inductive PropertyKind.Lasts : PropertyKind → PropertyKind → Prop
  | accessor (get set : Option ObjectId) : Lasts (.accessor get set) (.accessor get set)
  | writable (before after : Value) (writable : Bool) : Lasts (.data before true) (.data after writable)
  | readOnly (before after : Value) (same : after.sameValue before) :
    Lasts (.data before false) (.data after false)

/-- What becomes of a property that cannot be configured. -/
structure Property.Lasts (before after : Property) : Prop where
  configurable : after.configurable = false
  enumerable : after.enumerable = before.enumerable
  kind : before.kind.Lasts after.kind

theorem kind_lasts_refl (kind : PropertyKind) : kind.Lasts kind := by
  cases kind with
  | data value writable =>
    cases writable with
    | true => exact .writable ..
    | false => exact .readOnly _ _ (Value.same_value_iff.2 rfl)
  | accessor get set => exact .accessor ..

theorem kind_lasts_trans {first second third : PropertyKind} (early : first.Lasts second)
    (late : second.Lasts third) : first.Lasts third := by
  cases early with
  | accessor get set => exact late
  | writable before after writable =>
    cases late with
    | writable | readOnly => exact .writable ..
  | readOnly before after same =>
    cases late with
    | readOnly _ last again =>
      rw [Value.same_value_iff] at same again
      exact .readOnly _ _ (Value.same_value_iff.2 (again.trans same))

theorem property_lasts_refl {p : Property} (fixed : p.configurable = false) : p.Lasts p :=
  ⟨fixed, rfl, kind_lasts_refl p.kind⟩

theorem property_lasts_trans {first second third : Property} (early : first.Lasts second)
    (late : second.Lasts third) : first.Lasts third :=
  ⟨late.configurable, late.enumerable.trans early.enumerable, kind_lasts_trans early.kind late.kind⟩

namespace PropertyPatch

variable {patch : PropertyPatch} {p q : Property}

/-- A part that agrees with what is there puts nothing new in its place. -/
theorem get_of_agrees {α : Type} [BEq α] [LawfulBEq α] {part : Option α} {current : α}
    (same : agrees part (· == current)) : part.getD current = current := by
  cases part with
  | none => rfl
  | some a => simpa [agrees] using same

theorem fill_generic (generic : patch.isGeneric) (kind : PropertyKind) : patch.fill kind = kind := by
  simp only [isGeneric, mentionsAccessor, mentionsData, Bool.and_eq_true, Bool.not_eq_true',
    Bool.or_eq_false_iff, Option.isSome_eq_false_iff, Option.isNone_iff_eq_none] at generic
  obtain ⟨⟨get, set⟩, value, writable⟩ := generic
  cases kind with
  | data | accessor => simp [fill, get, set, value, writable]

/-- A read-only value stays when the mentioned parts agree with it. -/
theorem fill_read_only {value : Value}
    (allowed : agrees patch.writable (!·) && agrees patch.value (·.sameValue value)) :
    (PropertyKind.data value false).Lasts (patch.fill (.data value false)) := by
  simp only [Bool.and_eq_true] at allowed
  obtain ⟨stays, same⟩ := allowed
  have readOnly : patch.writable.getD false = false := by
    cases given : patch.writable with
    | none => rfl
    | some w => simpa [given, agrees] using stays
  have unchanged : patch.value.getD value = value := by
    cases given : patch.value with
    | none => rfl
    | some v => simpa [given, agrees, Value.same_value_iff] using same
  simp only [fill, readOnly, unchanged]
  exact kind_lasts_refl _

/-- Functions stay when the mentioned ones agree with them. -/
theorem fill_accessor {get set : Option ObjectId}
    (allowed : agrees patch.get (· == get) && agrees patch.set (· == set)) :
    patch.fill (.accessor get set) = .accessor get set := by
  simp only [Bool.and_eq_true] at allowed
  simp only [fill, get_of_agrees allowed.1, get_of_agrees allowed.2]

/-- Under no description does a property that cannot be configured change its kind, and of what a
description may put into it the functions and a read-only value stay. -/
theorem change_kind_fixed {kind : PropertyKind} (fixed : p.configurable = false)
    (changed : patch.changeKind? p = some kind) :
    kind = p.kind ∧ p.kind.Lasts (patch.fill p.kind) := by
  obtain ⟨current, enumerable, configurable⟩ := p
  cases fixed
  by_cases generic : patch.isGeneric
  · simp only [changeKind?, generic, if_true, Option.some.injEq] at changed
    exact ⟨changed.symm, by rw [fill_generic generic]; exact kind_lasts_refl _⟩
  · cases current with
    | data value writable =>
      cases writable with
      | true =>
        simp [changeKind?, generic, Property.isData] at changed
        exact ⟨changed.2.symm, .writable ..⟩
      | false =>
        simp [changeKind?, generic, Property.isData] at changed
        exact ⟨changed.2.2.symm, fill_read_only (by simpa using changed.2.1)⟩
    | accessor get set =>
      simp [changeKind?, generic, Property.isData] at changed
      obtain ⟨_, allowed, same⟩ := changed
      refine ⟨same.symm, ?_⟩
      rw [fill_accessor (by simpa using allowed)]
      exact kind_lasts_refl _

/-- What a description that is accepted makes of a property that cannot be configured: the flags stay,
and the mentioned parts are put in. -/
theorem update_fixed (fixed : p.configurable = false) (updated : patch.update? p = some q) :
    q = ⟨patch.fill p.kind, p.enumerable, false⟩ ∧ p.kind.Lasts (patch.fill p.kind) := by
  unfold update? at updated
  split at updated
  · rename_i allowed
    obtain ⟨kind, changed, rfl⟩ := Option.map_eq_some_iff.1 updated
    simp only [flagsAllowed, fixed, Bool.false_or, Bool.and_eq_true, agrees] at allowed
    obtain ⟨configurable, enumerable⟩ := allowed
    obtain ⟨rfl, lasts⟩ := change_kind_fixed fixed changed
    refine ⟨?_, lasts⟩
    congr 1
    · exact get_of_agrees enumerable
    · cases given : patch.configurable with
      | none => exact fixed
      | some c => simpa [given] using configurable
  · cases updated

theorem update_lasts (fixed : p.configurable = false) (updated : patch.update? p = some q) :
    p.Lasts q := by
  obtain ⟨rfl, kind⟩ := update_fixed fixed updated
  exact ⟨rfl, rfl, kind⟩

/-- What a description without anything new says of a value. -/
theorem data_of_unchanged {value : Value} {writable enumerable configurable : Bool}
    (unchanged : patch.isEmpty || patch.matchesProperty ⟨.data value writable, enumerable, configurable⟩) :
    patch.value.getD value = value ∧ patch.writable.getD writable = writable := by
  rcases Bool.or_eq_true_iff.1 unchanged with empty | agreed
  · simp only [isEmpty, isGeneric, mentionsData, Bool.and_eq_true, Bool.not_eq_true',
      Bool.or_eq_false_iff, Option.isSome_eq_false_iff, Option.isNone_iff_eq_none] at empty
    obtain ⟨⟨⟨_, noValue, noFlag⟩, _⟩, _⟩ := empty
    simp [noValue, noFlag]
  · simp only [matchesProperty, Bool.and_eq_true] at agreed
    obtain ⟨_, ⟨_, sameFlag⟩, sameValue⟩ := agreed
    refine ⟨?_, get_of_agrees sameFlag⟩
    cases given : patch.value with
    | none => rfl
    | some v => simpa [given, agrees, Value.same_value_iff] using sameValue

end PropertyPatch

namespace Object

/-- What an object keeps of what it was: its properties that cannot be configured, and that nothing is
added to it when it cannot be extended. -/
structure Keeps (before after : Object) : Prop where
  fixed : ∀ key p, before.getOwn? key = some p → p.configurable = false →
    ∃ q, after.getOwn? key = some q ∧ p.Lasts q
  closed : before.extensible = false → after.extensible = false
  missing : before.extensible = false → ∀ key, before.getOwn? key = none → after.getOwn? key = none

/-- The length of an array is a number, as that of every array is which the engine makes. -/
def LengthIsNumber (o : Object) : Prop :=
  o.isArray → ∃ n writable enumerable, o.HasLength n writable enumerable

variable {o changed : Object} {key : String} {p q : Property} {patch : PropertyPatch}

theorem keeps_refl (o : Object) : o.Keeps o :=
  ⟨fun _ p found fixed => ⟨p, found, property_lasts_refl fixed⟩, id, fun _ _ => id⟩

theorem keeps_trans {first second third : Object} (early : first.Keeps second)
    (late : second.Keeps third) : first.Keeps third where
  fixed key p found fixed := by
    obtain ⟨q, there, lasts⟩ := early.fixed key p found fixed
    obtain ⟨r, still, lastsOn⟩ := late.fixed key q there lasts.configurable
    exact ⟨r, still, property_lasts_trans lasts lastsOn⟩
  closed shut := late.closed (early.closed shut)
  missing shut key absent := late.missing (early.closed shut) key (early.missing shut key absent)

/-- Setting a property keeps what there is to keep if the property is new in an object that can be
extended, or takes the place of one that lasts in it. -/
theorem keeps_set (new : o.getOwn? key = none → o.extensible)
    (lasts : ∀ q, o.getOwn? key = some q → q.configurable = false → q.Lasts p) :
    o.Keeps (o.set key p) where
  fixed other q found fixed := by
    rw [get_own_set]
    by_cases same : key = other
    · subst same
      exact ⟨p, by simp, lasts q found fixed⟩
    · exact ⟨q, by simp [same, found], property_lasts_refl fixed⟩
  closed := id
  missing shut other absent := by
    rw [get_own_set]
    by_cases same : key = other
    · subst same
      exact absurd (new absent) (by simp [shut])
    · simp [same, absent]

theorem keeps_define_ordinary (o : Object) (key : String) (patch : PropertyPatch) :
    o.Keeps (o.defineOrdinary key patch).2 := by
  unfold defineOrdinary
  cases found : o.getOwn? key with
  | none =>
    dsimp only
    split
    · rename_i extensible
      exact keeps_set (fun _ => extensible) (fun q there => by rw [found] at there; cases there)
    · exact keeps_refl o
  | some current =>
    dsimp only
    split
    · exact keeps_refl o
    · split
      · rename_i updated accepted
        refine keeps_set (fun absent => by rw [found] at absent; cases absent) ?_
        intro q there fixed
        obtain rfl : current = q := Option.some.inj (found.symm.trans there)
        exact PropertyPatch.update_lasts fixed accepted
      · exact keeps_refl o

theorem keeps_delete (o : Object) (key : String) : o.Keeps (o.delete key).2 := by
  unfold delete
  cases found : o.getOwn? key with
  | none => exact keeps_refl o
  | some p =>
    dsimp only
    split
    · rename_i configurable
      have others : ∀ other, key ≠ other →
          ({ o with properties := o.properties.erase key } : Object).getOwn? other = o.getOwn? other :=
        fun other distinct => get_own_erase_of_ne o distinct
      refine ⟨fun other q there fixed => ⟨q, ?_, property_lasts_refl fixed⟩, id, ?_⟩
      · rw [others other ?_, there]
        rintro rfl
        rw [found] at there
        cases there
        rw [configurable] at fixed
        cases fixed
      · intro _ other absent
        rw [others other ?_, absent]
        rintro rfl
        rw [found] at absent
        cases absent
    · exact keeps_refl o

/-! ## Arrays -/

variable {n : Number} {writable enumerable : Bool}

/-- The length property after a definition that was accepted, whatever the length was. -/
theorem find_length_defined {value : Value}
    (found : o.properties.find? lengthKey = some ⟨.data value writable, enumerable, false⟩)
    (accepted : (o.defineOrdinary lengthKey patch).1) :
    (o.defineOrdinary lengthKey patch).2.properties.find? lengthKey =
      some ⟨.data (patch.value.getD value) (patch.writable.getD writable), enumerable, false⟩ := by
  revert accepted
  unfold defineOrdinary
  rw [get_own_of_find found]
  dsimp only
  split
  · rename_i unchanged
    intro _
    obtain ⟨same, flag⟩ := PropertyPatch.data_of_unchanged unchanged
    rw [same, flag]
    exact found
  · split
    · rename_i updated update
      intro _
      obtain ⟨rfl, -⟩ := PropertyPatch.update_fixed rfl update
      rw [find_set, if_pos rfl]
      rfl
    · intro refused
      cases refused

/-- The length after a definition of a number that was accepted. -/
theorem has_length_define (has : o.HasLength n writable enumerable)
    (numeric : ∀ v, patch.value = some v → ∃ m, v = .number m)
    (accepted : (o.defineOrdinary lengthKey patch).1) :
    ∃ m, (o.defineOrdinary lengthKey patch).2.HasLength m (patch.writable.getD writable) enumerable ∧
      Value.number m = patch.value.getD (.number n) := by
  have found := find_length_defined has accepted
  cases given : patch.value with
  | none => exact ⟨n, by rw [HasLength, found, given]; rfl, rfl⟩
  | some v =>
    obtain ⟨m, rfl⟩ := numeric v given
    exact ⟨m, by rw [HasLength, found, given]; rfl, rfl⟩

theorem keeps_set_array_length (has : o.HasLength n true enumerable) (length : Nat) :
    o.Keeps (o.setArrayLength length) := by
  rw [set_array_length_of_has has]
  have found := get_own_of_find has
  refine keeps_set (fun absent => by rw [found] at absent; cases absent) fun q there _ => ?_
  obtain rfl := Option.some.inj (found.symm.trans there)
  exact ⟨rfl, rfl, .writable ..⟩

theorem keeps_freeze_array_length (has : o.HasLength n writable enumerable) :
    o.Keeps o.freezeArrayLength := by
  rw [freeze_array_length_of_has has]
  have found := get_own_of_find has
  refine keeps_set (fun absent => by rw [found] at absent; cases absent) fun q there _ => ?_
  obtain rfl := Option.some.inj (found.symm.trans there)
  refine ⟨rfl, rfl, ?_⟩
  cases writable with
  | true => exact .writable ..
  | false => exact .readOnly _ _ (Value.same_value_iff.2 rfl)

/-- While elements are dropped the length may still be replaced, which happens if one of them stays. -/
theorem keeps_drop_elements {doomed : List (Nat × String)} (has : o.HasLength n true enumerable)
    (elements : ∀ entry ∈ doomed, entry.2 ≠ lengthKey) :
    o.Keeps (o.dropElements doomed).2 ∧ ∃ m, (o.dropElements doomed).2.HasLength m true enumerable := by
  induction doomed generalizing o with
  | nil => exact ⟨keeps_refl o, n, has⟩
  | cons entry rest ih =>
    obtain ⟨index, key⟩ := entry
    have kept := keeps_delete o key
    have still := has_length_of_find
      (find_delete_of_ne o (elements _ List.mem_cons_self)) has
    unfold dropElements
    split
    · rename_i smaller removed
      rw [removed] at kept still
      obtain ⟨keptOn, hasOn⟩ := ih still fun entry later => elements entry (List.mem_cons_of_mem _ later)
      exact ⟨keeps_trans kept keptOn, hasOn⟩
    · rename_i same refused
      rw [refused] at kept still
      refine ⟨keeps_trans kept (keeps_set_array_length still _), .ofNat (index + 1), ?_⟩
      rw [set_array_length_of_has still]
      exact has_length_set ..

theorem keeps_element_defined {index : Nat} (defined : ElementDefined o index key patch changed)
    (has : o.HasLength n writable enumerable) (isIndex : arrayIndex? key = some index) :
    o.Keeps changed ∧ ∃ m, changed.HasLength m writable enumerable := by
  have kept := keeps_define_ordinary o key patch
  have still := has_length_of_find
    (find_define_ordinary_of_ne o patch (ne_length_of_index isIndex)) has
  cases defined with
  | refused => exact ⟨keeps_refl o, n, has⟩
  | covered => exact ⟨kept, n, still⟩
  | beyond outside free =>
    rw [array_length_of_has has] at free
    obtain rfl : writable = true := free
    refine ⟨keeps_trans kept (keeps_set_array_length still _), .ofNat (index + 1), ?_⟩
    rw [set_array_length_of_has still]
    exact has_length_set ..

/-- On the way to a smaller length only elements are lost that may be removed. -/
theorem keeps_cut {shrunk : Object} (isCut : Cut o patch shrunk) (has : o.HasLength n writable enumerable)
    (numeric : ∀ v, patch.value = some v → ∃ m, v = .number m) :
    o.Keeps shrunk ∧ ∃ m, shrunk.HasLength m true enumerable := by
  cases isCut with
  | intro given less free stages accepted =>
    rw [array_length_of_has has] at free
    obtain rfl : writable = true := free
    obtain ⟨m, still, -⟩ := has_length_define has (stages.value ▸ numeric) accepted
    rw [stages.writable] at still
    obtain ⟨kept, hasOn⟩ := keeps_drop_elements still
      fun entry member => ne_length_of_index (mem_indices_from.1 member).2.1
    exact ⟨keeps_trans (keeps_define_ordinary ..) kept, hasOn⟩

theorem keeps_length_defined (defined : LengthDefined o patch changed)
    (has : o.HasLength n writable enumerable) (checked : patch.LengthChecked) :
    o.Keeps changed ∧ ∃ m flag, changed.HasLength m flag enumerable := by
  have numeric : ∀ v, patch.value = some v → ∃ m, v = .number m := by
    intro v given
    obtain ⟨k, -, rfl⟩ := checked v given
    exact ⟨_, rfl⟩
  cases defined with
  | refused => exact ⟨keeps_refl o, n, writable, has⟩
  | ordinary =>
    refine ⟨keeps_define_ordinary .., ?_⟩
    cases outcome : (o.defineOrdinary lengthKey patch).1 with
    | true =>
      obtain ⟨m, still, -⟩ := has_length_define has numeric outcome
      exact ⟨m, _, still⟩
    | false =>
      rw [define_ordinary_refused outcome]
      exact ⟨n, writable, has⟩
  | cut isCut =>
    obtain ⟨kept, m, still⟩ := keeps_cut isCut has numeric
    exact ⟨kept, m, true, still⟩
  | frozen isCut =>
    obtain ⟨kept, m, still⟩ := keeps_cut isCut has numeric
    refine ⟨keeps_trans kept (keeps_freeze_array_length still), m, false, ?_⟩
    rw [freeze_array_length_of_has still]
    exact has_length_set ..

theorem length_is_number_of_has (has : o.HasLength n writable enumerable) : o.LengthIsNumber :=
  fun _ => ⟨n, writable, enumerable, has⟩

/-- The length of an array is untouched by what happens to its other properties. -/
theorem length_is_number_of_find (kind : changed.kind = o.kind)
    (same : changed.properties.find? lengthKey = o.properties.find? lengthKey)
    (numeric : o.LengthIsNumber) : changed.LengthIsNumber := by
  intro array
  have was : o.isArray := by simpa [isArray, kind] using array
  obtain ⟨n, writable, enumerable, has⟩ := numeric was
  exact ⟨n, writable, enumerable, has_length_of_find same has⟩

theorem keeps_define (numeric : o.LengthIsNumber)
    (checked : o.isArray → key = lengthKey → patch.LengthChecked) :
    o.Keeps (o.define key patch).2 ∧ (o.define key patch).2.LengthIsNumber := by
  unfold define
  cases array : o.isArray with
  | false =>
    refine ⟨keeps_define_ordinary .., fun still => ?_⟩
    have kind := define_ordinary_kind o key patch
    rw [if_neg (by decide), isArray, kind] at still
    rw [isArray] at array
    rw [still] at array
    cases array
  | true =>
    obtain ⟨n, writable, enumerable, has⟩ := numeric array
    rw [if_pos rfl]
    by_cases isLength : key = lengthKey
    · subst isLength
      rw [if_pos (by simp)]
      obtain ⟨kept, m, flag, still⟩ := keeps_length_defined (define_length_outcome o patch) has (checked array rfl)
      exact ⟨kept, length_is_number_of_has still⟩
    · rw [if_neg (by simpa using isLength)]
      cases isIndex : arrayIndex? key with
      | some index =>
        obtain ⟨kept, m, still⟩ := keeps_element_defined (define_element_outcome ..) has isIndex
        exact ⟨kept, length_is_number_of_has still⟩
      | none =>
        exact ⟨keeps_define_ordinary .., length_is_number_of_find (define_ordinary_kind ..)
          (find_define_ordinary_of_ne o patch isLength) numeric⟩

/-- The length of an array cannot be removed. -/
theorem length_is_number_delete (numeric : o.LengthIsNumber) (key : String) :
    (o.delete key).2.LengthIsNumber := by
  intro still
  have array : o.isArray := by simpa [isArray, delete_kind] using still
  obtain ⟨n, writable, enumerable, has⟩ := numeric array
  by_cases isLength : key = lengthKey
  · subst isLength
    refine ⟨n, writable, enumerable, ?_⟩
    unfold delete
    rw [get_own_of_find has]
    exact has
  · exact ⟨n, writable, enumerable, has_length_of_find (find_delete_of_ne o isLength) has⟩

theorem keeps_change (change : Change o changed) (numeric : o.LengthIsNumber) :
    o.Keeps changed ∧ changed.LengthIsNumber := by
  cases change with
  | stay => exact ⟨keeps_refl o, numeric⟩
  | define key patch checked => exact keeps_define numeric checked
  | delete key => exact ⟨keeps_delete o key, length_is_number_delete numeric key⟩
  | preventExtensions =>
    exact ⟨⟨fun _ p found fixed => ⟨p, found, property_lasts_refl fixed⟩, fun _ => rfl,
      fun _ _ absent => absent⟩, numeric⟩

end Object
end ScriptEngine
