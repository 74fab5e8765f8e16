import Mathlib.Logic.Relation
import ScriptEngine.Object.Elements

/-!
What the checked operations make of an object: definition of a property where the length of an array
is checked beforehand, removal of a property, and the end of its extension. Everything that a script
does to an object that it did not just make is a sequence of such changes, so what holds of one change
and carries over from change to change holds of every run.
-/

namespace ScriptEngine

/-- A value that a description mentions is a natural number up to a limit. -/
def PropertyPatch.LengthWithin (p : PropertyPatch) (limit : Nat) : Prop :=
  ∀ v, p.value = some v → ∃ n ≤ limit, v = .ofNat n

/-- A length that a description mentions is a natural number that an array can have as its length. -/
abbrev PropertyPatch.LengthChecked (p : PropertyPatch) : Prop :=
  p.LengthWithin Object.maxWord

/-- A description under which an array shrinks on behalf of another one: the same length is asked for, and
it may still be replaced, whatever is wanted in the end. -/
structure PropertyPatch.Stages (staged patch : PropertyPatch) : Prop where
  value : staged.value = patch.value
  writable : staged.writable.getD true = true

namespace Object

/-- What one checked operation makes of an object. An operation that is refused may still have changed
the object: an array that cannot be cut to a length is cut as far as it goes. -/
inductive Change : Object → Object → Prop
  | stay (o : Object) : Change o o
  | define (o : Object) (key : String) (patch : PropertyPatch)
      (checked : o.isArray → key = lengthKey → patch.LengthChecked) : Change o (o.define key patch).2
  | delete (o : Object) (key : String) : Change o (o.delete key).2
  | preventExtensions (o : Object) : Change o o.preventExtensions

/-- What any number of checked operations make of an object. -/
abbrev Changes : Object → Object → Prop := Relation.ReflTransGen Change

variable {o changed : Object} {key other : String} {p : Property} {patch : PropertyPatch}

/-! ## Own properties after a change of one -/

@[simp] theorem set_kind (o : Object) (key : String) (p : Property) : (o.set key p).kind = o.kind := rfl

@[simp] theorem set_extensible (o : Object) (key : String) (p : Property) :
    (o.set key p).extensible = o.extensible := rfl

@[simp] theorem find_set (o : Object) (key other : String) (p : Property) :
    (o.set key p).properties.find? other = if key = other then some p else o.properties.find? other :=
  OrderedMap.find?_insert o.properties key other p

theorem get_own_set (o : Object) (key other : String) (p : Property) :
    (o.set key p).getOwn? other = if key = other then some p else o.getOwn? other := by
  by_cases same : key = other
  · simp [getOwn?, same]
  · simp [getOwn?, same]

theorem get_own_of_find (found : o.properties.find? key = some p) : o.getOwn? key = some p := by
  simp [getOwn?, found]

/-- Apart from a wrapped string, all of an object's own properties are those that it holds. -/
theorem get_own_array (array : o.isArray) (key : String) : o.getOwn? key = o.properties.find? key := by
  unfold getOwn?
  cases found : o.properties.find? key with
  | some p => rfl
  | none =>
    cases kind : o.kind with
    | string text => simp [isArray, kind] at array
    | _ => rfl

theorem get_own_erase_of_ne (o : Object) (distinct : key ≠ other) :
    ({ o with properties := o.properties.erase key } : Object).getOwn? other = o.getOwn? other := by
  simp [getOwn?, distinct]

/-! ## One property defined -/

theorem define_ordinary_refused (refused : (o.defineOrdinary key patch).1 = false) :
    (o.defineOrdinary key patch).2 = o := by
  unfold defineOrdinary at refused ⊢
  revert refused
  repeat' split
  all_goals simp

theorem find_define_ordinary_of_ne (o : Object) (patch : PropertyPatch) (distinct : key ≠ other) :
    (o.defineOrdinary key patch).2.properties.find? other = o.properties.find? other := by
  unfold defineOrdinary
  repeat' split
  all_goals simp [distinct]

theorem find_delete_of_ne (o : Object) (distinct : key ≠ other) :
    (o.delete key).2.properties.find? other = o.properties.find? other := by
  unfold delete
  repeat' split
  all_goals simp [distinct]

/-! ## The length property -/

/-- An array index is not the name of the length. -/
theorem ne_length_of_index {index : Nat} (isIndex : arrayIndex? key = some index) :
    key ≠ lengthKey := by
  rintro rfl
  have noIndex : arrayIndex? lengthKey = none := by decide
  rw [noIndex] at isIndex
  cases isIndex

/-- The length property of an array as long as nothing but checked operations has changed it: a number
that can at most become read-only. -/
def HasLength (o : Object) (n : Number) (writable enumerable : Bool) : Prop :=
  o.properties.find? lengthKey = some ⟨.data (.number n) writable, enumerable, false⟩

variable {n : Number} {writable enumerable : Bool}

theorem array_length_of_has (has : o.HasLength n writable enumerable) :
    o.arrayLength = (n.clampTo maxWord, writable) := by
  unfold arrayLength
  rw [has]

theorem set_array_length_of_has (has : o.HasLength n writable enumerable) (length : Nat) :
    o.setArrayLength length =
      o.set lengthKey ⟨.data (.ofNat length) writable, enumerable, false⟩ := by
  unfold setArrayLength modifyLength
  rw [has]

theorem freeze_array_length_of_has (has : o.HasLength n writable enumerable) :
    o.freezeArrayLength = o.set lengthKey ⟨.data (.number n) false, enumerable, false⟩ := by
  unfold freezeArrayLength modifyLength
  rw [has]

theorem has_length_set (o : Object) (n : Number) (writable enumerable : Bool) :
    (o.set lengthKey ⟨.data (.number n) writable, enumerable, false⟩).HasLength n writable
      enumerable := by
  simp [HasLength]

theorem has_length_of_find
    (same : changed.properties.find? lengthKey = o.properties.find? lengthKey)
    (has : o.HasLength n writable enumerable) : changed.HasLength n writable enumerable :=
  same.trans has

/-- The elements that a length does not cover are at indices from it on. -/
theorem mem_indices_from {length index : Nat} :
    (index, key) ∈ o.indicesFrom length ↔
      key ∈ o.properties.keys ∧ arrayIndex? key = some index ∧ length ≤ index := by
  simp only [indicesFrom, List.mem_mergeSort, List.mem_filter, List.mem_filterMap,
    Option.map_eq_some_iff, Prod.mk.injEq, decide_eq_true_eq]
  constructor
  · rintro ⟨⟨name, there, i, isIndex, rfl, rfl⟩, covered⟩
    exact ⟨there, isIndex, covered⟩
  · rintro ⟨there, isIndex, covered⟩
    exact ⟨⟨key, there, index, isIndex, rfl, rfl⟩, covered⟩

/-! ## What definitions of arrays come to -/

/-- What an array is after the definition of an element. One that is not covered by the length takes the
length with it. -/
inductive ElementDefined (o : Object) (index : Nat) (key : String) (patch : PropertyPatch) : Object → Prop
  | refused : ElementDefined o index key patch o
  | covered (inside : index < o.arrayLength.1) :
    ElementDefined o index key patch (o.defineOrdinary key patch).2
  | beyond (outside : o.arrayLength.1 ≤ index) (free : o.arrayLength.2 = true) :
    ElementDefined o index key patch ((o.defineOrdinary key patch).2.setArrayLength (index + 1))

theorem define_element_outcome (o : Object) (index : Nat) (key : String) (patch : PropertyPatch) :
    ElementDefined o index key patch (o.defineElement index key patch).2 := by
  unfold defineElement
  dsimp only
  split
  · exact .refused
  · rename_i allowed
    cases outcome : o.defineOrdinary key patch with
    | mk accepted defined =>
      have unchanged := @define_ordinary_refused o key patch
      rw [outcome] at unchanged
      cases accepted with
      | false =>
        rw [unchanged rfl]
        exact .refused
      | true =>
        have after : defined = (o.defineOrdinary key patch).2 := by rw [outcome]
        subst after
        dsimp only
        split
        · rename_i outside
          exact .beyond outside (by simpa [outside] using allowed)
        · rename_i inside
          exact .covered (Nat.lt_of_not_le inside)

/-- An array shrinks under the description itself, unless that makes the length read-only. -/
theorem stages_of_patch (patch : PropertyPatch) :
    (if patch.writable == some false then { patch with writable := some true } else patch).Stages
      patch := by
  split
  · exact ⟨rfl, rfl⟩
  · rename_i unfrozen
    refine ⟨rfl, ?_⟩
    cases given : patch.writable with
    | none => rfl
    | some w => cases w <;> simp [given] at unfrozen ⊢

/-- What an array is after it was cut to a smaller length, as far as its elements allow it. -/
inductive Cut (o : Object) (patch : PropertyPatch) : Object → Prop
  | intro {requested : Number} {staged : PropertyPatch} (given : patch.value = some (.number requested))
    (less : requested.clampTo maxWord < o.arrayLength.1) (free : o.arrayLength.2 = true)
    (stages : staged.Stages patch) (accepted : (o.defineOrdinary lengthKey staged).1 = true) :
    Cut o patch ((o.defineOrdinary lengthKey staged).2.dropElements
      ((o.defineOrdinary lengthKey staged).2.indicesFrom (requested.clampTo maxWord))).2

/-- What an array is after a definition of its length. -/
inductive LengthDefined (o : Object) (patch : PropertyPatch) : Object → Prop
  | refused : LengthDefined o patch o
  | ordinary
    (covers : ∀ n, patch.value = some (.number n) → o.arrayLength.1 ≤ n.clampTo maxWord) :
    LengthDefined o patch (o.defineOrdinary lengthKey patch).2
  | cut {shrunk : Object} (isCut : Cut o patch shrunk) : LengthDefined o patch shrunk
  | frozen {shrunk : Object} (isCut : Cut o patch shrunk) :
    LengthDefined o patch shrunk.freezeArrayLength

theorem define_length_outcome (o : Object) (patch : PropertyPatch) :
    LengthDefined o patch (o.defineLength patch).2 := by
  unfold defineLength
  dsimp only
  split
  · rename_i requested given
    split
    · rename_i covers
      refine .ordinary fun n same => ?_
      rw [given] at same
      cases same
      exact covers
    · rename_i shrinks
      split
      · exact .refused
      · rename_i free
        generalize isStaged : (if patch.writable == some false then
          { patch with writable := some true } else patch) = staged
        -- Only the accepted definition lets elements be removed; a refused one left the array as it was.
        have stages : staged.Stages patch := isStaged ▸ stages_of_patch patch
        cases outcome : o.defineOrdinary lengthKey staged with
        | mk accepted defined =>
          have unchanged := @define_ordinary_refused o lengthKey staged
          rw [outcome] at unchanged
          cases accepted with
          | false =>
            rw [unchanged rfl]
            exact .refused
          | true =>
            have accepted : (o.defineOrdinary lengthKey staged).1 = true := by rw [outcome]
            have isCut := Cut.intro given (Nat.lt_of_not_le shrinks) (by simpa using free) stages accepted
            rw [outcome] at isCut
            dsimp only
            split
            · exact .frozen isCut
            · exact .cut isCut
  · rename_i noNumber
    exact .ordinary fun n given => absurd given (noNumber n)

/-! ## What operations leave alone -/

theorem define_ordinary_kind (o : Object) (key : String) (patch : PropertyPatch) :
    (o.defineOrdinary key patch).2.kind = o.kind := by
  unfold defineOrdinary
  repeat' split
  all_goals rfl

theorem delete_kind (o : Object) (key : String) : (o.delete key).2.kind = o.kind := by
  unfold delete
  repeat' split
  all_goals rfl

theorem modify_length_kind (o : Object) (f : Value → Bool → PropertyKind) :
    (o.modifyLength f).kind = o.kind := by
  unfold modifyLength
  split <;> rfl

theorem drop_elements_kind (o : Object) (doomed : List (Nat × String)) :
    (o.dropElements doomed).2.kind = o.kind := by
  induction doomed generalizing o with
  | nil => rfl
  | cons entry rest ih =>
    obtain ⟨index, key⟩ := entry
    have kept := delete_kind o key
    unfold dropElements
    split
    · rename_i smaller removed
      rw [removed] at kept
      exact (ih smaller).trans kept
    · rename_i same refused
      rw [refused] at kept
      exact (modify_length_kind ..).trans kept

theorem element_defined_kind {index : Nat} (defined : ElementDefined o index key patch changed) :
    changed.kind = o.kind := by
  cases defined with
  | refused => rfl
  | covered => exact define_ordinary_kind ..
  | beyond => exact (modify_length_kind ..).trans (define_ordinary_kind ..)

theorem length_defined_kind (defined : LengthDefined o patch changed) : changed.kind = o.kind := by
  have cut_kind {shrunk : Object} (isCut : Cut o patch shrunk) : shrunk.kind = o.kind := by
    cases isCut
    exact (drop_elements_kind ..).trans (define_ordinary_kind ..)
  cases defined with
  | refused => rfl
  | ordinary => exact define_ordinary_kind ..
  | cut isCut => exact cut_kind isCut
  | frozen isCut => exact (modify_length_kind ..).trans (cut_kind isCut)

/-- No definition makes an object one of another kind. -/
theorem define_kind (o : Object) (key : String) (patch : PropertyPatch) :
    (o.define key patch).2.kind = o.kind := by
  unfold define
  split
  · split
    · exact length_defined_kind (define_length_outcome o patch)
    · split
      · exact element_defined_kind (define_element_outcome ..)
      · exact define_ordinary_kind ..
  · exact define_ordinary_kind ..

theorem change_kind (change : Change o changed) : changed.kind = o.kind := by
  cases change with
  | stay => rfl
  | define key patch checked => exact define_kind ..
  | delete key => exact delete_kind ..
  | preventExtensions => rfl

theorem changes_kind (changes : Changes o changed) : changed.kind = o.kind := by
  induction changes with
  | refl => rfl
  | tail _ last ih => exact (change_kind last).trans ih

end Object
end ScriptEngine
