import ScriptEngine.Proofs.Object.ArrayLength
import ScriptEngine.Proofs.Object.KeyOrder

/-!
Values written as data. The property holds the value afterwards and is otherwise as it was, or one like any
that an assignment makes; nothing else changes but the length of an array that grows.
-/

namespace ScriptEngine.Object

variable {o after : Object} {key : String} {v : Value}

/-- A value may be written under a name: an own property holds one that may be replaced, or there is none and
one may be added. -/
def AcceptsWrite (o : Object) (key : String) : Prop :=
  match o.getOwn? key with
  | some p => ∃ old, p.kind = .data old true
  | none => o.extensible

/-- The length of an array may change if the array has to grow for an element. -/
def HasRoom (o : Object) (key : String) : Prop :=
  o.isArray → ∀ index, arrayIndex? key = some index → o.arrayLength.1 ≤ index → o.arrayLength.2 = true

/-- The property that holds a value once that was written. -/
def written (o : Object) (key : String) (v : Value) : Property :=
  match o.getOwn? key with
  | some p => { p with kind := .data v true }
  | none => .data v .all

/-- The length of an array with one more property, whose name may be an index. -/
def lengthWith (n : Nat) (key : String) : Nat :=
  match arrayIndex? key with
  | some index => max n (index + 1)
  | none => n

/-- What an object is after a value was written under a name. -/
structure Written (o : Object) (key : String) (v : Value) (after : Object) : Prop where
  kind : after.kind = o.kind
  proto : after.proto = o.proto
  extensible : after.extensible = o.extensible
  value : after.getOwn? key = some (o.written key v)
  others : ∀ other, other ≠ key → (o.isArray → other ≠ lengthKey) → after.getOwn? other = o.getOwn? other
  length : o.isArray → ∃ n ≤ maxWord, ∃ writable, o.HasLength (.ofNat n) writable false ∧
    after.HasLength (.ofNat (lengthWith n key)) writable false
  keys : after.ownKeys = o.ownKeys ∨ key ∉ o.ownKeys ∧ after.ownKeys = o.ownKeys ++ [key]

/-- A value that is read-only is the only one that an object can own without holding it. -/
theorem find_of_writable {p : Property} {old : Value} (own : o.getOwn? key = some p) (kind : p.kind = .data old true) :
    o.properties.find? key = some p := by
  unfold getOwn? at own
  split at own
  · rename_i found
    exact found.trans own
  · split at own
    · obtain ⟨_, rfl⟩ := unit_read_only own
      cases kind
    · cases own

/-- Where a value may be written it is put into the property. -/
theorem write_ordinary (accepts : o.AcceptsWrite key) (v : Value) :
    o.defineOrdinary key (o.writing key v) = (true, o.set key (o.written key v)) := by
  unfold AcceptsWrite at accepts
  cases own : o.getOwn? key with
  | none =>
    rw [own] at accepts
    have extensible : o.extensible = true := accepts
    unfold defineOrdinary written writing
    rw [own]
    simp only [Option.isSome_none, Bool.false_eq_true, if_false, extensible, if_true]
    rfl
  | some p =>
    rw [own] at accepts
    obtain ⟨old, kind⟩ := accepts
    have found := find_of_writable own kind
    obtain ⟨_, enumerable, configurable⟩ := p
    subst kind
    unfold defineOrdinary written writing
    rw [own, Option.isSome_some, if_pos rfl]
    dsimp only
    split
    · rename_i unchanged
      -- The same value is there already, and it is the property that is not touched.
      obtain ⟨same, _⟩ := PropertyPatch.data_of_unchanged unchanged
      obtain rfl : v = old := same
      rw [set_same found]
    · rw [PropertyPatch.update_of_data rfl]
      simp [PropertyPatch.ofValue, PropertyPatch.flagsAllowed, PropertyPatch.valueAllowed, PropertyPatch.valued,
        PropertyPatch.agrees]

theorem write_refused (array : o.isArray) {index : Nat} (isIndex : arrayIndex? key = some index)
    (outside : o.arrayLength.1 ≤ index) (fixed : o.arrayLength.2 = false) (v : Value) : o.write key v = (false, o) := by
  have other := ne_length_of_index isIndex
  simp [write, define, array, other, isIndex, defineElement, outside, fixed]

/-- What comes of writing where that is accepted: the property is set, and then the length if it has to be. -/
theorem write_accepted (accepts : o.AcceptsWrite key) (room : o.HasRoom key) (other : o.isArray → key ≠ lengthKey)
    (v : Value) :
    o.write key v = (true, o.set key (o.written key v)) ∧
        (∀ index, o.isArray → arrayIndex? key = some index → index < o.arrayLength.1) ∨
      ∃ index, o.isArray ∧ arrayIndex? key = some index ∧ o.arrayLength.1 ≤ index ∧
        o.write key v = (true, (o.set key (o.written key v)).setArrayLength (index + 1)) := by
  have ordinary := write_ordinary accepts v
  unfold write define
  generalize o.writing key v = patch at ordinary
  split
  · rename_i array
    rw [if_neg (by simpa using other array)]
    split
    · rename_i index isIndex
      have free (outside : o.arrayLength.1 ≤ index) := room array index isIndex outside
      unfold defineElement
      dsimp only
      rw [ordinary]
      rcases Nat.lt_or_ge index o.arrayLength.1 with inside | outside
      · left
        have notOutside := Nat.not_le.2 inside
        rw [if_neg (by simp [notOutside])]
        refine ⟨by simp [notOutside], fun found _ same => ?_⟩
        cases isIndex.symm.trans same
        exact inside
      · refine .inr ⟨index, array, isIndex, outside, ?_⟩
        rw [if_neg (by simp [free outside])]
        simp [outside]
    · rename_i noIndex
      refine .inl ⟨ordinary, fun index _ isIndex => ?_⟩
      cases noIndex.symm.trans isIndex
  · rename_i plain
    exact .inl ⟨ordinary, fun index array => absurd array plain⟩

/-- A value that is accepted is written, and nothing else is changed. -/
theorem written_of_accepted (formed : o.isArray → o.WellFormedArray maxWord) (accepts : o.AcceptsWrite key)
    (room : o.HasRoom key) (other : o.isArray → key ≠ lengthKey) (v : Value) :
    (o.write key v).1 = true ∧ o.Written key v (o.write key v).2 := by
  have keys : (o.write key v).2.ownKeys = o.ownKeys ∨
      key ∉ o.ownKeys ∧ (o.write key v).2.ownKeys = o.ownKeys ++ [key] :=
    own_keys_define_uncut (fun array isLength => absurd isLength (other array)) _
  rcases write_accepted accepts room other v with ⟨ends, inside⟩ | ⟨index, array, isIndex, outside, ends⟩
  · rw [ends] at keys ⊢
    refine ⟨rfl, rfl, rfl, rfl, by simp [get_own_set], ?_, fun array => ?_, keys⟩
    · intro name distinct _
      rw [get_own_set, if_neg (Ne.symm distinct)]
    · obtain ⟨_, n, within, ⟨writable, has⟩, _⟩ := formed array
      refine ⟨n, within, writable, has, ?_⟩
      have same : lengthWith n key = n := by
        unfold lengthWith
        split
        · rename_i index isIndex
          have below := inside index array isIndex
          rw [array_length_of_nat has] at below
          exact Nat.max_eq_left (Nat.lt_of_lt_of_le below (Nat.min_le_left ..))
        · rfl
      rw [same]
      exact has_length_of_find (by rw [find_set, if_neg (other array)]) has
  · obtain ⟨_, n, within, ⟨writable, has⟩, _⟩ := formed array
    have still : (o.set key (o.written key v)).HasLength (.ofNat n) writable false :=
      has_length_of_find (by rw [find_set, if_neg (other array)]) has
    have grows : lengthWith n key = index + 1 := by
      rw [array_length_of_nat has] at outside
      have small : Nat.min n maxWord = n := Nat.min_eq_left within
      simp only [lengthWith, isIndex]
      omega
    rw [ends, set_array_length_of_has still] at keys ⊢
    refine ⟨rfl, rfl, rfl, rfl, ?_, ?_, fun _ => ⟨n, within, writable, has, ?_⟩, keys⟩
    · rw [get_own_set, if_neg (Ne.symm (other array)), get_own_set, if_pos rfl]
    · intro name distinct notLength
      rw [get_own_set, if_neg (Ne.symm (notLength array)), get_own_set, if_neg (Ne.symm distinct)]
    · rw [grows]
      exact has_length_set ..

end ScriptEngine.Object
