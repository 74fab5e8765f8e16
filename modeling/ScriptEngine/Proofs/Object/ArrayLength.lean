import ScriptEngine.Proofs.Number.Natural
import ScriptEngine.Proofs.Object.Permanence

/-!
The length of an array stays above all of its indices. Four operations write the length: a definition of
it, a definition of an element beyond it, the removal of elements that it no longer covers, of which the
first that stays becomes the last of the array, and the one that makes it read-only.
-/

namespace ScriptEngine

/-! ## Indices -/

/-- What is read of a numeral is the number of its digits. -/
theorem digits_of_array_index {value index : Nat} {digits : List Char}
    (read : arrayIndexAfter value digits = some index) : Nat.ofDigitChars 10 digits value = index := by
  induction digits generalizing value with
  | nil => simpa [arrayIndexAfter] using read
  | cons c rest ih =>
    simp only [arrayIndexAfter] at read
    split at read
    · split at read
      · cases read
      · rw [Nat.ofDigitChars_cons]
        exact ih read
    · cases read

theorem array_index_after_lt {value index : Nat} {digits : List Char}
    (read : arrayIndexAfter value digits = some index) (below : digits = [] → value < arrayIndexLimit) :
    index < arrayIndexLimit := by
  induction digits generalizing value with
  | nil =>
    have same : value = index := by simpa [arrayIndexAfter] using read
    exact same ▸ below rfl
  | cons c rest ih =>
    simp only [arrayIndexAfter] at read
    split at read
    · split at read
      · cases read
      · rename_i small
        exact ih read fun _ => Nat.lt_of_not_le small
    · cases read

theorem array_index_lt {key : String} {index : Nat} (isIndex : arrayIndex? key = some index) :
    index < arrayIndexLimit := by
  unfold arrayIndex? at isIndex
  split at isIndex
  · cases isIndex
  · cases isIndex
  · rename_i nonempty _
    exact array_index_after_lt isIndex fun empty => absurd empty nonempty

/-- The name of an index is read as that index, or as none if it is too large. -/
theorem array_index_of_key {index found : Nat} (isIndex : arrayIndex? (indexKey index) = some found) :
    found = index := by
  have digits : Nat.ofDigitChars 10 (indexKey index).toList 0 = index := by
    simp [indexKey, Nat.toList_repr]
  unfold arrayIndex? at isIndex
  split at isIndex
  · cases isIndex
  · cases isIndex
  · exact (digits_of_array_index isIndex).symm.trans digits

namespace Object

/-- Every index of an array is below a number. -/
def IndicesBelow (o : Object) (n : Nat) : Prop :=
  ∀ key index, (o.getOwn? key).isSome → arrayIndex? key = some index → index < n

/-- The representation of an array: its length is a natural number up to a limit, loops over keys do not
see it and it cannot be configured, and every index is below it. -/
structure WellFormedArray (limit : Nat) (o : Object) : Prop where
  array : o.isArray
  length : ∃ n ≤ limit, (∃ writable, o.HasLength (.ofNat n) writable false) ∧ o.IndicesBelow n

variable {o changed : Object} {key : String} {patch : PropertyPatch} {limit n m : Nat}
  {writable enumerable : Bool}

theorem indices_below_mono (below : o.IndicesBelow n) (more : n ≤ m) : o.IndicesBelow m :=
  fun key index there isIndex => Nat.lt_of_lt_of_le (below key index there isIndex) more

/-- No array has an index that its length could not be read to be above. -/
theorem indices_below_min (below : o.IndicesBelow n) : o.IndicesBelow (Nat.min n maxWord) :=
  fun key index there isIndex =>
    Nat.lt_min.2 ⟨below key index there isIndex, array_index_lt isIndex⟩

/-- Properties that are no indices are of no account. -/
theorem indices_below_of_find (array : o.isArray) (same : changed.isArray)
    (others : ∀ key index, arrayIndex? key = some index →
      (changed.properties.find? key).isSome → (o.properties.find? key).isSome)
    (below : o.IndicesBelow n) : changed.IndicesBelow n := by
  intro key index there isIndex
  rw [get_own_array same] at there
  refine below key index ?_ isIndex
  rw [get_own_array array]
  exact others key index isIndex there

theorem is_array_of_kind (same : changed.kind = o.kind) (array : o.isArray) : changed.isArray := by
  simpa [isArray, same] using array

theorem indices_below_set_length (array : o.isArray) (below : o.IndicesBelow n) (p : Property) :
    (o.set lengthKey p).IndicesBelow n := by
  refine indices_below_of_find array (is_array_of_kind rfl array) ?_ below
  intro key index isIndex there
  rwa [find_set, if_neg (Ne.symm (ne_length_of_index isIndex))] at there

theorem array_length_of_nat (has : o.HasLength (.ofNat n) writable enumerable) :
    o.arrayLength = (Nat.min n maxWord, writable) := by
  rw [array_length_of_has has, Number.clampTo_ofNat (by decide)]

/-! ## Elements -/

/-- A definition adds at most the index that it defines. -/
theorem indices_below_define_ordinary (array : o.isArray) (below : o.IndicesBelow n)
    (covered : ∀ index, arrayIndex? key = some index → index < n) :
    (o.defineOrdinary key patch).2.IndicesBelow n := by
  have same := is_array_of_kind (define_ordinary_kind o key patch) array
  intro other index there isIndex
  by_cases defined : key = other
  · subst defined
    exact covered index isIndex
  · rw [get_own_array same, find_define_ordinary_of_ne o patch defined, ← get_own_array array] at there
    exact below other index there isIndex

theorem well_formed_define_ordinary (formed : o.WellFormedArray limit) (other : key ≠ lengthKey)
    (noIndex : arrayIndex? key = none) : (o.defineOrdinary key patch).2.WellFormedArray limit := by
  obtain ⟨array, n, within, ⟨writable, has⟩, below⟩ := formed
  refine ⟨is_array_of_kind (define_ordinary_kind ..) array, n, within, ⟨writable, ?_⟩, ?_⟩
  · exact has_length_of_find (find_define_ordinary_of_ne o patch other) has
  · refine indices_below_define_ordinary array below fun index isIndex => ?_
    rw [noIndex] at isIndex
    cases isIndex

theorem well_formed_element_defined {index : Nat} (defined : ElementDefined o index key patch changed)
    (room : maxWord ≤ limit) (formed : o.WellFormedArray limit) (isIndex : arrayIndex? key = some index) :
    changed.WellFormedArray limit := by
  obtain ⟨array, n, within, ⟨writable, has⟩, below⟩ := formed
  have small : index + 1 ≤ maxWord := array_index_lt isIndex
  have same := is_array_of_kind (define_ordinary_kind o key patch) array
  have still := has_length_of_find
    (find_define_ordinary_of_ne o patch (ne_length_of_index isIndex)) has
  have indices (bound : Nat) (before : o.IndicesBelow bound) (covers : index < bound) :
      (o.defineOrdinary key patch).2.IndicesBelow bound := by
    refine indices_below_define_ordinary array before fun i found => ?_
    obtain rfl := Option.some.inj (found.symm.trans isIndex)
    exact covers
  cases defined with
  | refused => exact ⟨array, n, within, ⟨writable, has⟩, below⟩
  | covered inside =>
    rw [array_length_of_nat has] at inside
    have covers := Nat.lt_of_lt_of_le inside (Nat.min_le_left n maxWord)
    exact ⟨same, n, within, ⟨writable, still⟩, indices n below covers⟩
  | beyond outside free =>
    rw [array_length_of_nat has] at outside
    rw [set_array_length_of_has still]
    have before := indices_below_mono (indices_below_min below) (Nat.le_succ_of_le outside)
    refine ⟨is_array_of_kind rfl same, index + 1, Nat.le_trans small room,
      ⟨writable, has_length_set ..⟩, ?_⟩
    exact indices_below_set_length same (indices _ before (Nat.lt_succ_self _)) _

/-! ## Removal -/

theorem delete_refused (refused : (o.delete key).1 = false) : (o.delete key).2 = o := by
  unfold delete at refused ⊢
  revert refused
  repeat' split
  all_goals simp

/-- What was removed is gone. -/
theorem get_own_deleted (array : o.isArray) (removed : (o.delete key).1) :
    (o.delete key).2.properties.find? key = none := by
  have own := get_own_array array key
  unfold delete at removed ⊢
  cases found : o.getOwn? key with
  | none => exact own.symm.trans found
  | some p =>
    simp only [found] at removed ⊢
    split at removed
    · rename_i configurable
      simp [configurable]
    · cases removed

/-- Nothing is added by a removal. -/
theorem find_of_delete {other : String}
    (there : ((o.delete key).2.properties.find? other).isSome) : (o.properties.find? other).isSome := by
  by_cases same : key = other
  · subst same
    unfold delete at there
    cases found : o.getOwn? key with
    | none => simpa [found] using there
    | some p =>
      simp only [found] at there
      split at there
      · simp at there
      · exact there
  · rwa [find_delete_of_ne o same] at there

theorem well_formed_delete (formed : o.WellFormedArray limit) (key : String) :
    (o.delete key).2.WellFormedArray limit := by
  obtain ⟨array, n, within, ⟨writable, has⟩, below⟩ := formed
  have same := is_array_of_kind (delete_kind o key) array
  refine ⟨same, n, within, ⟨writable, ?_⟩, ?_⟩
  · by_cases isLength : key = lengthKey
    · subst isLength
      unfold delete
      rw [get_own_of_find has]
      exact has
    · exact has_length_of_find (find_delete_of_ne o isLength) has
  · exact indices_below_of_find array same (fun _ _ _ there => find_of_delete there) below

/-! ## Shrinking -/

/-- What is left to be removed from an array on its way to a length: all indices from the length on, largest
first, and nothing else. -/
structure Doomed (o : Object) (length : Nat) (doomed : List (Nat × String)) : Prop where
  sorted : doomed.Pairwise fun x y => y.1 ≤ x.1
  indices : ∀ entry ∈ doomed, arrayIndex? entry.2 = some entry.1 ∧ length ≤ entry.1
  all : ∀ key index, (o.properties.find? key).isSome → arrayIndex? key = some index → length ≤ index →
    (index, key) ∈ doomed

theorem doomed_indices_from (o : Object) (length : Nat) : o.Doomed length (o.indicesFrom length) where
  sorted := by
    have sorted := @List.pairwise_mergeSort (Nat × String) (fun x y => decide (y.1 ≤ x.1))
      (fun x y z first second => by simp at *; omega) (fun x y => by simp; omega)
      ((o.properties.keys.filterMap fun key => (arrayIndex? key).map (·, key)).filter
        fun entry => length ≤ entry.1)
    exact sorted.imp fun less => by simpa using less
  indices entry member := by
    obtain ⟨index, key⟩ := entry
    exact ⟨(mem_indices_from.1 member).2.1, (mem_indices_from.1 member).2.2⟩
  all key index there isIndex beyond :=
    mem_indices_from.2 ⟨OrderedMap.lookup_isSome.1 there, isIndex, beyond⟩

/-- However far the removal gets, the length that is left is above all indices that are left. -/
theorem drop_elements_covers {length : Nat} {doomed : List (Nat × String)} (array : o.isArray)
    (has : o.HasLength (.ofNat length) true enumerable) (small : length ≤ maxWord)
    (rest : o.Doomed length doomed) :
    ∃ n ≤ maxWord, (o.dropElements doomed).2.HasLength (.ofNat n) true enumerable ∧
      (o.dropElements doomed).2.IndicesBelow n := by
  -- Each removal leaves one index less to be removed; only an element that stays changes the length.
  induction doomed generalizing o with
  | nil =>
    refine ⟨length, small, has, fun key index there isIndex => Nat.lt_of_not_le fun beyond => ?_⟩
    rw [dropElements, get_own_array array] at there
    cases rest.all key index there isIndex beyond
  | cons entry more ih =>
    obtain ⟨index, key⟩ := entry
    obtain ⟨isIndex, beyond⟩ := rest.indices _ List.mem_cons_self
    have last := List.pairwise_cons.1 rest.sorted
    unfold dropElements
    cases outcome : o.delete key with
    | mk removed smaller =>
      have same := is_array_of_kind (delete_kind o key) array
      have still := has_length_of_find (find_delete_of_ne o (ne_length_of_index isIndex)) has
      rw [outcome] at same still
      cases removed with
      | true =>
        refine ih same still ⟨last.2, fun entry later => rest.indices entry (List.mem_cons_of_mem _ later), ?_⟩
        intro other i there otherIndex otherBeyond
        have gone := get_own_deleted array (by rw [outcome] : (o.delete key).1)
        rw [outcome] at gone
        have before : (o.properties.find? other).isSome := find_of_delete (by rwa [outcome])
        rcases List.mem_cons.1 (rest.all other i before otherIndex otherBeyond) with here | later
        · cases here
          rw [gone] at there
          cases there
        · exact later
      | false =>
        obtain rfl : o = smaller := by
          have unchanged := delete_refused (by rw [outcome] : (o.delete key).1 = false)
          rw [outcome] at unchanged
          exact unchanged.symm
        dsimp only
        rw [set_array_length_of_has has]
        refine ⟨index + 1, array_index_lt isIndex, has_length_set .., ?_⟩
        refine indices_below_set_length array (fun other i there otherIndex => ?_) _
        rw [get_own_array array] at there
        refine Nat.lt_succ_of_le ?_
        by_cases otherBeyond : length ≤ i
        · rcases List.mem_cons.1 (rest.all other i there otherIndex otherBeyond) with here | later
          · cases here
            exact Nat.le_refl _
          · exact last.1 _ later
        · omega

/-! ## The length -/

/-- A definition of the length that does not leave an index uncovered. -/
theorem well_formed_define_covering (formed : o.isArray ∧ o.HasLength (.ofNat n) writable false)
    (within : n ≤ limit) (below : o.IndicesBelow n)
    (fits : ∀ v, patch.value = some v → ∃ r ≤ limit, v = .ofNat r ∧ Nat.min n maxWord ≤ r) :
    (o.defineOrdinary lengthKey patch).2.WellFormedArray limit := by
  obtain ⟨array, has⟩ := formed
  cases outcome : (o.defineOrdinary lengthKey patch).1 with
  | false =>
    rw [define_ordinary_refused outcome]
    exact ⟨array, n, within, ⟨writable, has⟩, below⟩
  | true =>
    have same := is_array_of_kind (define_ordinary_kind o lengthKey patch) array
    have numeric : ∀ v, patch.value = some v → ∃ m, v = .number m := by
      intro v given
      obtain ⟨r, _, rfl, _⟩ := fits v given
      exact ⟨_, rfl⟩
    have indices (bound : Nat) (before : o.IndicesBelow bound) :
        (o.defineOrdinary lengthKey patch).2.IndicesBelow bound :=
      indices_below_define_ordinary array before fun index isIndex =>
        absurd rfl (ne_length_of_index isIndex)
    obtain ⟨m, still, value⟩ := has_length_define has numeric outcome
    cases given : patch.value with
    | none =>
      rw [given] at value
      cases value
      exact ⟨same, n, within, ⟨_, still⟩, indices n below⟩
    | some v =>
      obtain ⟨r, fitting, rfl, covers⟩ := fits v given
      rw [given] at value
      cases value
      exact ⟨same, r, fitting, ⟨_, still⟩,
        indices r (indices_below_mono (indices_below_min below) covers)⟩

theorem well_formed_freeze (formed : o.WellFormedArray limit) :
    o.freezeArrayLength.WellFormedArray limit := by
  obtain ⟨array, n, within, ⟨writable, has⟩, below⟩ := formed
  rw [freeze_array_length_of_has has]
  exact ⟨is_array_of_kind rfl array, n, within, ⟨false, has_length_set ..⟩,
    indices_below_set_length array below _⟩

/-- However far an array is cut, what is left of it is as it should be. -/
theorem well_formed_cut {shrunk : Object} (isCut : Cut o patch shrunk) (room : maxWord ≤ limit)
    (formed : o.WellFormedArray limit) (fits : patch.LengthWithin limit) :
    shrunk.WellFormedArray limit := by
  obtain ⟨array, n, within, ⟨writable, has⟩, below⟩ := formed
  cases isCut with
  | @intro requested staged given less free stages accepted =>
    rw [array_length_of_nat has] at less free
    obtain rfl : writable = true := free
    obtain ⟨r, fitting, rfl⟩ : ∃ r ≤ limit, requested = .ofNat r := by
      obtain ⟨r, fitting, same⟩ := fits _ given
      exact ⟨r, fitting, Value.number.inj same⟩
    rw [Number.clampTo_ofNat (by decide)] at less ⊢
    have small : r ≤ maxWord := by
      have bound : min r maxWord < maxWord := Nat.lt_of_lt_of_le less (Nat.min_le_right n maxWord)
      omega
    rw [show Nat.min r maxWord = r from Nat.min_eq_left small]
    have numeric : ∀ v, staged.value = some v → ∃ m, v = .number m := by
      intro v other
      rw [stages.value, given] at other
      cases other
      exact ⟨_, rfl⟩
    obtain ⟨m, still, isValue⟩ := has_length_define has numeric accepted
    rw [stages.value, given] at isValue
    cases isValue
    rw [stages.writable] at still
    have kept := is_array_of_kind (define_ordinary_kind o lengthKey staged) array
    obtain ⟨last, least, left, covered⟩ :=
      drop_elements_covers kept still small (doomed_indices_from _ r)
    exact ⟨is_array_of_kind (drop_elements_kind ..) kept, last, Nat.le_trans least room,
      ⟨true, left⟩, covered⟩

theorem well_formed_length_defined (defined : LengthDefined o patch changed) (room : maxWord ≤ limit)
    (formed : o.WellFormedArray limit) (fits : patch.LengthWithin limit) :
    changed.WellFormedArray limit := by
  cases defined with
  | refused => exact formed
  | ordinary covers =>
    obtain ⟨array, n, within, ⟨writable, has⟩, below⟩ := formed
    refine well_formed_define_covering ⟨array, has⟩ within below fun v given => ?_
    obtain ⟨r, fitting, rfl⟩ := fits v given
    have reaches := covers _ given
    rw [array_length_of_nat has, Number.clampTo_ofNat (by decide)] at reaches
    exact ⟨r, fitting, rfl, Nat.le_trans reaches (Nat.min_le_left ..)⟩
  | cut isCut => exact well_formed_cut isCut room formed fits
  | frozen isCut => exact well_formed_freeze (well_formed_cut isCut room formed fits)

/-! ## Any operation -/

theorem well_formed_define (room : maxWord ≤ limit) (formed : o.WellFormedArray limit)
    (fits : key = lengthKey → patch.LengthWithin limit) : (o.define key patch).2.WellFormedArray limit := by
  unfold define
  rw [if_pos formed.array]
  by_cases isLength : key = lengthKey
  · rw [if_pos (by simpa using isLength)]
    exact well_formed_length_defined (define_length_outcome o patch) room formed (fits isLength)
  · rw [if_neg (by simpa using isLength)]
    cases isIndex : arrayIndex? key with
    | some index => exact well_formed_element_defined (define_element_outcome ..) room formed isIndex
    | none => exact well_formed_define_ordinary formed isLength isIndex

theorem well_formed_change (room : maxWord ≤ limit) (formed : o.WellFormedArray limit)
    (change : Change o changed) : changed.WellFormedArray limit := by
  cases change with
  | stay => exact formed
  | define key patch checked =>
    refine well_formed_define room formed fun isLength v given => ?_
    obtain ⟨r, small, same⟩ := checked formed.array isLength v given
    exact ⟨r, Nat.le_trans small room, same⟩
  | delete key => exact well_formed_delete formed key
  | preventExtensions => exact ⟨formed.array, formed.length⟩

/-- However often an array is changed by checked operations, its representation stays as it should be. -/
theorem well_formed_changes (room : maxWord ≤ limit) (formed : o.WellFormedArray limit)
    (changes : Changes o changed) : changed.WellFormedArray limit := by
  induction changes with
  | refl => exact formed
  | tail _ change ih => exact well_formed_change room ih change

/-! ## New arrays -/

/-- A new array of given elements has a length above their indices. -/
theorem well_formed_of_elements (proto : ObjectId) {items : List Value} (fits : items.length ≤ limit) :
    (ofElements proto items).WellFormedArray limit := by
  refine ⟨rfl, items.length, fits, ⟨true, ?_⟩, ?_⟩
  · simp [HasLength, ofElements, arrayProperties, OrderedMap.find?, OrderedMap.lookup, Property.data,
      Value.ofNat, arrayLengthAttributes]
  · intro key index there isIndex
    rw [get_own_array rfl] at there
    have member := OrderedMap.lookup_isSome.1 there
    simp only [ofElements, arrayProperties, List.map_cons, List.mem_cons, keys_elements, List.mem_map,
      List.mem_range] at member
    rcases member with isLength | ⟨i, inside, rfl⟩
    · exact absurd isLength (ne_length_of_index isIndex)
    · rw [array_index_of_key isIndex]
      exact inside

end Object
end ScriptEngine
