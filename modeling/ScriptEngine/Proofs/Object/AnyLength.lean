import ScriptEngine.Proofs.Object.Permanence

/-!
Arrays whose length may be anything. A length that is no number counts as zero, so an element at any
index takes its place. What is to be kept of such an array is kept exactly if there are no elements and
can be none.
-/

namespace ScriptEngine.Object

variable {o changed : Object} {key : String} {patch : PropertyPatch}

/-! ## Shut arrays -/

/-- An object has no elements and gets none. -/
structure Shut (o : Object) : Prop where
  closed : o.extensible = false
  empty : ∀ key index, arrayIndex? key = some index → o.getOwn? key = none

theorem shut_of_keeps (kept : o.Keeps changed) (shut : o.Shut) : changed.Shut where
  closed := kept.closed shut.closed
  empty key index isIndex := kept.missing shut.closed key (shut.empty key index isIndex)

/-- The length of an array cannot be configured, whatever it is. -/
def HasAnyLength (o : Object) (value : Value) : Prop :=
  ∃ writable enumerable, o.properties.find? lengthKey = some ⟨.data value writable, enumerable, false⟩

/-- The length of an array that is no number counts as zero. -/
theorem array_length_of_other {value : Value} (has : o.HasAnyLength value)
    (other : ∀ n, value ≠ .number n) : o.arrayLength = (0, true) := by
  obtain ⟨writable, enumerable, found⟩ := has
  unfold arrayLength
  rw [found]
  cases value with
  | number n => exact absurd rfl (other n)
  | _ => rfl

/-- A length stays what it is or becomes what a definition asks for. -/
theorem has_any_length_define {value : Value} (has : o.HasAnyLength value) (patch : PropertyPatch) :
    (o.defineOrdinary lengthKey patch).2.HasAnyLength value ∨
      (o.defineOrdinary lengthKey patch).2.HasAnyLength (patch.value.getD value) := by
  obtain ⟨writable, enumerable, found⟩ := has
  unfold defineOrdinary
  rw [get_own_of_find found]
  dsimp only
  split
  · exact .inl ⟨writable, enumerable, found⟩
  · split
    · rename_i updated accepted
      obtain ⟨rfl, -⟩ := PropertyPatch.update_fixed rfl accepted
      exact .inr ⟨_, enumerable, by rw [find_set, if_pos rfl]; rfl⟩
    · exact .inl ⟨writable, enumerable, found⟩

theorem has_any_length_of_find {value : Value}
    (same : changed.properties.find? lengthKey = o.properties.find? lengthKey)
    (has : o.HasAnyLength value) : changed.HasAnyLength value := by
  obtain ⟨writable, enumerable, found⟩ := has
  exact ⟨writable, enumerable, same.trans found⟩

theorem has_any_length_delete {value : Value} (has : o.HasAnyLength value) (key : String) :
    (o.delete key).2.HasAnyLength value := by
  by_cases isLength : key = lengthKey
  · subst isLength
    obtain ⟨writable, enumerable, found⟩ := has
    refine ⟨writable, enumerable, ?_⟩
    unfold delete
    rw [get_own_of_find found]
    exact found
  · exact has_any_length_of_find (find_delete_of_ne o isLength) has

/-- An array whose length may be anything but that is shut. -/
structure ShutArray (o : Object) : Prop where
  shut : o.Shut
  length : ∃ value, o.HasAnyLength value ∧ ∀ n, value ≠ .number n

/-- The length of an array is a number, or it is anything and the array is shut. -/
def Steady (o : Object) : Prop :=
  o.LengthIsNumber ∨ o.ShutArray

theorem steady_of_any_length {value : Value} (shut : o.Shut) (has : o.HasAnyLength value) :
    o.Steady := by
  by_cases number : ∃ n, value = .number n
  · obtain ⟨n, rfl⟩ := number
    obtain ⟨writable, enumerable, found⟩ := has
    exact .inl (length_is_number_of_has found)
  · exact .inr ⟨shut, value, has, fun n same => number ⟨n, same⟩⟩

/-- A definition finds no way into a shut array. -/
theorem keeps_define_shut (array : o.isArray) (held : o.ShutArray) :
    o.Keeps (o.define key patch).2 ∧ (o.define key patch).2.Steady := by
  obtain ⟨shut, value, has, other⟩ := held
  have kept := keeps_define_ordinary o key patch
  unfold define
  rw [if_pos array]
  by_cases isLength : key = lengthKey
  · subst isLength
    have ordinary : o.defineLength patch = o.defineOrdinary lengthKey patch := by
      unfold defineLength
      rw [array_length_of_other has other]
      dsimp only
      split
      · rw [if_pos (Nat.zero_le _)]
      · rfl
    rw [if_pos (by simp), ordinary]
    refine ⟨kept, ?_⟩
    rcases has_any_length_define has patch with same | asked
    · exact steady_of_any_length (shut_of_keeps kept shut) same
    · exact steady_of_any_length (shut_of_keeps kept shut) asked
  · rw [if_neg (by simpa using isLength)]
    cases isIndex : arrayIndex? key with
    | some index =>
      have refused : o.defineElement index key patch = (false, o) := by
        unfold defineElement defineOrdinary
        rw [array_length_of_other has other, shut.empty key index isIndex]
        simp [shut.closed]
      dsimp only
      rw [refused]
      exact ⟨keeps_refl o, steady_of_any_length shut has⟩
    | none =>
      have still := has_any_length_of_find (find_define_ordinary_of_ne o patch isLength) has
      exact ⟨kept, steady_of_any_length (shut_of_keeps kept shut) still⟩

theorem keeps_change_steady (change : Change o changed) (steady : o.Steady) :
    o.Keeps changed ∧ changed.Steady := by
  rcases steady with numeric | held
  · obtain ⟨kept, still⟩ := keeps_change change numeric
    exact ⟨kept, .inl still⟩
  · obtain ⟨shut, value, has, other⟩ := held
    cases change with
    | stay => exact ⟨keeps_refl o, .inr ⟨shut, value, has, other⟩⟩
    | define key patch checked =>
      cases array : o.isArray with
      | true => exact keeps_define_shut array ⟨shut, value, has, other⟩
      | false =>
        have numeric : o.LengthIsNumber := fun isArray => by rw [array] at isArray; cases isArray
        obtain ⟨kept, still⟩ := keeps_define numeric checked
        exact ⟨kept, .inl still⟩
    | delete key =>
      have kept := keeps_delete o key
      exact ⟨kept, steady_of_any_length (shut_of_keeps kept shut) (has_any_length_delete has key)⟩
    | preventExtensions =>
      exact ⟨⟨fun _ p found fixed => ⟨p, found, property_lasts_refl fixed⟩, fun _ => rfl,
        fun _ _ absent => absent⟩, .inr ⟨⟨rfl, shut.empty⟩, value, has, other⟩⟩

/-- However often an object is changed, what cannot be undone stays. -/
theorem keeps_changes (changes : Changes o changed) (steady : o.Steady) :
    o.Keeps changed ∧ changed.Steady := by
  induction changes with
  | refl => exact ⟨keeps_refl o, steady⟩
  | tail _ change ih =>
    obtain ⟨kept, still⟩ := ih
    obtain ⟨keptOn, stillOn⟩ := keeps_change_steady change still
    exact ⟨keeps_trans kept keptOn, stillOn⟩

/-! ## Arrays that are not shut -/

/-- A definition that mentions nothing is accepted of what is there and of what may be added. -/
theorem define_ordinary_empty (room : o.extensible ∨ (o.getOwn? key).isSome) :
    (o.defineOrdinary key {}).1 = true := by
  unfold defineOrdinary
  cases found : o.getOwn? key with
  | none =>
    rw [found] at room
    simp [room.resolve_right (by simp)]
  | some p => simp [PropertyPatch.isEmpty, PropertyPatch.isGeneric, PropertyPatch.mentionsAccessor,
      PropertyPatch.mentionsData]

/-- The length of an array that is no number counts as zero, so an element at any index takes its place,
even if it is read-only. -/
theorem define_element_breaks {index : Nat} {value : Value} {enumerable : Bool} (array : o.isArray)
    (isIndex : arrayIndex? key = some index) (room : o.extensible ∨ (o.getOwn? key).isSome)
    (found : o.properties.find? lengthKey = some ⟨.data value false, enumerable, false⟩)
    (text : ∀ n, value ≠ .number n) : ¬o.Keeps (o.define key {}).2 := by
  have other := ne_length_of_index isIndex
  have unread : o.arrayLength = (0, true) := array_length_of_other ⟨false, enumerable, found⟩ text
  have accepted := define_ordinary_empty room
  have still := (find_define_ordinary_of_ne o {} other).trans found
  have replaced : (o.define key {}).2 = (o.defineOrdinary key {}).2.set lengthKey
      ⟨.data (.ofNat (index + 1)) false, enumerable, false⟩ := by
    unfold define defineElement
    rw [if_pos array, if_neg (by simpa using other), isIndex, unread]
    dsimp only
    cases outcome : o.defineOrdinary key {} with
    | mk ok defined =>
      rw [outcome] at accepted still
      cases accepted
      simp [setArrayLength, modifyLength, still]
  rw [replaced]
  intro keeps
  obtain ⟨q, there, lasts⟩ := keeps.fixed lengthKey _ (get_own_of_find found) rfl
  rw [get_own_set, if_pos rfl] at there
  cases there
  cases lasts.kind with
  | readOnly _ _ same => exact text _ (Value.same_value_iff.1 same).symm

/-- The length of an array can always be made read-only. -/
theorem define_length_read_only {value : Value} {writable enumerable : Bool} (array : o.isArray)
    (found : o.properties.find? lengthKey = some ⟨.data value writable, enumerable, false⟩) :
    (o.define lengthKey { writable := some false }).2.properties.find? lengthKey =
        some ⟨.data value false, enumerable, false⟩ ∧
      (o.define lengthKey { writable := some false }).2.extensible = o.extensible ∧
      ∀ other, lengthKey ≠ other → (o.define lengthKey { writable := some false }).2.properties.find? other =
        o.properties.find? other := by
  have ordinary : o.define lengthKey { writable := some false } =
      o.defineOrdinary lengthKey { writable := some false } := by
    unfold define defineLength
    rw [if_pos array, if_pos (by simp)]
  rw [ordinary, ← and_assoc]
  refine ⟨?_, fun other distinct => find_define_ordinary_of_ne o _ distinct⟩
  unfold defineOrdinary
  rw [get_own_of_find found]
  cases writable with
  | true =>
    simp [PropertyPatch.isEmpty, PropertyPatch.isGeneric, PropertyPatch.mentionsAccessor,
      PropertyPatch.mentionsData, PropertyPatch.matchesProperty, PropertyPatch.agrees,
      PropertyPatch.update?, PropertyPatch.flagsAllowed, PropertyPatch.changeKind?, Property.isData,
      PropertyPatch.fill]
  | false =>
    simp [PropertyPatch.isEmpty, PropertyPatch.isGeneric, PropertyPatch.mentionsAccessor,
      PropertyPatch.mentionsData, PropertyPatch.matchesProperty, PropertyPatch.agrees, found]

end ScriptEngine.Object
