import ScriptEngine.Proofs.Object.Permanence

/-!
Descriptions that mention a value, or whether it may be replaced, and a function as well. No property has
both, so one part of such a description is passed over: the value where there is no property yet, and the
functions where there is one.
-/

namespace ScriptEngine

/-- A value that is put where it is already changes nothing. -/
theorem OrderedMap.insert_same {α : Type} {m : OrderedMap α} {key : String} {value : α}
    (found : m.find? key = some value) : m.insert key value = m := by
  have put_same : ∀ entries : List (String × α), lookup key entries = some value →
      put key value entries = entries := by
    intro entries
    induction entries with
    | nil => intro none; cases none
    | cons entry rest ih =>
      obtain ⟨name, other⟩ := entry
      by_cases same : name = key
      · simp +contextual [lookup, put, same, eq_comm]
      · simpa [lookup, put, same] using ih
  obtain ⟨entries, distinct⟩ := m
  have same := put_same entries found
  simp only [insert, same]

namespace PropertyPatch

variable {patch : PropertyPatch} {p : Property}

/-- A description mentions a function, and also a value or whether it may be replaced. -/
def isMixed (patch : PropertyPatch) : Bool :=
  patch.mentionsAccessor && patch.mentionsData

/-- A description without the functions that it mentions. -/
def valuePart (patch : PropertyPatch) : PropertyPatch :=
  { patch with get := none, set := none }

/-- A description without what it says of a value. -/
def functionPart (patch : PropertyPatch) : PropertyPatch :=
  { patch with value := none, writable := none }

/-- A property may come to hold a value as it is described: it is configurable, or it holds a value that may
be replaced or is not to become another one. -/
def valueAllowed (patch : PropertyPatch) (current : Property) : Bool :=
  current.configurable ||
    match current.kind with
    | .data value writable =>
      writable || (agrees patch.writable (!·) && agrees patch.value (·.sameValue value))
    | .accessor .. => false

/-- A property with a value as it is described. -/
def valued (patch : PropertyPatch) (current : Property) : Property where
  kind :=
    match current.kind with
    | .data value writable => .data (patch.value.getD value) (patch.writable.getD writable)
    | .accessor .. => .data (patch.value.getD .undefined) (patch.writable.getD false)
  enumerable := patch.enumerable.getD current.enumerable
  configurable := patch.configurable.getD current.configurable

theorem mixed_iff : patch.isMixed = true ↔ patch.mentionsAccessor = true ∧ patch.mentionsData = true := by
  rw [isMixed, Bool.and_eq_true]

/-- What a description of a value makes of a property. Functions that it mentions are of no account. -/
theorem update_of_data (data : patch.mentionsData) (p : Property) :
    patch.update? p = if patch.flagsAllowed p && patch.valueAllowed p then some (patch.valued p) else none := by
  obtain ⟨kind, enumerable, configurable⟩ := p
  unfold update?
  cases patch.flagsAllowed ⟨kind, enumerable, configurable⟩ with
  | false => rfl
  | true =>
    rw [if_pos rfl, Bool.true_and]
    cases kind with
    | data value writable => simp [changeKind?, isGeneric, data, Property.isData, valueAllowed, valued, fill]
    | accessor get set =>
      cases configurable <;> simp [changeKind?, isGeneric, data, Property.isData, valueAllowed, valued, fill]

/-- What a description makes of a property if it mentions flags only. -/
theorem update_of_generic (generic : patch.isGeneric) (p : Property) :
    patch.update? p =
      if patch.flagsAllowed p then
        some ⟨p.kind, patch.enumerable.getD p.enumerable, patch.configurable.getD p.configurable⟩
      else none := by
  unfold update? changeKind?
  rw [if_pos generic, Option.map_some, fill_generic generic]

/-- No property is as a mixed description says. -/
theorem matches_mixed (mixed : patch.isMixed) (p : Property) : patch.matchesProperty p = false := by
  obtain ⟨kind, enumerable, configurable⟩ := p
  simp only [mixed_iff, mentionsAccessor, mentionsData, Bool.or_eq_true, Option.isSome_iff_ne_none] at mixed
  rw [Bool.eq_false_iff]
  intro agreed
  cases kind with
  | data value writable =>
    simp only [matchesProperty, Bool.and_eq_true, Option.isNone_iff_eq_none] at agreed
    obtain ⟨_, ⟨⟨noGet, noSet⟩, _⟩, _⟩ := agreed
    exact mixed.1.elim (absurd noGet) (absurd noSet)
  | accessor get set =>
    simp only [matchesProperty, Bool.and_eq_true, Option.isNone_iff_eq_none] at agreed
    obtain ⟨_, ⟨⟨noValue, noFlag⟩, _⟩, _⟩ := agreed
    exact mixed.2.elim (absurd noValue) (absurd noFlag)

theorem not_empty_of_data (data : patch.mentionsData) : patch.isEmpty = false := by
  simp [isEmpty, isGeneric, data]

/-- A value that is described as it is already is accepted, and stays. -/
theorem update_of_matches (data : patch.mentionsData) (agreed : patch.matchesProperty p) :
    patch.update? p = some p := by
  obtain ⟨kind, enumerable, configurable⟩ := p
  simp only [mentionsData, Bool.or_eq_true, Option.isSome_iff_ne_none] at data
  cases kind with
  | accessor get set =>
    simp only [matchesProperty, Bool.and_eq_true, Option.isNone_iff_eq_none] at agreed
    obtain ⟨_, ⟨⟨noValue, noFlag⟩, _⟩, _⟩ := agreed
    rcases data with value | flag
    · exact absurd noValue value
    · exact absurd noFlag flag
  | data value writable =>
    have unchanged : patch.isEmpty || patch.matchesProperty ⟨.data value writable, enumerable, configurable⟩ := by
      rw [agreed, Bool.or_true]
    obtain ⟨keepsValue, keepsFlag⟩ := data_of_unchanged unchanged
    simp only [matchesProperty, Bool.and_eq_true] at agreed
    obtain ⟨⟨sameSeen, sameFree⟩, ⟨_, sameFlag⟩, sameValue⟩ := agreed
    have allowed : patch.flagsAllowed ⟨.data value writable, enumerable, configurable⟩ = true := by
      cases configurable with
      | true => rfl
      | false => simpa [flagsAllowed, sameSeen] using sameFree
    have valueAllowed : patch.valueAllowed ⟨.data value writable, enumerable, configurable⟩ = true := by
      cases writable with
      | true => simp [valueAllowed]
      | false =>
        have shut : agrees patch.writable (!·) := by simpa using sameFlag
        simp [valueAllowed, shut, sameValue]
    rw [update_of_data (by simpa [mentionsData, Option.isSome_iff_ne_none] using data), allowed, valueAllowed]
    simp [valued, keepsValue, keepsFlag, get_of_agrees sameSeen, get_of_agrees sameFree]

/-- A read-only value that cannot be configured is described in a way that is accepted only as it is. -/
theorem allowed_read_only {value : Value} {enumerable : Bool} :
    (patch.flagsAllowed ⟨.data value false, enumerable, false⟩ &&
      patch.valueAllowed ⟨.data value false, enumerable, false⟩) =
      patch.valuePart.matchesProperty ⟨.data value false, enumerable, false⟩ := by
  simp [flagsAllowed, valueAllowed, matchesProperty, valuePart, Bool.and_comm, Bool.and_assoc]

/-- What is refused of a read-only value that cannot be configured, unless it says how the value is already or
says nothing. -/
theorem update_read_only {value : Value} {enumerable : Bool} (plain : patch.mentionsData = false)
    (different : patch.matchesProperty ⟨.data value false, enumerable, false⟩ = false) :
    patch.update? ⟨.data value false, enumerable, false⟩ = none := by
  unfold update?
  split
  · rename_i flags
    cases functions : patch.mentionsAccessor with
    | true => simp [changeKind?, isGeneric, functions, plain, Property.isData]
    | false =>
      -- Only flags are mentioned, and those that are allowed are as they are.
      simp only [mentionsAccessor, mentionsData, Bool.or_eq_false_iff, Option.isSome_eq_false_iff,
        Option.isNone_iff_eq_none] at functions plain
      simp [matchesProperty, functions, plain, agrees] at different
      simp [flagsAllowed, agrees] at flags
      exact absurd flags.1 (by simpa using different flags.2)
  · rfl

end PropertyPatch

namespace Object

variable {o : Object} {key : String} {patch : PropertyPatch} {p : Property}

theorem set_same (found : o.properties.find? key = some p) : o.set key p = o := by
  unfold set
  rw [OrderedMap.insert_same found]

/-- Where there is no property only the functions of a mixed description count. -/
theorem define_ordinary_mixed_absent (absent : o.getOwn? key = none) (mixed : patch.isMixed) :
    o.defineOrdinary key patch = o.defineOrdinary key patch.functionPart := by
  have functions := (PropertyPatch.mixed_iff.1 mixed).1
  have same : patch.functionPart.mentionsAccessor = true := functions
  have created : patch.create = patch.functionPart.create := by
    simp only [PropertyPatch.create, functions, same, if_true]
    rfl
  unfold defineOrdinary
  rw [absent, created]

/-- Where there is a property the functions of a mixed description do not count. What is described as it is
already is put in its place all the same. -/
theorem define_ordinary_mixed_present (own : o.getOwn? key = some p) (mixed : patch.isMixed) :
    o.defineOrdinary key patch =
      if patch.valuePart.matchesProperty p then (true, o.set key p)
      else o.defineOrdinary key patch.valuePart := by
  have data : patch.mentionsData = true := (PropertyPatch.mixed_iff.1 mixed).2
  have dataPart : patch.valuePart.mentionsData = true := data
  have whole : patch.update? p = patch.valuePart.update? p := by
    rw [PropertyPatch.update_of_data data, PropertyPatch.update_of_data dataPart]
    rfl
  have notEmpty : patch.valuePart.isEmpty = false := PropertyPatch.not_empty_of_data data
  unfold defineOrdinary
  rw [own]
  dsimp only
  rw [PropertyPatch.not_empty_of_data data, PropertyPatch.matches_mixed mixed, whole, notEmpty]
  cases agreed : patch.valuePart.matchesProperty p with
  | true =>
    rw [PropertyPatch.update_of_matches dataPart agreed]
    rfl
  | false => rfl

/-- The property that a mixed description makes, if it is accepted. -/
def mixedResult? (o : Object) (key : String) (patch : PropertyPatch) : Option Property :=
  match o.getOwn? key with
  | none =>
    if o.extensible then
      some ⟨.accessor (patch.get.getD none) (patch.set.getD none), patch.enumerable.getD false,
        patch.configurable.getD false⟩
    else none
  | some p => if patch.flagsAllowed p && patch.valueAllowed p then some (patch.valued p) else none

/-- A mixed description is accepted as it is, or refused; it is never an error. -/
theorem define_ordinary_mixed (mixed : patch.isMixed) :
    o.defineOrdinary key patch =
      match o.mixedResult? key patch with
      | some p => (true, o.set key p)
      | none => (false, o) := by
  obtain ⟨functions, data⟩ := PropertyPatch.mixed_iff.1 mixed
  unfold defineOrdinary mixedResult?
  cases o.getOwn? key with
  | none =>
    dsimp only
    rw [PropertyPatch.create, if_pos functions]
    cases o.extensible <;> rfl
  | some p =>
    dsimp only
    rw [PropertyPatch.not_empty_of_data data, PropertyPatch.matches_mixed mixed, PropertyPatch.update_of_data data]
    cases patch.flagsAllowed p && patch.valueAllowed p <;> rfl

/-- Where an object itself holds a property the functions of a mixed description do not count. -/
theorem define_ordinary_mixed_held (found : o.properties.find? key = some p) (mixed : patch.isMixed) :
    o.defineOrdinary key patch = o.defineOrdinary key patch.valuePart := by
  rw [define_ordinary_mixed_present (get_own_of_find found) mixed]
  split
  · rename_i agreed
    rw [set_same found]
    unfold defineOrdinary
    rw [get_own_of_find found]
    simp [agreed]
  · rfl

/-- Nothing becomes of a read-only value that cannot be configured, but that a mixed description which repeats
it puts it in its place once more. -/
theorem define_ordinary_read_only {value : Value} {enumerable : Bool}
    (own : o.getOwn? key = some ⟨.data value false, enumerable, false⟩) (patch : PropertyPatch) :
    (o.defineOrdinary key patch).2 =
      if patch.isMixed && patch.valuePart.matchesProperty ⟨.data value false, enumerable, false⟩ then
        o.set key ⟨.data value false, enumerable, false⟩
      else o := by
  cases mixed : patch.isMixed with
  | true =>
    rw [define_ordinary_mixed_present own mixed, Bool.true_and]
    split
    · rfl
    · rename_i different
      have data : patch.valuePart.mentionsData = true := (PropertyPatch.mixed_iff.1 mixed).2
      have refused : patch.valuePart.update? ⟨.data value false, enumerable, false⟩ = none := by
        rw [PropertyPatch.update_of_data data, PropertyPatch.allowed_read_only]
        exact if_neg different
      unfold defineOrdinary
      rw [own]
      dsimp only
      rw [refused]
      split <;> rfl
  | false =>
    rw [Bool.false_and, if_neg Bool.false_ne_true]
    unfold defineOrdinary
    rw [own]
    dsimp only
    split
    · rfl
    · rename_i different
      have differs : patch.matchesProperty ⟨.data value false, enumerable, false⟩ = false := by
        simp only [Bool.or_eq_true, not_or, Bool.not_eq_true] at different
        exact different.2
      have refused : patch.update? ⟨.data value false, enumerable, false⟩ = none := by
        cases data : patch.mentionsData with
        | false => exact PropertyPatch.update_read_only data differs
        | true =>
          have plain : patch.valuePart = patch := by
            simp only [PropertyPatch.isMixed, data, Bool.and_true, PropertyPatch.mentionsAccessor,
              Bool.or_eq_false_iff, Option.isSome_eq_false_iff, Option.isNone_iff_eq_none] at mixed
            obtain ⟨value, writable, get, set, seen, free⟩ := patch
            obtain ⟨rfl, rfl⟩ := mixed
            rfl
          rw [PropertyPatch.update_of_data data, PropertyPatch.allowed_read_only, plain, differs]
          rfl
      rw [refused]

/-! ## Definitions of any object -/

/-- Where there is no property only the functions of a mixed description count. -/
theorem define_mixed_absent (absent : o.getOwn? key = none) (other : o.isArray → key ≠ lengthKey)
    (mixed : patch.isMixed) : o.define key patch = o.define key patch.functionPart := by
  unfold define defineElement
  rw [define_ordinary_mixed_absent absent mixed]
  cases array : o.isArray with
  | false => rfl
  | true => simp [other array]

/-- Where an object itself holds a property the functions of a mixed description do not count. -/
theorem define_mixed_held (found : o.properties.find? key = some p) (mixed : patch.isMixed) :
    o.define key patch = o.define key patch.valuePart := by
  have whole := define_ordinary_mixed_held found mixed
  unfold define defineElement
  by_cases isLength : key = lengthKey
  · subst isLength
    have functions : ({ patch with writable := some true } : PropertyPatch).mentionsAccessor = true :=
      (PropertyPatch.mixed_iff.1 mixed).1
    -- The description under which an array is cut is as mixed as the one that is given.
    have staged : o.defineOrdinary lengthKey { patch with writable := some true } =
        o.defineOrdinary lengthKey { patch.valuePart with writable := some true } :=
      define_ordinary_mixed_held found (PropertyPatch.mixed_iff.2 ⟨functions, by simp [PropertyPatch.mentionsData]⟩)
    have length : o.defineLength patch = o.defineLength patch.valuePart := by
      have sameValue : patch.valuePart.value = patch.value := rfl
      have sameFlag : patch.valuePart.writable = patch.writable := rfl
      unfold defineLength
      simp only [apply_ite (o.defineOrdinary lengthKey), sameValue, sameFlag, staged, whole]
    simp [length, whole]
  · simp [isLength, whole]

end Object
end ScriptEngine
