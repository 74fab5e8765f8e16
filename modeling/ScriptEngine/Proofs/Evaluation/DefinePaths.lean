import ScriptEngine.Proofs.Evaluation.PropertyRuns
import ScriptEngine.Proofs.Number.Words
import ScriptEngine.Proofs.Object.Shrinking

/-!
Two ways to define a property that holds a value. One converts and checks the length of an array first, the
other takes any value for it. They are the same but for the length of an array, and there as long as the
value is one that an array may have as its length.
-/

namespace ScriptEngine

/-! ## Lengths -/

namespace Number

theorem toUint32_ofNat {n : Nat} (small : n ≤ Object.maxWord) : (ofNat n).toUint32.toNat = n := by
  have limit : Object.maxWord = 4294967295 := by decide
  have exact : n < mantissaLimit := by
    simp only [mantissaLimit, Nat.one_shiftLeft]
    omega
  have word := toUint32_toNat (ofNat n)
  rw [truncated_of_whole (counts_ofNat exact)] at word
  omega

theorem eq_ofNat {n : Nat} (small : n ≤ Object.maxWord) : (ofNat n).eq (ofNat n) = true := by
  have exact : n < mantissaLimit := Nat.lt_of_le_of_lt small (by decide)
  exact (eq_iff (counts_ofNat exact) (counts_ofNat exact)).2 rfl

end Number

/-- A value that an array may have as its length. -/
def Value.IsLength (v : Value) : Prop :=
  ∃ n ≤ Object.maxWord, v = .ofNat n

/-- The length that a primitive value is converted to. -/
def Value.asLength (v : Value) : Number :=
  .ofUint32 v.primitiveToNumber.toUint32

theorem Value.as_length_of_length {v : Value} (isLength : v.IsLength) :
    Value.number v.asLength = v ∧ v.asLength.eq v.primitiveToNumber = true := by
  obtain ⟨n, small, rfl⟩ := isLength
  have same : (Value.ofNat n).asLength = .ofNat n := by
    rw [asLength, Number.ofUint32, Value.ofNat, primitiveToNumber, Number.toUint32_ofNat small]
  rw [same]
  exact ⟨rfl, Number.eq_ofNat small⟩

theorem Value.is_length_of_word (n : UInt32) : (Value.number (.ofUint32 n)).IsLength :=
  ⟨n.toNat, Nat.le_of_lt_succ n.toNat_lt, rfl⟩

namespace Object

variable {o : Object} {patch : PropertyPatch} {v : Value}

/-- An array takes a value for its length, whether or not it may be one: the length may be replaced, and no
element stays that the value, as a number, would not cover. -/
structure Takes (o : Object) (v : Value) (patch : PropertyPatch) : Prop where
  permits : o.Permits patch
  unblocked : ∀ requested m, v = .number requested → requested.clampTo maxWord < o.arrayLength.1 →
    ¬o.Blocks (requested.clampTo maxWord) m

/-- A length that may not be replaced is not. -/
theorem define_read_only_length {old : Number} (has : o.HasLength old false false)
    (given : patch.value = some v) (other : v ≠ .number old) :
    (o.defineOrdinary lengthKey patch).1 = false := by
  rw [Bool.eq_false_iff]
  intro accepted
  have found := find_length_defined has accepted
  obtain ⟨q, there, lasts⟩ := (keeps_define_ordinary o lengthKey patch).fixed lengthKey _ (get_own_of_find has) rfl
  rw [get_own_of_find found, given] at there
  cases there
  have kind := lasts.kind
  generalize patch.writable.getD false = writable at kind
  cases kind with
  | readOnly _ _ same => exact other (Value.same_value_iff.1 same)

/-- What becomes of a length when any value is defined for it. -/
theorem define_any_length (formed : o.WellFormedArray maxWord) (given : patch.value = some v)
    (notLength : ¬v.IsLength) :
    ((o.define lengthKey patch).1 = true ↔ o.Takes v patch) ∧
      ((o.define lengthKey patch).1 = true → (o.define lengthKey patch).2.properties.find? lengthKey =
        some ⟨.data v (patch.writable != some false), false, false⟩) := by
  obtain ⟨array, n, within, ⟨writable, has⟩, below⟩ := id formed
  have length := array_length_of_has has
  by_cases shorter : ∃ requested, o.Shortens lengthKey patch requested
  · obtain ⟨requested, shortens⟩ := shorter
    obtain ⟨_, ways⟩ := define_outcome o lengthKey patch fun _ => formed
    obtain ⟨accepted, cut, _⟩ := ways requested shortens
    obtain rfl : v = .number requested := Option.some.inj (given.symm.trans shortens.asked)
    constructor
    · rw [accepted]
      constructor
      · rintro ⟨permits, unblocked⟩
        refine ⟨permits, fun other m same _ => ?_⟩
        cases same
        exact unblocked m
      · rintro ⟨permits, unblocked⟩
        exact ⟨permits, fun m => unblocked requested m rfl shortens.less⟩
    · exact fun done => (cut done).length
  · have longer := define_length_not_shorter array shorter
    have unblocked : ∀ requested m, v = .number requested → requested.clampTo maxWord < o.arrayLength.1 →
        ¬o.Blocks (requested.clampTo maxWord) m :=
      fun requested m same less => absurd ⟨requested, array, rfl, same ▸ given, less⟩ shorter
    rw [longer]
    cases writable with
    | true =>
      have accepts := define_length_accepted_iff has given
      constructor
      · rw [accepts]
        exact ⟨fun flags => ⟨⟨by rw [length], flags.1, flags.2⟩, unblocked⟩,
          fun takes => ⟨takes.permits.fixed, takes.permits.hidden⟩⟩
      · intro done
        rw [find_length_defined has done, given]
        cases patch.writable with
        | none => rfl
        | some w => cases w <;> rfl
    | false =>
      have refused := define_read_only_length has given fun same => notLength ⟨n, within, same⟩
      rw [refused]
      constructor
      · constructor
        · intro accepted
          cases accepted
        · rintro ⟨⟨free, _, _⟩, _⟩
          rw [length] at free
          cases free
      · intro accepted
        cases accepted

/-- A cut array is as it should be, and so is its length if it may be one. -/
theorem well_formed_of_cut {after : Object} {n : Nat} {writable : Bool} (array : o.isArray)
    (cut : o.CutTo n (.ofNat n) writable after) (small : n ≤ maxWord) : after.WellFormedArray maxWord := by
  have still := is_array_of_kind cut.pruned.kind array
  refine ⟨still, n, small, ⟨writable, cut.length⟩, ?_⟩
  intro key index there isIndex
  rw [get_own_array still, OrderedMap.find?_isSome, cut.pruned.keys, List.mem_filter] at there
  exact covers_iff.1 there.2 index isIndex

/-- An unchecked definition leaves an array as it should be unless the array takes for its length what cannot
be one. -/
theorem well_formed_define_iff (formed : o.WellFormedArray maxWord) (given : patch.value = some v)
    (key : String) :
    (o.define key patch).2.WellFormedArray maxWord ↔
      ¬(key = lengthKey ∧ ¬v.IsLength ∧ o.Takes v patch) := by
  by_cases unchecked : key = lengthKey ∧ ¬v.IsLength
  · obtain ⟨rfl, notLength⟩ := unchecked
    obtain ⟨accepts, found⟩ := define_any_length formed given notLength
    by_cases takes : o.Takes v patch
    · have broken : ¬(o.define lengthKey patch).2.WellFormedArray maxWord := by
        rintro ⟨_, n, small, ⟨writable, has⟩, _⟩
        rw [HasLength, found (accepts.2 takes)] at has
        simp only [Option.some.injEq, Property.mk.injEq, PropertyKind.data.injEq] at has
        exact notLength ⟨n, small, has.1.1⟩
      simp [broken, notLength, takes]
    · have refused : (o.define lengthKey patch).1 = false := by
        rw [Bool.eq_false_iff]
        exact fun accepted => takes (accepts.1 accepted)
      have whole : (o.define lengthKey patch).2.WellFormedArray maxWord := by
        obtain ⟨ends, ways⟩ := define_outcome o lengthKey patch fun _ => formed
        rcases ends refused with same | ⟨requested, m, shortens, permits, blocks⟩
        · rwa [same]
        · obtain ⟨key, p, isIndex, _⟩ := blocks.stays
          exact well_formed_of_cut formed.array ((ways requested shortens).2.2 m permits blocks)
            (array_index_lt isIndex)
      simp [whole, takes]
  · have fits : key = lengthKey → patch.LengthWithin maxWord := by
      intro isLength w same
      obtain rfl : v = w := Option.some.inj (given.symm.trans same)
      by_contra notLength
      exact unchecked ⟨isLength, notLength⟩
    have whole := well_formed_define (Nat.le_refl _) formed fits
    have allowed : ¬(key = lengthKey ∧ ¬v.IsLength ∧ o.Takes v patch) :=
      fun both => unchecked ⟨both.1, both.2.1⟩
    simp only [whole, allowed, not_false_eq_true]

end Object

/-- The first array of a new engine has no elements. -/
theorem first_array_well_formed :
    ((Machine.bare {}).heap.get Intrinsics.first.arrayPrototype).WellFormedArray Object.maxWord :=
  Object.well_formed_of_elements Intrinsics.first.objectPrototype
    (show ([] : List Value).length ≤ Object.maxWord from Nat.zero_le _)

/-! ## Two paths -/

namespace Machine

/-- The definition of a value with flags where the length of an array is converted and checked. -/
def defineChecked (m : Machine) (engine : Engine) (id : ObjectId) (key : String) (v : Value)
    (a : Attributes) : Except Abrupt Bool × Machine :=
  m.run (defineProperty engine id key (.data v a) false)

/-- The definition of a value with flags where the length of an array may be any value. -/
def defineRaw (m : Machine) (id : ObjectId) (key : String) (v : Value) (a : Attributes) :
    Except Abrupt Bool × Machine :=
  m.run (defineUnchecked id key (.data v a))

variable {m : Machine} {engine : Engine} {id : ObjectId} {key : String} {v : Value} {a : Attributes}

theorem define_raw_eq (m : Machine) (id : ObjectId) (key : String) (v : Value) (a : Attributes) :
    m.defineRaw id key v a =
      (.ok ((m.heap.get id).define key (.data v a)).1,
        { m with heap := m.heap.set id ((m.heap.get id).define key (.data v a)).2 }) :=
  rfl

/-- What the checked path comes to for a primitive value. -/
theorem define_checked_eq (primitive : v.isObject = false) :
    m.defineChecked engine id key v a =
      if (m.heap.get id).isArray && key == Object.lengthKey then
        if v.asLength.eq v.primitiveToNumber then m.defineRaw id key (.number v.asLength) a
        else m.run (throwFault .arrayLength)
      else m.defineRaw id key v a := by
  have number : m.run (toNumber engine v) = (.ok v.primitiveToNumber, m) := by
    cases v with
    | object => cases primitive
    | _ => rfl
  unfold defineChecked defineProperty
  dsimp only
  rw [run_bind_ok (run_ask ..)]
  have rest (patch : PropertyPatch) :
      m.run (updateObject id (·.define key patch) >>= fun accepted =>
        if (!accepted && false) = true then throwFault (.redefinition key) >>= fun _ : Unit => pure accepted
        else pure accepted) = m.run (defineUnchecked id key patch) := by
    simp only [Bool.and_false, Bool.false_eq_true, if_false, bind_pure]
    rfl
  by_cases checked : ((m.heap.get id).isArray && key == Object.lengthKey) = true
  · rw [if_pos checked, if_pos checked, check_length_bind]
    simp only [PropertyPatch.data]
    rw [run_bind_ok number]
    by_cases valid : v.asLength.eq v.primitiveToNumber = true
    · rw [if_pos valid]
      exact (congrArg m.run (if_pos valid)).trans (rest _)
    · rw [if_neg valid]
      exact congrArg m.run (if_neg valid)
  · rw [if_neg checked, if_neg checked, pure_bind]
    exact rest _

/-- An error leaves the objects that are there as they are. -/
theorem get_after_fault {α : Type} (m : Machine) (fault : Fault) (there : id.index < m.heap.objects.size) :
    (m.run (throwFault fault : Eval α)).2.heap.get id = m.heap.get id :=
  Heap.get_add_of_lt _ there

theorem get_after_raw (there : id.index < m.heap.objects.size) :
    (m.defineRaw id key v a).2.heap.get id = ((m.heap.get id).define key (.data v a)).2 := by
  rw [define_raw_eq, Heap.get_set_self _ there]

theorem well_formed_after_raw (there : id.index < m.heap.objects.size)
    (formed : (m.heap.get id).WellFormedArray Object.maxWord) :
    ((m.defineRaw id key v a).2.heap.get id).WellFormedArray Object.maxWord ↔
      ¬(key = Object.lengthKey ∧ ¬v.IsLength ∧ (m.heap.get id).Takes v (.data v a)) := by
  rw [get_after_raw there]
  exact Object.well_formed_define_iff formed rfl key

/-- The path that checks leaves an array as it should be. -/
theorem well_formed_after_checked (primitive : v.isObject = false) (there : id.index < m.heap.objects.size)
    (formed : (m.heap.get id).WellFormedArray Object.maxWord) :
    ((m.defineChecked engine id key v a).2.heap.get id).WellFormedArray Object.maxWord := by
  rw [define_checked_eq primitive]
  by_cases isLength : key = Object.lengthKey
  · rw [if_pos (by simp [formed.array, isLength])]
    by_cases valid : v.asLength.eq v.primitiveToNumber = true
    · rw [if_pos valid, well_formed_after_raw there formed]
      exact fun bad => bad.2.1 (Value.is_length_of_word _)
    · rw [if_neg valid, get_after_fault m _ there]
      exact formed
  · rw [if_neg (by simp [isLength]), well_formed_after_raw there formed]
    exact fun bad => isLength bad.1

/-- The two paths are the same, except for the length of an array and a value that cannot be one. Such a value
is converted or refused with an error by the path that checks, which always leaves an array as it should
be. The other path accepts it exactly if the length may be replaced and no element stays that the value, as a
number, would not cover; it then makes the value itself the length, which leaves an array that is not as it
should be and not as the other path leaves it. -/
theorem define_paths_agree (m : Machine) (engine : Engine) (id : ObjectId) (key : String) (v : Value)
    (a : Attributes) (primitive : v.isObject = false) (there : id.index < m.heap.objects.size)
    (formed : (m.heap.get id).isArray → (m.heap.get id).WellFormedArray Object.maxWord) :
    (((m.heap.get id).isArray → key = Object.lengthKey → v.IsLength) →
      m.defineChecked engine id key v a = m.defineRaw id key v a) ∧
    ((m.heap.get id).isArray →
      ((m.defineChecked engine id key v a).2.heap.get id).WellFormedArray Object.maxWord ∧
      (((m.defineRaw id key v a).2.heap.get id).WellFormedArray Object.maxWord ↔
        ¬(key = Object.lengthKey ∧ ¬v.IsLength ∧ (m.heap.get id).Takes v (.data v a)))) ∧
    ((m.heap.get id).isArray → key = Object.lengthKey → ¬v.IsLength →
      m.defineChecked engine id key v a =
        (if v.asLength.eq v.primitiveToNumber then m.defineRaw id key (.number v.asLength) a
          else m.run (throwFault .arrayLength)) ∧
      ((m.defineRaw id key v a).1 = .ok true ↔ (m.heap.get id).Takes v (.data v a)) ∧
      ((m.heap.get id).Takes v (.data v a) →
        ((m.defineRaw id key v a).2.heap.get id).properties.find? Object.lengthKey =
          some ⟨.data v a.writable, false, false⟩ ∧
        (m.defineChecked engine id key v a).2.heap.get id ≠ (m.defineRaw id key v a).2.heap.get id)) := by
  have paths : m.defineChecked engine id key v a =
      if (m.heap.get id).isArray && key == Object.lengthKey then
        if v.asLength.eq v.primitiveToNumber then m.defineRaw id key (.number v.asLength) a
        else m.run (throwFault .arrayLength)
      else m.defineRaw id key v a := define_checked_eq primitive
  refine ⟨fun length => ?_, fun array => ?_, fun array isLength notLength => ?_⟩
  · by_cases checked : ((m.heap.get id).isArray && key == Object.lengthKey) = true
    · have both : (m.heap.get id).isArray = true ∧ key = Object.lengthKey := by simpa using checked
      obtain ⟨same, valid⟩ := Value.as_length_of_length (length both.1 both.2)
      rw [paths, if_pos checked, if_pos valid, same]
    · rw [paths, if_neg checked]
  · exact ⟨well_formed_after_checked primitive there (formed array), well_formed_after_raw there (formed array)⟩
  · subst isLength
    have given : (PropertyPatch.data v a).value = some v := rfl
    obtain ⟨accepts, found⟩ := Object.define_any_length (formed array) given notLength
    have raw : (m.defineRaw id Object.lengthKey v a).1 = .ok true ↔
        (m.heap.get id).Takes v (.data v a) := by
      rw [define_raw_eq, ← accepts, Except.ok.injEq]
    refine ⟨by rw [paths, if_pos (by simp [array])], raw, fun takes => ⟨?_, fun same => ?_⟩⟩
    · rw [get_after_raw there, found (accepts.2 takes)]
      have flag : (some a.writable != some false) = a.writable := by cases a.writable <;> rfl
      rw [PropertyPatch.data, flag]
    · have whole : ((m.defineChecked engine id Object.lengthKey v a).2.heap.get id).WellFormedArray Object.maxWord :=
        well_formed_after_checked primitive there (formed array)
      rw [same, well_formed_after_raw there (formed array)] at whole
      exact whole ⟨rfl, notLength, takes⟩

end Machine

/-- In a new engine, a text becomes the length of the first array on one path only. -/
theorem first_array_paths_differ :
    ((Machine.bare {}).defineRaw Intrinsics.first.arrayPrototype Object.lengthKey (.string "1.5") .none).1 =
      .ok true ∧
    ¬(((Machine.bare {}).defineRaw Intrinsics.first.arrayPrototype Object.lengthKey (.string "1.5")
      .none).2.heap.get Intrinsics.first.arrayPrototype).WellFormedArray Object.maxWord ∧
    (((Machine.bare {}).defineChecked (engineAt 0) Intrinsics.first.arrayPrototype Object.lengthKey
      (.string "1.5") .none).2.heap.get Intrinsics.first.arrayPrototype).WellFormedArray Object.maxWord := by
  have empty : ((Machine.bare {}).heap.get Intrinsics.first.arrayPrototype).WellFormedArray Object.maxWord :=
    Object.well_formed_of_elements Intrinsics.first.objectPrototype
      (show ([] : List Value).length ≤ Object.maxWord from Nat.zero_le _)
  obtain ⟨_, whole, raw⟩ := Machine.define_paths_agree (Machine.bare {}) (engineAt 0)
    Intrinsics.first.arrayPrototype Object.lengthKey (.string "1.5") .none rfl (by decide) fun _ => empty
  have notLength : ¬(Value.string "1.5").IsLength := by
    rintro ⟨n, _, same⟩
    cases same
  have takes : ((Machine.bare {}).heap.get Intrinsics.first.arrayPrototype).Takes (.string "1.5")
      (.data (.string "1.5") .none) :=
    ⟨⟨rfl, by decide, by decide⟩, fun _ _ same => by cases same⟩
  obtain ⟨checked, broken⟩ := whole rfl
  have accepted := ((raw rfl rfl notLength).2.1).2 takes
  refine ⟨accepted, fun still => ?_, checked⟩
  exact broken.1 still ⟨rfl, notLength, takes⟩

end ScriptEngine
