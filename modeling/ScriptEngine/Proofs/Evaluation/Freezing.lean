import ScriptEngine.Library.Run
import ScriptEngine.Proofs.Evaluation.Writing
import ScriptEngine.Proofs.Object.Restriction

/-!
Freezing and sealing objects of a running engine. Either ends well, whatever the object, and the object then
passes the test for it; and the objects that pass are exactly those of which no request changes a property,
or which properties there are and what they are like.
-/

namespace ScriptEngine

/-! ## Restricting all properties -/

namespace Object

variable {o between after : Object} {key : String} {names more : List String} {freezes : Bool} {p : Property}

/-- What an object is after its own properties of some names have been restricted. -/
structure RestrictedUnder (o : Object) (names : List String) (freezes : Bool) (after : Object) : Prop where
  formed : after.isArray → after.WellFormedArray maxWord
  keys : after.ownKeys = o.ownKeys
  own : ∀ key, after.getOwn? key =
    if key ∈ names then (o.getOwn? key).map (·.restricted freezes) else o.getOwn? key

theorem restricted_under_none (formed : o.isArray → o.WellFormedArray maxWord) (freezes : Bool) :
    o.RestrictedUnder [] freezes o :=
  ⟨formed, rfl, fun _ => (if_neg List.not_mem_nil).symm⟩

theorem restricted_under_append (early : o.RestrictedUnder names freezes between)
    (late : between.RestrictedUnder more freezes after) : o.RestrictedUnder (names ++ more) freezes after where
  formed := late.formed
  keys := late.keys.trans early.keys
  own key := by
    rw [late.own, early.own]
    by_cases first : key ∈ names <;> by_cases second : key ∈ more <;>
      simp [first, second, restricted_twice, Function.comp_def]

/-- One property restricted. -/
theorem restricted_under_define (formed : o.isArray → o.WellFormedArray maxWord) (own : o.getOwn? key = some p)
    (freezes : Bool) : o.RestrictedUnder [key] freezes (o.define key (Library.restriction p freezes)).2 := by
  obtain ⟨_, now⟩ := define_restriction formed own freezes
  have still (array : (o.define key (Library.restriction p freezes)).2.isArray) : o.isArray := by
    simpa [isArray, define_kind] using array
  refine ⟨fun array => ?_, ?_, fun other => ?_⟩
  · exact well_formed_define (Nat.le_refl _) (formed (still array)) fun _ _ given => by cases given
  · refine own_keys_of_same (.define key (Library.restriction p freezes)) fun other => ?_
    rw [Operation.apply, now]
    split
    · rename_i same
      rw [← same, own]
      rfl
    · rfl
  · rw [now]
    by_cases same : key = other
    · subst same
      simp [own]
    · simp [same, Ne.symm same]

end Object

namespace Machine

variable {m : Machine} {id : ObjectId}

/-- The property of one name is restricted, if there is one. -/
theorem run_restrict_one (engine : Engine)
    (formed : (m.heap.get id).isArray → (m.heap.get id).WellFormedArray Object.maxWord) (key : String) (freezes : Bool) :
    ∃ after, (m.heap.get id).RestrictedUnder [key] freezes after ∧
      m.run (do
        match (← getObject id).getOwn? key with
        | none => return
        | some p => discard (defineProperty engine id key (Library.restriction p freezes) true)) =
        (.ok (), m.withObject id after) := by
  cases own : (m.heap.get id).getOwn? key with
  | none =>
    refine ⟨m.heap.get id, ⟨formed, rfl, fun other => ?_⟩, ?_⟩
    · split
      · rename_i same
        rw [List.mem_singleton.1 same, own]
        rfl
      · rfl
    · rw [run_bind_ok (run_get_object ..), own, with_object_self]
      rfl
  | some p =>
    obtain ⟨accepted, _⟩ := Object.define_restriction formed own freezes
    refine ⟨_, Object.restricted_under_define formed own freezes, ?_⟩
    have defined : m.run (defineProperty engine id key (Library.restriction p freezes) true) =
        (.ok true, m.withObject id ((m.heap.get id).define key (Library.restriction p freezes)).2) := by
      rw [run_define_property fun _ _ => rfl, Machine.defined]
      dsimp only
      rw [accepted]
      rfl
    rw [run_bind_ok (run_get_object ..), own]
    dsimp only
    rw [run_discard, defined]
    rfl

/-- The properties of all names of a list are restricted, one after the other. -/
theorem run_restrict_each (engine : Engine) (there : id.index < m.heap.objects.size)
    (formed : (m.heap.get id).isArray → (m.heap.get id).WellFormedArray Object.maxWord) (names : List String)
    (freezes : Bool) :
    ∃ after, (m.heap.get id).RestrictedUnder names freezes after ∧
      m.run (names.forM fun key => do
        match (← getObject id).getOwn? key with
        | none => return
        | some p => discard (defineProperty engine id key (Library.restriction p freezes) true)) =
        (.ok (), m.withObject id after) := by
  induction names generalizing m with
  | nil => exact ⟨m.heap.get id, Object.restricted_under_none formed freezes, by rw [with_object_self]; rfl⟩
  | cons key rest ih =>
    obtain ⟨between, first, ran⟩ := run_restrict_one engine formed key freezes
    have now : (m.withObject id between).heap.get id = between := Heap.get_set_self between there
    obtain ⟨after, others, ranOn⟩ := @ih (m.withObject id between) (by simpa [withObject] using there)
      (by rw [now]; exact first.formed)
    rw [now] at others
    refine ⟨after, Object.restricted_under_append first others, ?_⟩
    rw [List.forM, run_bind_ok ran, ranOn, with_object_twice]

end Machine

/-! ## Freezing and sealing -/

/-- What an object is after it has been sealed, or frozen as well: every property is as restricted as that, and
none can be added. -/
structure Object.RestrictedTo (o : Object) (freezes : Bool) (after : Object) : Prop where
  closed : after.extensible = false
  keys : after.ownKeys = o.ownKeys
  own : ∀ key, after.getOwn? key = (o.getOwn? key).map (·.restricted freezes)

/-- A restricted object passes the test for its restrictions. -/
theorem Object.is_restricted_to {o after : Object} {freezes : Bool} (restricted : o.RestrictedTo freezes after) :
    Library.isRestricted after freezes = true := by
  refine restricted_iff.2 ⟨restricted.closed, fun key p own => ?_⟩
  rw [restricted.own, Option.map_eq_some_iff] at own
  obtain ⟨was, _, rfl⟩ := own
  exact ⟨rfl, fun freezes => freezes ▸ restricted_writable was⟩

variable {m : Machine} {id : ObjectId}

/-- An object is restricted without an error, and nothing else is changed. -/
theorem run_restrict_object (engine : Engine) (there : id.index < m.heap.objects.size)
    (formed : (m.heap.get id).isArray → (m.heap.get id).WellFormedArray Object.maxWord) (function : String)
    (freezes : Bool) (rest : List Value) :
    ∃ o, (m.heap.get id).RestrictedTo freezes o ∧
      m.run (Library.restrictObject engine function freezes (.object id :: rest)) =
        (.ok (.object id), m.withObject id o) := by
  obtain ⟨each, restricted, ran⟩ :=
    Machine.run_restrict_each engine there formed (m.heap.get id).ownKeys freezes
  refine ⟨each.preventExtensions, ⟨rfl, restricted.keys, fun key => ?_⟩, ?_⟩
  · have own : each.preventExtensions.getOwn? key = each.getOwn? key := rfl
    rw [own, restricted.own]
    split
    · rfl
    · rename_i unlisted
      have absent : (m.heap.get id).getOwn? key = none := by
        rw [← Option.not_isSome_iff_eq_none]
        intro own
        obtain ⟨p, found⟩ := Option.isSome_iff_exists.1 own
        exact unlisted (Object.mem_own_keys found)
      rw [absent, Option.map_none]
  · have now : (m.withObject id each).heap.get id = each := Heap.get_set_self each there
    have closed : (m.withObject id each).run (modifyObject id (·.preventExtensions)) =
        (.ok (), m.withObject id each.preventExtensions) := by
      rw [modifyObject, Machine.run_update_object]
      dsimp only
      rw [now]
      exact congrArg (Prod.mk _) (Machine.with_object_twice m id each _)
    have all : m.run (Library.restrict engine id freezes) = (.ok (), m.withObject id each.preventExtensions) := by
      unfold Library.restrict
      rw [Machine.run_bind_ok (Machine.run_get_object ..)]
      exact (Machine.run_bind_ok ran _).trans closed
    unfold Library.restrictObject
    rw [Machine.run_bind_ok (rfl : m.run (Library.requireObject _ _) = (.ok id, m)), Machine.run_bind_ok all]
    rfl

/-! ## Requests to restricted objects -/

/-- A request that calls no function instead of writing a value. -/
def PropertyRequest.AsData (m : Machine) (id : ObjectId) (request : PropertyRequest) : Prop :=
  match request with
  | put key _ _ => ∀ p, m.heap.found? id key = some p → p.isData
  | define .. | delete .. => True

theorem object_after_delete {engine : Engine} (there : id.index < m.heap.objects.size) (key : String) :
    (afterRequests engine id [.delete key false] m).heap.get id = ((m.heap.get id).delete key).2 := by
  have ran : m.run (deleteProperty id key false) =
      (.ok ((m.heap.get id).delete key).1, m.withObject id ((m.heap.get id).delete key).2) := by
    unfold deleteProperty
    rw [Machine.run_bind_ok (Machine.run_update_object ..)]
    simp only [Bool.and_false, Bool.false_eq_true, if_false]
    rfl
  change (m.run (discard (deleteProperty id key false))).2.heap.get id = _
  rw [Machine.run_discard, ran]
  exact Heap.get_set_self _ there

/-- An object is frozen exactly if no request changes it. -/
theorem frozen_iff_unchanged (steps : Nat) (there : id.index < m.heap.objects.size)
    (formed : (m.heap.get id).isArray → (m.heap.get id).WellFormedArray Object.maxWord) :
    Library.isRestricted (m.heap.get id) true = true ↔ ∀ request : PropertyRequest, request.AsData m id →
      (m.heap.get id).Unchanged ((afterRequests (engineAt steps) id [request] m).heap.get id) := by
  constructor
  · intro frozen request _
    exact Object.unchanged_of_changes (Object.steady_of_formed formed) frozen
      (changes_after_requests steps there [request]).2
  · intro unchanged
    by_contra unfrozen
    rcases Object.exists_change formed (by simpa using unfrozen) with ⟨key, patch, unvalued, differs⟩ | ⟨key, differs⟩
    · have same := unchanged (.define key patch false) trivial
      rw [object_after_define unvalued there] at same
      exact differs same
    · have same := unchanged (.delete key false) trivial
      rw [object_after_delete there] at same
      exact differs same

/-- An object is sealed exactly if no request changes what properties there are and what they are like. -/
theorem sealed_iff_same_shapes (steps : Nat) (there : id.index < m.heap.objects.size)
    (formed : (m.heap.get id).isArray → (m.heap.get id).WellFormedArray Object.maxWord) :
    Library.isRestricted (m.heap.get id) false = true ↔ ∀ request : PropertyRequest, request.AsData m id →
      (m.heap.get id).SameShapes ((afterRequests (engineAt steps) id [request] m).heap.get id) := by
  constructor
  · intro isSealed request _
    exact Object.same_shapes_of_changes (Object.steady_of_formed formed) isSealed
      (changes_after_requests steps there [request]).2
  · intro same
    by_contra unsealed
    rcases Object.exists_reshaping (by simpa using unsealed) with ⟨key, differs⟩ | ⟨key, differs⟩
    · have shapes := same (.define key {} false) trivial
      rw [object_after_define rfl there] at shapes
      exact differs shapes
    · have shapes := same (.delete key false) trivial
      rw [object_after_delete there] at shapes
      exact differs shapes

/-- Freezing and sealing an object end well and make it pass the test for it: every property is as restricted as
that, and nothing else is changed. The objects that pass the test for being frozen are those of which no
request to write, define or delete a property changes anything, and the ones that pass the test for being
sealed are those to which none adds a property, of which none removes one or changes its kind, or whether loops
see it and it can be configured. -/
theorem restrictions_characterized (steps : Nat) (m : Machine) (id : ObjectId)
    (there : id.index < m.heap.objects.size)
    (formed : (m.heap.get id).isArray → (m.heap.get id).WellFormedArray Object.maxWord) :
    (∀ (this : Value) (rest : List Value), ∃ o, (m.heap.get id).RestrictedTo true o ∧
      m.run (Library.run (engineAt steps) .freeze this (.object id :: rest)) = (.ok (.object id), m.withObject id o) ∧
      (m.withObject id o).run (Library.run (engineAt steps) .isFrozen this (.object id :: rest)) =
        (.ok (.boolean true), m.withObject id o)) ∧
    (∀ (this : Value) (rest : List Value), ∃ o, (m.heap.get id).RestrictedTo false o ∧
      m.run (Library.run (engineAt steps) .seal this (.object id :: rest)) = (.ok (.object id), m.withObject id o) ∧
      (m.withObject id o).run (Library.run (engineAt steps) .isSealed this (.object id :: rest)) =
        (.ok (.boolean true), m.withObject id o)) ∧
    (Library.isRestricted (m.heap.get id) true = true ↔ ∀ request : PropertyRequest, request.AsData m id →
      (m.heap.get id).Unchanged ((afterRequests (engineAt steps) id [request] m).heap.get id)) ∧
    (Library.isRestricted (m.heap.get id) false = true ↔ ∀ request : PropertyRequest, request.AsData m id →
      (m.heap.get id).SameShapes ((afterRequests (engineAt steps) id [request] m).heap.get id)) := by
  have tested {freezes : Bool} {o : Object} (restricted : (m.heap.get id).RestrictedTo freezes o) (function : String)
      (rest : List Value) : (m.withObject id o).run (Library.testRestricted function freezes (.object id :: rest)) =
        (.ok (.boolean true), m.withObject id o) := by
    have now : (m.withObject id o).heap.get id = o := Heap.get_set_self o there
    have tested : (m.withObject id o).run (Library.testRestricted function freezes (.object id :: rest)) =
        (.ok (.boolean (Library.isRestricted ((m.withObject id o).heap.get id) freezes)), m.withObject id o) := rfl
    rw [tested, now, Object.is_restricted_to restricted]
  refine ⟨fun this rest => ?_, fun this rest => ?_, frozen_iff_unchanged steps there formed,
    sealed_iff_same_shapes steps there formed⟩
  · obtain ⟨o, restricted, ran⟩ := run_restrict_object (engineAt steps) there formed "Object.freeze" true rest
    exact ⟨o, restricted, ran, tested restricted "Object.isFrozen" rest⟩
  · obtain ⟨o, restricted, ran⟩ := run_restrict_object (engineAt steps) there formed "Object.seal" false rest
    exact ⟨o, restricted, ran, tested restricted "Object.isSealed" rest⟩

/-- An array with an element behind a hole. -/
def holedArray : Object :=
  ((Object.ofElements Intrinsics.first.arrayPrototype []).define "1" (.data (.string "a") .all)).2

theorem holed_array_formed : holedArray.WellFormedArray Object.maxWord :=
  Object.well_formed_define (Nat.le_refl _) (Object.well_formed_of_elements _ (Nat.zero_le _)) fun is => by
    exact absurd is (by decide)

/-- An engine to whose objects such an array was added, and where it is. -/
def withHoledArray : ObjectId × Machine :=
  (⟨firstObjects.length⟩, { Machine.bare {} with heap := ((Machine.bare {}).heap.add holedArray).2 })

/-- Such an array can be frozen: its element becomes read-only and its hole stays one. Before, it is not frozen, since
some request changes it. -/
theorem holed_array_frozen :
    (∃ o, withHoledArray.2.run (Library.run (engineAt 0) .freeze .undefined [.object withHoledArray.1]) =
        (.ok (.object withHoledArray.1), withHoledArray.2.withObject withHoledArray.1 o) ∧
      o.extensible = false ∧ o.ownKeys = ["length", "1"] ∧
      o.getOwn? "0" = none ∧ o.getOwn? "1" = some ⟨.data (.string "a") false, true, false⟩ ∧
      o.getOwn? "length" = some ⟨.data (.ofNat 2) false, false, false⟩) ∧
    ∃ request : PropertyRequest, ¬(withHoledArray.2.heap.get withHoledArray.1).Unchanged
      ((afterRequests (engineAt 0) withHoledArray.1 [request] withHoledArray.2).heap.get withHoledArray.1) := by
  have placed : withHoledArray.2.heap.get withHoledArray.1 = holedArray := Heap.get_add_self _ _
  obtain ⟨freezes, _, frozen, _⟩ := restrictions_characterized 0 withHoledArray.2 withHoledArray.1 (by decide)
    fun _ => placed ▸ holed_array_formed
  obtain ⟨o, restricted, ran, _⟩ := freezes .undefined []
  rw [placed] at restricted frozen ⊢
  refine ⟨⟨o, ran, restricted.closed, ?_, ?_, ?_, ?_⟩, ?_⟩
  · rw [restricted.keys]
    decide
  · rw [restricted.own]
    decide
  · rw [restricted.own]
    decide
  · rw [restricted.own]
    decide
  · by_contra none_changes
    have unchanged := frozen.2 fun request _ => by
      by_contra changes
      exact none_changes ⟨request, changes⟩
    exact absurd unchanged (by decide)

end ScriptEngine
