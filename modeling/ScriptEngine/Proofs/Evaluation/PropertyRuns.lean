import ScriptEngine.Proofs.Evaluation.HeapHistory
import ScriptEngine.Proofs.Evaluation.Outcome
import ScriptEngine.Proofs.Object.AnyLength
import ScriptEngine.Proofs.Orderly.Values
import ScriptEngine.Realm

/-!
Sequences of requests to one object: writing, defining and removing its properties. Each may be refused,
throw or be cut short on the way, and functions of scripts that it calls may do anything in between.
Whatever happens, what cannot be undone stays: for every object but an array whose length is no number.

A single definition where there is no length to be checked runs nothing on the way: the object is what the definition
makes of it, and a refusal is reported or thrown.
-/

namespace ScriptEngine

/-! ## Single definitions -/

/-- An object that takes its own place. -/
theorem Heap.set_get_self (h : Heap) (id : ObjectId) : h.set id (h.get id) = h := by
  obtain ⟨objects⟩ := h
  apply congrArg Heap.mk
  apply Array.ext (Array.size_setIfInBounds ..)
  intro i here there
  rw [Array.getElem_setIfInBounds]
  split
  · rename_i same
    simp [get, Array.getD_eq_getD_getElem?, same, there]
  · rfl

namespace Machine

variable {m : Machine} {engine : Engine} {id : ObjectId} {key : String} {patch : PropertyPatch} {throws : Bool}

/-- The machine with another object at an address. -/
def withObject (m : Machine) (id : ObjectId) (o : Object) : Machine :=
  { m with heap := m.heap.set id o }

@[simp] theorem with_object_self (m : Machine) (id : ObjectId) : m.withObject id (m.heap.get id) = m := by
  rw [withObject, Heap.set_get_self]

/-- An object replaced twice is the last one. -/
theorem with_object_twice (m : Machine) (id : ObjectId) (first second : Object) :
    (m.withObject id first).withObject id second = m.withObject id second := by
  simp [withObject, Heap.set]

/-- What comes of a definition without a check. -/
def defined (m : Machine) (id : ObjectId) (key : String) (patch : PropertyPatch) (throws : Bool) :
    Except Abrupt Bool × Machine :=
  match (m.heap.get id).define key patch with
  | (accepted, o) =>
    if !accepted && throws then (m.withObject id o).run (throwFault (.redefinition key))
    else (.ok accepted, m.withObject id o)

/-- A definition is done, and then reported. -/
theorem run_define_reported (m : Machine) (id : ObjectId) (key : String) (patch : PropertyPatch) (throws : Bool) :
    m.run (updateObject id (·.define key patch) >>= fun accepted =>
      if (!accepted && throws) = true then throwFault (.redefinition key) >>= fun _ : Unit => pure accepted
      else pure accepted) = m.defined id key patch throws := by
  rw [run_bind_ok (run_update_object ..)]
  unfold defined withObject
  cases (m.heap.get id).define key patch with
  | mk accepted o => cases accepted <;> cases throws <;> rfl

/-- Where there is no length to be checked. -/
theorem run_define_property
    (free : (m.heap.get id).isArray → key = Object.lengthKey → patch.value = none) :
    m.run (defineProperty engine id key patch throws) = m.defined id key patch throws := by
  unfold defineProperty
  dsimp only
  rw [run_bind_ok (run_ask ..)]
  by_cases checked : ((m.heap.get id).isArray && key == Object.lengthKey) = true
  · have both : (m.heap.get id).isArray = true ∧ key = Object.lengthKey := by simpa using checked
    rw [if_pos checked, check_length_bind, free both.1 both.2]
    exact run_define_reported ..
  · rw [if_neg checked, pure_bind]
    exact run_define_reported ..

end Machine

/-! ## Sequences of requests -/

/-- What may be asked of an object. -/
inductive PropertyRequest where
  | put (key : String) (value : Value) (throws : Bool)
  | define (key : String) (patch : PropertyPatch) (throws : Bool)
  | delete (key : String) (throws : Bool)

namespace PropertyRequest

/-- Does what is asked of an object. -/
def perform (engine : Engine) (id : ObjectId) : PropertyRequest → Eval Unit
  | put key value throws => putProperty engine id key value throws
  | define key patch throws => discard (defineProperty engine id key patch throws)
  | delete key throws => discard (deleteProperty id key throws)

theorem orderly_perform {t : Terms} {own : Rights} {moves : Bool} (id : ObjectId)
    (request : PropertyRequest) : Orderly t own moves fun E => request.perform E id := by
  cases request with
  | put key value throws => exact orderly_put_property ..
  | define key patch throws => exact .discard (orderly_define_property ..)
  | delete key throws => exact .discard (orderly_delete_property ..)

end PropertyRequest

/-- The state after requests to an object, one after the other, whatever comes of each. -/
def afterRequests (engine : Engine) (id : ObjectId) (requests : List PropertyRequest) (m : Machine) :
    Machine :=
  m.afterAll (requests.map (·.perform engine id))

variable {m : Machine} {id : ObjectId}

theorem after_requests_append (engine : Engine) (first rest : List PropertyRequest) (m : Machine) :
    afterRequests engine id (first ++ rest) m =
      afterRequests engine id rest (afterRequests engine id first m) := by
  simp only [afterRequests, Machine.afterAll, List.map_append, List.foldl_append]

theorem changes_after_requests (steps : Nat) (there : id.index < m.heap.objects.size)
    (requests : List PropertyRequest) :
    id.index < (afterRequests (engineAt steps) id requests m).heap.objects.size ∧
      Object.Changes (m.heap.get id) ((afterRequests (engineAt steps) id requests m).heap.get id) :=
  changes_after_all (fun E => PropertyRequest.perform E id) (PropertyRequest.orderly_perform id)
    steps requests there

/-! ## Definitions that mention no value -/

/-- Where no value is mentioned there is nothing to check. -/
theorem heap_after_define {engine : Engine} {key : String} {patch : PropertyPatch}
    (unvalued : patch.value = none) :
    (m.run ((PropertyRequest.define key patch false).perform engine id)).2.heap =
      m.heap.set id ((m.heap.get id).define key patch).2 := by
  change (m.run (discard (defineProperty engine id key patch false))).2.heap = _
  rw [Machine.run_discard, Machine.run_define_property fun _ _ => unvalued, Machine.defined]
  simp only [Bool.and_false, Bool.false_eq_true, if_false]
  rfl

theorem object_after_define {engine : Engine} {key : String} {patch : PropertyPatch}
    (unvalued : patch.value = none) (there : id.index < m.heap.objects.size) :
    (afterRequests engine id [.define key patch false] m).heap.get id =
      ((m.heap.get id).define key patch).2 := by
  change (m.run ((PropertyRequest.define key patch false).perform engine id)).2.heap.get id = _
  rw [heap_after_define unvalued, Heap.get_set_self _ there]

/-! ## What stays -/

/-- What an object keeps through any requests, as long as its length is a number or it is shut. -/
theorem keeps_after_requests (steps : Nat) (there : id.index < m.heap.objects.size)
    (steady : (m.heap.get id).Steady) (first rest : List PropertyRequest) :
    ((afterRequests (engineAt steps) id first m).heap.get id).Keeps
      ((afterRequests (engineAt steps) id (first ++ rest) m).heap.get id) := by
  obtain ⟨still, before⟩ := changes_after_requests steps there first
  obtain ⟨_, after⟩ := changes_after_requests steps still rest
  rw [after_requests_append]
  exact (Object.keeps_changes after (Object.keeps_changes before steady).2).1

/-- An element that takes the place of a read-only length. -/
theorem breaks_after_requests (steps : Nat) (there : id.index < m.heap.objects.size)
    (array : (m.heap.get id).isArray) {value : Value} (has : (m.heap.get id).HasAnyLength value)
    (other : ∀ n, value ≠ .number n) {key : String} {index : Nat} (isIndex : arrayIndex? key = some index)
    (room : (m.heap.get id).extensible ∨ ((m.heap.get id).getOwn? key).isSome) :
    ∃ first rest : List PropertyRequest,
      ¬((afterRequests (engineAt steps) id first m).heap.get id).Keeps
        ((afterRequests (engineAt steps) id (first ++ rest) m).heap.get id) := by
  obtain ⟨writable, enumerable, found⟩ := has
  let frozen : PropertyRequest := .define Object.lengthKey { writable := some false } false
  let element : PropertyRequest := .define key {} false
  obtain ⟨length, extensible, others⟩ := Object.define_length_read_only array found
  -- The length is read-only in between, and the element still replaces it.
  refine ⟨[frozen], [element], ?_⟩
  have still := (changes_after_requests steps there [frozen]).1
  have same : ((m.heap.get id).define Object.lengthKey { writable := some false }).2.isArray := by
    simpa [Object.isArray, Object.define_kind] using array
  rw [after_requests_append, object_after_define rfl still, object_after_define rfl there]
  refine Object.define_element_breaks same isIndex ?_ length other
  rw [extensible, Object.get_own_array same, others key (Ne.symm (Object.ne_length_of_index isIndex)),
    ← Object.get_own_array array]
  exact room

/-- If no requests make an array lose anything although its length is no number, the array is shut. -/
theorem shut_of_requests (steps : Nat) (there : id.index < m.heap.objects.size)
    (array : (m.heap.get id).isArray) {value : Value} (has : (m.heap.get id).HasAnyLength value)
    (other : ∀ n, value ≠ .number n)
    (keeps : ∀ first rest : List PropertyRequest,
      ((afterRequests (engineAt steps) id first m).heap.get id).Keeps
        ((afterRequests (engineAt steps) id (first ++ rest) m).heap.get id)) :
    (m.heap.get id).Shut where
  closed := by
    cases extensible : (m.heap.get id).extensible with
    | false => rfl
    | true =>
      have first : arrayIndex? (indexKey 0) = some 0 := by decide
      obtain ⟨early, late, breaks⟩ :=
        breaks_after_requests steps there array has other first (.inl extensible)
      exact absurd (keeps early late) breaks
  empty key index isIndex := by
    cases own : (m.heap.get id).getOwn? key with
    | none => rfl
    | some p =>
      have room : ((m.heap.get id).getOwn? key).isSome := by rw [own, Option.isSome_some]
      obtain ⟨early, late, breaks⟩ :=
        breaks_after_requests steps there array has other isIndex (.inr room)
      exact absurd (keeps early late) breaks

/-- From any moment of a sequence of requests to any later one an object keeps its properties that cannot
be configured, with their flags, their kind, their functions and a read-only value, and it gets no new
ones when it cannot be extended. This holds of every object but arrays, and of an array, whose length can
never be configured, exactly if the length is a number or there are no elements and can be none: any other
length can be made read-only, and an element then takes its place. -/
theorem fixed_properties_last (steps : Nat) (m : Machine) (id : ObjectId)
    (there : id.index < m.heap.objects.size) :
    ((m.heap.get id).isArray = false → ∀ first rest : List PropertyRequest,
      ((afterRequests (engineAt steps) id first m).heap.get id).Keeps
        ((afterRequests (engineAt steps) id (first ++ rest) m).heap.get id)) ∧
    ∀ value, (m.heap.get id).isArray → (m.heap.get id).HasAnyLength value →
      ((∀ first rest : List PropertyRequest,
        ((afterRequests (engineAt steps) id first m).heap.get id).Keeps
          ((afterRequests (engineAt steps) id (first ++ rest) m).heap.get id)) ↔
        (∃ n, value = .number n) ∨ (m.heap.get id).Shut) := by
  constructor
  · intro ordinary first rest
    refine keeps_after_requests steps there (.inl fun array => ?_) first rest
    rw [ordinary] at array
    cases array
  · intro value array has
    constructor
    · intro keeps
      by_cases number : ∃ n, value = .number n
      · exact .inl number
      have other (n : Number) : value ≠ .number n := fun same => number ⟨n, same⟩
      exact .inr (shut_of_requests steps there array has other keeps)
    · rintro (⟨n, rfl⟩ | shut) first rest
      · obtain ⟨writable, enumerable, found⟩ := has
        exact keeps_after_requests steps there (.inl (Object.length_is_number_of_has found)) first rest
      · exact keeps_after_requests steps there (Object.steady_of_any_length shut has) first rest

/-- A new engine in which the host has made the length of the first array a text, without a check. -/
def engineWithTextLength : Machine :=
  ((Machine.bare {}).run
    (defineUnchecked Intrinsics.first.arrayPrototype Object.lengthKey (.data (.string "abc") .none))).2

/-- The first object of a new engine keeps what is to be kept, and so does its first array once its length
is read-only; with a text for a length the array does not. -/
theorem first_objects_properties_last :
    ((Machine.bare {}).heap.get Intrinsics.first.objectPrototype).Keeps
      ((afterRequests (engineAt 1000) Intrinsics.first.objectPrototype [.put "0" .null true]
        (Machine.bare {})).heap.get Intrinsics.first.objectPrototype) ∧
    ((afterRequests (engineAt 1000) Intrinsics.first.arrayPrototype
        [.define Object.lengthKey { writable := some false } true] (Machine.bare {})).heap.get
      Intrinsics.first.arrayPrototype).Keeps
    ((afterRequests (engineAt 1000) Intrinsics.first.arrayPrototype
        [.define Object.lengthKey { writable := some false } true, .put "0" .null true]
        (Machine.bare {})).heap.get Intrinsics.first.arrayPrototype) ∧
    ¬∀ first rest : List PropertyRequest,
      ((afterRequests (engineAt 1000) Intrinsics.first.arrayPrototype first
          engineWithTextLength).heap.get Intrinsics.first.arrayPrototype).Keeps
        ((afterRequests (engineAt 1000) Intrinsics.first.arrayPrototype (first ++ rest)
          engineWithTextLength).heap.get Intrinsics.first.arrayPrototype) := by
  refine ⟨?_, ?_, fun keeps => ?_⟩
  · exact (fixed_properties_last 1000 (Machine.bare {}) Intrinsics.first.objectPrototype (by decide)).1
      rfl [] [.put "0" .null true]
  · have empty : ((Machine.bare {}).heap.get Intrinsics.first.arrayPrototype).HasAnyLength
        (.number (.ofNat 0)) := ⟨true, false, rfl⟩
    exact ((fixed_properties_last 1000 (Machine.bare {}) Intrinsics.first.arrayPrototype (by decide)).2
      _ rfl empty).mpr (.inl ⟨_, rfl⟩)
      [.define Object.lengthKey { writable := some false } true] [.put "0" .null true]
  · have text : (engineWithTextLength.heap.get Intrinsics.first.arrayPrototype).HasAnyLength
        (.string "abc") := ⟨false, false, rfl⟩
    have steady := ((fixed_properties_last 1000 engineWithTextLength Intrinsics.first.arrayPrototype
      (by decide)).2 _ rfl text).mp keeps
    rcases steady with ⟨n, same⟩ | shut
    · cases same
    · cases shut.closed

end ScriptEngine
