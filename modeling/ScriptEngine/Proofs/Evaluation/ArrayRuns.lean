import ScriptEngine.Proofs.Evaluation.PropertyRuns
import ScriptEngine.Proofs.Object.ArrayLength

/-!
The representation of arrays over whole runs: from the moment that one is handed out, whatever is done to it
and whatever scripts run on the way, its length is a natural number above all of its indices.
-/

namespace ScriptEngine

variable {α β : Type}

/-- What an action that ends well did first and then. -/
theorem run_bind_ends {m after : Machine} {first : Eval α} {rest : α → Eval β} {b : β}
    (ends : m.run (first >>= rest) = (.ok b, after)) :
    ∃ a between, m.run first = (.ok a, between) ∧ between.run (rest a) = (.ok b, after) := by
  rw [Machine.run_bind] at ends
  cases early : m.run first with
  | mk outcome between =>
    rw [early] at ends
    cases outcome with
    | ok a => exact ⟨a, between, rfl, ends⟩
    | error e => cases ends

/-! ## Making arrays -/

/-- The ways to get a new array. -/
inductive ArraySource where
  /-- From the host, with given elements. -/
  | items (items : List Value)
  /-- From an array literal. -/
  | literal (elements : List (Option Expr))
  /-- From the constructor, called or used to construct. -/
  | constructor (arguments : List Value)
  | slice (this : Value) (arguments : List Value)
  | map (this : Value) (arguments : List Value)
  | split (this : Value) (arguments : List Value)

namespace ArraySource

/-- Makes the array. -/
def make (engine : Engine) : ArraySource → Eval Value
  | items values => return .object (← createArray values)
  | literal elements => evaluateArray engine elements
  | constructor arguments => Library.arrayOf engine arguments
  | slice this arguments => Library.slice engine this arguments
  | map this arguments => Library.map engine this arguments
  | split this arguments => Library.split engine this arguments

/-- How many elements are written out by whoever asks for the array. -/
def given : ArraySource → Nat
  | items values => values.length
  | literal elements => elements.length
  | constructor arguments => arguments.length
  | slice .. | map .. | split .. => 0

end ArraySource

/-- A value is an array of a machine whose representation is as it should be. -/
def Machine.HoldsArray (m : Machine) (limit : Nat) (v : Value) : Prop :=
  ∃ id, v = .object id ∧ id.index < m.heap.objects.size ∧ (m.heap.get id).WellFormedArray limit

variable {m after : Machine} {limit : Nat} {v : Value}

theorem run_create_array (m : Machine) (items : List Value) :
    m.run (createArray items) =
      (.ok (m.heap.add (.ofElements m.realm.intrinsics.arrayPrototype items)).1,
        { m with heap := (m.heap.add (.ofElements m.realm.intrinsics.arrayPrototype items)).2 }) := rfl

private theorem length_nil_le (limit : Nat) : ([] : List Value).length ≤ limit := Nat.zero_le limit

/-- A new array is as it should be after any orderly action. -/
theorem well_formed_made {fill : Engine → Eval α} {items : List Value} (steps : Nat)
    (room : Object.maxWord ≤ limit) (fits : items.length ≤ limit)
    (filled : Orderly .any .none false fill) {id : ObjectId} {made : Machine}
    (isMade : m.run (createArray items) = (.ok id, made)) :
    id.index < (made.run (fill (engineAt steps))).2.heap.objects.size ∧
      ((made.run (fill (engineAt steps))).2.heap.get id).WellFormedArray limit := by
  rw [run_create_array] at isMade
  cases isMade
  have evolves := filled.evolves (engine_keeps_history steps)
    { m with heap := (m.heap.add (.ofElements m.realm.intrinsics.arrayPrototype items)).2 }
  have there : (m.heap.add (.ofElements m.realm.intrinsics.arrayPrototype items)).1.index <
      (m.heap.add (.ofElements m.realm.intrinsics.arrayPrototype items)).2.objects.size := by
    rw [Heap.size_add]
    exact Nat.lt_succ_self _
  refine ⟨Nat.lt_of_lt_of_le there evolves.size, ?_⟩
  refine Object.well_formed_changes room ?_ (evolves.changes _ there fun no => no)
  change (((m.heap.add _).2).get (m.heap.add _).1).WellFormedArray limit
  rw [Heap.get_add_self]
  exact Object.well_formed_of_elements _ fits

/-- A new array that is handed out after it was filled. -/
theorem holds_made (fill : ObjectId → Engine → Eval Unit) {items : List Value} {steps : Nat}
    (room : Object.maxWord ≤ limit) (fits : items.length ≤ limit)
    (filled : ∀ id, Orderly .any .none false (fill id))
    (ends : m.run (createArray items >>= fun id => fill id (engineAt steps) >>= fun _ =>
      pure (.object id)) = (.ok v, after)) : after.HoldsArray limit v := by
  obtain ⟨id, made, isMade, ends⟩ := run_bind_ends ends
  obtain ⟨_, last, isLast, ends⟩ := run_bind_ends ends
  cases ends
  have formed := well_formed_made steps room fits (filled id) isMade
  rw [isLast] at formed
  exact ⟨id, rfl, formed⟩

/-- An array of given elements needs no filling. -/
theorem holds_array_value {items : List Value} (room : Object.maxWord ≤ limit)
    (fits : items.length ≤ limit)
    (ends : m.run (Library.arrayValue items) = (.ok v, after)) : after.HoldsArray limit v := by
  let unfilled (_ : ObjectId) (_ : Engine) : Eval Unit := pure ()
  have filled (id : ObjectId) : Orderly .any .none false (unfilled id) := .pure ()
  exact @holds_made _ _ _ _ unfilled items 0 room fits filled ends

/-- The length of an array literal is set last, without a check. -/
theorem holds_literal {elements : List (Option Expr)} {steps : Nat} (room : Object.maxWord ≤ limit)
    (fits : elements.length ≤ limit)
    (ends : m.run (evaluateArray (engineAt steps) elements) = (.ok v, after)) :
    after.HoldsArray limit v := by
  obtain ⟨id, made, isMade, ends⟩ := run_bind_ends ends
  obtain ⟨_, full, isFull, ends⟩ := run_bind_ends ends
  obtain ⟨_, last, isLast, ends⟩ := run_bind_ends ends
  cases ends
  have formed := well_formed_made steps room (length_nil_le limit) (orderly_fill_array id 0 elements) isMade
  rw [isFull] at formed
  obtain ⟨there, formed⟩ := formed
  have set : after.heap = full.heap.set id
      ((full.heap.get id).define Object.lengthKey (.ofValue (.ofNat elements.length))).2 := by
    cases isLast
    rfl
  refine ⟨id, rfl, ?_, ?_⟩
  · rw [set, Heap.size_set]
    exact there
  · rw [set, Heap.get_set_self _ there]
    refine Object.well_formed_define room formed fun _ v given => ?_
    cases given
    exact ⟨elements.length, fits, rfl⟩

theorem holds_constructed {arguments : List Value} {steps : Nat} (room : Object.maxWord ≤ limit)
    (fits : arguments.length ≤ limit)
    (ends : m.run (Library.arrayOf (engineAt steps) arguments) = (.ok v, after)) :
    after.HoldsArray limit v := by
  unfold Library.arrayOf at ends
  dsimp only at ends
  split at ends
  · split at ends
    · exact holds_made (fun id E => Library.setLength E id _) room (length_nil_le limit)
        (fun id => Library.orderly_set_length id _) ends
    · obtain ⟨_, _, thrown, _⟩ := run_bind_ends ends
      cases thrown
  · exact holds_array_value room fits ends

theorem holds_slice {this : Value} {arguments : List Value} {steps : Nat} (room : Object.maxWord ≤ limit)
    (ends : m.run (Library.slice (engineAt steps) this arguments) = (.ok v, after)) :
    after.HoldsArray limit v := by
  obtain ⟨id, _, _, ends⟩ := run_bind_ends ends
  obtain ⟨length, _, _, ends⟩ := run_bind_ends ends
  obtain ⟨first, _, _, ends⟩ := run_bind_ends ends
  obtain ⟨last, between, _, ends⟩ := run_bind_ends ends
  let fill (copy : ObjectId) (E : Engine) : Eval Unit :=
    Library.copyElements E id copy first 0 (last - first) >>= fun _ => Library.setLength E copy (last - first)
  have filled (copy : ObjectId) : Orderly .any .none false (fill copy) :=
    .bind (Library.orderly_copy_elements ..) fun _ => Library.orderly_set_length ..
  have made : between.run (createArray [] >>= fun copy => fill copy (engineAt steps) >>= fun _ =>
      pure (.object copy)) = (.ok v, after) := by
    simpa only [fill, bind_assoc] using ends
  exact holds_made fill room (length_nil_le limit) filled made

theorem holds_map {this : Value} {arguments : List Value} {steps : Nat} (room : Object.maxWord ≤ limit)
    (ends : m.run (Library.map (engineAt steps) this arguments) = (.ok v, after)) :
    after.HoldsArray limit v := by
  obtain ⟨⟨length, visit⟩, between, _, ends⟩ := run_bind_ends ends
  let fill (result : ObjectId) (E : Engine) : Eval Unit :=
    Library.setLength E result length >>= fun _ =>
      Library.visitElements E visit (Library.defineElement E result) 0 length
  have filled (result : ObjectId) : Orderly .any .none false (fill result) := by
    refine .bind (Library.orderly_set_length ..) fun _ => Library.orderly_visit_elements visit ?_ 0 length
    exact fun index value => Library.orderly_define_element result index value
  have made : between.run (createArray [] >>= fun result => fill result (engineAt steps) >>= fun _ =>
      pure (.object result)) = (.ok v, after) := by
    simpa only [fill, bind_assoc] using ends
  exact holds_made fill room (length_nil_le limit) filled made

/-- The parts of a string are no more than an array may have. -/
theorem holds_parts {parts : List String} {count : Nat} (room : Object.maxWord ≤ limit)
    (small : count ≤ Object.maxWord)
    (ends : m.run (Library.textArray (parts.take count)) = (.ok v, after)) : after.HoldsArray limit v := by
  refine holds_array_value room ?_ ends
  rw [List.length_map]
  exact Nat.le_trans (List.length_take_le count parts) (Nat.le_trans small room)

theorem holds_split {this : Value} {arguments : List Value} {steps : Nat} (room : Object.maxWord ≤ limit)
    (ends : m.run (Library.split (engineAt steps) this arguments) = (.ok v, after)) :
    after.HoldsArray limit v := by
  obtain ⟨text, _, _, ends⟩ := run_bind_ends ends
  dsimp only at ends
  have small (word : UInt32) : word.toNat ≤ Object.maxWord := Nat.le_of_lt_succ word.toNat_lt
  split at ends
  · obtain ⟨count, _, isCount, ends⟩ := run_bind_ends ends
    cases isCount
    split at ends
    all_goals
      obtain ⟨separator, _, _, ends⟩ := run_bind_ends ends
      exact holds_parts room (Nat.le_refl _) ends
  · obtain ⟨word, _, _, ends⟩ := run_bind_ends ends
    obtain ⟨count, _, isCount, ends⟩ := run_bind_ends ends
    cases isCount
    split at ends
    all_goals
      obtain ⟨separator, _, _, ends⟩ := run_bind_ends ends
      exact holds_parts room (small word) ends

/-- Every new array is as it should be when it is handed out. -/
theorem holds_source {source : ArraySource} {steps : Nat} (room : Object.maxWord ≤ limit)
    (fits : source.given ≤ limit) (ends : m.run (source.make (engineAt steps)) = (.ok v, after)) :
    after.HoldsArray limit v := by
  cases source with
  | items values => exact holds_array_value room fits ends
  | literal elements => exact holds_literal room fits ends
  | constructor arguments => exact holds_constructed room fits ends
  | slice this arguments => exact holds_slice room ends
  | map this arguments => exact holds_map room ends
  | split this arguments => exact holds_split room ends

/-! ## Using arrays -/

/-- What may be asked of an array. -/
inductive ArrayRequest where
  | property (request : PropertyRequest)
  | push (items : List Value)
  | pop
  | seal
  | freeze

namespace ArrayRequest

/-- Does what is asked of an array. -/
def perform (engine : Engine) (id : ObjectId) : ArrayRequest → Eval Unit
  | property request => request.perform engine id
  | push items => discard (Library.push engine (.object id) items)
  | pop => discard (Library.pop engine (.object id))
  | «seal» => discard (Library.restrictObject engine "Object.seal" false [.object id])
  | freeze => discard (Library.restrictObject engine "Object.freeze" true [.object id])

theorem orderly_perform {t : Terms} {own : Rights} {moves : Bool} (id : ObjectId)
    (request : ArrayRequest) : Orderly t own moves fun E => request.perform E id := by
  cases request with
  | property request => exact request.orderly_perform id
  | push items => exact .discard (Library.orderly_push ..)
  | pop => exact .discard (Library.orderly_pop _)
  | «seal» | freeze => exact .discard (Library.orderly_restrict_object ..)

end ArrayRequest

/-- The state after requests to an array, one after the other, whatever comes of each. -/
def afterArrayRequests (engine : Engine) (id : ObjectId) (requests : List ArrayRequest) (m : Machine) :
    Machine :=
  m.afterAll (requests.map (·.perform engine id))

/-- An array is as it should be when it is handed out and after any requests to it, refused or cut short
or not, whatever scripts run on the way: its length is a natural number that no array index reaches, and is
neither seen by loops nor configurable. It is at most the largest number that a length is read as, unless
more elements than that were written out. -/
theorem arrays_stay_well_formed (steps : Nat) (source : ArraySource) (m after : Machine) (v : Value)
    (ends : m.run (source.make (engineAt steps)) = (.ok v, after)) :
    ∃ id, v = .object id ∧ ∀ (more : Nat) (requests : List ArrayRequest),
      ((afterArrayRequests (engineAt more) id requests after).heap.get id).WellFormedArray
        (max Object.maxWord source.given) := by
  obtain ⟨id, rfl, there, formed⟩ := holds_source (Nat.le_max_left ..) (Nat.le_max_right ..) ends
  refine ⟨id, rfl, fun more requests => ?_⟩
  have changes := changes_after_all (fun E => ArrayRequest.perform E id)
    (ArrayRequest.orderly_perform id) more requests there
  exact Object.well_formed_changes (Nat.le_max_left ..) formed changes.2

/-- An engine in which the host has made an array of two elements. -/
def engineWithPair : Machine :=
  ((Machine.bare {}).run ((ArraySource.items [.null, .null]).make (engineAt 100))).2

/-- An element is added to an array of two elements, and then its length is made smaller. -/
theorem pair_stays_well_formed :
    (Machine.bare {}).run ((ArraySource.items [.null, .null]).make (engineAt 100)) =
        (.ok (.object ⟨14⟩), engineWithPair) ∧
      ((afterArrayRequests (engineAt 100) ⟨14⟩
        [.push [.null], .property (.put Object.lengthKey (.ofNat 1) true)]
        engineWithPair).heap.get ⟨14⟩).WellFormedArray Object.maxWord := by
  have ends : (Machine.bare {}).run ((ArraySource.items [.null, .null]).make (engineAt 100)) =
      (.ok (.object ⟨14⟩), engineWithPair) := rfl
  obtain ⟨id, same, formed⟩ := arrays_stay_well_formed 100 (.items [.null, .null]) _ _ _ ends
  cases same
  exact ⟨ends, formed 100 [.push [.null], .property (.put Object.lengthKey (.ofNat 1) true)]⟩

end ScriptEngine
