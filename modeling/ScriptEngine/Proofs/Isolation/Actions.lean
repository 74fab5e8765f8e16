import ScriptEngine.Evaluation.Operator
import ScriptEngine.Evaluation.Reference
import ScriptEngine.Proofs.Evaluation.Outcome
import ScriptEngine.Proofs.Isolation.References

/-!
Actions that keep to known objects. Started where nothing known refers to any other object, such an action gives and
leaves behind only what refers to known ones, and it does not touch the others. New objects are known from the start.
The actions on single values are of that kind if the engine they go back to is.
-/

namespace ScriptEngine

open Refers (Only)

variable {known : ObjectId → Prop} {α β : Type} {m : Machine}

/-! ## States and actions -/

/-- A state in which code comes to none but known objects. -/
structure Machine.Enclosed (known : ObjectId → Prop) (m : Machine) : Prop where
  heap : m.heap.Enclosed known
  environments : ∀ id, Only known (m.environments.get id)
  context : Only known m.context
  callers : Only known m.callers
  realm : Only known m.realm

/-- What is new will be among the known objects as well. -/
structure Machine.Among (known : ObjectId → Prop) (m : Machine) : Prop extends m.Enclosed known where
  new : ∀ id : ObjectId, m.heap.objects.size ≤ id.index → known id

/-- A run that ends so that code still comes to none but known objects, and that leaves the others as they were. -/
structure Machine.StaysAmong [Refers α] (known : ObjectId → Prop) (m : Machine) (ended : Except Abrupt α × Machine) :
    Prop where
  result : Only known ended.1
  among : ended.2.Among known
  others : ∀ id, ¬known id → ended.2.heap.get id = m.heap.get id

/-- An action that keeps to known objects wherever it is run. -/
def Discreet [Refers α] (known : ObjectId → Prop) (action : Eval α) : Prop :=
  ∀ m : Machine, m.Among known → m.StaysAmong known (m.run action)

/-- An engine whose actions keep to known objects. -/
structure Engine.Discreet (known : ObjectId → Prop) (E : Engine) : Prop where
  evaluate : ∀ e, ScriptEngine.Discreet known (E.evaluate e)
  execute : ∀ labels s, ScriptEngine.Discreet known (E.execute labels s)
  call : ∀ {f this arguments}, Only known f → Only known this → Only known arguments →
    ScriptEngine.Discreet known (E.call f this arguments)
  construct : ∀ {f arguments}, Only known f → Only known arguments →
    ScriptEngine.Discreet known (E.construct f arguments)

/-! ## The stores -/

theorem only_default : Only known (default : Object) :=
  Object.only_new trivial only_none

theorem Heap.enclosed_add {h : Heap} {o : Object} (enclosed : h.Enclosed known) (only : Only known o) :
    (h.add o).2.Enclosed known := by
  intro id kn
  rcases Nat.lt_trichotomy id.index h.objects.size with there | last | beyond
  · rw [Heap.get_add_of_lt o there]
    exact enclosed id kn
  · obtain rfl : (h.add o).1 = id := ObjectId.ext last.symm
    rw [Heap.get_add_self]
    exact only
  · have nowhere : (h.add o).2.get id = default := by
      simp [Heap.get, Heap.add, Array.getD_eq_getD_getElem?, Nat.not_lt.2 (Nat.succ_le_of_lt beyond)]
    rw [nowhere]
    exact only_default

theorem Heap.enclosed_set {h : Heap} {id : ObjectId} {o : Object} (enclosed : h.Enclosed known)
    (only : Only known o) : (h.set id o).Enclosed known := by
  intro other kn
  by_cases same : id = other
  · subst same
    by_cases there : id.index < h.objects.size
    · rw [Heap.get_set_self o there]
      exact only
    · have unchanged : (h.set id o).get id = h.get id := by
        simp [Heap.get, Heap.set, Array.getD_eq_getD_getElem?, there]
      rw [unchanged]
      exact enclosed id kn
  · rw [Heap.get_set_of_ne o same]
    exact enclosed other kn

theorem EnvironmentStore.only_add {s : EnvironmentStore} {e : Environment} (all : ∀ id, Only known (s.get id))
    (only : Only known e) (id : EnvironmentId) : Only known ((s.add e).2.get id) := by
  rcases Nat.lt_trichotomy id.index s.environments.size with there | last | beyond
  · rw [EnvironmentStore.get_add_of_lt e there]
    exact all id
  · obtain rfl : (s.add e).1 = id := EnvironmentId.ext last.symm
    rw [EnvironmentStore.get_add_self]
    exact only
  · have nowhere : (s.add e).2.get id = default := by
      simp [EnvironmentStore.get, EnvironmentStore.add, Array.getD_eq_getD_getElem?,
        Nat.not_lt.2 (Nat.succ_le_of_lt beyond)]
    rw [nowhere]
    exact Environment.only_declarative none

theorem EnvironmentStore.only_set {s : EnvironmentStore} {id : EnvironmentId} {e : Environment}
    (all : ∀ id, Only known (s.get id)) (only : Only known e) (other : EnvironmentId) :
    Only known ((s.set id e).get other) := by
  by_cases same : id = other
  · subst same
    by_cases there : id.index < s.environments.size
    · rw [EnvironmentStore.get_set_self e there]
      exact only
    · have unchanged : (s.set id e).get id = s.get id := by
        simp [EnvironmentStore.get, EnvironmentStore.set, Array.getD_eq_getD_getElem?, there]
      rw [unchanged]
      exact all id
  · rw [EnvironmentStore.get_set_of_ne e same]
    exact all other

/-! ## Combinations -/

namespace Discreet

variable [Refers α] [Refers β] {action : Eval α} {rest : α → Eval β}

theorem pure {a : α} (only : Only known a) : Discreet known (Pure.pure a : Eval α) :=
  fun _ among => ⟨only, among, fun _ _ => rfl⟩

theorem raise {e : Abrupt} (only : Only known e) : Discreet known (throw e : Eval α) :=
  fun _ among => ⟨only, among, fun _ _ => rfl⟩

theorem bind (first : Discreet known action) (next : ∀ a, Only known a → Discreet known (rest a)) :
    Discreet known (action >>= rest) := by
  intro m among
  obtain ⟨result, after, others⟩ := first m among
  rw [Machine.run_bind]
  generalize m.run action = ended at result after others
  obtain ⟨outcome, final⟩ := ended
  cases outcome with
  | ok a =>
    obtain ⟨result', after', others'⟩ := next a result final after
    exact ⟨result', after', fun id un => (others' id un).trans (others id un)⟩
  | error e => exact ⟨result, after, others⟩

theorem map (f : α → β) (keeps : ∀ a, Only known a → Only known (f a)) (done : Discreet known action) :
    Discreet known (f <$> action) :=
  .bind done fun a only => .pure (keeps a only)

theorem discard (done : Discreet known action) : Discreet known (Functor.discard action) :=
  .bind done fun _ _ => .pure trivial

theorem ite {c : Prop} [Decidable c] {yes no : Eval α} (taken : Discreet known yes) (other : Discreet known no) :
    Discreet known (if c then yes else no) := by
  split
  · exact taken
  · exact other

theorem attempt (tried : Discreet known action) : Discreet known (ScriptEngine.attempt action) := by
  intro m among
  obtain ⟨result, after, others⟩ := tried m among
  rw [Machine.run_attempt]
  exact ⟨result, after, others⟩

theorem resume {outcome : Except Abrupt α} (only : Only known outcome) :
    Discreet known (ScriptEngine.resume outcome) := by
  intro m among
  rw [Machine.run_resume]
  exact ⟨only, among, fun _ _ => rfl⟩

/-- A question is answered with known objects if it is asked where there are no others to come to. -/
theorem read {ask : Machine → α} (told : ∀ m : Machine, m.Among known → Only known (ask m)) :
    Discreet known (fun m => .ok (ask m) m : Eval α) :=
  fun m among => ⟨told m among, among, fun _ _ => rfl⟩

theorem ask_heap {f : Heap → α} (told : ∀ h : Heap, h.Enclosed known → Only known (f h)) :
    Discreet known (askHeap f) :=
  .read fun m among => told m.heap among.heap

omit [Refers α] in
theorem forM {items : List α} {f : α → Eval Unit} (each : ∀ a ∈ items, Discreet known (f a)) :
    Discreet known (items.forM f) := by
  induction items with
  | nil => exact .pure trivial
  | cons a rest ih =>
    exact .bind (each a List.mem_cons_self) fun _ _ => ih fun b member => each b (List.mem_cons_of_mem _ member)

omit [Refers α] in
theorem mapM {items : List α} {f : α → Eval β} (each : ∀ a ∈ items, Discreet known (f a)) :
    Discreet known (items.mapM f) := by
  induction items with
  | nil => exact .pure only_nil
  | cons a rest ih =>
    simp only [List.mapM_cons]
    refine .bind (each a List.mem_cons_self) fun b one => ?_
    exact .bind (ih fun c member => each c (List.mem_cons_of_mem _ member)) fun bs others =>
      .pure (only_cons one others)

end Discreet

/-! ## Basic actions -/

variable {id : ObjectId} {o : Object}

theorem discreet_get_object (kn : known id) : Discreet known (getObject id) :=
  .ask_heap fun _ enclosed => enclosed id kn

theorem discreet_display_value (value : Value) : Discreet known (displayValue value) :=
  .ask_heap fun _ _ => trivial

theorem discreet_get_realm : Discreet known getRealm :=
  .read fun _ among => among.realm

theorem discreet_get_intrinsics : Discreet known getIntrinsics :=
  .read fun _ among => among.realm.1

theorem discreet_get_environment (id : EnvironmentId) : Discreet known (getEnvironment id) :=
  .read fun _ among => among.environments id

theorem discreet_get_context : Discreet known getContext :=
  .read fun _ among => among.context

theorem discreet_lexical_environment : Discreet known lexicalEnvironment :=
  .read fun _ _ => trivial

theorem discreet_is_strict_code : Discreet known isStrictCode :=
  .read fun _ _ => trivial

theorem discreet_new_object (only : Only known o) : Discreet known (newObject o) := by
  intro m among
  obtain ⟨⟨heap, environments, context, callers, realm⟩, new⟩ := among
  have at_end : known (m.heap.add o).1 := new _ (Nat.le_refl _)
  refine ⟨at_end, ⟨⟨Heap.enclosed_add heap only, environments, context, callers, realm⟩, fun id beyond => ?_⟩, ?_⟩
  · have grown : (m.heap.add o).2.objects.size ≤ id.index := beyond
    rw [Heap.size_add] at grown
    exact new id (Nat.le_of_succ_le grown)
  · intro id un
    exact Heap.get_add_of_lt o (Nat.lt_of_not_le fun beyond => un (new id beyond))

theorem discreet_update_object [Refers α] {f : Object → α × Object} (kn : known id)
    (keeps : ∀ o, Only known o → Only known (f o).1 ∧ Only known (f o).2) : Discreet known (updateObject id f) := by
  intro m among
  obtain ⟨⟨heap, environments, context, callers, realm⟩, new⟩ := among
  obtain ⟨result, changed⟩ := keeps _ (heap id kn)
  rw [Machine.run_update_object]
  refine ⟨result, ⟨⟨Heap.enclosed_set heap changed, environments, context, callers, realm⟩, fun other beyond => ?_⟩, ?_⟩
  · have same : (m.heap.set id (f (m.heap.get id)).2).objects.size ≤ other.index := beyond
    rw [Heap.size_set] at same
    exact new other same
  · intro other un
    refine Heap.get_set_of_ne _ ?_
    rintro rfl
    exact un kn

theorem discreet_modify_object {f : Object → Object} (kn : known id)
    (keeps : ∀ o, Only known o → Only known (f o)) : Discreet known (modifyObject id f) :=
  discreet_update_object kn fun o only => ⟨trivial, keeps o only⟩

/-- Nothing happened to the objects. -/
theorem stays_among_of_heap [Refers α] {result : Except Abrupt α} {after : Machine} (among : m.Among known)
    (only : Only known result) (heap : after.heap = m.heap)
    (environments : ∀ id, Only known (after.environments.get id)) (context : Only known after.context)
    (callers : Only known after.callers) (realm : after.realm = m.realm) : m.StaysAmong known (result, after) where
  result := only
  among := ⟨⟨heap ▸ among.heap, environments, context, callers, realm ▸ among.realm⟩, heap ▸ among.new⟩
  others id _ := by rw [heap]

theorem discreet_new_environment {e : Environment} (only : Only known e) : Discreet known (newEnvironment e) := by
  intro m among
  exact stays_among_of_heap among trivial rfl (EnvironmentStore.only_add among.environments only) among.context
    among.callers rfl

theorem discreet_modify_environment {f : Environment → Environment} (id : EnvironmentId)
    (keeps : ∀ e, Only known e → Only known (f e)) : Discreet known (modifyEnvironment id f) := by
  intro m among
  exact stays_among_of_heap among trivial rfl
    (EnvironmentStore.only_set among.environments (keeps _ (among.environments id))) among.context among.callers rfl

theorem discreet_set_lexical_environment (id : EnvironmentId) : Discreet known (setLexicalEnvironment id) := by
  intro m among
  exact stays_among_of_heap among trivial rfl among.environments among.context among.callers rfl

theorem discreet_push_context {c : Context} (only : Only known c) : Discreet known (pushContext c) := by
  intro m among
  exact stays_among_of_heap among trivial rfl among.environments only (only_cons among.context among.callers) rfl

theorem discreet_pop_context : Discreet known popContext := by
  intro m among
  obtain ⟨heap, environments, context, callers, callDepth, output, realm, options⟩ := m
  cases callers with
  | nil => exact stays_among_of_heap among trivial rfl among.environments among.context among.callers rfl
  | cons c rest =>
    obtain ⟨first, others⟩ := List.forall_mem_cons.1 among.callers
    exact stays_among_of_heap among trivial rfl among.environments first others rfl

theorem discreet_print_line (line : String) : Discreet known (printLine line) := by
  intro m among
  exact stays_among_of_heap among trivial rfl among.environments among.context among.callers rfl

theorem discreet_in_context [Refers α] {action : Eval α} {c : Context} (only : Only known c)
    (body : Discreet known action) : Discreet known (inContext c action) :=
  .bind (discreet_push_context only) fun _ _ => .bind (.attempt body) fun _ ended =>
    .bind discreet_pop_context fun _ _ => .resume ended

theorem discreet_in_environment [Refers α] {action : Eval α} (id : EnvironmentId) (body : Discreet known action) :
    Discreet known (inEnvironment id action) :=
  .bind discreet_lexical_environment fun _ _ => .bind (discreet_set_lexical_environment id) fun _ _ =>
    .bind (.attempt body) fun _ ended => .bind (discreet_set_lexical_environment _) fun _ _ => .resume ended

theorem discreet_nested [Refers α] {action : Eval α} (body : Discreet known action) :
    Discreet known (nested action) := by
  intro m among
  by_cases full : m.options.maxCallDepth ≤ m.callDepth
  · rw [Machine.run_nested_refused full]
    exact stays_among_of_heap among trivial rfl among.environments among.context among.callers rfl
  · rw [Machine.run_nested (Nat.lt_of_not_le full)]
    obtain ⟨⟨heap, environments, context, callers, realm⟩, new⟩ := among
    obtain ⟨result, after, others⟩ := body { m with callDepth := m.callDepth + 1 }
      ⟨⟨heap, environments, context, callers, realm⟩, new⟩
    obtain ⟨⟨heap, environments, context, callers, realm⟩, new⟩ := after
    exact ⟨result, ⟨⟨heap, environments, context, callers, realm⟩, new⟩, others⟩

/-! ## New objects -/

theorem discreet_create_object_from {proto : Option ObjectId} (only : Only known proto) :
    Discreet known (createObjectFrom proto) :=
  discreet_new_object (Object.only_new trivial only)

theorem discreet_create_object : Discreet known createObject :=
  .bind discreet_get_intrinsics fun _ up => discreet_create_object_from (only_some up.object)

theorem discreet_create_array {items : List Value} (only : Only known items) : Discreet known (createArray items) :=
  .bind discreet_get_intrinsics fun _ up => discreet_new_object (Object.only_of_elements up.array only)

theorem discreet_create_wrapper {kind : ObjectKind} (only : Only known kind) : Discreet known (createWrapper kind) :=
  .bind discreet_get_intrinsics fun _ up => discreet_new_object (Object.only_wrapping up only)

theorem discreet_create_function_object {f : Callable} (only : Only known f) (length : Nat) (name : String) :
    Discreet known (createFunctionObject f length name) :=
  .bind discreet_get_intrinsics fun _ up => discreet_new_object (Object.only_of_callable up.function only)

theorem discreet_create_error (kind : ErrorKind) (message : String) : Discreet known (createError kind message) :=
  .bind discreet_get_intrinsics fun _ up => discreet_new_object (Object.only_of_error up kind message)

theorem discreet_throw_value [Refers α] {value : Value} (only : Only known value) :
    Discreet known (throwValue value : Eval α) :=
  .raise only

theorem discreet_throw_fault [Refers α] (fault : Fault) : Discreet known (throwFault fault : Eval α) :=
  .bind (discreet_create_error _ _) fun _ kn => discreet_throw_value kn

/-- A fault whose wording shows a value. -/
theorem discreet_throw_showing [Refers α] (value : Value) (fault : String → Fault) :
    Discreet known (displayValue value >>= fun text => (throwFault (fault text) : Eval α)) :=
  .bind (discreet_display_value value) fun _ _ => discreet_throw_fault _

/-- What is not accepted is thrown, and otherwise the action goes on. -/
theorem discreet_unless [Refers α] {c : Prop} [Decidable c] {rest : Eval α} (fault : Fault)
    (goesOn : Discreet known rest) :
    Discreet known (if c then rest else throwFault fault >>= fun _ : Unit => rest) :=
  .ite goesOn (.bind (discreet_throw_fault fault) fun _ _ => goesOn)

theorem discreet_when [Refers α] {c : Prop} [Decidable c] {rest : Eval α} (fault : Fault)
    (goesOn : Discreet known rest) :
    Discreet known (if c then throwFault fault >>= fun _ : Unit => rest else rest) :=
  .ite (.bind (discreet_throw_fault fault) fun _ _ => goesOn) goesOn

theorem discreet_set_data {value : Value} (kn : known id) (only : Only known value) (key : String)
    (attributes : Attributes) : Discreet known (modifyObject id (·.setData key value attributes)) :=
  discreet_modify_object kn fun _ before => Object.only_set_data before only

theorem discreet_create_script_function (code : FunctionCode) (environment : EnvironmentId) :
    Discreet known (createScriptFunction code environment) := by
  unfold createScriptFunction
  refine .bind discreet_get_context fun context here => .bind (discreet_create_function_object ?_ _ _) fun f made => ?_
  · change Only known (if code.isArrow then some context.this else none)
    split
    · exact only_some here
    · exact only_none
  · refine .ite (.pure made) ?_
    refine .bind discreet_create_object fun proto new => .bind (discreet_set_data new made _ _) fun _ _ => ?_
    exact .bind (discreet_set_data made new _ _) fun _ _ => .pure made

theorem discreet_create_arguments {callee : ObjectId} {arguments : List Value} (kn : known callee)
    (only : Only known arguments) (strict : Bool) : Discreet known (createArguments callee arguments strict) := by
  refine .bind discreet_get_intrinsics fun intrinsics up => discreet_new_object ?_
  have new := Object.only_of_arguments up.object only
  split
  · exact new
  · exact Object.only_set_data new kn

/-! ## Reading -/

section

variable {engine : Engine} (discreet : engine.Discreet known)

include discreet

theorem discreet_read_property {p : Option Property} {receiver : Value} (only : Only known p)
    (on : Only known receiver) : Discreet known (readProperty engine p receiver) := by
  unfold readProperty
  split
  · exact .pure trivial
  · exact .pure (only _ rfl)
  · exact discreet.call ((only _ rfl).1 _ rfl) on only_nil
  · exact .pure trivial

theorem discreet_get_property (kn : known id) (key : String) : Discreet known (getProperty engine id key) :=
  .bind (.ask_heap fun _ enclosed => Heap.only_find enclosed (only_some kn) key) fun _ only =>
    discreet_read_property discreet only kn

theorem discreet_get_value_property {base : Value} (only : Only known base) (key : String) :
    Discreet known (getValueProperty engine base key) := by
  have inherited {proto : ObjectId} (up : known proto) :
      Discreet known (askHeap (·.find? (some proto) key) >>= fun p => readProperty engine p base) :=
    .bind (.ask_heap fun _ enclosed => Heap.only_find enclosed (only_some up) key) fun _ found =>
      discreet_read_property discreet found only
  unfold getValueProperty
  cases base with
  | object id => exact discreet_get_property discreet only key
  | undefined | null => exact discreet_throw_showing _ _
  | string text =>
    dsimp only
    split
    · next value found =>
      refine .pure ?_
      unfold stringProperty? at found
      split at found
      · cases found
        trivial
      · obtain ⟨index, -, rest⟩ := Option.bind_eq_some_iff.1 found
        obtain ⟨unit, -, made⟩ := Option.bind_eq_some_iff.1 rest
        cases made
        trivial
    · exact .bind discreet_get_intrinsics fun _ up => inherited up.string
  | number n => exact .bind discreet_get_intrinsics fun _ up => inherited up.number
  | boolean b => exact .bind discreet_get_intrinsics fun _ up => inherited up.boolean

/-! ## Conversions -/

theorem discreet_first_primitive (kn : known id) (names : List String) :
    Discreet known (firstPrimitive engine id names) := by
  induction names with
  | nil => exact discreet_throw_fault _
  | cons name rest ih =>
    unfold firstPrimitive
    refine .bind (discreet_get_property discreet kn name) fun method found => ?_
    refine .bind (.ask_heap fun _ _ => trivial) fun callable _ => .ite ?_ ih
    exact .bind (discreet.call found kn only_nil) fun result given => .ite ih (.pure given)

theorem discreet_to_primitive {value : Value} (only : Only known value) (hint : Hint) :
    Discreet known (toPrimitive engine value hint) := by
  cases value with
  | object id => exact discreet_first_primitive discreet only _
  | _ => exact .pure trivial

theorem discreet_to_number {value : Value} (only : Only known value) : Discreet known (toNumber engine value) :=
  .bind (discreet_to_primitive discreet only _) fun _ _ => .pure trivial

theorem discreet_to_text {value : Value} (only : Only known value) : Discreet known (toText engine value) :=
  .bind (discreet_to_primitive discreet only _) fun _ _ => .pure trivial

theorem discreet_to_integer {value : Value} (only : Only known value) : Discreet known (toInteger engine value) :=
  .bind (discreet_to_number discreet only) fun _ _ => .pure trivial

theorem discreet_to_int32 {value : Value} (only : Only known value) : Discreet known (toInt32 engine value) :=
  .bind (discreet_to_number discreet only) fun _ _ => .pure trivial

theorem discreet_to_uint32 {value : Value} (only : Only known value) : Discreet known (toUint32 engine value) :=
  .bind (discreet_to_number discreet only) fun _ _ => .pure trivial

theorem discreet_to_uint16 {value : Value} (only : Only known value) : Discreet known (toUint16 engine value) :=
  .bind (discreet_to_number discreet only) fun _ _ => .pure trivial

omit discreet in
theorem discreet_check_coercible (value : Value) : Discreet known (checkCoercible value) :=
  .ite (discreet_throw_showing _ _) (.pure trivial)

omit discreet in
theorem discreet_to_object {value : Value} (only : Only known value) : Discreet known (toObject value) := by
  unfold toObject
  cases value with
  | object id => exact .pure only
  | boolean b => exact discreet_create_wrapper trivial
  | number n => exact discreet_create_wrapper trivial
  | string s => exact discreet_create_wrapper trivial
  | undefined | null => exact discreet_throw_showing _ _

theorem discreet_loose_equals {x y : Value} (left : Only known x) (right : Only known y) :
    Discreet known (looseEquals engine x y) := by
  unfold looseEquals
  split
  · exact .pure trivial
  · exact .ite (.pure trivial) (.bind (discreet_to_primitive discreet left _) fun _ _ => .pure trivial)
  · exact .ite (.pure trivial) (.bind (discreet_to_primitive discreet right _) fun _ _ => .pure trivial)
  · exact .pure trivial

theorem discreet_less_than {x y : Value} (left : Only known x) (right : Only known y) (leftFirst : Bool) :
    Discreet known (lessThan engine x y leftFirst) := by
  have first := discreet_to_primitive discreet left .number
  have second := discreet_to_primitive discreet right .number
  unfold lessThan
  refine .ite ?_ ?_
  · exact .bind first fun _ _ => .bind second fun _ _ => .pure fun _ _ => trivial
  · exact .bind second fun _ _ => .bind first fun _ _ => .pure fun _ _ => trivial

/-! ## Operators -/

theorem discreet_instance_of {value constructor : Value} (by_ : Only known constructor) :
    Discreet known (instanceOf engine value constructor) := by
  unfold instanceOf
  split
  · exact discreet_throw_fault _
  · next id same =>
    have kn : known id := only_as_object by_ id same
    refine .bind (.ask_heap fun _ _ => trivial) fun callable _ => discreet_unless _ ?_
    split
    · refine .bind (.ask_heap fun _ enclosed => Heap.only_target enclosed kn) fun target found => ?_
      refine .bind (discreet_get_property discreet found _) fun proto _ => ?_
      split
      · exact .ask_heap fun _ _ => trivial
      · exact discreet_throw_showing _ _
    · exact .pure trivial

theorem discreet_bitwise {x y : Value} (left : Only known x) (right : Only known y) (f : Int32 → Int32 → Int32) :
    Discreet known (bitwise engine x y f) :=
  .bind (discreet_to_int32 discreet left) fun _ _ => .bind (discreet_to_int32 discreet right) fun _ _ => .pure trivial

theorem discreet_arithmetic {x y : Value} (left : Only known x) (right : Only known y)
    (f : Number → Number → Number) : Discreet known (arithmetic engine x y f) :=
  .bind (discreet_to_number discreet left) fun _ _ => .bind (discreet_to_number discreet right) fun _ _ =>
    .pure trivial

omit discreet in
theorem only_add (x y : Value) : Only known (x.add y) := by
  unfold Value.add
  split <;> trivial

theorem discreet_apply_binary (op : BinaryOp) {x y : Value} (left : Only known x) (right : Only known y) :
    Discreet known (applyBinary engine op x y) := by
  unfold applyBinary
  cases op with
  | add =>
    exact .bind (discreet_to_primitive discreet left _) fun _ _ =>
      .bind (discreet_to_primitive discreet right _) fun _ _ => .pure (only_add _ _)
  | sub | mul | div | mod => exact discreet_arithmetic discreet left right _
  | shiftLeft | shiftRight =>
    exact .bind (discreet_to_int32 discreet left) fun _ _ => .bind (discreet_to_uint32 discreet right) fun _ _ =>
      .pure trivial
  | unsignedShiftRight =>
    exact .bind (discreet_to_uint32 discreet left) fun _ _ => .bind (discreet_to_uint32 discreet right) fun _ _ =>
      .pure trivial
  | bitAnd | bitOr | bitXor => exact discreet_bitwise discreet left right _
  | equal | notEqual => exact .bind (discreet_loose_equals discreet left right) fun _ _ => .pure trivial
  | strictEqual | strictNotEqual => exact .pure trivial
  | less | greaterEqual => exact .bind (discreet_less_than discreet left right _) fun _ _ => .pure trivial
  | greater | lessEqual => exact .bind (discreet_less_than discreet right left _) fun _ _ => .pure trivial
  | isIn =>
    cases y with
    | object id =>
      exact .bind (discreet_to_text discreet left) fun _ _ => .bind (.ask_heap fun _ _ => trivial) fun _ _ =>
        .pure trivial
    | _ => exact .bind (discreet_display_value _) fun _ _ => discreet_throw_showing _ _
  | instanceOf => exact .bind (discreet_instance_of discreet right) fun _ _ => .pure trivial

/-! ## Writing -/

theorem discreet_check_length {patch : PropertyPatch} (only : Only known patch) :
    Discreet known (checkLength engine patch) := by
  unfold checkLength
  split
  · exact .pure only
  · next requested given =>
    refine .bind (discreet_to_number discreet (only.1 _ given)) fun n _ => discreet_unless _ (.pure ?_)
    exact ⟨only_some trivial, only.2⟩

omit discreet in
theorem discreet_define (kn : known id) {patch : PropertyPatch} (only : Only known patch) (key : String) :
    Discreet known (updateObject id (·.define key patch)) :=
  discreet_update_object kn fun _ before => ⟨trivial, Object.only_define before only key⟩

theorem discreet_define_property (kn : known id) {patch : PropertyPatch} (only : Only known patch) (key : String)
    (throws : Bool) : Discreet known (defineProperty engine id key patch throws) := by
  have defined {patch : PropertyPatch} (only : Only known patch) :
      Discreet known (updateObject id (·.define key patch) >>= fun accepted =>
        if !accepted && throws then throwFault (.redefinition key) >>= fun _ : Unit => (pure accepted : Eval Bool)
        else pure accepted) :=
    .bind (discreet_define kn only key) fun _ _ => discreet_when _ (.pure trivial)
  unfold defineProperty
  refine .bind (.ask_heap fun _ _ => trivial) fun array _ => ?_
  dsimp only
  split
  · exact .bind (discreet_check_length discreet only) fun _ checked => defined checked
  · exact .bind (.pure only) fun _ same => defined same

omit discreet in
theorem discreet_reject_write (key : String) (throws : Bool) : Discreet known (rejectWrite key throws) :=
  .ite (discreet_throw_fault _) (.pure trivial)

theorem discreet_write_found (kn : known id) (o : Object) (key : String) {value : Value} (only : Only known value)
    (throws : Bool) (here : Option Property) {found : Option Property} (inherits : Only known found) :
    Discreet known (match found.map Property.kind with
      | some (.data _ false) => rejectWrite key throws
      | some (.accessor _ (some setter)) => Functor.discard (engine.call (.object setter) (.object id) [value])
      | some (.accessor _ none) => rejectWrite key throws
      | some (.data _ true) | none =>
        if here.isSome then Functor.discard (defineProperty engine id key (.ofValue value) throws)
        else if !o.extensible then rejectWrite key throws
        else Functor.discard (defineProperty engine id key (.data value .all) throws)) := by
  split
  · exact discreet_reject_write key throws
  · next get setter same =>
    obtain ⟨p, rfl, kind⟩ := Option.map_eq_some_iff.1 same
    have both : Only known p.kind := inherits p rfl
    rw [kind] at both
    exact .discard (discreet.call (both.2 setter rfl) kn (only_cons only only_nil))
  · exact discreet_reject_write key throws
  all_goals
    refine .ite (.discard (discreet_define_property discreet kn (only_patch_of_value only) key throws)) ?_
    refine .ite (discreet_reject_write key throws) ?_
    exact .discard (discreet_define_property discreet kn (only_patch_data only _) key throws)

theorem discreet_put_property (kn : known id) (key : String) {value : Value} (only : Only known value)
    (throws : Bool) : Discreet known (putProperty engine id key value throws) := by
  unfold putProperty
  dsimp only
  refine .bind (discreet_get_object kn) fun o here => ?_
  have own := Object.only_get_own here key
  cases held : o.getOwn? key with
  | some p =>
    rw [held] at own
    exact .bind (.pure own) fun found inherits => discreet_write_found discreet kn o key only throws _ inherits
  | none =>
    refine .bind (.ask_heap fun _ enclosed => Heap.only_find enclosed here.proto key) fun found inherits => ?_
    exact discreet_write_found discreet kn o key only throws none inherits

theorem discreet_put_on_wrapper {base : Value} (on : Only known base) (key : String) {value : Value}
    (only : Only known value) (strict : Bool) :
    Discreet known (toObject base >>= fun wrapper => getObject wrapper >>= fun o =>
      if (o.getOwn? key).isSome then rejectWrite key strict
      else askHeap (·.find? (some wrapper) key) >>= fun found =>
        match found.map Property.kind with
        | some (.accessor _ (some setter)) => Functor.discard (engine.call (.object setter) base [value])
        | _ => rejectWrite key strict) := by
  refine .bind (discreet_to_object on) fun wrapper kn => .bind (discreet_get_object kn) fun o _ => ?_
  refine .ite (discreet_reject_write key strict) ?_
  refine .bind (.ask_heap fun _ enclosed => Heap.only_find enclosed (only_some kn) key) fun found inherits => ?_
  split
  · next get setter same =>
    obtain ⟨p, rfl, kind⟩ := Option.map_eq_some_iff.1 same
    have both : Only known p.kind := inherits p rfl
    rw [kind] at both
    exact .discard (discreet.call (both.2 setter rfl) on (only_cons only only_nil))
  · exact discreet_reject_write key strict

theorem discreet_put_value_property {base : Value} (on : Only known base) (key : String) {value : Value}
    (only : Only known value) (strict : Bool) : Discreet known (putValueProperty engine base key value strict) := by
  cases base with
  | object id => exact discreet_put_property discreet on key only strict
  | undefined | null => exact discreet_throw_showing _ _
  | _ => exact discreet_put_on_wrapper discreet on key only strict

omit discreet in
theorem discreet_delete_property (kn : known id) (key : String) (throws : Bool) :
    Discreet known (deleteProperty id key throws) :=
  .bind (discreet_update_object kn fun _ before => ⟨trivial, Object.only_delete before key⟩) fun _ _ =>
    discreet_when _ (.pure trivial)

/-! ## Descriptions -/

theorem discreet_descriptor_part (kn : known id) (part : String) : Discreet known (descriptorPart engine id part) :=
  .bind (.ask_heap fun _ _ => trivial) fun _ _ =>
    .ite (.map some (fun _ => only_some) (discreet_get_property discreet kn part)) (.pure only_none)

theorem discreet_descriptor_function (kn : known id) (part : String) :
    Discreet known (descriptorFunction engine id part) := by
  refine .bind (discreet_descriptor_part discreet kn part) fun given only => ?_
  split
  · exact .pure only_none
  · exact .pure (only_some only_none)
  · next value _ =>
    split
    · next f same =>
      refine .bind (.ask_heap fun _ _ => trivial) fun _ _ => .ite (.pure ?_) (discreet_throw_showing _ _)
      exact only_some (only_some (only_as_object (only value rfl) f same))
    · exact discreet_throw_showing _ _

theorem discreet_to_patch {value : Value} (only : Only known value) : Discreet known (toPatch engine value) := by
  unfold toPatch
  split
  · next id =>
    have part := discreet_descriptor_part discreet (show known id from only)
    refine .bind (part _) fun enumerable _ => .bind (part _) fun configurable _ => ?_
    refine .bind (part _) fun data given => .bind (part _) fun writable _ => ?_
    refine .bind (discreet_descriptor_function discreet only _) fun get getter => ?_
    refine .bind (discreet_descriptor_function discreet only _) fun set setter => ?_
    exact discreet_when _ (.pure ⟨given, getter, setter⟩)
  · exact discreet_throw_showing _ _

omit discreet in
theorem only_function_value {f : Option ObjectId} (only : Only known f) : Only known (functionValue f) := by
  cases f with
  | none => trivial
  | some id => exact only id rfl

omit discreet in
theorem discreet_of_property {p : Property} (only : Only known p) : Discreet known (ofProperty p) := by
  refine .bind discreet_get_intrinsics fun intrinsics up => discreet_new_object ?_
  have plain : Only known (Object.new .ordinary (some intrinsics.objectPrototype)) :=
    Object.only_new trivial (only_some up.object)
  refine Object.only_set_data (Object.only_set_data ?_ trivial) trivial
  obtain ⟨kind, enumerable, configurable⟩ := p
  cases kind with
  | data value writable => exact Object.only_set_data (Object.only_set_data plain only) trivial
  | accessor get set =>
    exact Object.only_set_data (Object.only_set_data plain (only_function_value only.1)) (only_function_value only.2)

/-! ## Lists -/

theorem discreet_elements_from (kn : known id) (index : Nat) {done : List Value} (before : Only known done)
    (count : Nat) : Discreet known (elementsFrom engine id index done count) := by
  induction count generalizing index done with
  | zero => exact .pure fun v member => before v (List.mem_reverse.1 member)
  | succ count ih =>
    exact .bind (discreet_get_property discreet kn _) fun value found => ih _ (only_cons found before)

theorem discreet_to_list (kn : known id) : Discreet known (toList engine id) := by
  refine .bind (discreet_get_property discreet kn _) fun length found => ?_
  refine .bind (discreet_to_uint32 discreet found) fun n _ => ?_
  exact discreet_when _ (discreet_elements_from discreet kn 0 only_nil _)

/-! ## References -/

theorem discreet_get_binding (place : EnvironmentId) (name : String) (strict : Bool) :
    Discreet known (getBinding engine place name strict) := by
  refine .bind (discreet_get_environment place) fun e only => ?_
  obtain ⟨outer, bindings⟩ := e
  cases bindings with
  | declarative names =>
    dsimp only
    split
    · next b found => exact .ite (.pure (only name b found)) (discreet_throw_fault _)
    · exact discreet_throw_fault _
  | properties object providesThis =>
    refine .bind (.ask_heap fun _ _ => trivial) fun _ _ => .ite (discreet_get_property discreet only name) ?_
    exact .ite (discreet_throw_fault _) (.pure trivial)

theorem discreet_set_binding (place : EnvironmentId) (name : String) {value : Value} (only : Only known value)
    (strict : Bool) : Discreet known (setBinding engine place name value strict) := by
  refine .bind (discreet_get_environment place) fun e here => ?_
  obtain ⟨outer, bindings⟩ := e
  cases bindings with
  | declarative names =>
    dsimp only
    split
    · exact discreet_throw_fault _
    · refine .ite (discreet_throw_fault _) (.ite ?_ (.ite (discreet_throw_fault _) (.pure trivial)))
      exact discreet_modify_environment place fun _ before => Environment.only_set before only
  | properties object providesThis => exact discreet_put_property discreet here name only strict

omit discreet in
theorem discreet_delete_binding (place : EnvironmentId) (name : String) :
    Discreet known (deleteBinding place name) := by
  refine .bind (discreet_get_environment place) fun e here => ?_
  obtain ⟨outer, bindings⟩ := e
  cases bindings with
  | declarative names =>
    dsimp only
    split
    · exact .pure trivial
    · refine .ite (.bind ?_ fun _ _ => .pure trivial) (.pure trivial)
      exact discreet_modify_environment place fun _ before => Environment.only_erase before
  | properties object providesThis => exact discreet_delete_property here name false

omit discreet in
theorem discreet_resolve_name (name : String) : Discreet known (resolveName name) :=
  .read fun _ _ => trivial

theorem discreet_get_reference {r : Reference} (only : Only known r) : Discreet known (getReference engine r) := by
  unfold getReference
  split
  · exact discreet_throw_fault _
  · exact discreet_get_binding discreet _ _ _
  · exact discreet_get_value_property discreet only _

theorem discreet_put_reference {r : Reference} (on : Only known r) {value : Value} (only : Only known value) :
    Discreet known (putReference engine r value) := by
  unfold putReference
  split
  · refine .ite (discreet_throw_fault _) ?_
    exact .bind discreet_get_realm fun realm here => discreet_put_property discreet here.2 _ only false
  · exact discreet_set_binding discreet _ _ only _
  · exact discreet_put_value_property discreet on _ only _

omit discreet in
theorem discreet_receiver_of {r : Reference} (only : Only known r) : Discreet known (receiverOf r) := by
  unfold receiverOf
  split
  · exact .pure trivial
  · exact .bind (discreet_get_environment _) fun e here => .pure (Environment.only_implicit_this here)
  · exact .pure only

omit discreet in
theorem discreet_delete_reference {r : Reference} (only : Only known r) : Discreet known (deleteReference r) := by
  unfold deleteReference
  split
  · exact .pure trivial
  · exact discreet_delete_binding _ _
  · exact .bind (discreet_to_object only) fun id kn => discreet_delete_property kn _ _

end

end ScriptEngine
