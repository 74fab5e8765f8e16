import ScriptEngine.Evaluation.Operator
import ScriptEngine.Evaluation.Reference
import ScriptEngine.Proofs.Evaluation.Orderly

/-!
The actions on single values are orderly: making objects, reading, writing and defining properties,
conversions, operators and references.
-/

namespace ScriptEngine

variable {t : Terms} {own : Rights} {moves : Bool} {α : Type} {within : EnvironmentId → Prop}
variable {targets : ObjectId → Prop}

/-! ## New objects -/

theorem orderly_create_object_from (proto : Option ObjectId) :
    Orderly t own moves fun _ => createObjectFrom proto :=
  .newObject _ (proper_of_plain rfl)

theorem orderly_create_object : Orderly t own moves fun _ => createObject :=
  .bind orderly_get_intrinsics fun _ => orderly_create_object_from _

theorem orderly_create_array (items : List Value) : Orderly t own moves fun _ => createArray items :=
  .bind orderly_get_intrinsics fun _ => .newObject _ (proper_of_plain rfl)

theorem proper_wrapping {intrinsics : Intrinsics} {kind : ObjectKind}
    (plain : ∀ f, kind ≠ .function f) : (Object.wrapping intrinsics kind).Proper t within targets := by
  refine proper_of_plain ?_
  cases kind with
  | function f => exact absurd rfl (plain f)
  | _ => rfl

theorem orderly_create_wrapper (kind : ObjectKind) (plain : ∀ f, kind ≠ .function f) :
    Orderly t own moves fun _ => createWrapper kind :=
  .bind orderly_get_intrinsics fun _ => .newObject _ (proper_wrapping plain)

theorem proper_of_script {proto : ObjectId} {f : ScriptFunction} {length : Nat} {name : String}
    (made : within f.environment) : (Object.ofCallable proto (.script f) length name).Proper t within targets where
  known _ := nofun
  placed := by
    rintro _ ⟨⟩
    exact made
  aimed _ := nofun

theorem proper_of_native {proto : ObjectId} {f : NativeFunction} {length : Nat} {name : String}
    (known : t.known f) : (Object.ofCallable proto (.native f) length name).Proper t within targets where
  known := by
    rintro _ ⟨⟩
    exact known
  placed _ := nofun
  aimed _ := nofun

theorem orderly_create_native (name : String) (length : Nat) {call : Builtin}
    (known : t.known ⟨name, call, none⟩) : Orderly t own moves fun _ => createNative name length call :=
  .bind orderly_get_intrinsics fun _ => .newObject _ (proper_of_native known)

theorem proper_of_bound {proto : ObjectId} {f : BoundFunction} {length : Nat} {name : String}
    (found : targets f.target) : (Object.ofCallable proto (.bound f) length name).Proper t within targets where
  known _ := nofun
  placed _ := nofun
  aimed := by
    rintro _ ⟨⟩
    exact found

theorem orderly_create_bound_function {f : BoundFunction} (found : own.targets f.target) (length : Nat)
    (name : String) : Orderly t own moves fun _ => createFunctionObject (.bound f) length name :=
  .bind orderly_get_intrinsics fun _ => .newObject _ (proper_of_bound found)

theorem proper_of_error (intrinsics : Intrinsics) (kind : ErrorKind) (message : String) :
    (Object.ofError intrinsics kind message).Proper t within targets := by
  unfold Object.ofError
  dsimp only
  split <;> exact proper_of_plain rfl

theorem orderly_create_error (kind : ErrorKind) (message : String) :
    Orderly t own moves fun _ => createError kind message :=
  .bind orderly_get_intrinsics fun _ => .newObject _ (proper_of_error _ kind message)

theorem orderly_throw_value (value : Value) :
    Orderly t own moves fun _ => (throwValue value : Eval α) :=
  .raise _ nofun

theorem orderly_throw_fault (fault : Fault) :
    Orderly t own moves fun _ => (throwFault fault : Eval α) :=
  .bind (orderly_create_error _ _) fun _ => orderly_throw_value _

/-- What is not accepted is thrown, and otherwise the action goes on. -/
theorem orderly_unless {c : Prop} [Decidable c] {rest : Engine → Eval α} (fault : Fault)
    (goesOn : Orderly t own moves rest) :
    Orderly t own moves fun E => if c then rest E else throwFault fault >>= fun _ : Unit => rest E :=
  .ite goesOn (.bind (orderly_throw_fault fault) fun _ => goesOn)

theorem orderly_when {c : Prop} [Decidable c] {rest : Engine → Eval α} (fault : Fault)
    (goesOn : Orderly t own moves rest) :
    Orderly t own moves fun E => if c then throwFault fault >>= fun _ : Unit => rest E else rest E :=
  .ite (.bind (orderly_throw_fault fault) fun _ => goesOn) goesOn

theorem orderly_set_own {id : ObjectId} (mine : own.objects id) (key : String) (value : Value)
    (attributes : Attributes) :
    Orderly t own moves fun _ => modifyObject id (·.setData key value attributes) :=
  .changeOwn id _ mine fun _ _ _ => proper_of_kind rfl

/-- A function and its prototype are made before they are linked. -/
theorem orderly_create_script_function (code : FunctionCode) {environment : EnvironmentId}
    (reached : own.reached environment) :
    Orderly t own moves fun _ => createScriptFunction code environment := by
  simp only [createScriptFunction, createFunctionObject, createObject, createObjectFrom, bind_assoc]
  refine .bind orderly_get_context fun context => .bind orderly_get_intrinsics fun intrinsics => ?_
  refine .make _ (proper_of_script reached) fun f => .ite (.pure _) ?_
  refine .bind orderly_get_intrinsics fun intrinsics => .make _ (proper_of_plain rfl) fun proto => ?_
  refine .bind (orderly_set_own (Rights.owns_new _ proto) ..) fun _ => ?_
  exact .bind (orderly_set_own (Rights.owns_old (Rights.owns_new _ f) proto) ..) fun _ => .pure f

theorem orderly_create_arguments (callee : ObjectId) (arguments : List Value) (strict : Bool) :
    Orderly t own moves fun _ => createArguments callee arguments strict := by
  refine .bind orderly_get_intrinsics fun intrinsics => .newObject _ ?_
  split <;> exact proper_of_plain rfl

/-! ## Reading -/

theorem orderly_read_property (p : Option Property) (receiver : Value) :
    Orderly t own moves fun E => readProperty E p receiver := by
  unfold readProperty
  split
  · exact .pure _
  · exact .pure _
  · exact .call ..
  · exact .pure _

theorem orderly_get_property (id : ObjectId) (key : String) :
    Orderly t own moves fun E => getProperty E id key :=
  .bind (orderly_ask_heap _) fun p => orderly_read_property p _

theorem orderly_get_value_property (base : Value) (key : String) :
    Orderly t own moves fun E => getValueProperty E base key := by
  have inherited (proto : ObjectId) : Orderly t own moves fun E =>
      askHeap (·.find? (some proto) key) >>= fun p => readProperty E p base :=
    .bind (orderly_ask_heap _) fun p => orderly_read_property p base
  unfold getValueProperty
  cases base with
  | object id => exact orderly_get_property id key
  | undefined | null => exact .bind (orderly_display_value _) fun _ => orderly_throw_fault _
  | string text =>
    dsimp only
    split
    · exact .pure _
    · exact .bind orderly_get_intrinsics fun intrinsics => inherited _
  | number n | boolean b => exact .bind orderly_get_intrinsics fun intrinsics => inherited _

/-! ## Conversions -/

theorem orderly_first_primitive (id : ObjectId) (names : List String) :
    Orderly t own moves fun E => firstPrimitive E id names := by
  induction names with
  | nil => exact orderly_throw_fault _
  | cons name rest ih =>
    unfold firstPrimitive
    refine .bind (orderly_get_property id name) fun method => .bind (orderly_ask_heap _) fun callable => ?_
    exact .ite (.bind (.call ..) fun result => .ite ih (.pure _)) ih

theorem orderly_to_primitive (value : Value) (hint : Hint) :
    Orderly t own moves fun E => toPrimitive E value hint := by
  cases value with
  | object id => exact orderly_first_primitive id _
  | _ => exact .pure _

theorem orderly_to_number (value : Value) : Orderly t own moves fun E => toNumber E value :=
  .bind (orderly_to_primitive value _) fun _ => .pure _

theorem orderly_to_text (value : Value) : Orderly t own moves fun E => toText E value :=
  .bind (orderly_to_primitive value _) fun _ => .pure _

theorem orderly_to_integer (value : Value) : Orderly t own moves fun E => toInteger E value :=
  .bind (orderly_to_number value) fun _ => .pure _

theorem orderly_to_int32 (value : Value) : Orderly t own moves fun E => toInt32 E value :=
  .bind (orderly_to_number value) fun _ => .pure _

theorem orderly_to_uint32 (value : Value) : Orderly t own moves fun E => toUint32 E value :=
  .bind (orderly_to_number value) fun _ => .pure _

theorem orderly_to_uint16 (value : Value) : Orderly t own moves fun E => toUint16 E value :=
  .bind (orderly_to_number value) fun _ => .pure _

theorem orderly_check_coercible (value : Value) :
    Orderly t own moves fun _ => checkCoercible value :=
  .ite (.bind (orderly_display_value _) fun _ => orderly_throw_fault _) (.pure _)

theorem orderly_to_object (value : Value) : Orderly t own moves fun _ => toObject value := by
  unfold toObject
  cases value with
  | object id => exact .pure _
  | boolean b => exact orderly_create_wrapper (.boolean b) (by simp)
  | number n => exact orderly_create_wrapper (.number n) (by simp)
  | string s => exact orderly_create_wrapper (.string s) (by simp)
  | undefined | null =>
    dsimp only
    exact .bind (orderly_display_value _) fun _ => orderly_throw_fault _

theorem orderly_loose_equals (x y : Value) : Orderly t own moves fun E => looseEquals E x y := by
  unfold looseEquals
  split
  · exact .pure _
  · exact .ite (.pure _) (.bind (orderly_to_primitive ..) fun _ => .pure _)
  · exact .ite (.pure _) (.bind (orderly_to_primitive ..) fun _ => .pure _)
  · exact .pure _

theorem orderly_less_than (x y : Value) (leftFirst : Bool) :
    Orderly t own moves fun E => lessThan E x y leftFirst := by
  unfold lessThan
  refine .ite ?_ ?_
  · exact .bind (orderly_to_primitive ..) fun a => .bind (orderly_to_primitive ..) fun b => .pure _
  · exact .bind (orderly_to_primitive ..) fun b => .bind (orderly_to_primitive ..) fun a => .pure _

/-! ## Operators -/

theorem orderly_instance_of (value constructor : Value) :
    Orderly t own moves fun E => instanceOf E value constructor := by
  unfold instanceOf
  split
  · exact orderly_throw_fault _
  · refine .bind (orderly_ask_heap _) fun callable => orderly_unless _ ?_
    split
    · refine .bind (orderly_ask_heap _) fun target => .bind (orderly_get_property ..) fun proto => ?_
      split
      · exact orderly_ask_heap _
      · exact .bind (orderly_display_value _) fun _ => orderly_throw_fault _
    · exact .pure _

theorem orderly_bitwise (x y : Value) (f : Int32 → Int32 → Int32) :
    Orderly t own moves fun E => bitwise E x y f :=
  .bind (orderly_to_int32 x) fun _ => .bind (orderly_to_int32 y) fun _ => .pure _

theorem orderly_arithmetic (x y : Value) (f : Number → Number → Number) :
    Orderly t own moves fun E => arithmetic E x y f :=
  .bind (orderly_to_number x) fun _ => .bind (orderly_to_number y) fun _ => .pure _

theorem orderly_apply_binary (op : BinaryOp) (x y : Value) :
    Orderly t own moves fun E => applyBinary E op x y := by
  unfold applyBinary
  cases op with
  | add => exact .bind (orderly_to_primitive ..) fun _ => .bind (orderly_to_primitive ..) fun _ => .pure _
  | sub | mul | div | mod => exact orderly_arithmetic ..
  | shiftLeft | shiftRight =>
    exact .bind (orderly_to_int32 x) fun _ => .bind (orderly_to_uint32 y) fun _ => .pure _
  | unsignedShiftRight =>
    exact .bind (orderly_to_uint32 x) fun _ => .bind (orderly_to_uint32 y) fun _ => .pure _
  | bitAnd | bitOr | bitXor => exact orderly_bitwise ..
  | equal | notEqual => exact .bind (orderly_loose_equals x y) fun _ => .pure _
  | strictEqual | strictNotEqual => exact .pure _
  | less | greater | lessEqual | greaterEqual => exact .bind (orderly_less_than ..) fun _ => .pure _
  | isIn =>
    cases y with
    | object id => exact .bind (orderly_to_text x) fun _ => .bind (orderly_ask_heap _) fun _ => .pure _
    | _ =>
      exact .bind (orderly_display_value _) fun _ => .bind (orderly_display_value _) fun _ =>
        orderly_throw_fault _
  | instanceOf => exact .bind (orderly_instance_of x y) fun _ => .pure _

/-! ## Writing -/

/-- What is asked about an object just before it is changed still holds when it is changed. -/
theorem ask_then_update {β γ : Type} (id : ObjectId) (test : Object → Bool) {f g : Object → β × Object}
    (agree : ∀ o, test o = false → f o = g o) (yes : Eval γ) (rest : β → Eval γ) :
    (askHeap (fun h => test (h.get id)) >>= fun holds =>
      if holds then yes else updateObject id f >>= rest) =
    (askHeap (fun h => test (h.get id)) >>= fun holds =>
      if holds then yes else updateObject id g >>= rest) := by
  funext m
  change (if test (m.heap.get id) then yes else updateObject id f >>= rest) m =
    (if test (m.heap.get id) then yes else updateObject id g >>= rest) m
  cases holds : test (m.heap.get id) with
  | true => rfl
  | false =>
    change rest (f (m.heap.get id)).1 { m with heap := m.heap.set id (f (m.heap.get id)).2 } =
      rest (g (m.heap.get id)).1 { m with heap := m.heap.set id (g (m.heap.get id)).2 }
    rw [agree _ holds]

/-- A length is checked before anything is done with it. -/
theorem check_length_bind {β : Type} (engine : Engine) (patch : PropertyPatch)
    (rest : PropertyPatch → Eval β) :
    checkLength engine patch >>= rest =
      match patch.value with
      | none => rest patch
      | some requested => toNumber engine requested >>= fun n =>
        if (Number.ofUint32 n.toUint32).eq n then
          rest { patch with value := some (.number (.ofUint32 n.toUint32)) }
        else throwFault .arrayLength := by
  unfold checkLength
  cases patch.value with
  | none => rfl
  | some requested =>
    simp only [bind_assoc]
    congr 1
    funext n
    split
    · rfl
    · rfl

theorem length_checked_of_word (patch : PropertyPatch) (n : UInt32) :
    PropertyPatch.LengthChecked { patch with value := some (.number (.ofUint32 n)) } := by
  rintro v ⟨⟩
  exact ⟨n.toNat, Nat.le_of_lt_succ n.toNat_lt, rfl⟩

theorem length_checked_of_none {patch : PropertyPatch} (unmentioned : patch.value = none) :
    patch.LengthChecked := by
  intro v given
  rw [unmentioned] at given
  cases given

/-- What is not accepted is thrown if that is asked for. -/
theorem orderly_report (fault : Fault) (accepted throws : Bool) :
    Orderly t own moves fun _ =>
      if !accepted && throws then throwFault fault >>= fun _ : Unit => (pure accepted : Eval Bool)
      else pure accepted :=
  orderly_when fault (.pure accepted)

/-- Only where the length of an array is defined has the description to be checked. -/
theorem orderly_define_checked {β : Type} {id : ObjectId} {key : String} {patch : PropertyPatch}
    {rest : Engine → Bool → Eval β} (checked : key = Object.lengthKey → patch.LengthChecked)
    (next : ∀ accepted, Orderly t own moves fun E => rest E accepted) :
    Orderly t own moves fun E => updateObject id (·.define key patch) >>= rest E :=
  .bind (.change id _ fun o => .define o key patch fun _ => checked) next

theorem orderly_define_property (id : ObjectId) (key : String) (patch : PropertyPatch) (throws : Bool) :
    Orderly t own moves fun E => defineProperty E id key patch throws := by
  unfold defineProperty
  dsimp only
  by_cases isLength : key = Object.lengthKey
  · subst isLength
    simp only [BEq.rfl, Bool.and_true, pure_bind]
    -- An object that is no array is changed as one that could not be an array either.
    let guarded (o : Object) : Bool × Object :=
      if o.isArray then (false, o) else o.define Object.lengthKey patch
    have harmless (o : Object) : Object.Change o (guarded o).2 := by
      unfold guarded
      split
      · exact .stay o
      · rename_i other
        exact .define o _ patch fun array => absurd array other
    have agree : ∀ o : Object, o.isArray = false → o.define Object.lengthKey patch = guarded o := by
      intro o other
      simp [guarded, other]
    simp only [ask_then_update id Object.isArray agree, check_length_bind]
    refine .bind (orderly_ask_heap _) fun array => .ite ?_ ?_
    · split
      · rename_i unmentioned
        exact orderly_define_checked (fun _ => length_checked_of_none unmentioned)
          fun accepted => orderly_report _ accepted throws
      · refine .bind (orderly_to_number _) fun n => .ite ?_ (orderly_throw_fault _)
        exact orderly_define_checked (fun _ => length_checked_of_word patch _)
          fun accepted => orderly_report _ accepted throws
    · exact .bind (.change id guarded harmless) fun accepted => orderly_report _ accepted throws
  · have other : (key == Object.lengthKey) = false := by simp [isLength]
    simp only [other, Bool.and_false, Bool.false_eq_true, if_false, pure_bind]
    refine .bind (orderly_ask_heap _) fun array => ?_
    exact orderly_define_checked (fun same => absurd same isLength)
      fun accepted => orderly_report _ accepted throws

theorem orderly_reject_write (key : String) (throws : Bool) :
    Orderly t own moves fun _ => rejectWrite key throws :=
  .ite (orderly_throw_fault _) (.pure _)

theorem orderly_write_found (id : ObjectId) (o : Object) (key : String) (value : Value) (throws : Bool)
    (here found : Option Property) :
    Orderly t own moves fun E =>
      match found.map Property.kind with
      | some (.data _ false) => rejectWrite key throws
      | some (.accessor _ (some setter)) =>
        discard (E.call (.object setter) (.object id) [value])
      | some (.accessor _ none) => rejectWrite key throws
      | some (.data _ true) | none =>
        if here.isSome then discard (defineProperty E id key (.ofValue value) throws)
        else if !o.extensible then rejectWrite key throws
        else discard (defineProperty E id key (.data value .all) throws) := by
  split
  · exact orderly_reject_write ..
  · exact .discard (.call ..)
  · exact orderly_reject_write ..
  all_goals
    refine .ite (.discard (orderly_define_property ..)) (.ite (orderly_reject_write ..) ?_)
    exact .discard (orderly_define_property ..)

theorem orderly_put_property (id : ObjectId) (key : String) (value : Value) (throws : Bool) :
    Orderly t own moves fun E => putProperty E id key value throws := by
  unfold putProperty
  dsimp only
  refine .bind (orderly_get_object id) fun o => ?_
  cases o.getOwn? key with
  | some p => exact .bind (.pure (some p)) fun found => orderly_write_found id o key value throws (some p) found
  | none => exact .bind (orderly_ask_heap _) (orderly_write_found id o key value throws none)

/-- A property of a primitive value is written by a setter, or not at all. -/
theorem orderly_put_on_wrapper (base : Value) (key : String) (value : Value) (strict : Bool) :
    Orderly t own moves fun E =>
      toObject base >>= fun wrapper => getObject wrapper >>= fun o =>
        if (o.getOwn? key).isSome then rejectWrite key strict
        else askHeap (·.find? (some wrapper) key) >>= fun found =>
          match found.map Property.kind with
          | some (.accessor _ (some setter)) => discard (E.call (.object setter) base [value])
          | _ => rejectWrite key strict := by
  refine .bind (orderly_to_object base) fun wrapper => .bind (orderly_get_object _) fun o => ?_
  refine .ite (orderly_reject_write ..) (.bind (orderly_ask_heap _) fun found => ?_)
  split
  · exact .discard (.call ..)
  · exact orderly_reject_write ..

theorem orderly_put_value_property (base : Value) (key : String) (value : Value) (strict : Bool) :
    Orderly t own moves fun E => putValueProperty E base key value strict := by
  cases base with
  | object id => exact orderly_put_property id key value strict
  | undefined | null => exact .bind (orderly_display_value _) fun _ => orderly_throw_fault _
  | _ => exact orderly_put_on_wrapper ..

theorem orderly_delete_property (id : ObjectId) (key : String) (throws : Bool) :
    Orderly t own moves fun _ => deleteProperty id key throws :=
  .bind (.change id _ fun o => .delete o key) fun removed => orderly_report _ removed throws

/-- An element of an array needs no check. -/
theorem orderly_define_unchecked (id : ObjectId) {key : String} (patch : PropertyPatch)
    (element : key ≠ Object.lengthKey) : Orderly t own moves fun _ => defineUnchecked id key patch :=
  .change id _ fun o => .define o key patch fun _ same => absurd same element

/-! ## Descriptions and lists -/

theorem orderly_descriptor_part (id : ObjectId) (part : String) :
    Orderly t own moves fun E => descriptorPart E id part :=
  .bind (orderly_ask_heap _) fun _ => .ite (.map some (orderly_get_property id part)) (.pure none)

theorem orderly_descriptor_function (id : ObjectId) (part : String) :
    Orderly t own moves fun E => descriptorFunction E id part := by
  unfold descriptorFunction
  have refuse (value : Value) : Orderly t own moves fun _ =>
      displayValue value >>= fun shown =>
        (throwFault (.accessorNotFunction part shown) : Eval (Option (Option ObjectId))) :=
    .bind (orderly_display_value value) fun _ => orderly_throw_fault _
  refine .bind (orderly_descriptor_part id part) fun given => ?_
  split
  · exact .pure none
  · exact .pure (some none)
  · split
    · exact .bind (orderly_ask_heap _) fun _ => .ite (.pure _) (refuse _)
    · exact refuse _

theorem orderly_to_patch (value : Value) : Orderly t own moves fun E => toPatch E value := by
  unfold toPatch
  cases value with
  | object id =>
    refine .bind (orderly_descriptor_part ..) fun enumerable => ?_
    refine .bind (orderly_descriptor_part ..) fun configurable => ?_
    refine .bind (orderly_descriptor_part ..) fun data => ?_
    refine .bind (orderly_descriptor_part ..) fun writable => ?_
    refine .bind (orderly_descriptor_function ..) fun get => ?_
    refine .bind (orderly_descriptor_function ..) fun set => ?_
    exact orderly_when _ (.pure _)
  | _ => exact .bind (orderly_display_value _) fun _ => orderly_throw_fault _

theorem orderly_of_property (p : Property) : Orderly t own moves fun _ => ofProperty p := by
  refine .bind orderly_get_intrinsics fun intrinsics => .newObject _ (proper_of_plain ?_)
  cases p.kind <;> rfl

theorem orderly_elements_from (id : ObjectId) (index count : Nat) (done : List Value) :
    Orderly t own moves fun E => elementsFrom E id index done count := by
  induction count generalizing index done with
  | zero => exact .pure _
  | succ count ih => exact .bind (orderly_get_property ..) fun value => ih ..

theorem orderly_to_list (id : ObjectId) : Orderly t own moves fun E => toList E id := by
  refine .bind (orderly_get_property ..) fun length => .bind (orderly_to_uint32 _) fun length => ?_
  exact orderly_when _ (orderly_elements_from ..)

/-! ## Names and references -/

theorem orderly_get_binding (id : EnvironmentId) (name : String) (strict : Bool) :
    Orderly t own moves fun E => getBinding E id name strict := by
  unfold getBinding
  refine .bind (orderly_get_environment id) fun e => ?_
  split
  · split
    · exact .ite (.pure _) (orderly_throw_fault _)
    · exact orderly_throw_fault _
  · refine .bind (orderly_ask_heap _) fun _ => .ite (orderly_get_property ..) ?_
    exact .ite (orderly_throw_fault _) (.pure _)

/-- A change of an environment as long as it has a binding. -/
def whileBound (name : String) (b : Binding) (f : Environment → Environment) (e : Environment) :
    Environment :=
  if e.binding? name = some b then f e else e

/-- What an environment binds just before it is changed it still binds when it is changed. -/
theorem modify_while_bound {m : Machine} {id : EnvironmentId} {names : OrderedMap Binding} {name : String}
    {b : Binding} (holds : (m.environments.get id).bindings = .declarative names)
    (found : names.find? name = some b) (f : Environment → Environment) (rest : Unit → Eval α) :
    (modifyEnvironment id f >>= rest) m = (modifyEnvironment id (whileBound name b f) >>= rest) m := by
  have bound : (m.environments.get id).binding? name = some b := by
    rw [Environment.binding?, holds]
    exact found
  have same : whileBound name b f (m.environments.get id) = f (m.environments.get id) := if_pos bound
  exact congrArg (fun e => rest () { m with environments := m.environments.set id e }) same.symm

/-- Actions agree that agree as long as an environment is as it was read. -/
theorem read_environment (id : EnvironmentId) {rest other : Environment → Eval α}
    (agree : ∀ m : Machine, rest (m.environments.get id) m = other (m.environments.get id) m) :
    getEnvironment id >>= rest = getEnvironment id >>= other :=
  funext agree

theorem orderly_while_bound {id : EnvironmentId} (reached : own.reached id) (name : String) (b : Binding)
    {f : Environment → Environment}
    (lawful : ∀ e : Environment, e.binding? name = some b → e.Keeps (fun _ => False) (f e))
    (firm : ∀ e : Environment, e.binding? name = some b → e.Firm → (f e).Firm) :
    Orderly t own moves fun _ => modifyEnvironment id (whileBound name b f) := by
  refine .alter id _ reached (fun e => ?_) fun e holds => ?_
  · unfold whileBound
    split
    · next bound => exact lawful e bound
    · exact Environment.keeps_refl ..
  · unfold whileBound
    split
    · next bound => exact firm e bound holds
    · exact holds

/-- A binding is only given another value if it has one and may have another. -/
theorem set_binding_bound (engine : Engine) (id : EnvironmentId) (name : String) (value : Value)
    (strict : Bool) :
    setBinding engine id name value strict = (getEnvironment id >>= fun e =>
      match e.bindings with
      | .declarative names =>
        match names.find? name with
        | none => throwFault (.notDefined name)
        | some b =>
          if !b.initialized then throwFault (.uninitialized name)
          else if b.mutable then modifyEnvironment id (whileBound name b (·.set name { b with value }))
          else if strict || b.strict then throwFault .constantAssignment else pure ()
      | .properties object _ => putProperty engine object name value strict) := by
  refine read_environment id fun m => ?_
  cases holds : (m.environments.get id).bindings with
  | properties object providesThis => rfl
  | declarative names =>
    dsimp only
    cases found : names.find? name with
    | none => rfl
    | some b =>
      dsimp only
      split
      · rfl
      · split
        · simpa only [bind_pure] using modify_while_bound holds found _ pure
        · rfl

theorem orderly_set_binding {id : EnvironmentId} (reached : own.reached id) (name : String) (value : Value)
    (strict : Bool) : Orderly t own moves fun E => setBinding E id name value strict := by
  simp only [set_binding_bound]
  refine .bind (orderly_get_environment id) fun e => ?_
  split
  · split
    · exact orderly_throw_fault _
    · next b _ =>
      refine .ite (orderly_throw_fault _) ?_
      by_cases free : b.mutable = true
      · rw [if_pos free]
        refine orderly_while_bound reached name b (fun e bound => ?_) fun e bound firm => ?_
        · refine Environment.keeps_set bound ⟨rfl, rfl, rfl, fun ready => ready, fun _ fixed => ?_⟩ .inl
          rw [free] at fixed
          cases fixed
        · exact Environment.firm_set firm (firm name b bound)
      · rw [if_neg free]
        exact .ite (orderly_throw_fault _) (.pure _)
  · exact orderly_put_property ..

/-- A binding is only removed if it may be deleted. -/
theorem delete_binding_bound (id : EnvironmentId) (name : String) :
    deleteBinding id name = (getEnvironment id >>= fun e =>
      match e.bindings with
      | .declarative names =>
        match names.find? name with
        | none => pure true
        | some b =>
          if b.deletable then
            modifyEnvironment id (whileBound name b (·.erase name)) >>= fun _ => pure true
          else pure false
      | .properties object _ => deleteProperty object name false) := by
  refine read_environment id fun m => ?_
  cases holds : (m.environments.get id).bindings with
  | properties object providesThis => rfl
  | declarative names =>
    dsimp only
    cases found : names.find? name with
    | none => rfl
    | some b =>
      dsimp only
      split
      · exact modify_while_bound holds found _ _
      · rfl

theorem orderly_delete_binding {id : EnvironmentId} (reached : own.reached id) (name : String) :
    Orderly t own moves fun _ => deleteBinding id name := by
  simp only [delete_binding_bound]
  refine .bind (orderly_get_environment id) fun e => ?_
  split
  · split
    · exact .pure _
    · next b _ =>
      cases deletable : b.deletable with
      | false => exact .pure _
      | true =>
        refine .bind (orderly_while_bound reached name b (fun e bound => ?_) fun e _ firm => ?_) fun _ => .pure _
        · refine Environment.keeps_erase fun other found => ?_
          obtain rfl : b = other := Option.some.inj (bound.symm.trans found)
          exact deletable
        · exact Environment.firm_erase firm
  · exact orderly_delete_property ..

theorem orderly_resolve_name (name : String) : Orderly t own moves fun _ => resolveName name :=
  .read (fun m => Reference.name (m.environments.resolve? m.heap m.context.lexical name) name m.context.strict)
    fun _ _ => rfl

/-- The environment that a reference leads to, if it is one to a name. -/
def Reference.place : Reference → Option EnvironmentId
  | .name environment .. => environment
  | .property .. => none

/-- What a name refers to may be used. -/
theorem orderly_resolved {rest : Engine → Reference → Eval α} (name : String)
    (next : ∀ r, Orderly t (own.finding r.place) moves fun E => rest E r) :
    Orderly t own moves fun E => resolveName name >>= rest E :=
  .find (fun m => Reference.name (m.environments.resolve? m.heap m.context.lexical name) name m.context.strict)
    Reference.place (fun _ _ => rfl) (fun _ _ found => .inl (EnvironmentStore.within_of_resolve found)) next

/-- The environment that all scripts share may be used. -/
theorem orderly_shared {rest : Engine → Realm → Eval α}
    (next : ∀ r, Orderly t (own.reaching r.scriptEnvironment) moves fun E => rest E r) :
    Orderly t own moves fun E => getRealm >>= rest E :=
  .find Machine.realm (fun r => some r.scriptEnvironment) (fun _ _ => rfl)
    (fun _ _ found => .inr (Option.some.inj found).symm) next

theorem orderly_get_reference (r : Reference) : Orderly t own moves fun E => getReference E r := by
  unfold getReference
  split
  · exact orderly_throw_fault _
  · exact orderly_get_binding ..
  · exact orderly_get_value_property ..

theorem orderly_put_reference (r : Reference) (value : Value) :
    Orderly t (own.finding r.place) moves fun E => putReference E r value := by
  unfold putReference
  split
  · refine .ite (orderly_throw_fault _) (.bind orderly_get_realm fun realm => ?_)
    exact orderly_put_property ..
  · exact orderly_set_binding (Rights.reaches_new own _) ..
  · exact orderly_put_value_property ..

theorem orderly_receiver_of (r : Reference) : Orderly t own moves fun _ => receiverOf r := by
  unfold receiverOf
  split
  · exact .pure _
  · exact .bind (orderly_get_environment _) fun _ => .pure _
  · exact .pure _

theorem orderly_delete_reference (r : Reference) :
    Orderly t (own.finding r.place) moves fun _ => deleteReference r := by
  unfold deleteReference
  split
  · exact .pure _
  · exact orderly_delete_binding (Rights.reaches_new own _) _
  · exact .bind (orderly_to_object _) fun id => orderly_delete_property ..

end ScriptEngine
