import ScriptEngine.Evaluation.Expression
import ScriptEngine.Proofs.Orderly.Values

/-!
The evaluation of expressions is orderly. Array literals are the one place where a length is set without
a check, on an array that was just made.
-/

namespace ScriptEngine

variable {t : Terms} {own : Rights} {moves : Bool}

theorem orderly_to_key (base key : Value) : Orderly t own moves fun E => toKey E base key :=
  .ite (orderly_display_value _) (orderly_to_text _)

theorem orderly_evaluate_reference (e : Expr) :
    Orderly t own moves fun E => evaluateReference E e := by
  unfold evaluateReference
  split
  · exact orderly_resolve_name _
  · exact .bind (.evaluate _) fun base => .bind orderly_is_strict_code fun _ => .pure _
  · refine .bind (.evaluate _) fun base => .bind (.evaluate _) fun value => ?_
    exact .bind (orderly_to_key ..) fun key => .bind orderly_is_strict_code fun _ => .pure _
  · exact .bind (.discard (.evaluate _)) fun _ => orderly_throw_fault _

/-- A property leads to no environment. -/
theorem orderly_referred_property {α : Type} {rest : Engine → Reference → Eval α} (base : Value) (key : String)
    (next : ∀ r, Orderly t (own.finding r.place) moves fun E => rest E r) :
    Orderly t own moves fun E => isStrictCode >>= fun strict => rest E (.property base key strict) :=
  .find (fun m => m.context.strict) (fun _ => none) (fun _ _ => rfl) (fun _ _ => nofun) fun _ => next (.property ..)

/-- What an expression refers to may be used. -/
theorem orderly_referred {α : Type} {rest : Engine → Reference → Eval α} (e : Expr)
    (next : ∀ r, Orderly t (own.finding r.place) moves fun E => rest E r) :
    Orderly t own moves fun E => evaluateReference E e >>= rest E := by
  unfold evaluateReference
  split
  · exact orderly_resolved _ next
  · next object name _ =>
    simp only [bind_assoc, pure_bind]
    exact .bind (.evaluate object) fun base => orderly_referred_property base name next
  · next object key _ =>
    simp only [bind_assoc, pure_bind]
    refine .bind (.evaluate object) fun base => .bind (.evaluate key) fun value => ?_
    exact .bind (orderly_to_key base value) fun key => orderly_referred_property base key next
  · have refused (E : Engine) : (throwFault .badAssignment >>= rest E : Eval α) = throwFault .badAssignment := rfl
    simp only [bind_assoc, refused]
    exact .bind (.discard (.evaluate e)) fun _ => orderly_throw_fault _

/-! ## Literals -/

theorem orderly_fill_array (id : ObjectId) (index : Nat) (elements : List (Option Expr)) :
    Orderly t own moves fun E => fillArray E id index elements := by
  induction elements generalizing index with
  | nil => exact .pure ()
  | cons element rest ih =>
    cases element with
    | none => exact ih _
    | some e =>
      refine .bind (.evaluate e) fun value => .bind (.discard ?_) fun _ => ih _
      exact orderly_define_unchecked id _ (indexKey_ne_lengthKey index)

theorem orderly_evaluate_array (elements : List (Option Expr)) :
    Orderly t own moves fun E => evaluateArray E elements := by
  simp only [evaluateArray, createArray, bind_assoc]
  refine .bind orderly_get_intrinsics fun intrinsics => .make _ (proper_of_plain rfl) fun id => ?_
  refine .bind (orderly_fill_array id 0 elements) fun _ => .bind (.discard ?_) fun _ => .pure _
  exact .changeOwn id _ (Rights.owns_new _ id) fun _ _ _ => proper_of_kind (Object.define_kind ..)

theorem orderly_entry_patch (entry : Entry) : Orderly t own moves fun E => entryPatch E entry := by
  unfold entryPatch
  split
  · exact .bind (.evaluate _) fun _ => .pure _
  all_goals
    refine .here fun environment => ?_
    exact .bind (orderly_create_script_function _ (Rights.reaches_new own environment)) fun f => .pure _

theorem orderly_evaluate_object (entries : List Entry) :
    Orderly t own moves fun E => evaluateObject E entries := by
  refine .bind orderly_create_object fun id => .bind (.forM entries fun entry => ?_) fun _ => .pure _
  exact .bind (orderly_entry_patch entry) fun patch => .discard (orderly_define_property ..)

theorem orderly_evaluate_function (code : FunctionCode) :
    Orderly t own moves fun _ => evaluateFunction code := by
  unfold evaluateFunction
  refine .here fun outer => ?_
  split
  · refine .prepare _ (Environment.firm_declarative _) ⟨outer, rfl, Rights.stands_new own outer⟩ fun environment => ?_
    refine .bind (orderly_create_script_function code (Rights.reaches_new _ environment)) fun f => ?_
    refine .bind (.construction environment _ (Rights.builds_new _ environment) (fun e firm => ?_) fun e => ?_)
      fun _ => .pure _
    · exact Environment.firm_first_value (Environment.firm_set firm rfl) _
    · exact (Environment.outer_initialize ..).trans (Environment.outer_set ..)
  · exact .bind (orderly_create_script_function code (Rights.reaches_new own outer)) fun f => .pure _

/-! ## Operators -/

theorem orderly_evaluate_delete (e : Expr) : Orderly t own moves fun E => evaluateDelete E e := by
  refine .ite ?_ (.bind (.discard (.evaluate e)) fun _ => .pure _)
  exact orderly_referred e fun r => .bind (orderly_delete_reference r) fun _ => .pure _

theorem orderly_evaluate_type_of (e : Expr) : Orderly t own moves fun E => evaluateTypeOf E e := by
  have name (value : Value) : Orderly t own moves fun _ =>
      askHeap (·.typeOf value) >>= fun type => (pure (.string type) : Eval Value) :=
    .bind (orderly_ask_heap _) fun type => .pure _
  unfold evaluateTypeOf
  dsimp only
  split
  · refine .bind (orderly_resolve_name _) fun r => ?_
    split
    · exact .bind (.pure _) name
    · exact .bind (orderly_get_reference _) name
  · exact .bind (.evaluate e) name

theorem orderly_evaluate_unary (op : UnaryOp) (e : Expr) :
    Orderly t own moves fun E => evaluateUnary E op e := by
  unfold evaluateUnary
  cases op with
  | delete => exact orderly_evaluate_delete e
  | typeOf => exact orderly_evaluate_type_of e
  | void => exact .bind (.discard (.evaluate e)) fun _ => .pure _
  | negate | plus => exact .bind (.evaluate e) fun value => .bind (orderly_to_number value) fun _ => .pure _
  | not => exact .bind (.evaluate e) fun value => .pure _
  | bitNot => exact .bind (.evaluate e) fun value => .bind (orderly_to_int32 value) fun _ => .pure _

theorem orderly_evaluate_update (op : UpdateOp) (operatorFirst : Bool) (target : Expr) :
    Orderly t own moves fun E => evaluateUpdate E op operatorFirst target := by
  refine orderly_referred target fun r => .bind (orderly_get_reference r) fun value => ?_
  exact .bind (orderly_to_number value) fun old => .bind (orderly_put_reference ..) fun _ => .pure _

theorem orderly_evaluate_assign (op : Option BinaryOp) (target value : Expr) :
    Orderly t own moves fun E => evaluateAssign E op target value := by
  unfold evaluateAssign
  dsimp only
  refine orderly_referred target fun r => ?_
  have store (result : Value) : Orderly t (own.finding r.place) moves fun E =>
      putReference E r result >>= fun _ => pure result :=
    .bind (orderly_put_reference ..) fun _ => .pure result
  cases op with
  | none => exact .bind (.evaluate value) store
  | some op =>
    refine .bind (orderly_get_reference r) fun current => .bind (.evaluate value) fun operand => ?_
    exact .bind (orderly_apply_binary ..) store

/-! ## Calls -/

theorem orderly_evaluate_call (callee : Expr) (arguments : List Expr) :
    Orderly t own moves fun E => evaluateCall E callee arguments := by
  unfold evaluateCall
  dsimp only
  have apply (called : Value × Value) : Orderly t own moves fun E =>
      arguments.mapM E.evaluate >>= fun values => askHeap (·.isCallable called.1) >>= fun callable =>
        if callable then E.call called.1 called.2 values
        else throwFault (.notFunction callee.describe) >>= fun _ : Unit =>
          E.call called.1 called.2 values :=
    .bind (.mapM arguments .evaluate) fun values => .bind (orderly_ask_heap _) fun callable =>
      orderly_unless _ (.call ..)
  refine .ite ?_ ?_
  · refine .bind (orderly_evaluate_reference callee) fun r => .bind (orderly_get_reference r) fun f => ?_
    exact .bind (orderly_receiver_of r) fun this => .bind (.pure (f, this)) apply
  · exact .bind (.evaluate callee) fun f => .bind (.pure (f, Value.undefined)) apply

theorem orderly_evaluate_construct (callee : Expr) (arguments : List Expr) :
    Orderly t own moves fun E => evaluateConstruct E callee arguments := by
  refine .bind (.evaluate callee) fun constructor => .bind (.mapM arguments .evaluate) fun values => ?_
  exact .bind (orderly_ask_heap _) fun able => orderly_unless _ (.construct ..)

theorem orderly_evaluate_sequence (last : Value) (items : List Expr) :
    Orderly t own moves fun E => evaluateSequence E last items := by
  induction items generalizing last with
  | nil => exact .pure last
  | cons e rest ih => exact .bind (.evaluate e) ih

/-! ## All expressions -/

theorem orderly_evaluate_form (form : ExprForm) :
    Orderly t own moves fun E => evaluateForm E form := by
  unfold evaluateForm
  cases form with
  | literal l => exact .pure _
  | identifier name => exact .bind (orderly_resolve_name name) orderly_get_reference
  | this => exact .bind orderly_get_context fun _ => .pure _
  | array elements => exact orderly_evaluate_array elements
  | object entries => exact orderly_evaluate_object entries
  | function code => exact orderly_evaluate_function code
  | unary op operand => exact orderly_evaluate_unary op operand
  | update op operatorFirst target => exact orderly_evaluate_update op operatorFirst target
  | binary op left right =>
    exact .bind (.evaluate left) fun x => .bind (.evaluate right) fun y => orderly_apply_binary op x y
  | logical op left right =>
    refine .bind (.evaluate left) fun x => ?_
    split
    · exact .pure x
    · exact .pure x
    · exact .evaluate right
  | conditional test yes no =>
    exact .bind (.evaluate test) fun value => .ite (.evaluate yes) (.evaluate no)
  | assign op target value => exact orderly_evaluate_assign op target value
  | sequence items => exact orderly_evaluate_sequence _ items
  | member object name => exact .bind (.evaluate object) fun base => orderly_get_value_property base name
  | index object key =>
    refine .bind (.evaluate object) fun base => .bind (.evaluate key) fun value => ?_
    exact .bind (orderly_to_key base value) fun key => orderly_get_value_property base key
  | call callee arguments => exact orderly_evaluate_call callee arguments
  | construct callee arguments => exact orderly_evaluate_construct callee arguments

end ScriptEngine
