import ScriptEngine.Interpreter
import ScriptEngine.Proofs.Orderly.Library

/-!
Calling and constructing are orderly. So every action of the engine with one step more is an orderly one
that goes back to the engine, and what all orderly actions have in common holds of the engine with any
number of steps.
-/

namespace ScriptEngine

variable {t : Terms} {own : Rights} {moves : Bool}

theorem orderly_call_function (callee : ObjectId) (this : Value) (arguments : List Value)
    {f : Callable} (known : ∀ g, f = .native g → t.known g)
    (around : ∀ g, f = .script g → own.around g.environment) :
    Orderly t own moves fun E => callFunction E callee this arguments f := by
  cases f with
  | native f => exact .nested (Library.orderly_run (t.allows_call (known f rfl)) this arguments)
  | script f => exact orderly_call_script callee (around f rfl) this arguments
  | bound f => exact .call ..

/-- A value that can be called runs something that is known. -/
theorem known_callable {h : Heap} (known : h.Known t) {value : Value} {f : Callable}
    (found : h.callable? value = some f) : ∀ g, f = .native g → t.known g := by
  rintro g rfl
  cases value with
  | object id => exact known id g found
  | _ => cases found

/-- A value that was found to be callable or not is called. -/
def callFound (engine : Engine) (function this : Value) (arguments : List Value) (f : Option Callable) :
    Eval Value :=
  match function.asObject?, f with
  | some callee, some f => callFunction engine callee this arguments f
  | _, _ => do throwFault (.notFunction (← displayValue function))

theorem call_value_finds (engine : Engine) (function this : Value) (arguments : List Value) :
    callValue engine function this arguments =
      askHeap (·.callable? function) >>= callFound engine function this arguments := rfl

theorem orderly_call_found (function this : Value) (arguments : List Value) {f : Option Callable}
    (known : ∀ g, f = some (.native g) → t.known g)
    (around : ∀ g, f = some (.script g) → own.around g.environment) :
    Orderly t own moves fun E => callFound E function this arguments f := by
  have refused : Orderly t own moves fun _ =>
      displayValue function >>= fun text => (throwFault (.notFunction text) : Eval Value) :=
    .bind (orderly_display_value _) fun _ => orderly_throw_fault _
  unfold callFound
  split
  · next callee f _ =>
    apply orderly_call_function callee this arguments
    · exact fun g same => known g (congrArg some same)
    · exact fun g same => around g (congrArg some same)
  · exact refused

theorem orderly_call_value (around : ∀ id, own.around id) (function this : Value) (arguments : List Value) :
    Orderly t own moves fun E => callValue E function this arguments := by
  simp only [call_value_finds]
  refine .consult fun h known => orderly_call_found function this arguments ?_ fun g _ => around _
  exact fun g found => known_callable known found g rfl

theorem orderly_prototype_for (constructor : ObjectId) :
    Orderly t own moves fun E => prototypeFor E constructor := by
  refine .bind (orderly_get_property ..) fun value => ?_
  split
  · exact .pure _
  · exact .bind orderly_get_intrinsics fun _ => .pure _

theorem orderly_initialize_with (callee : ObjectId) {instanceId : ObjectId} (mine : own.objects instanceId)
    (arguments : List Value) {f : Callable} (known : ∀ g, f = .native g → t.known g)
    (around : ∀ g, f = .script g → own.around g.environment) :
    Orderly t own moves fun E => initializeWith E callee instanceId arguments f := by
  cases f with
  | native f =>
    unfold initializeWith
    dsimp only
    split
    · rename_i c constructs
      refine .nested (Library.orderly_construct (fun call same => ?_) mine arguments)
      exact t.allows_construct (known f rfl) (constructs.trans (congrArg some same))
    · exact orderly_throw_fault _
  | script f => exact orderly_call_script callee (around f rfl) ..
  | bound f => exact .pure _

/-- What is constructed is a new object before anything is done to it. -/
theorem orderly_construct_new (callee : ObjectId) (arguments : List Value) {f : Callable}
    (known : ∀ g, f = .native g → t.known g) (around : ∀ g, f = .script g → own.around g.environment) :
    Orderly t own moves fun E => prototypeFor E callee >>= fun proto =>
      createObjectFrom (some proto) >>= fun instanceId =>
        initializeWith E callee instanceId arguments f >>= fun result =>
          pure (if result.isObject then result else .object instanceId) := by
  refine .bind (orderly_prototype_for callee) fun proto => .make _ (proper_of_plain rfl) fun id => ?_
  exact .bind (orderly_initialize_with callee (Rights.owns_new _ id) arguments known around) fun result => .pure _

theorem orderly_construct_by (callee : ObjectId) (arguments : List Value) {f : Callable}
    (known : ∀ g, f = .native g → t.known g) (around : ∀ g, f = .script g → own.around g.environment) :
    Orderly t own moves fun E => constructBy E callee arguments f := by
  cases f with
  | bound f => exact .construct ..
  | native f => exact orderly_construct_new callee arguments known around
  | script f => exact orderly_construct_new callee arguments known around

/-- An object is constructed by a value that was found to be able to or not. -/
def constructFound (engine : Engine) (constructor : Value) (arguments : List Value) (f : Option Callable) :
    Eval Value :=
  match constructor.asObject?, f with
  | some callee, some f => constructBy engine callee arguments f
  | _, _ => do throwFault (.notConstructor (← displayValue constructor))

theorem construct_value_finds (engine : Engine) (constructor : Value) (arguments : List Value) :
    constructValue engine constructor arguments =
      askHeap (fun h => (h.callable? constructor).filter h.isConstructor) >>=
        constructFound engine constructor arguments := rfl

theorem orderly_construct_found (constructor : Value) (arguments : List Value) {f : Option Callable}
    (known : ∀ g, f = some (.native g) → t.known g)
    (around : ∀ g, f = some (.script g) → own.around g.environment) :
    Orderly t own moves fun E => constructFound E constructor arguments f := by
  have refused : Orderly t own moves fun _ =>
      displayValue constructor >>= fun text => (throwFault (.notConstructor text) : Eval Value) :=
    .bind (orderly_display_value _) fun _ => orderly_throw_fault _
  unfold constructFound
  split
  · next callee f _ =>
    apply orderly_construct_by callee arguments
    · exact fun g same => known g (congrArg some same)
    · exact fun g same => around g (congrArg some same)
  · exact refused

theorem orderly_construct_value (around : ∀ id, own.around id) (constructor : Value) (arguments : List Value) :
    Orderly t own moves fun E => constructValue E constructor arguments := by
  simp only [construct_value_finds]
  refine .consult fun h known => orderly_construct_found constructor arguments ?_ fun g _ => around _
  exact fun g found => known_callable known (Option.filter_eq_some_iff.1 found).1 g rfl

/-! ## One step more -/

namespace Engine

/-- The engine without steps. -/
def spent : Engine where
  rounds := 0
  evaluate _ := throw .exhausted
  execute _ _ := throw .exhausted
  call _ _ _ := throw .exhausted
  construct _ _ := throw .exhausted

/-- The engine whose actions go back to another one. -/
def next (E : Engine) (rounds : Nat) : Engine where
  rounds := rounds
  evaluate e := evaluateForm E e.form
  execute labels s := executeForm E labels s.form
  call f this arguments := callValue E f this arguments
  construct f arguments := constructValue E f arguments

end Engine

end ScriptEngine
