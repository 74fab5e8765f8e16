import ScriptEngine.Proofs.Isolation.Actions
import ScriptEngine.Proofs.Orderly.Statements

/-!
Code keeps to known objects: expressions, statements, functions of scripts and whole scripts, one level at a time.
-/

namespace ScriptEngine

open Refers (Only)

variable {known : ObjectId → Prop} {engine : Engine} (discreet : engine.Discreet known)

include discreet

/-! ## Expressions -/

theorem discreet_to_key (base : Value) {key : Value} (only : Only known key) :
    Discreet known (toKey engine base key) :=
  .ite (discreet_display_value _) (discreet_to_text discreet only)

theorem discreet_evaluate_reference (e : Expr) : Discreet known (evaluateReference engine e) := by
  unfold evaluateReference
  split
  · exact discreet_resolve_name _
  · exact .bind (discreet.evaluate _) fun base only => .bind discreet_is_strict_code fun _ _ => .pure only
  · refine .bind (discreet.evaluate _) fun base only => .bind (discreet.evaluate _) fun value given => ?_
    exact .bind (discreet_to_key discreet base given) fun key _ => .bind discreet_is_strict_code fun _ _ => .pure only
  · exact .bind (.discard (discreet.evaluate _)) fun _ _ => discreet_throw_fault _

omit discreet in
theorem only_literal (l : Literal) : Only known l.value := by
  cases l <;> trivial

theorem discreet_fill_array {id : ObjectId} (kn : known id) (index : Nat) (elements : List (Option Expr)) :
    Discreet known (fillArray engine id index elements) := by
  induction elements generalizing index with
  | nil => exact .pure trivial
  | cons element rest ih =>
    cases element with
    | none => exact ih _
    | some e =>
      refine .bind (discreet.evaluate e) fun value only => ?_
      exact .bind (.discard (discreet_define kn (only_patch_data only _) _)) fun _ _ => ih _

theorem discreet_evaluate_array (elements : List (Option Expr)) :
    Discreet known (evaluateArray engine elements) := by
  refine .bind (discreet_create_array only_nil) fun id kn => ?_
  refine .bind (discreet_fill_array discreet kn 0 elements) fun _ _ => ?_
  exact .bind (.discard (discreet_define kn (only_patch_of_value (only_number _)) _)) fun _ _ => .pure kn

theorem discreet_entry_patch (entry : Entry) : Discreet known (entryPatch engine entry) := by
  unfold entryPatch
  split
  · exact .bind (discreet.evaluate _) fun _ only => .pure (only_patch_data only _)
  · refine .bind discreet_lexical_environment fun _ _ => .bind (discreet_create_script_function _ _) fun f kn => ?_
    exact .pure ⟨only_none, only_some (only_some kn), only_none⟩
  · refine .bind discreet_lexical_environment fun _ _ => .bind (discreet_create_script_function _ _) fun f kn => ?_
    exact .pure ⟨only_none, only_none, only_some (only_some kn)⟩

theorem discreet_evaluate_object (entries : List Entry) : Discreet known (evaluateObject engine entries) := by
  refine .bind discreet_create_object fun id kn => .bind (.forM fun entry _ => ?_) fun _ _ => .pure kn
  refine .bind (discreet_entry_patch discreet entry) fun patch only => ?_
  exact .discard (discreet_define_property discreet kn only _ _)

omit discreet in
theorem discreet_evaluate_function (code : FunctionCode) : Discreet known (evaluateFunction code) := by
  unfold evaluateFunction
  refine .bind discreet_lexical_environment fun outer _ => ?_
  split
  · refine .bind (discreet_new_environment (Environment.only_declarative _)) fun place _ => ?_
    refine .bind (discreet_create_script_function code place) fun f kn => .bind ?_ fun _ _ => .pure kn
    exact discreet_modify_environment place fun e only =>
      Environment.only_initialize (Environment.only_create_immutable only _) kn
  · exact .bind (discreet_create_script_function code outer) fun f kn => .pure kn

theorem discreet_evaluate_delete (e : Expr) : Discreet known (evaluateDelete engine e) := by
  refine .ite ?_ (.bind (.discard (discreet.evaluate e)) fun _ _ => .pure trivial)
  refine .bind (discreet_evaluate_reference discreet e) fun r only => ?_
  exact .bind (discreet_delete_reference only) fun _ _ => .pure trivial

theorem discreet_evaluate_type_of (e : Expr) : Discreet known (evaluateTypeOf engine e) := by
  have name (value : Value) : Discreet known
      (askHeap (·.typeOf value) >>= fun type => (pure (.string type) : Eval Value)) :=
    .bind (.ask_heap fun _ _ => trivial) fun _ _ => .pure trivial
  unfold evaluateTypeOf
  dsimp only
  split
  · refine .bind (discreet_resolve_name _) fun r only => ?_
    split
    · exact .bind (.pure only_undefined) fun value _ => name value
    · exact .bind (discreet_get_reference discreet only) fun value _ => name value
  · exact .bind (discreet.evaluate e) fun value _ => name value

theorem discreet_evaluate_unary (op : UnaryOp) (e : Expr) : Discreet known (evaluateUnary engine op e) := by
  unfold evaluateUnary
  cases op with
  | delete => exact discreet_evaluate_delete discreet e
  | typeOf => exact discreet_evaluate_type_of discreet e
  | void => exact .bind (.discard (discreet.evaluate e)) fun _ _ => .pure trivial
  | negate | plus =>
    exact .bind (discreet.evaluate e) fun _ only => .bind (discreet_to_number discreet only) fun _ _ => .pure trivial
  | not => exact .bind (discreet.evaluate e) fun _ _ => .pure trivial
  | bitNot =>
    exact .bind (discreet.evaluate e) fun _ only => .bind (discreet_to_int32 discreet only) fun _ _ => .pure trivial

theorem discreet_evaluate_update (op : UpdateOp) (operatorFirst : Bool) (target : Expr) :
    Discreet known (evaluateUpdate engine op operatorFirst target) := by
  refine .bind (discreet_evaluate_reference discreet target) fun r on => ?_
  refine .bind (discreet_get_reference discreet on) fun value only => ?_
  refine .bind (discreet_to_number discreet only) fun old _ => ?_
  exact .bind (discreet_put_reference discreet on trivial) fun _ _ => .pure trivial

theorem discreet_evaluate_assign (op : Option BinaryOp) (target value : Expr) :
    Discreet known (evaluateAssign engine op target value) := by
  unfold evaluateAssign
  dsimp only
  refine .bind (discreet_evaluate_reference discreet target) fun r on => ?_
  have store (result : Value) (only : Only known result) : Discreet known
      (putReference engine r result >>= fun _ => pure result) :=
    .bind (discreet_put_reference discreet on only) fun _ _ => .pure only
  cases op with
  | none => exact .bind (discreet.evaluate value) store
  | some op =>
    refine .bind (discreet_get_reference discreet on) fun current left => ?_
    refine .bind (discreet.evaluate value) fun operand right => ?_
    exact .bind (discreet_apply_binary discreet op left right) store

theorem discreet_evaluate_call (callee : Expr) (arguments : List Expr) :
    Discreet known (evaluateCall engine callee arguments) := by
  unfold evaluateCall
  dsimp only
  have apply (called : Value × Value) (only : Only known called) : Discreet known
      (arguments.mapM engine.evaluate >>= fun values => askHeap (·.isCallable called.1) >>= fun callable =>
        if callable then engine.call called.1 called.2 values
        else throwFault (.notFunction callee.describe) >>= fun _ : Unit => engine.call called.1 called.2 values) :=
    .bind (.mapM fun e _ => discreet.evaluate e) fun values given => .bind (.ask_heap fun _ _ => trivial) fun _ _ =>
      discreet_unless _ (discreet.call only.1 only.2 given)
  refine .ite ?_ ?_
  · refine .bind (discreet_evaluate_reference discreet callee) fun r on => ?_
    refine .bind (discreet_get_reference discreet on) fun f found => ?_
    exact .bind (discreet_receiver_of on) fun this here => .bind (.pure (only_pair found here)) apply
  · exact .bind (discreet.evaluate callee) fun f found => .bind (.pure (only_pair found only_undefined)) apply

theorem discreet_evaluate_construct (callee : Expr) (arguments : List Expr) :
    Discreet known (evaluateConstruct engine callee arguments) := by
  refine .bind (discreet.evaluate callee) fun constructor only => ?_
  refine .bind (.mapM fun e _ => discreet.evaluate e) fun values given => ?_
  exact .bind (.ask_heap fun _ _ => trivial) fun _ _ => discreet_unless _ (discreet.construct only given)

theorem discreet_evaluate_sequence {last : Value} (only : Only known last) (items : List Expr) :
    Discreet known (evaluateSequence engine last items) := by
  induction items generalizing last with
  | nil => exact .pure only
  | cons e rest ih => exact .bind (discreet.evaluate e) fun _ only => ih only

theorem discreet_evaluate_form (form : ExprForm) : Discreet known (evaluateForm engine form) := by
  unfold evaluateForm
  cases form with
  | literal l => exact .pure (only_literal l)
  | identifier name =>
    exact .bind (discreet_resolve_name name) fun r only => discreet_get_reference discreet only
  | this => exact .bind discreet_get_context fun _ here => .pure here
  | array elements => exact discreet_evaluate_array discreet elements
  | object entries => exact discreet_evaluate_object discreet entries
  | function code => exact discreet_evaluate_function code
  | unary op operand => exact discreet_evaluate_unary discreet op operand
  | update op operatorFirst target => exact discreet_evaluate_update discreet op operatorFirst target
  | binary op left right =>
    exact .bind (discreet.evaluate left) fun x first => .bind (discreet.evaluate right) fun y second =>
      discreet_apply_binary discreet op first second
  | logical op left right =>
    refine .bind (discreet.evaluate left) fun x only => ?_
    split
    · exact .pure only
    · exact .pure only
    · exact discreet.evaluate right
  | conditional test yes no =>
    exact .bind (discreet.evaluate test) fun _ _ => .ite (discreet.evaluate yes) (discreet.evaluate no)
  | assign op target value => exact discreet_evaluate_assign discreet op target value
  | sequence items => exact discreet_evaluate_sequence discreet only_undefined items
  | member object name =>
    exact .bind (discreet.evaluate object) fun base only => discreet_get_value_property discreet only name
  | index object key =>
    refine .bind (discreet.evaluate object) fun base only => .bind (discreet.evaluate key) fun value given => ?_
    exact .bind (discreet_to_key discreet base given) fun key _ => discreet_get_value_property discreet only key
  | call callee arguments => exact discreet_evaluate_call discreet callee arguments
  | construct callee arguments => exact discreet_evaluate_construct discreet callee arguments

/-! ## Statements -/

theorem discreet_execute_all {last : Option Value} (only : Only known last) (body : List Stmt) :
    Discreet known (executeAll engine last body) := by
  induction body generalizing last with
  | nil => exact .pure only
  | cons s rest ih =>
    refine .bind (discreet.execute [] s) fun c ended => ?_
    split
    · exact ih (only_or ended only)
    · exact .pure (only_fill_jump ended only)

omit discreet in
theorem discreet_new_block_environment (names : List LexicalName) :
    Discreet known (newBlockEnvironment names) :=
  .bind discreet_lexical_environment fun _ _ =>
    discreet_new_environment (Environment.only_create_lexical (Environment.only_declarative _) names)

theorem discreet_execute_block (b : Block) : Discreet known (executeBlock engine b) := by
  have body := discreet_execute_all discreet only_none b.body
  exact .ite body (.bind (discreet_new_block_environment _) fun id _ => discreet_in_environment id body)

theorem discreet_execute_vars (declarators : List Declarator) :
    Discreet known (executeVars engine declarators) := by
  refine .forM fun d _ => ?_
  split
  · exact .pure trivial
  · refine .bind (discreet.evaluate _) fun value only => .bind (discreet_resolve_name _) fun r on => ?_
    exact discreet_put_reference discreet on only

theorem discreet_initial_value (d : Declarator) : Discreet known (initialValue engine d) := by
  unfold initialValue
  split
  · exact discreet.evaluate _
  · exact .pure trivial

theorem discreet_execute_lexical (declarators : List Declarator) :
    Discreet known (executeLexical engine declarators) := by
  refine .forM fun d _ => .bind (discreet_initial_value discreet d) fun value only => ?_
  exact .bind discreet_lexical_environment fun id _ => discreet_modify_environment id fun e before =>
    Environment.only_initialize before only

theorem discreet_test_holds (test : Option Expr) : Discreet known (testHolds engine test) := by
  unfold testHolds
  split
  · exact .bind (discreet.evaluate _) fun _ _ => .pure trivial
  · exact .pure trivial

omit discreet in
/-- A loop goes on, ends or hands on a jump after a round. -/
theorem discreet_step {next : Option Value → Eval Completion} {step : LoopStep} (only : Only known step)
    (goesOn : ∀ value, Only known value → Discreet known (next value)) :
    Discreet known (match step with
      | .next value => next value
      | .exit value => pure (.normal value)
      | .propagate c => pure c) := by
  cases step with
  | next value => exact goesOn value only
  | exit value => exact .pure only
  | propagate c => exact .pure only

theorem discreet_while_rounds (labels : List String) (test : Expr) (body : Stmt) {value : Option Value}
    (last : Only known value) (rounds : Nat) :
    Discreet known (whileRounds engine labels test body value rounds) := by
  induction rounds generalizing value with
  | zero => exact .raise trivial
  | succ rounds ih =>
    refine .bind (discreet.evaluate test) fun _ _ => .ite ?_ (.pure last)
    exact .bind (discreet.execute [] body) fun c ended => discreet_step (only_loop_step last ended) fun _ => ih

theorem discreet_do_rounds (labels : List String) (body : Stmt) (test : Expr) {value : Option Value}
    (last : Only known value) (rounds : Nat) :
    Discreet known (doRounds engine labels body test value rounds) := by
  induction rounds generalizing value with
  | zero => exact .raise trivial
  | succ rounds ih =>
    refine .bind (discreet.execute [] body) fun c ended => ?_
    refine discreet_step (only_loop_step last ended) fun value last => ?_
    exact .bind (discreet.evaluate test) fun _ _ => .ite (ih last) (.pure last)

omit discreet in
theorem discreet_fresh_iteration (names : List String) (outer : EnvironmentId) :
    Discreet known (freshIteration names outer) := by
  refine .ite (.pure trivial) ?_
  refine .bind discreet_lexical_environment fun id _ => .bind (discreet_get_environment id) fun current only => ?_
  refine .bind (discreet_new_environment ?_) fun fresh _ => discreet_set_lexical_environment fresh
  exact Environment.only_copy_names only (Environment.only_declarative _) _

theorem discreet_run_update (update : Option Expr) :
    Discreet known (update.forM fun e => discard (engine.evaluate e)) := by
  cases update with
  | none => exact .pure trivial
  | some e => exact .discard (discreet.evaluate e)

theorem discreet_for_rounds (l : ForLoop) {value : Option Value} (last : Only known value) (rounds : Nat) :
    Discreet known (forRounds engine l value rounds) := by
  induction rounds generalizing value with
  | zero => exact .raise trivial
  | succ rounds ih =>
    refine .bind (discreet_test_holds discreet l.test) fun _ _ => .ite ?_ (.pure last)
    refine .bind (discreet.execute [] l.body) fun c ended => ?_
    refine discreet_step (only_loop_step last ended) fun value last => ?_
    refine .bind (discreet_fresh_iteration _ _) fun _ _ => ?_
    exact .bind (discreet_run_update discreet l.update) fun _ _ => ih last

theorem discreet_execute_for (labels : List String) (init : Option ForInit) (test update : Option Expr) (body : Stmt) :
    Discreet known (executeFor engine labels init test update body) := by
  have loop (l : ForLoop) : Discreet known (runForLoop engine l) :=
    .bind (discreet_fresh_iteration _ _) fun _ _ => discreet_for_rounds discreet l only_none _
  refine .bind discreet_lexical_environment fun outer _ => ?_
  cases init with
  | none => exact loop _
  | some init =>
    cases init with
    | vars declarators => exact .bind (discreet_execute_vars discreet declarators) fun _ _ => loop _
    | expr e => exact .bind (.discard (discreet.evaluate e)) fun _ _ => loop _
    | lexical constant declarators =>
      refine .bind (discreet_new_block_environment _) fun id _ => ?_
      refine .bind (discreet_in_environment id (discreet_execute_lexical discreet declarators)) fun _ _ => ?_
      exact discreet_in_environment id (loop _)

theorem discreet_for_in_body (target : ForInTarget) {key : Value} (only : Only known key) (body : Stmt) :
    Discreet known (forInBody engine target key body) := by
  unfold forInBody
  cases target with
  | var name =>
    refine .bind (discreet_resolve_name name) fun r on => ?_
    exact .bind (discreet_put_reference discreet on only) fun _ _ => discreet.execute [] body
  | expr e =>
    refine .bind (discreet_evaluate_reference discreet e) fun r on => ?_
    exact .bind (discreet_put_reference discreet on only) fun _ _ => discreet.execute [] body
  | lexical constant name =>
    refine .bind (discreet_new_block_environment _) fun id _ => .bind ?_ fun _ _ =>
      discreet_in_environment id (discreet.execute [] body)
    exact discreet_modify_environment id fun e before => Environment.only_initialize before only

theorem discreet_for_in_rounds (labels : List String) (target : ForInTarget) (body : Stmt) {walk : KeyWalk}
    (only : Only known walk) {value : Option Value} (last : Only known value) (rounds : Nat) :
    Discreet known (forInRounds engine labels target body walk value rounds) := by
  induction rounds generalizing walk value with
  | zero => exact .raise trivial
  | succ rounds ih =>
    have next : Discreet known (askHeap walk.next) := .ask_heap fun h enclosed =>
      ⟨fun _ _ => trivial, Heap.only_next enclosed only⟩
    refine .bind next fun step reached => ?_
    split
    · exact .pure last
    · refine .bind (discreet_for_in_body discreet target (only_string _) body) fun c ended => ?_
      exact discreet_step (only_loop_step last ended) fun value last => ih reached.2 last

theorem discreet_execute_for_in (labels : List String) (target : ForInTarget) (object : Expr) (body : Stmt) :
    Discreet known (executeForIn engine labels target object body) := by
  refine .bind (discreet.evaluate object) fun subject only => .ite (.pure only_none) ?_
  refine .bind (discreet_to_object only) fun id kn => ?_
  exact discreet_for_in_rounds discreet labels target body (only_some kn) only_none _

theorem discreet_select_clause (value : Value) (clauses : List SwitchClause) :
    Discreet known (selectClause engine value clauses) := by
  have all (clauses : List SwitchClause) : Only known clauses := fun _ _ => trivial
  induction clauses with
  | nil => exact .pure (all _)
  | cons c rest ih =>
    unfold selectClause
    split
    · exact ih
    · exact .bind (discreet.evaluate _) fun _ _ => .ite (.pure (all _)) ih

theorem discreet_execute_clauses {last : Option Value} (only : Only known last) (clauses : List SwitchClause) :
    Discreet known (executeClauses engine last clauses) := by
  induction clauses generalizing last with
  | nil => exact .pure only
  | cons c rest ih =>
    refine .bind (discreet_execute_all discreet only_none c.body) fun c ended => ?_
    split
    · exact ih (only_or ended only)
    · exact .pure (only_fill_jump ended only)

theorem discreet_execute_selected (value : Value) (clauses : List SwitchClause) :
    Discreet known (executeSelected engine value clauses) :=
  .bind (discreet_select_clause discreet value clauses) fun _ _ => discreet_execute_clauses discreet only_none _

theorem discreet_execute_switch (labels : List String) (discriminant : Expr) (clauses : List SwitchClause)
    (names : List LexicalName) : Discreet known (executeSwitch engine labels discriminant clauses names) := by
  unfold executeSwitch
  dsimp only
  refine .bind (discreet.evaluate discriminant) fun value _ => ?_
  have selected := discreet_execute_selected discreet value clauses
  split
  case' isTrue => refine .bind selected fun completion only => ?_
  case' isFalse =>
    refine .bind (discreet_new_block_environment names) fun id _ => ?_
    refine .bind (discreet_in_environment id selected) fun completion only => ?_
  all_goals
    split
    · exact .ite (.pure only) (.pure only)
    · exact .pure only

theorem discreet_execute_handler (handler : Handler) {thrown : Value} (only : Only known thrown) :
    Discreet known (executeHandler engine handler thrown) := by
  refine .bind discreet_lexical_environment fun outer _ => ?_
  have bound : Only known ((Environment.declarative (some outer)).declare handler.parameter thrown) :=
    Environment.only_declare (Environment.only_declarative _) only
  refine .bind (discreet_new_environment bound) fun id _ => ?_
  exact discreet_in_environment id (discreet_execute_block discreet handler.body)

theorem discreet_handled (handler : Option Handler) {outcome : Except Abrupt Completion} (only : Only known outcome) :
    Discreet known (handled engine handler outcome) := by
  unfold handled
  split
  · exact .attempt (discreet_execute_handler discreet _ only)
  · exact .pure only

omit discreet in
theorem only_settled {outcome : Except Abrupt Completion} (only : Only known outcome) :
    Only known (outcome.map Completion.orUndefined) := by
  cases outcome with
  | ok c => exact only_or_undefined only
  | error e => exact only

theorem discreet_execute_try (block : Block) (handler : Option Handler) (finalizer : Option Block) :
    Discreet known (executeTry engine block handler finalizer) := by
  refine .bind (.attempt (discreet_execute_block discreet block)) fun outcome tried => ?_
  refine .bind (discreet_handled discreet handler tried) fun outcome only => ?_
  have settled : Discreet known (resume (outcome.map Completion.orUndefined)) := .resume (only_settled only)
  dsimp only
  split
  · exact settled
  · refine .ite (.resume only) (.bind (discreet_execute_block discreet _) fun last ended => ?_)
    exact .ite (.pure ended) settled

theorem discreet_execute_form (labels : List String) (form : StmtForm) :
    Discreet known (executeForm engine labels form) := by
  unfold executeForm
  cases form with
  | var declarators => exact .bind (discreet_execute_vars discreet _) fun _ _ => .pure only_none
  | lexical constant declarators => exact .bind (discreet_execute_lexical discreet _) fun _ _ => .pure only_none
  | function code | empty | debugger => exact .pure only_none
  | expr e => exact .bind (discreet.evaluate e) fun _ only => .pure (only_some only)
  | block b => exact discreet_execute_block discreet b
  | cond test yes no =>
    refine .bind (discreet.evaluate test) fun _ _ => .ite (discreet.execute [] yes) ?_
    cases no with
    | none => exact .pure only_none
    | some no => exact discreet.execute [] no
  | whileLoop test body => exact discreet_while_rounds discreet labels test body only_none _
  | doWhile body test => exact discreet_do_rounds discreet labels body test only_none _
  | forLoop init test update body => exact discreet_execute_for discreet labels init test update body
  | forIn target object body => exact discreet_execute_for_in discreet labels target object body
  | ret value =>
    cases value with
    | none => exact .pure trivial
    | some e => exact .bind (discreet.evaluate e) fun _ only => .pure only
  | breakTo label | continueTo label => exact .pure only_none
  | throw e => exact .bind (discreet.evaluate e) fun _ only => discreet_throw_value only
  | attempt block handler finalizer => exact discreet_execute_try discreet block handler finalizer
  | labeled label body =>
    refine .bind (discreet.execute _ body) fun c only => ?_
    split
    · exact .ite (.pure only) (.pure only)
    · exact .pure only
  | switch discriminant clauses names => exact discreet_execute_switch discreet labels discriminant clauses names
  | withObject object body =>
    refine .bind (discreet.evaluate object) fun value only => .bind (discreet_to_object only) fun id kn => ?_
    refine .bind discreet_lexical_environment fun outer _ => ?_
    exact .bind (discreet_new_environment kn) fun place _ => discreet_in_environment place (discreet.execute [] body)

/-! ## Functions -/

omit discreet in
theorem discreet_bind_functions (place : EnvironmentId) (functions : List FunctionCode) :
    Discreet known (bindFunctions place functions) := by
  refine .forM fun code _ => ?_
  split
  · exact .pure trivial
  · refine .bind (discreet_create_script_function code place) fun f kn => ?_
    exact discreet_modify_environment place fun e only => Environment.only_declare only kn

omit discreet in
theorem discreet_bind_declarations {callee : ObjectId} (kn : known callee) (code : FunctionCode)
    (place : EnvironmentId) {arguments : List Value} (given : Only known arguments) :
    Discreet known (bindDeclarations callee code place arguments) := by
  unfold bindDeclarations
  dsimp only
  have parameters : Discreet known
      (modifyEnvironment place (bindParameters · code.parameters arguments)) :=
    discreet_modify_environment place fun e only => Environment.only_bind_parameters only _ given
  have names : Discreet known
      (modifyEnvironment place fun e => (bindVars e code.scope.vars).createLexical code.scope.lexical) :=
    discreet_modify_environment place fun e only =>
      Environment.only_create_lexical (Environment.only_bind_vars only _) _
  refine .bind parameters fun _ _ => .bind (discreet_bind_functions place _) fun _ _ => ?_
  refine .ite (.bind (discreet_create_arguments kn given _) fun object made => .bind ?_ fun _ _ => names) names
  refine discreet_modify_environment place fun e only => ?_
  split
  · exact Environment.only_initialize (Environment.only_create_immutable only _) made
  · exact Environment.only_declare only made

omit discreet in
theorem discreet_this_for {f : ScriptFunction} (here : Only known f.lexicalThis) {this : Value}
    (only : Only known this) : Discreet known (thisFor f this) := by
  refine .ite (.pure (only_getD here trivial)) (.ite (.pure only) (.ite ?_ ?_))
  · exact .bind discreet_get_realm fun _ realm => .pure realm.2
  · exact .bind (discreet_to_object only) fun id kn => .pure kn

theorem discreet_call_script {callee : ObjectId} (kn : known callee) {f : ScriptFunction}
    (here : Only known f.lexicalThis) {this : Value} (on : Only known this) {arguments : List Value}
    (given : Only known arguments) : Discreet known (callScript engine callee f this arguments) := by
  refine discreet_nested (.bind (discreet_this_for here on) fun this only => ?_)
  refine .bind (discreet_new_environment (Environment.only_declarative _)) fun place _ => ?_
  refine .bind (discreet_bind_declarations kn f.code place given) fun _ _ => ?_
  refine .bind (discreet_in_context only (discreet_execute_all discreet only_none _)) fun c ended => ?_
  split
  · exact .pure ended
  · exact .pure trivial

/-! ## Scripts -/

omit discreet in
theorem discreet_check_redeclared (names : List LexicalName) : Discreet known (checkRedeclared names) := by
  refine .bind discreet_get_realm fun _ _ => .bind (discreet_get_environment _) fun _ _ => ?_
  exact .forM fun n _ => .bind (.ask_heap fun _ _ => trivial) fun _ _ => .ite (discreet_throw_fault _) (.pure trivial)

theorem discreet_declare_global_function (strict : Bool) (code : FunctionCode) :
    Discreet known (declareGlobalFunction engine strict code) := by
  unfold declareGlobalFunction
  split
  · exact .pure trivial
  · refine .bind discreet_get_realm fun realm here => .bind (discreet_create_script_function code _) fun f kn => ?_
    refine .bind (discreet_get_object here.2) fun global _ => ?_
    split
    · exact discreet_unless _ (discreet_put_property discreet here.2 _ kn _)
    · exact .discard (discreet_define_property discreet here.2 (only_patch_data kn _) _ _)

theorem discreet_declare_global_var (name : String) : Discreet known (declareGlobalVar engine name) := by
  refine .bind discreet_get_realm fun realm here => .bind (discreet_get_object here.2) fun global _ => ?_
  refine .ite (.pure trivial) (.discard ?_)
  exact discreet_define_property discreet here.2 (only_patch_data only_undefined _) _ _

theorem discreet_bind_globals (p : Program) : Discreet known (bindGlobals engine p) := by
  refine .bind (discreet_check_redeclared _) fun _ _ => .bind discreet_get_realm fun realm _ => ?_
  refine .bind (discreet_modify_environment _ fun e only => Environment.only_create_lexical only _) fun _ _ => ?_
  refine .bind (.forM fun code _ => discreet_declare_global_function discreet p.strict code) fun _ _ => ?_
  exact .forM fun name _ => discreet_declare_global_var discreet name

theorem discreet_run_statements {last : Option Value} (only : Only known last) (body : List Stmt) :
    Discreet known (runStatements engine last body) := by
  induction body generalizing last with
  | nil => exact .pure only
  | cons s rest ih =>
    refine .bind (discreet.execute [] s) fun c ended => ?_
    split
    · exact ih (only_or ended only)
    · exact .pure only

theorem discreet_run_program (p : Program) : Discreet known (runProgram engine p) := by
  have context : Discreet known (scriptContext p.strict) :=
    .bind discreet_get_realm fun realm here => .pure here.2
  have script : Discreet known (runScript engine p) :=
    .bind (discreet_bind_globals discreet p) fun _ _ => discreet_run_statements discreet only_none _
  refine .bind context fun c only => .bind (discreet_in_context only script) fun value given => ?_
  exact .pure (only_getD given trivial)

omit discreet in
theorem discreet_result_of {α : Type} [Refers α] {action : Eval α} (tried : Discreet known action) :
    Discreet known (resultOf? action) := by
  refine .bind (.attempt tried) fun outcome only => ?_
  split
  · exact .pure (only_some only)
  · exact .raise trivial
  · exact .pure only_none

theorem discreet_describe_field {id : ObjectId} (kn : known id) (key : String) :
    Discreet known (describeField engine id key) := by
  refine .bind (discreet_result_of (discreet_get_property discreet kn key)) fun value only => ?_
  split
  · exact .pure only_none
  · exact .pure only_none
  · exact discreet_result_of (discreet_to_text discreet (only _ rfl))

theorem discreet_describe_thrown {value : Value} (only : Only known value) :
    Discreet known (describeThrown engine value) := by
  unfold describeThrown
  split
  · refine .bind (discreet_describe_field discreet only _) fun name _ => ?_
    refine .bind (discreet_describe_field discreet only _) fun message _ => ?_
    split
    · exact .pure trivial
    · exact .pure trivial
    · exact .pure trivial
    · exact discreet_display_value _
  · exact .pure trivial

theorem discreet_eval_program (p : Program) : Discreet known (evalProgram engine p) := by
  refine .bind (.attempt (discreet_run_program discreet p)) fun outcome only => ?_
  split
  · exact .pure only
  · exact .bind (discreet_describe_thrown discreet only) fun _ _ => .pure only
  · exact .pure trivial
  · exact .pure trivial

theorem discreet_eval_source (source : String) : Discreet known (evalSource engine source) := by
  rw [eval_source_reads]
  refine .bind (.read fun _ _ => trivial) fun strict _ => ?_
  unfold evalRead
  split
  · exact .pure trivial
  · exact discreet_eval_program discreet _

end ScriptEngine
