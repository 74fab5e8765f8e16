import ScriptEngine.Proofs.Isolation.Code
import ScriptEngine.Realm

/-!
The functions of the standard library and of the host keep to known objects, if the value that they are called on and
their arguments are among these.
-/

namespace ScriptEngine.Library

open Refers (Only)

variable {known : ObjectId → Prop} {engine : Engine} {id : ObjectId} {this : Value} {arguments : List Value}

/-! ## Arguments -/

theorem discreet_require_object (function : String) {value : Value} (only : Only known value) :
    Discreet known (requireObject function value) := by
  unfold requireObject
  split
  · exact .pure only
  · exact discreet_throw_showing _ _

theorem discreet_require_callback (value : Value) : Discreet known (requireCallback value) :=
  .bind (.ask_heap fun _ _ => trivial) fun _ _ => .ite (.pure trivial) (discreet_throw_showing _ _)

theorem discreet_array_value {items : List Value} (only : Only known items) : Discreet known (arrayValue items) :=
  .bind (discreet_create_array only) fun _ kn => .pure kn

theorem discreet_text_array (items : List String) : Discreet known (textArray items) := by
  refine discreet_array_value fun v member => ?_
  obtain ⟨text, -, rfl⟩ := List.mem_map.1 member
  exact only_string text

section

variable (discreet : engine.Discreet known)

include discreet

/-! ## Arrays -/

theorem discreet_length_of (kn : known id) : Discreet known (lengthOf engine id) :=
  .bind (discreet_get_property discreet kn _) fun _ only => .bind (discreet_to_uint32 discreet only) fun _ _ =>
    .pure trivial

theorem discreet_set_length (kn : known id) (length : Nat) : Discreet known (setLength engine id length) :=
  discreet_put_property discreet kn _ (only_number _) true

theorem discreet_define_element (kn : known id) (index : Nat) {value : Value} (only : Only known value) :
    Discreet known (defineElement engine id index value) :=
  .discard (discreet_define_property discreet kn (only_patch_data only _) _ _)

theorem discreet_array_of (given : Only known arguments) : Discreet known (arrayOf engine arguments) := by
  unfold arrayOf
  split
  · refine discreet_unless _ (.bind (discreet_create_array only_nil) fun id kn => ?_)
    exact .bind (discreet_set_length discreet kn _) fun _ _ => .pure kn
  · exact discreet_array_value given

omit discreet in
theorem discreet_is_array (given : Only known arguments) : Discreet known (isArray arguments) := by
  have first := only_argument given 0
  unfold isArray
  split
  · next id same =>
    rw [same] at first
    exact .bind (discreet_get_object first) fun _ _ => .pure trivial
  · exact .pure trivial

theorem discreet_put_elements (kn : known id) (index : Nat) {items : List Value} (only : Only known items) :
    Discreet known (putElements engine id index items) := by
  induction items generalizing index with
  | nil => exact .pure trivial
  | cons v rest ih =>
    obtain ⟨first, others⟩ := List.forall_mem_cons.1 only
    exact .bind (discreet_put_property discreet kn _ first true) fun _ _ => ih _ others

theorem discreet_push (on : Only known this) (given : Only known arguments) :
    Discreet known (push engine this arguments) := by
  refine .bind (discreet_to_object on) fun id kn => .bind (discreet_length_of discreet kn) fun first _ => ?_
  refine .bind (discreet_put_elements discreet kn first given) fun length _ => ?_
  exact .bind (discreet_set_length discreet kn _) fun _ _ => .pure trivial

theorem discreet_pop (on : Only known this) : Discreet known (pop engine this) := by
  refine .bind (discreet_to_object on) fun id kn => .bind (discreet_length_of discreet kn) fun length _ => ?_
  cases length with
  | zero => exact .bind (discreet_set_length discreet kn _) fun _ _ => .pure trivial
  | succ last =>
    refine .bind (discreet_get_property discreet kn _) fun value only => ?_
    refine .bind (.discard (discreet_delete_property kn _ true)) fun _ _ => ?_
    exact .bind (discreet_set_length discreet kn _) fun _ _ => .pure only

theorem discreet_element_text {value : Value} (only : Only known value) :
    Discreet known (elementText engine value) :=
  .ite (.pure trivial) (discreet_to_text discreet only)

theorem discreet_join_elements (kn : known id) (separator : String) (index count : Nat) (text : String) :
    Discreet known (joinElements engine id separator index text count) := by
  induction count generalizing index text with
  | zero => exact .pure trivial
  | succ count ih =>
    refine .bind (discreet_get_property discreet kn _) fun value only => ?_
    exact .bind (discreet_element_text discreet only) fun _ _ => ih _ _

theorem discreet_join (on : Only known this) (given : Only known arguments) :
    Discreet known (join engine this arguments) := by
  have first := only_argument given 0
  unfold join
  dsimp only
  refine .bind (discreet_to_object on) fun id kn => .bind (discreet_length_of discreet kn) fun length _ => ?_
  have joined (separator : String) : Discreet known
      (joinElements engine id separator 0 "" length >>= fun text => (pure (.string text) : Eval Value)) :=
    .bind (discreet_join_elements discreet kn _ _ _ _) fun _ _ => .pure trivial
  split
  · exact .bind (.pure trivial) fun separator _ => joined separator
  · exact .bind (discreet_to_text discreet first) fun separator _ => joined separator

theorem discreet_array_text (on : Only known this) : Discreet known (arrayText engine this) := by
  refine .bind (discreet_to_object on) fun id kn => .bind (discreet_get_property discreet kn _) fun method only => ?_
  refine .bind (.ask_heap fun _ _ => trivial) fun _ _ => .ite (discreet.call only kn only_nil) ?_
  exact .bind (discreet_get_object kn) fun _ _ => .pure trivial

theorem discreet_relative_place (length : Nat) {value : Value} (only : Only known value) (absent : Nat) :
    Discreet known (relativePlace engine length value absent) := by
  unfold relativePlace
  split
  · exact .pure trivial
  · exact .bind (discreet_to_integer discreet only) fun _ _ => .pure trivial

theorem discreet_copy_elements {copy : ObjectId} (kn : known id) (also : known copy) (source target count : Nat) :
    Discreet known (copyElements engine id copy source target count) := by
  induction count generalizing source target with
  | zero => exact .pure trivial
  | succ count ih =>
    refine .bind (.ask_heap fun _ _ => trivial) fun _ _ => .ite ?_ (ih _ _)
    refine .bind (discreet_get_property discreet kn _) fun value only => ?_
    exact .bind (discreet_define_element discreet also _ only) fun _ _ => ih _ _

theorem discreet_slice (on : Only known this) (given : Only known arguments) :
    Discreet known (slice engine this arguments) := by
  refine .bind (discreet_to_object on) fun id kn => .bind (discreet_length_of discreet kn) fun length _ => ?_
  refine .bind (discreet_relative_place discreet _ (only_argument given 0) _) fun first _ => ?_
  refine .bind (discreet_relative_place discreet _ (only_argument given 1) _) fun last _ => ?_
  refine .bind (discreet_create_array only_nil) fun copy also => ?_
  refine .bind (discreet_copy_elements discreet kn also _ _ _) fun _ _ => ?_
  exact .bind (discreet_set_length discreet also _) fun _ _ => .pure also

theorem discreet_search_elements (kn : known id) (search : Value) (index count : Nat) :
    Discreet known (searchElements engine id search index count) := by
  induction count generalizing index with
  | zero => exact .pure only_none
  | succ count ih =>
    refine .bind (.ask_heap fun _ _ => trivial) fun _ _ => .ite ?_ (ih _)
    exact .bind (discreet_get_property discreet kn _) fun _ _ => .ite (.pure (only_some trivial)) (ih _)

theorem discreet_index_of_element (on : Only known this) (given : Only known arguments) :
    Discreet known (indexOfElement engine this arguments) := by
  have second := only_argument given 1
  unfold indexOfElement
  dsimp only
  refine .bind (discreet_to_object on) fun id kn => .bind (discreet_length_of discreet kn) fun length _ => ?_
  refine .ite (.pure trivial) ?_
  split
  case' h_1 => refine .bind (.pure trivial) fun start _ => ?_
  case' h_2 => refine .bind (discreet_to_integer discreet second) fun start _ => ?_
  all_goals
    refine .bind (discreet_search_elements discreet kn _ _ _) fun found _ => ?_
    cases found <;> exact .pure trivial

theorem discreet_visit_call {v : Visit} (only : Only known v) (index : Nat) {value : Value}
    (found : Only known value) : Discreet known (v.call engine index value) := by
  obtain ⟨callback, on, object⟩ := only
  refine discreet.call callback on (only_cons found (only_cons (only_number _) (only_cons ?_ only_nil)))
  exact object

theorem discreet_visit_elements {v : Visit} (only : Only known v) {use : Nat → Value → Eval Unit}
    (used : ∀ index value, Only known value → Discreet known (use index value)) (index count : Nat) :
    Discreet known (visitElements engine v use index count) := by
  induction count generalizing index with
  | zero => exact .pure trivial
  | succ count ih =>
    refine .bind (.ask_heap fun _ _ => trivial) fun _ _ => .ite ?_ (ih _)
    refine .bind (discreet_get_property discreet only.2.2 _) fun value found => ?_
    refine .bind (discreet_visit_call discreet only index found) fun result made => ?_
    exact .bind (used index result made) fun _ _ => ih _

theorem discreet_begin_visit (on : Only known this) (given : Only known arguments) :
    Discreet known (beginVisit engine this arguments) := by
  refine .bind (discreet_to_object on) fun id kn => .bind (discreet_length_of discreet kn) fun length _ => ?_
  refine .bind (discreet_require_callback _) fun _ _ => .pure ⟨trivial, ?_⟩
  exact ⟨only_argument given 0, only_argument given 1, kn⟩

theorem discreet_for_each (on : Only known this) (given : Only known arguments) :
    Discreet known (forEach engine this arguments) :=
  .bind (discreet_begin_visit discreet on given) fun begun only =>
    .bind (discreet_visit_elements discreet only.2 (fun _ _ _ => .pure trivial) 0 begun.1) fun _ _ => .pure trivial

theorem discreet_map (on : Only known this) (given : Only known arguments) :
    Discreet known (map engine this arguments) := by
  refine .bind (discreet_begin_visit discreet on given) fun begun only => ?_
  refine .bind (discreet_create_array only_nil) fun result also => ?_
  refine .bind (discreet_set_length discreet also _) fun _ _ => ?_
  refine .bind (discreet_visit_elements discreet only.2 ?_ 0 begun.1) fun _ _ => .pure also
  exact fun index value made => discreet_define_element discreet also index made

/-! ## Errors -/

theorem discreet_error_message (given : Only known arguments) :
    Discreet known (errorMessage? engine arguments) := by
  have first := only_argument given 0
  unfold errorMessage?
  split
  · exact .pure only_none
  · exact .bind (discreet_to_text discreet first) fun _ _ => .pure (only_some trivial)

omit discreet in
theorem only_with_message {o : Object} (only : Only known o) (message : Option String) :
    Only known (withMessage o message) := by
  cases message with
  | none => exact only
  | some text => exact Object.only_set_data only (only_string text)

theorem discreet_error_of (kind : ErrorKind) (given : Only known arguments) :
    Discreet known (errorOf engine kind arguments) := by
  refine .bind (discreet_error_message discreet given) fun message _ => .bind discreet_get_intrinsics fun _ up => ?_
  exact .bind (discreet_new_object (only_with_message (Object.only_of_error up kind "") _)) fun id kn => .pure kn

theorem discreet_construct_error (on : Only known this) (given : Only known arguments) :
    Discreet known (constructError engine this arguments) := by
  refine .bind (discreet_require_object _ on) fun id kn => ?_
  refine .bind (discreet_modify_object kn fun o only => ?_) fun _ _ => ?_
  · exact ⟨trivial, only.proto, only.properties⟩
  · refine .bind (discreet_error_message discreet given) fun message _ => ?_
    exact .bind (discreet_modify_object kn fun o only => only_with_message only message) fun _ _ => .pure on

theorem discreet_error_part (kn : known id) (key absent : String) :
    Discreet known (errorPart engine id key absent) := by
  refine .bind (discreet_get_property discreet kn key) fun value only => ?_
  split
  · exact .pure trivial
  · exact discreet_to_text discreet only

theorem discreet_error_text (on : Only known this) : Discreet known (errorText engine this) := by
  refine .bind (discreet_require_object _ on) fun id kn => ?_
  refine .bind (discreet_error_part discreet kn _ _) fun name _ => ?_
  refine .bind (discreet_error_part discreet kn _ _) fun message _ => ?_
  exact .ite (.pure trivial) (.ite (.pure trivial) (.pure trivial))

/-! ## Functions -/

theorem discreet_function_texts (given : Only known arguments) :
    Discreet known (functionTexts engine arguments) := by
  induction arguments with
  | nil => exact .pure only_nil
  | cons v rest ih =>
    obtain ⟨first, others⟩ := List.forall_mem_cons.1 given
    refine .bind (discreet_to_text discreet first) fun text _ => .bind (ih others) fun texts all => ?_
    exact .pure (only_cons trivial all)

theorem discreet_function_of (given : Only known arguments) : Discreet known (functionOf engine arguments) := by
  refine .bind (discreet_function_texts discreet given) fun texts _ => ?_
  split
  · exact discreet_throw_fault _
  · split
    · exact discreet_throw_fault _
    · refine .bind discreet_get_realm fun realm _ => ?_
      exact .bind (discreet_create_script_function _ _) fun f kn => .pure kn

omit discreet in
theorem only_drop {items : List Value} (only : Only known items) (count : Nat) : Only known (items.drop count) :=
  fun v member => only v (List.mem_of_mem_drop member)

theorem discreet_call_on (on : Only known this) (given : Only known arguments) :
    Discreet known (callOn engine this arguments) :=
  .bind (.ask_heap fun _ _ => trivial) fun _ _ =>
    discreet_unless _ (discreet.call on (only_argument given 0) (only_drop given 1))

theorem discreet_apply_on (on : Only known this) (given : Only known arguments) :
    Discreet known (applyOn engine this arguments) := by
  have second := only_argument given 1
  unfold applyOn
  dsimp only
  refine .bind (.ask_heap fun _ _ => trivial) fun _ _ => discreet_unless _ ?_
  have applied (elements : List Value) : Only known elements →
      Discreet known (engine.call this (argument arguments 0) elements) :=
    discreet.call on (only_argument given 0)
  split
  · exact .bind (.pure only_nil) applied
  · exact .bind (.pure only_nil) applied
  · next id same =>
    rw [same] at second
    exact .bind (discreet_to_list discreet second) applied
  · exact .bind (discreet_display_value _) fun _ _ => .bind (discreet_throw_fault _) applied

theorem discreet_bind (on : Only known this) (given : Only known arguments) :
    Discreet known (bind engine this arguments) := by
  unfold bind
  refine .bind (.ask_heap fun _ enclosed => Heap.only_callable enclosed on) fun f _ => ?_
  split
  · refine .bind (discreet_get_property discreet on _) fun length _ => ?_
    refine .bind (.ask_heap fun _ _ => trivial) fun _ _ => ?_
    refine .bind (discreet_create_function_object ?_ _ _) fun id kn => .pure kn
    exact ⟨on, only_argument given 0, only_drop given 1⟩
  · exact discreet_throw_fault _

omit discreet in
theorem discreet_function_text (on : Only known this) : Discreet known (functionText this) := by
  refine .bind (.ask_heap fun _ enclosed => Heap.only_callable enclosed on) fun f _ => ?_
  split
  · exact discreet_throw_fault _
  · exact .pure trivial
  · exact .bind (.ask_heap fun _ _ => trivial) fun _ _ => .pure trivial

/-! ## Objects -/

omit discreet in
theorem discreet_object_of (given : Only known arguments) : Discreet known (objectOf arguments) :=
  .ite (.bind discreet_create_object fun _ kn => .pure kn)
    (.bind (discreet_to_object (only_argument given 0)) fun _ kn => .pure kn)

omit discreet in
theorem discreet_get_prototype_of (given : Only known arguments) : Discreet known (getPrototypeOf arguments) := by
  refine .bind (discreet_require_object _ (only_argument given 0)) fun id kn => ?_
  refine .bind (discreet_get_object kn) fun o here => ?_
  split
  · next proto same => exact .pure (here.proto proto same)
  · exact .pure trivial

theorem discreet_get_own_property_descriptor (given : Only known arguments) :
    Discreet known (getOwnPropertyDescriptor engine arguments) := by
  refine .bind (discreet_require_object _ (only_argument given 0)) fun id kn => ?_
  refine .bind (discreet_to_text discreet (only_argument given 1)) fun key _ => ?_
  refine .bind (discreet_get_object kn) fun o here => ?_
  split
  · next p same => exact .bind (discreet_of_property (Object.only_get_own here key p same)) fun _ made => .pure made
  · exact .pure trivial

omit discreet in
theorem discreet_get_own_property_names (given : Only known arguments) :
    Discreet known (getOwnPropertyNames arguments) :=
  .bind (discreet_require_object _ (only_argument given 0)) fun _ kn => .bind (discreet_get_object kn) fun _ _ =>
    discreet_text_array _

omit discreet in
theorem discreet_keys (given : Only known arguments) : Discreet known (keys arguments) :=
  .bind (discreet_require_object _ (only_argument given 0)) fun _ kn => .bind (discreet_get_object kn) fun _ _ =>
    discreet_text_array _

theorem discreet_read_patches {descriptions : ObjectId} (kn : known descriptions) (names : List String) :
    Discreet known (readPatches engine descriptions names) := by
  induction names with
  | nil => exact .pure only_nil
  | cons key rest ih =>
    refine .bind (discreet_get_object kn) fun o _ => .ite ?_ ih
    refine .bind (discreet_get_property discreet kn key) fun description only => ?_
    refine .bind (discreet_to_patch discreet only) fun patch first => .bind ih fun patches others => ?_
    exact .pure (only_cons ⟨trivial, first⟩ others)

theorem discreet_define_from (kn : known id) {descriptions : Value} (only : Only known descriptions) :
    Discreet known (defineFrom engine id descriptions) := by
  refine .bind (discreet_to_object only) fun holder also => .bind (discreet_get_object also) fun o _ => ?_
  refine .bind (discreet_read_patches discreet also _) fun patches all => .forM fun entry member => ?_
  exact .discard (discreet_define_property discreet kn (all entry member).2 _ true)

theorem discreet_create (given : Only known arguments) : Discreet known (create engine arguments) := by
  have first := only_argument given 0
  unfold create
  dsimp only
  have made (proto : Option ObjectId) (up : Only known proto) : Discreet known
      (createObjectFrom proto >>= fun id =>
        if (argument arguments 1).isUndefined then (pure (.object id) : Eval Value)
        else defineFrom engine id (argument arguments 1) >>= fun _ => pure (.object id)) :=
    .bind (discreet_create_object_from up) fun id kn => .ite (.pure kn)
      (.bind (discreet_define_from discreet kn (only_argument given 1)) fun _ _ => .pure kn)
  split
  · next proto same =>
    rw [same] at first
    exact .bind (.pure (only_some first)) made
  · exact .bind (.pure only_none) made
  · exact .bind (discreet_display_value _) fun _ _ => .bind (discreet_throw_fault _) made

theorem discreet_define_one (given : Only known arguments) : Discreet known (defineOne engine arguments) := by
  refine .bind (discreet_require_object _ (only_argument given 0)) fun id kn => ?_
  refine .bind (discreet_to_text discreet (only_argument given 1)) fun key _ => ?_
  refine .bind (discreet_to_patch discreet (only_argument given 2)) fun patch only => ?_
  exact .bind (.discard (discreet_define_property discreet kn only _ true)) fun _ _ => .pure kn

theorem discreet_define_all (given : Only known arguments) : Discreet known (defineAll engine arguments) :=
  .bind (discreet_require_object _ (only_argument given 0)) fun _ kn =>
    .bind (discreet_define_from discreet kn (only_argument given 1)) fun _ _ => .pure kn

omit discreet in
theorem discreet_prevent (kn : known id) : Discreet known (modifyObject id (·.preventExtensions)) :=
  discreet_modify_object kn fun _ only => Object.only_prevent_extensions only

omit discreet in
theorem discreet_prevent_extensions (given : Only known arguments) :
    Discreet known (preventExtensions arguments) :=
  .bind (discreet_require_object _ (only_argument given 0)) fun _ kn => .bind (discreet_prevent kn) fun _ _ => .pure kn

omit discreet in
theorem discreet_is_extensible (given : Only known arguments) : Discreet known (isExtensible arguments) :=
  .bind (discreet_require_object _ (only_argument given 0)) fun _ kn => .bind (discreet_get_object kn) fun _ _ =>
    .pure trivial

theorem discreet_restrict (kn : known id) (freezes : Bool) : Discreet known (restrict engine id freezes) := by
  refine .bind (discreet_get_object kn) fun o _ => .bind (.forM fun key _ => ?_) fun _ _ => discreet_prevent kn
  refine .bind (discreet_get_object kn) fun current _ => ?_
  split
  · exact .pure trivial
  · exact .discard (discreet_define_property discreet kn (only_patch only_none rfl rfl) _ true)

theorem discreet_restrict_object (function : String) (freezes : Bool) (given : Only known arguments) :
    Discreet known (restrictObject engine function freezes arguments) :=
  .bind (discreet_require_object _ (only_argument given 0)) fun _ kn =>
    .bind (discreet_restrict discreet kn freezes) fun _ _ => .pure kn

omit discreet in
theorem discreet_test_restricted (function : String) (frozen : Bool) (given : Only known arguments) :
    Discreet known (testRestricted function frozen arguments) :=
  .bind (discreet_require_object _ (only_argument given 0)) fun _ kn => .bind (discreet_get_object kn) fun _ _ =>
    .pure trivial

omit discreet in
theorem discreet_describe_kind (on : Only known this) : Discreet known (describeKind this) := by
  have shown (name : String) : Discreet known (pure (.string s!"[object {name}]") : Eval Value) := .pure trivial
  unfold describeKind
  dsimp only
  split
  · exact .bind (.pure trivial) fun name _ => shown name
  · exact .bind (.pure trivial) fun name _ => shown name
  · refine .bind (discreet_to_object on) fun id kn => .bind (discreet_get_object kn) fun o _ => ?_
    exact .bind (.pure trivial) fun name _ => shown name

theorem discreet_locale_text (on : Only known this) : Discreet known (localeText engine this) :=
  .bind (discreet_get_value_property discreet on _) fun _ only => .bind (.ask_heap fun _ _ => trivial) fun _ _ =>
    discreet_unless _ (discreet.call only on only_nil)

omit discreet in
theorem discreet_object_value (on : Only known this) : Discreet known (objectValue this) :=
  .bind (discreet_to_object on) fun _ kn => .pure kn

theorem discreet_own_property_named (on : Only known this) (given : Only known arguments) :
    Discreet known (ownPropertyNamed engine this arguments) :=
  .bind (discreet_to_text discreet (only_argument given 0)) fun key _ => .bind (discreet_to_object on) fun _ kn =>
    .bind (discreet_get_object kn) fun _ here => .pure (Object.only_get_own here key)

theorem discreet_has_own_property (on : Only known this) (given : Only known arguments) :
    Discreet known (hasOwnProperty engine this arguments) :=
  .bind (discreet_own_property_named discreet on given) fun _ _ => .pure trivial

theorem discreet_property_is_enumerable (on : Only known this) (given : Only known arguments) :
    Discreet known (propertyIsEnumerable engine this arguments) :=
  .bind (discreet_own_property_named discreet on given) fun _ _ => .pure trivial

omit discreet in
theorem discreet_is_prototype_of (on : Only known this) : Discreet known (isPrototypeOf this arguments) := by
  unfold isPrototypeOf
  split
  · exact .bind (discreet_to_object on) fun _ _ => .bind (.ask_heap fun _ _ => trivial) fun _ _ => .pure trivial
  · exact .pure trivial

/-! ## Booleans and numbers -/

omit discreet in
theorem discreet_primitive_of (on : Only known this) : Discreet known (primitiveOf this) := by
  unfold primitiveOf
  split
  · next id =>
    refine .bind (discreet_get_object on) fun o _ => .pure (only_getD ?_ on)
    intro v held
    unfold Object.primitive? at held
    split at held <;> cases held <;> trivial
  · exact .pure on

omit discreet in
theorem discreet_wrap_boolean (arguments : List Value) : Discreet known (wrapBoolean arguments) :=
  .bind (discreet_create_wrapper trivial) fun _ kn => .pure kn

omit discreet in
theorem discreet_this_boolean (method : String) (on : Only known this) : Discreet known (thisBoolean method this) := by
  refine .bind (discreet_primitive_of on) fun value _ => ?_
  split
  · exact .pure trivial
  · exact discreet_throw_fault _

theorem discreet_number_of (given : Only known arguments) : Discreet known (numberOf engine arguments) := by
  cases arguments with
  | nil => exact .pure trivial
  | cons v rest => exact discreet_to_number discreet (given v List.mem_cons_self)

theorem discreet_wrap_number (given : Only known arguments) : Discreet known (wrapNumber engine arguments) :=
  .bind (discreet_number_of discreet given) fun _ _ => .bind (discreet_create_wrapper trivial) fun _ kn => .pure kn

omit discreet in
theorem discreet_this_number (method : String) (on : Only known this) : Discreet known (thisNumber method this) := by
  refine .bind (discreet_primitive_of on) fun value _ => ?_
  split
  · exact .pure trivial
  · exact discreet_throw_fault _

theorem discreet_radix_of (given : Only known arguments) : Discreet known (radixOf engine arguments) := by
  have first := only_argument given 0
  unfold radixOf
  dsimp only
  split
  case' h_1 => refine .bind (.pure trivial) fun requested _ => ?_
  case' h_2 => refine .bind (discreet_to_integer discreet first) fun requested _ => ?_
  all_goals
    split
    · exact .pure trivial
    · exact discreet_throw_fault _

theorem discreet_number_text (on : Only known this) (given : Only known arguments) :
    Discreet known (numberText engine this arguments) :=
  .bind (discreet_this_number _ on) fun _ _ => .bind (discreet_radix_of discreet given) fun _ _ =>
    .ite (.pure trivial) (.pure trivial)

theorem discreet_number_fixed (on : Only known this) (given : Only known arguments) :
    Discreet known (numberFixed engine this arguments) := by
  refine .bind (discreet_this_number _ on) fun _ _ => ?_
  refine .bind (discreet_to_integer discreet (only_argument given 0)) fun _ _ => ?_
  split
  · exact discreet_throw_fault _
  · exact .ite (.pure trivial) (.pure trivial)

theorem discreet_parse_integer (given : Only known arguments) : Discreet known (parseInteger engine arguments) :=
  .bind (discreet_to_text discreet (only_argument given 0)) fun _ _ =>
    .bind (discreet_to_int32 discreet (only_argument given 1)) fun _ _ => .pure trivial

/-! ## Strings -/

theorem discreet_text_of (given : Only known arguments) : Discreet known (textOf engine arguments) := by
  cases arguments with
  | nil => exact .pure trivial
  | cons v rest => exact discreet_to_text discreet (given v List.mem_cons_self)

theorem discreet_wrap_text (given : Only known arguments) : Discreet known (wrapText engine arguments) :=
  .bind (discreet_text_of discreet given) fun _ _ => .bind (discreet_create_wrapper trivial) fun _ kn => .pure kn

omit discreet in
theorem discreet_string_value (on : Only known this) : Discreet known (stringValue this) := by
  refine .bind (discreet_primitive_of on) fun value _ => ?_
  split
  · exact .pure trivial
  · exact discreet_throw_fault _

theorem discreet_from_code_units (given : Only known arguments) : Discreet known (fromCodeUnits engine arguments) :=
  .bind (.mapM fun v member => discreet_to_uint16 discreet (given v member)) fun _ _ => .pure trivial

theorem discreet_this_text (on : Only known this) : Discreet known (thisText engine this) :=
  .bind (discreet_check_coercible this) fun _ _ => discreet_to_text discreet on

theorem discreet_char_at (on : Only known this) (given : Only known arguments) :
    Discreet known (charAt engine this arguments) :=
  .bind (discreet_this_text discreet on) fun _ _ =>
    .bind (discreet_to_integer discreet (only_argument given 0)) fun _ _ => .pure trivial

theorem discreet_char_code_at (on : Only known this) (given : Only known arguments) :
    Discreet known (charCodeAt engine this arguments) := by
  refine .bind (discreet_this_text discreet on) fun _ _ => ?_
  refine .bind (discreet_to_integer discreet (only_argument given 0)) fun _ _ => ?_
  split
  · exact .pure trivial
  · exact .pure trivial

theorem discreet_bounds (length : Nat) (given : Only known arguments) :
    Discreet known (bounds engine length arguments) := by
  have second := only_argument given 1
  unfold bounds
  dsimp only
  refine .bind (discreet_to_integer discreet (only_argument given 0)) fun first _ => ?_
  have both (last : Number) : Discreet known (pure (first, last) : Eval (Number × Number)) :=
    .pure ⟨trivial, trivial⟩
  split
  · exact .bind (.pure trivial) fun last _ => both last
  · exact .bind (discreet_to_integer discreet second) fun last _ => both last

theorem discreet_slice_text (on : Only known this) (given : Only known arguments) :
    Discreet known (sliceText engine this arguments) :=
  .bind (discreet_this_text discreet on) fun _ _ => .bind (discreet_bounds discreet _ given) fun _ _ => .pure trivial

theorem discreet_substring (on : Only known this) (given : Only known arguments) :
    Discreet known (substring engine this arguments) :=
  .bind (discreet_this_text discreet on) fun _ _ => .bind (discreet_bounds discreet _ given) fun _ _ => .pure trivial

theorem discreet_concat (on : Only known this) (given : Only known arguments) :
    Discreet known (concat engine this arguments) :=
  .bind (discreet_this_text discreet on) fun _ _ =>
    .bind (.mapM fun v member => discreet_to_text discreet (given v member)) fun _ _ => .pure trivial

theorem discreet_split (on : Only known this) (given : Only known arguments) :
    Discreet known (split engine this arguments) := by
  have first := only_argument given 0
  have second := only_argument given 1
  unfold split
  dsimp only
  refine .bind (discreet_this_text discreet on) fun text _ => ?_
  split
  case' h_1 => refine .bind (.pure trivial) fun limit _ => ?_
  case' h_2 =>
    refine .bind (discreet_to_uint32 discreet second) fun requested _ => ?_
    refine .bind (.pure trivial) fun limit _ => ?_
  all_goals
    split
    · exact .bind (.pure only_none) fun _ _ => discreet_text_array _
    · exact .bind (.map some (fun _ => only_some) (discreet_to_text discreet first)) fun _ _ => discreet_text_array _

omit discreet in
theorem only_place (found : Option Nat) : Only known (placeOrMissing found) := by
  cases found <;> trivial

theorem discreet_index_of (on : Only known this) (given : Only known arguments) :
    Discreet known (indexOf engine this arguments) :=
  .bind (discreet_this_text discreet on) fun _ _ =>
    .bind (discreet_to_text discreet (only_argument given 0)) fun _ _ =>
      .bind (discreet_to_integer discreet (only_argument given 1)) fun _ _ => .pure (only_place _)

theorem discreet_last_index_of (on : Only known this) (given : Only known arguments) :
    Discreet known (lastIndexOf engine this arguments) :=
  .bind (discreet_this_text discreet on) fun _ _ =>
    .bind (discreet_to_text discreet (only_argument given 0)) fun _ _ =>
      .bind (discreet_to_number discreet (only_argument given 1)) fun _ _ => .pure (only_place _)

theorem discreet_locale_compare (on : Only known this) (given : Only known arguments) :
    Discreet known (localeCompare engine this arguments) :=
  .bind (discreet_this_text discreet on) fun _ _ =>
    .bind (discreet_to_text discreet (only_argument given 0)) fun _ _ => .pure trivial

theorem discreet_replacement_units (text search : String) (m : Text.Match) {r : Replacement} (only : Only known r) :
    Discreet known (replacementUnits engine text search m r) := by
  have all (units : List UInt16) : Only known units := fun _ _ => trivial
  cases r with
  | byFunction f =>
    have given : Only known [Value.string search, .number (.ofNat m.before.length), .string text] :=
      only_cons (only_string search) (only_cons (only_number _) (only_cons (only_string text) only_nil))
    refine .bind (discreet.call only only_undefined given) fun result made => ?_
    exact .bind (discreet_to_text discreet made) fun _ _ => .pure (all _)
  | byTemplate template => exact .pure (all _)

theorem discreet_replace (on : Only known this) (given : Only known arguments) :
    Discreet known (replace engine this arguments) := by
  unfold replace
  dsimp only
  refine .bind (discreet_this_text discreet on) fun text _ => ?_
  refine .bind (discreet_to_text discreet (only_argument given 0)) fun search _ => ?_
  refine .bind (.ask_heap fun _ _ => trivial) fun callable _ => .ite ?function ?template
  case' function =>
    refine .bind (.pure (show Only known (Replacement.byFunction _) from only_argument given 1)) fun r only => ?_
  case' template =>
    refine .bind (.map Replacement.byTemplate (fun _ _ => trivial) ?_) fun r only => ?_
    · exact discreet_to_text discreet (only_argument given 1)
  all_goals
    split
    · exact .pure trivial
    · exact .bind (discreet_replacement_units discreet text search _ only) fun _ _ => .pure trivial

theorem discreet_change_text (on : Only known this) (f : String → String) :
    Discreet known (changeText engine this f) :=
  .bind (discreet_this_text discreet on) fun _ _ => .pure trivial

/-! ## The host -/

section

variable {held : List ObjectId}

omit discreet in
theorem only_held (only : Only known held) (v : HostValue) : Only known (v.value held) := by
  cases v with
  | object place =>
    rw [HostValue.value]
    split
    · next id found => exact only id (List.mem_of_getElem? found)
    · trivial
  | _ => trivial

omit discreet in
theorem only_all_held (only : Only known held) (values : List HostValue) :
    Only known (values.map (·.value held)) := by
  intro v member
  obtain ⟨given, -, rfl⟩ := List.mem_map.1 member
  exact only_held only given

omit discreet in
theorem only_held_function (only : Only known held) (f : Option (Option HostValue)) :
    Only known (f.map fun f => f.bind fun v => (v.value held).asObject?) := by
  rintro g same id rfl
  obtain ⟨given, -, found⟩ := Option.map_eq_some_iff.1 same
  obtain ⟨v, -, found⟩ := Option.bind_eq_some_iff.1 found
  exact only_as_object (only_held only v) id found

omit discreet in
theorem only_held_patch (only : Only known held) (p : HostPatch) : Only known (p.patch held) := by
  refine ⟨fun v same => ?_, only_held_function only p.get, only_held_function only p.set⟩
  obtain ⟨given, -, rfl⟩ := Option.map_eq_some_iff.1 same
  exact only_held only given

omit discreet in
theorem only_hold (only : Only known held) {v : Value} (given : Only known v) : Only known (hold held v).2 := by
  cases v with
  | object id =>
    change Only known (if id ∈ held then held else held ++ [id])
    split
    · exact only
    · exact only_append only (only_cons given only_nil)
  | _ => exact only

omit discreet in
theorem only_hold_all (only : Only known held) {values : List Value} (given : Only known values) :
    Only known (holdAll held values).2 := by
  induction values generalizing held with
  | nil => exact only
  | cons v rest ih =>
    exact ih (only_hold only (given v List.mem_cons_self)) fun w member => given w (List.mem_cons_of_mem v member)

omit discreet in
theorem only_hold_failure (only : Only known held) {e : ScriptError} (given : Only known e) :
    Only known (holdFailure held e).2 := by
  cases e with
  | uncaught value message => exact only_hold only given
  | _ => exact only

omit discreet in
theorem discreet_of_object {value : Value} {ask : ObjectId → Eval (List Value)} (only : Only known value)
    (asked : ∀ id, known id → Discreet known (ask id)) : Discreet known (ofObject value ask) := by
  unfold ofObject
  split
  · next id same => exact asked id (only_as_object only id same)
  · exact .pure only_nil

omit discreet in
theorem discreet_describe_own (kn : known id) (key : String) : Discreet known (describeOwn id key) := by
  refine .bind (discreet_get_object kn) fun o only => ?_
  split
  · next p found =>
    have described := Object.only_get_own only key p found
    exact .bind (discreet_of_property described) fun _ made => .pure (only_cons made only_nil)
  · exact .pure only_nil

omit discreet in
theorem discreet_create_for (only : Only known held) (proto : Option HostValue) :
    Discreet known (createFor held proto) := by
  cases proto with
  | none => exact discreet_create_object
  | some proto => exact discreet_create_object_from (only_as_object (only_held only proto))

/-- Whatever a function of the host asks for that holds known objects, it is answered with known ones. -/
theorem discreet_perform (only : Only known held) (request : HostRequest) :
    Discreet known (perform engine held request) := by
  have on (v : HostValue) : Only known (v.value held) := only_held only v
  have all (values : List HostValue) : Only known (values.map (·.value held)) := only_all_held only values
  have one {v : Value} (given : Only known v) : Only known [v] := only_cons given only_nil
  have made (id : ObjectId) (kn : Only known id) : Only known [Value.object id] := only_cons kn only_nil
  cases request with
  | globalObject => exact .map _ (fun _ (here : Only known (_ : Realm)) => made _ here.2) discreet_get_realm
  | evaluate e => exact .map _ (fun _ => one) (discreet.evaluate e)
  | call f this arguments => exact .map _ (fun _ => one) (discreet.call (on f) (on this) (all arguments))
  | construct f arguments => exact .map _ (fun _ => one) (discreet.construct (on f) (all arguments))
  | get base key => exact .map _ (fun _ => one) (discreet_get_value_property discreet (on base) key)
  | put base key value strict =>
    exact .map _ (fun _ _ => only_nil) (discreet_put_value_property discreet (on base) key (on value) strict)
  | define object key patch throws =>
    refine discreet_of_object (on object) fun id kn => .map _ (fun _ _ => one trivial) ?_
    exact discreet_define_property discreet kn (only_held_patch only patch) key throws
  | delete object key throws =>
    refine discreet_of_object (on object) fun id kn => .map _ (fun _ _ => one trivial) ?_
    exact discreet_delete_property kn key throws
  | has object key =>
    refine discreet_of_object (on object) fun id kn => .map _ (fun _ _ => one trivial) ?_
    exact .ask_heap fun _ _ => trivial
  | describeOwn object key => exact discreet_of_object (on object) fun id kn => discreet_describe_own kn key
  | ownKeys object =>
    refine discreet_of_object (on object) fun id kn => .map _ (fun o _ => ?_) (discreet_get_object kn)
    intro v member
    obtain ⟨key, -, rfl⟩ := List.mem_map.1 member
    exact only_string key
  | elements object => exact discreet_of_object (on object) fun id kn => discreet_to_list discreet kn
  | toPrimitive value hint => exact .map _ (fun _ => one) (discreet_to_primitive discreet (on value) hint)
  | toNumber value => exact .map _ (fun _ _ => one trivial) (discreet_to_number discreet (on value))
  | toText value => exact .map _ (fun _ _ => one trivial) (discreet_to_text discreet (on value))
  | toObject value => exact .map _ made (discreet_to_object (on value))
  | combine op x y => exact .map _ (fun _ => one) (discreet_apply_binary discreet op (on x) (on y))
  | typeOf value => exact .map _ (fun _ _ => one trivial) (.ask_heap fun _ _ => (trivial : Only known ""))
  | createObject proto => exact .map _ made (discreet_create_for only proto)
  | createArray items => exact .map _ made (discreet_create_array (all items))
  | createError kind message => exact .map _ made (discreet_create_error kind message)
  | print line => exact .map _ (fun _ _ => only_nil) (discreet_print_line line)

/-- By induction on the program: what it is told of after each request it may hold. -/
theorem discreet_follow (p : HostProgram) (only : Only known held) : Discreet known (follow engine p held) := by
  induction p generalizing held with
  | done outcome =>
    cases outcome with
    | ok v => exact .pure (only_held only v)
    | error e =>
      cases e with
      | thrown v => exact .raise (only_held only v)
      | overflow depth => exact .raise trivial
  | ask request next ih =>
    rw [follow]
    refine .bind (.attempt (discreet_perform discreet only request)) fun outcome given => ?_
    cases outcome with
    | ok values => exact ih _ (only_hold_all only given)
    | error e =>
      cases e with
      | thrown value => exact ih _ (only_hold only given)
      | overflow depth => exact ih _ only
      | exhausted => exact .raise trivial
  | offer name length run next _ ih =>
    rw [follow]
    refine .bind ?_ fun id made => ih _ (only_hold only made)
    exact discreet_create_function_object (f := .native ⟨name, .host ⟨run⟩, none⟩) trivial length name
  | enter source next ih =>
    rw [follow]
    refine .bind (discreet_eval_source discreet source) fun outcome given => ?_
    cases outcome with
    | ok value => exact ih _ (only_hold only given)
    | error e =>
      cases e with
      | exhausted => exact .raise trivial
      | unreadable | uncaught | overflow => exact ih _ (only_hold_failure only given)
  | describe value next ih =>
    exact .bind (discreet_describe_thrown discreet (only_held only value)) fun text _ => ih text only

theorem discreet_run_host (f : HostFunction) (on : Only known this) (given : Only known arguments) :
    Discreet known (runHost engine f this arguments) :=
  discreet_follow discreet _ (only_hold_all (only_hold only_nil on) given)

end

theorem discreet_print (given : Only known arguments) : Discreet known (print engine arguments) :=
  .bind (.mapM fun v member => discreet_to_text discreet (given v member)) fun _ _ =>
    .bind (discreet_print_line _) fun _ _ => .pure trivial

/-! ## All functions -/

theorem discreet_run (f : Builtin) (on : Only known this) (given : Only known arguments) :
    Discreet known (run engine f this arguments) := by
  unfold run
  cases f with
  | nothing | boolean => exact .pure trivial
  | object => exact discreet_object_of given
  | getPrototypeOf => exact discreet_get_prototype_of given
  | getOwnPropertyDescriptor => exact discreet_get_own_property_descriptor discreet given
  | getOwnPropertyNames => exact discreet_get_own_property_names given
  | objectKeys => exact discreet_keys given
  | objectCreate => exact discreet_create discreet given
  | defineProperty => exact discreet_define_one discreet given
  | defineProperties => exact discreet_define_all discreet given
  | preventExtensions => exact discreet_prevent_extensions given
  | isExtensible => exact discreet_is_extensible given
  | «seal» | freeze => exact discreet_restrict_object discreet _ _ given
  | isSealed | isFrozen => exact discreet_test_restricted _ _ given
  | objectToString => exact discreet_describe_kind on
  | objectToLocaleString => exact discreet_locale_text discreet on
  | objectValueOf => exact discreet_object_value on
  | hasOwnProperty => exact discreet_has_own_property discreet on given
  | isPrototypeOf => exact discreet_is_prototype_of on
  | propertyIsEnumerable => exact discreet_property_is_enumerable discreet on given
  | function => exact discreet_function_of discreet given
  | functionCall => exact discreet_call_on discreet on given
  | functionApply => exact discreet_apply_on discreet on given
  | functionBind => exact discreet_bind discreet on given
  | functionToString => exact discreet_function_text on
  | error kind => exact discreet_error_of discreet kind given
  | errorToString => exact discreet_error_text discreet on
  | booleanConstruct => exact discreet_wrap_boolean arguments
  | booleanToString | booleanValueOf => exact .bind (discreet_this_boolean _ on) fun _ _ => .pure trivial
  | number => exact .bind (discreet_number_of discreet given) fun _ _ => .pure trivial
  | numberConstruct => exact discreet_wrap_number discreet given
  | numberToString => exact discreet_number_text discreet on given
  | numberToLocaleString | numberValueOf => exact .bind (discreet_this_number _ on) fun _ _ => .pure trivial
  | numberToFixed => exact discreet_number_fixed discreet on given
  | string => exact .bind (discreet_text_of discreet given) fun _ _ => .pure trivial
  | stringConstruct => exact discreet_wrap_text discreet given
  | fromCharCode => exact discreet_from_code_units discreet given
  | stringValueOf => exact discreet_string_value on
  | charAt => exact discreet_char_at discreet on given
  | charCodeAt => exact discreet_char_code_at discreet on given
  | stringConcat => exact discreet_concat discreet on given
  | stringIndexOf => exact discreet_index_of discreet on given
  | stringLastIndexOf => exact discreet_last_index_of discreet on given
  | localeCompare => exact discreet_locale_compare discreet on given
  | stringSlice => exact discreet_slice_text discreet on given
  | substring => exact discreet_substring discreet on given
  | split => exact discreet_split discreet on given
  | replace => exact discreet_replace discreet on given
  | toLowerCase | toUpperCase | trim => exact discreet_change_text discreet on _
  | array => exact discreet_array_of discreet given
  | isArray => exact discreet_is_array given
  | arrayPush => exact discreet_push discreet on given
  | arrayPop => exact discreet_pop discreet on
  | arrayJoin => exact discreet_join discreet on given
  | arrayToString => exact discreet_array_text discreet on
  | arraySlice => exact discreet_slice discreet on given
  | arrayIndexOf => exact discreet_index_of_element discreet on given
  | arrayForEach => exact discreet_for_each discreet on given
  | arrayMap => exact discreet_map discreet on given
  | isNaN | isFinite => exact .bind (discreet_to_number discreet (only_argument given 0)) fun _ _ => .pure trivial
  | parseInt => exact discreet_parse_integer discreet given
  | parseFloat => exact .bind (discreet_to_text discreet (only_argument given 0)) fun _ _ => .pure trivial
  | print => exact discreet_print discreet given
  | host f => exact discreet_run_host discreet f on given

theorem discreet_construct (c : Construction) (kn : known id) (given : Only known arguments) :
    Discreet known (construct engine c id arguments) := by
  cases c with
  | call f => exact discreet_run discreet f kn given
  | error => exact discreet_construct_error discreet kn given

end

end ScriptEngine.Library

namespace ScriptEngine

open Refers (Only)

variable {known : ObjectId → Prop} {engine : Engine} {callee : ObjectId} {this : Value} {arguments : List Value}

/-! ## Calls -/

section

variable (discreet : engine.Discreet known)

include discreet

theorem discreet_call_value {function : Value} (only : Only known function) (on : Only known this)
    (given : Only known arguments) : Discreet known (callValue engine function this arguments) := by
  refine .bind (.ask_heap fun _ enclosed => Heap.only_callable enclosed only) fun f runs => ?_
  split
  · next callee f same =>
    have kn : known callee := only_as_object only callee same
    have callable := runs f rfl
    cases f with
    | native f => exact discreet_nested (Library.discreet_run discreet f.call on given)
    | script f => exact discreet_call_script discreet kn callable on given
    | bound f => exact discreet.call callable.1 callable.2.1 (only_append callable.2.2 given)
  · exact discreet_throw_showing _ _

theorem discreet_prototype_for (kn : known callee) : Discreet known (prototypeFor engine callee) := by
  refine .bind (discreet_get_property discreet kn _) fun value only => ?_
  split
  · exact .pure only
  · exact .bind discreet_get_intrinsics fun _ up => .pure up.object

theorem discreet_initialize_with (kn : known callee) {instanceId : ObjectId} (also : known instanceId)
    (given : Only known arguments) {f : Callable} (only : Only known f) :
    Discreet known (initializeWith engine callee instanceId arguments f) := by
  cases f with
  | native f =>
    unfold initializeWith
    dsimp only
    split
    · exact discreet_nested (Library.discreet_construct discreet _ also given)
    · exact discreet_throw_fault _
  | script f => exact discreet_call_script discreet kn only also given
  | bound f => exact .pure trivial

theorem discreet_construct_new (kn : known callee) (given : Only known arguments) {f : Callable}
    (only : Only known f) : Discreet known (prototypeFor engine callee >>= fun proto =>
      createObjectFrom (some proto) >>= fun instanceId =>
        initializeWith engine callee instanceId arguments f >>= fun result =>
          pure (if result.isObject then result else .object instanceId)) := by
  refine .bind (discreet_prototype_for discreet kn) fun proto up => ?_
  refine .bind (discreet_create_object_from (only_some up)) fun id also => ?_
  refine .bind (discreet_initialize_with discreet kn also given only) fun result made => .pure ?_
  split
  · exact made
  · exact also

theorem discreet_construct_value {constructor : Value} (by_ : Only known constructor)
    (given : Only known arguments) : Discreet known (constructValue engine constructor arguments) := by
  have found : Discreet known (askHeap fun h => (h.callable? constructor).filter h.isConstructor) :=
    .ask_heap fun _ enclosed f same => Heap.only_callable enclosed by_ f (Option.filter_eq_some_iff.1 same).1
  refine .bind found fun f runs => ?_
  split
  · next callee f same =>
    have kn : known callee := only_as_object by_ callee same
    have callable := runs f rfl
    cases f with
    | bound f => exact discreet.construct callable.1 (only_append callable.2.2 given)
    | native f => exact discreet_construct_new discreet kn given callable
    | script f => exact discreet_construct_new discreet kn given callable
  · exact discreet_throw_showing _ _

end

/-- Code comes to no object but those that it knows and those that it makes, whatever it does. -/
theorem engine_discreet (known : ObjectId → Prop) (steps : Nat) : (engineAt steps).Discreet known := by
  induction steps with
  | zero =>
    exact ⟨fun _ => .raise trivial, fun _ _ => .raise trivial, fun _ _ _ => .raise trivial, fun _ _ => .raise trivial⟩
  | succ steps ih =>
    constructor
    · exact fun e => discreet_evaluate_form ih e.form
    · exact fun labels s => discreet_execute_form ih labels s.form
    · exact fun only on given => discreet_call_value ih only on given
    · exact fun only given => discreet_construct_value ih only given

/-! ## Where code starts -/

theorem Heap.enclosed_of_list {objects : List Object} (each : ∀ o ∈ objects, Only known o) :
    (Heap.mk objects.toArray).Enclosed known := by
  intro id _
  by_cases there : id.index < objects.length
  · have found : (Heap.mk objects.toArray).get id = objects[id.index] := by
      simp [Heap.get, Array.getD_eq_getD_getElem?, there]
    rw [found]
    exact each _ (List.getElem_mem there)
  · have missing : (Heap.mk objects.toArray).get id = default := by
      simp [Heap.get, Array.getD_eq_getD_getElem?, there]
    rw [missing]
    exact only_default

theorem only_first_objects (up : Only known Intrinsics.first) : ∀ o ∈ firstObjects, Only known o := by
  have derived {kind : ObjectKind} (only : Only known kind) :
      Only known (Object.new kind (some Intrinsics.first.objectPrototype)) :=
    Object.only_new only (only_some up.object)
  intro o member
  simp only [firstObjects, List.mem_append, List.mem_cons, List.not_mem_nil, or_false, List.mem_map] at member
  rcases member with ((rfl | rfl | rfl | rfl | rfl | rfl) | ⟨kind, -, rfl⟩) | rfl
  · exact Object.only_new trivial only_none
  · exact derived trivial
  · exact Object.only_set_data (derived trivial) trivial
  · exact derived trivial
  · exact derived trivial
  · exact Object.only_set_data (derived trivial) trivial
  · refine Object.only_set_data (Object.only_set_data (Object.only_new trivial (only_some ?_)) trivial) trivial
    split
    · exact up.object
    · exact up.error .error
  · exact derived trivial

/-- An engine without its library refers to none but its first objects. -/
theorem Machine.enclosed_bare (only : Only known Realm.first) (options : EngineOptions) :
    (Machine.bare options).Enclosed known where
  heap := Heap.enclosed_of_list (only_first_objects only.1)
  environments id := by
    obtain ⟨index⟩ := id
    match index with
    | 0 => exact only.2
    | 1 => exact Environment.only_declarative _
    | _ + 2 => exact Environment.only_declarative none
  context := only.2
  callers := only_nil
  realm := only

end ScriptEngine
