import ScriptEngine.Library.Run
import ScriptEngine.Proofs.Orderly.Host

/-!
The functions of the standard library are orderly: arrays that they make are filled by checked operations too.
-/

namespace ScriptEngine.Library

variable {t : Terms} {own : Rights} {moves : Bool}

theorem orderly_require_object (function : String) (value : Value) :
    Orderly t own moves fun _ => requireObject function value := by
  unfold requireObject
  split
  · exact .pure _
  · exact .bind (orderly_display_value _) fun _ => orderly_throw_fault _

theorem orderly_require_callback (value : Value) :
    Orderly t own moves fun _ => requireCallback value :=
  .bind (orderly_ask_heap _) fun _ => .ite (.pure ()) <|
    .bind (orderly_display_value _) fun _ => orderly_throw_fault _

theorem orderly_array_value (items : List Value) : Orderly t own moves fun _ => arrayValue items :=
  .bind (orderly_create_array items) fun _ => .pure _

theorem orderly_text_array (items : List String) : Orderly t own moves fun _ => textArray items :=
  orderly_array_value _

/-! ## Arrays -/

theorem orderly_length_of (id : ObjectId) : Orderly t own moves fun E => lengthOf E id :=
  .bind (orderly_get_property ..) fun length => .bind (orderly_to_uint32 length) fun _ => .pure _

theorem orderly_set_length (id : ObjectId) (length : Nat) :
    Orderly t own moves fun E => setLength E id length :=
  orderly_put_property ..

theorem orderly_define_element (id : ObjectId) (index : Nat) (value : Value) :
    Orderly t own moves fun E => defineElement E id index value :=
  .discard (orderly_define_property ..)

theorem orderly_array_of (arguments : List Value) :
    Orderly t own moves fun E => arrayOf E arguments := by
  unfold arrayOf
  split
  · refine orderly_unless _ (.bind (orderly_create_array []) fun id => ?_)
    exact .bind (orderly_set_length ..) fun _ => .pure _
  · exact orderly_array_value _

theorem orderly_is_array (arguments : List Value) : Orderly t own moves fun _ => isArray arguments := by
  unfold isArray
  split
  · exact .bind (orderly_get_object _) fun _ => .pure _
  · exact .pure _

theorem orderly_put_elements (id : ObjectId) (index : Nat) (items : List Value) :
    Orderly t own moves fun E => putElements E id index items := by
  induction items generalizing index with
  | nil => exact .pure index
  | cons v rest ih => exact .bind (orderly_put_property ..) fun _ => ih _

theorem orderly_push (this : Value) (arguments : List Value) :
    Orderly t own moves fun E => push E this arguments := by
  refine .bind (orderly_to_object this) fun id => .bind (orderly_length_of id) fun first => ?_
  refine .bind (orderly_put_elements id first arguments) fun length => ?_
  exact .bind (orderly_set_length ..) fun _ => .pure _

theorem orderly_pop (this : Value) : Orderly t own moves fun E => pop E this := by
  refine .bind (orderly_to_object this) fun id => .bind (orderly_length_of id) fun length => ?_
  cases length with
  | zero => exact .bind (orderly_set_length ..) fun _ => .pure _
  | succ last =>
    refine .bind (orderly_get_property ..) fun value => ?_
    refine .bind (.discard (orderly_delete_property ..)) fun _ => ?_
    exact .bind (orderly_set_length ..) fun _ => .pure value

theorem orderly_element_text (value : Value) : Orderly t own moves fun E => elementText E value :=
  .ite (.pure _) (orderly_to_text value)

theorem orderly_join_elements (id : ObjectId) (separator : String) (index count : Nat) (text : String) :
    Orderly t own moves fun E => joinElements E id separator index text count := by
  induction count generalizing index text with
  | zero => exact .pure text
  | succ count ih =>
    refine .bind (orderly_get_property ..) fun value => .bind (orderly_element_text value) fun _ => ?_
    exact ih ..

theorem orderly_join (this : Value) (arguments : List Value) :
    Orderly t own moves fun E => join E this arguments := by
  unfold join
  dsimp only
  refine .bind (orderly_to_object this) fun id => .bind (orderly_length_of id) fun length => ?_
  have joined (separator : String) : Orderly t own moves fun E =>
      joinElements E id separator 0 "" length >>= fun text => (pure (.string text) : Eval Value) :=
    .bind (orderly_join_elements ..) fun _ => .pure _
  split
  · exact .bind (.pure _) joined
  · exact .bind (orderly_to_text _) joined

theorem orderly_array_text (this : Value) : Orderly t own moves fun E => arrayText E this := by
  refine .bind (orderly_to_object this) fun id => .bind (orderly_get_property ..) fun method => ?_
  refine .bind (orderly_ask_heap _) fun callable => .ite (.call ..) ?_
  exact .bind (orderly_get_object id) fun _ => .pure _

theorem orderly_relative_place (length : Nat) (value : Value) (absent : Nat) :
    Orderly t own moves fun E => relativePlace E length value absent := by
  unfold relativePlace
  split
  · exact .pure _
  · exact .bind (orderly_to_integer _) fun _ => .pure _

theorem orderly_copy_elements (id copy : ObjectId) (source target count : Nat) :
    Orderly t own moves fun E => copyElements E id copy source target count := by
  induction count generalizing source target with
  | zero => exact .pure ()
  | succ count ih =>
    refine .bind (orderly_ask_heap _) fun there => .ite ?_ (ih ..)
    exact .bind (orderly_get_property ..) fun value => .bind (orderly_define_element ..) fun _ => ih ..

theorem orderly_slice (this : Value) (arguments : List Value) :
    Orderly t own moves fun E => slice E this arguments := by
  refine .bind (orderly_to_object this) fun id => .bind (orderly_length_of id) fun length => ?_
  refine .bind (orderly_relative_place ..) fun first => .bind (orderly_relative_place ..) fun last => ?_
  refine .bind (orderly_create_array []) fun copy => .bind (orderly_copy_elements ..) fun _ => ?_
  exact .bind (orderly_set_length ..) fun _ => .pure _

theorem orderly_search_elements (id : ObjectId) (search : Value) (index count : Nat) :
    Orderly t own moves fun E => searchElements E id search index count := by
  induction count generalizing index with
  | zero => exact .pure none
  | succ count ih =>
    refine .bind (orderly_ask_heap _) fun there => .ite ?_ (ih _)
    exact .bind (orderly_get_property ..) fun value => .ite (.pure _) (ih _)

theorem orderly_search_from (id : ObjectId) (sought : Value) (length : Nat) (start : Number) :
    Orderly t own moves fun E =>
      searchElements E id sought (start.relativeTo length)
          (length - start.relativeTo length) >>= fun found =>
        match found with
        | some index => (pure (.number (foundIndex start index)) : Eval Value)
        | none => pure (.number (.ofInt (-1))) := by
  refine .bind (orderly_search_elements ..) fun found => ?_
  split <;> exact .pure _

theorem orderly_index_of_element (this : Value) (arguments : List Value) :
    Orderly t own moves fun E => indexOfElement E this arguments := by
  unfold indexOfElement
  dsimp only
  refine .bind (orderly_to_object this) fun id => .bind (orderly_length_of id) fun length => ?_
  refine .ite (.pure _) ?_
  split
  · exact .bind (.pure _) (orderly_search_from id _ length)
  · exact .bind (orderly_to_integer _) (orderly_search_from id _ length)

theorem orderly_visit_elements (v : Visit) {use : Engine → Nat → Value → Eval Unit}
    (used : ∀ index value, Orderly t own moves fun E => use E index value) (index count : Nat) :
    Orderly t own moves fun E => visitElements E v (use E) index count := by
  induction count generalizing index with
  | zero => exact .pure ()
  | succ count ih =>
    refine .bind (orderly_ask_heap _) fun there => .ite ?_ (ih _)
    refine .bind (orderly_get_property ..) fun value => .bind (.call ..) fun result => ?_
    exact .bind (used index result) fun _ => ih _

theorem orderly_begin_visit (this : Value) (arguments : List Value) :
    Orderly t own moves fun E => beginVisit E this arguments := by
  refine .bind (orderly_to_object this) fun id => .bind (orderly_length_of id) fun length => ?_
  exact .bind (orderly_require_callback _) fun _ => .pure _

theorem orderly_for_each (this : Value) (arguments : List Value) :
    Orderly t own moves fun E => forEach E this arguments :=
  .bind (orderly_begin_visit this arguments) fun begun =>
    .bind (orderly_visit_elements begun.2 (fun _ _ => .pure ()) 0 begun.1) fun _ => .pure _

theorem orderly_map (this : Value) (arguments : List Value) :
    Orderly t own moves fun E => map E this arguments := by
  refine .bind (orderly_begin_visit this arguments) fun begun => ?_
  refine .bind (orderly_create_array []) fun result => .bind (orderly_set_length ..) fun _ => ?_
  refine .bind (orderly_visit_elements begun.2 ?_ 0 begun.1) fun _ => .pure _
  exact fun index value => orderly_define_element result index value

/-! ## Errors -/

theorem orderly_error_message (arguments : List Value) :
    Orderly t own moves fun E => errorMessage? E arguments := by
  unfold errorMessage?
  split
  · exact .pure none
  · exact .bind (orderly_to_text _) fun _ => .pure _

theorem with_message_kind (o : Object) (message : Option String) :
    (withMessage o message).kind = o.kind := by
  cases message <;> rfl

theorem orderly_error_of (kind : ErrorKind) (arguments : List Value) :
    Orderly t own moves fun E => errorOf E kind arguments := by
  refine .bind (orderly_error_message arguments) fun message => ?_
  refine .bind orderly_get_intrinsics fun intrinsics => .bind (.newObject _ ?_) fun _ => .pure _
  exact proper_of_kind (with_message_kind ..) (proper_of_error intrinsics kind "")

/-- Only an object of its own is made an error. -/
theorem orderly_construct_error {id : ObjectId} (mine : own.objects id) (arguments : List Value) :
    Orderly t own moves fun E => constructError E (.object id) arguments := by
  simp only [constructError, requireObject, pure_bind]
  refine .bind (.changeOwn id _ mine fun _ _ _ _ => proper_of_plain rfl) fun _ => ?_
  refine .bind (orderly_error_message arguments) fun message => ?_
  refine .bind (.changeOwn id _ mine fun o _ _ => ?_) fun _ => .pure _
  exact proper_of_kind (with_message_kind o message)

theorem orderly_error_part (id : ObjectId) (key absent : String) :
    Orderly t own moves fun E => errorPart E id key absent := by
  unfold errorPart
  refine .bind (orderly_get_property id key) fun value => ?_
  split
  · exact .pure absent
  · exact orderly_to_text _

theorem orderly_error_text (this : Value) : Orderly t own moves fun E => errorText E this := by
  refine .bind (orderly_require_object _ this) fun id => .bind (orderly_error_part ..) fun name => ?_
  exact .bind (orderly_error_part ..) fun message => .ite (.pure _) (.ite (.pure _) (.pure _))

/-! ## Functions -/

theorem orderly_function_texts (arguments : List Value) :
    Orderly t own moves fun E => functionTexts E arguments := by
  induction arguments with
  | nil => exact .pure []
  | cons v rest ih => exact .bind (orderly_to_text v) fun text => .bind ih fun texts => .pure _

theorem orderly_function_of (arguments : List Value) :
    Orderly t own moves fun E => functionOf E arguments := by
  unfold functionOf
  refine .bind (orderly_function_texts arguments) fun texts => ?_
  split
  · exact orderly_throw_fault _
  · split
    · exact orderly_throw_fault _
    · refine orderly_shared fun realm => ?_
      exact .bind (orderly_create_script_function _ (Rights.reaches_new own _)) fun _ => .pure _

theorem orderly_call_on (this : Value) (arguments : List Value) :
    Orderly t own moves fun E => callOn E this arguments :=
  .bind (orderly_ask_heap _) fun _ => orderly_unless _ (.call ..)

theorem orderly_apply_on (this : Value) (arguments : List Value) :
    Orderly t own moves fun E => applyOn E this arguments := by
  unfold applyOn
  dsimp only
  refine .bind (orderly_ask_heap _) fun callable => orderly_unless _ ?_
  have applied (elements : List Value) : Orderly t own moves fun E =>
      E.call this (argument arguments 0) elements := .call ..
  split
  · exact .bind (.pure _) applied
  · exact .bind (.pure _) applied
  · exact .bind (orderly_to_list _) applied
  · refine .bind (orderly_display_value _) fun _ => ?_
    exact .bind (orderly_throw_fault _) applied

/-- A function is bound after it was found to be one. -/
theorem orderly_bind (this : Value) (arguments : List Value) :
    Orderly t own moves fun E => bind E this arguments := by
  unfold bind
  cases this with
  | object target =>
    refine .aim target fun f => ?_
    cases f with
    | none => exact orderly_throw_fault _
    | some f =>
      refine .bind (orderly_get_property ..) fun length => .bind (orderly_ask_heap _) fun name => ?_
      exact .bind (orderly_create_bound_function (Rights.aims_new own target) ..) fun _ => .pure _
  | _ => exact .bind (orderly_ask_heap _) fun _ => orderly_throw_fault _

theorem orderly_function_text (this : Value) : Orderly t own moves fun _ => functionText this := by
  unfold functionText
  refine .bind (orderly_ask_heap _) fun f => ?_
  split
  · exact orderly_throw_fault _
  · exact .pure _
  · exact .bind (orderly_ask_heap _) fun _ => .pure _

/-! ## Objects -/

theorem orderly_object_of (arguments : List Value) : Orderly t own moves fun _ => objectOf arguments :=
  .ite (.bind orderly_create_object fun _ => .pure _) (.bind (orderly_to_object _) fun _ => .pure _)

theorem orderly_get_prototype_of (arguments : List Value) :
    Orderly t own moves fun _ => getPrototypeOf arguments := by
  refine .bind (orderly_require_object ..) fun id => .bind (orderly_get_object id) fun o => ?_
  split <;> exact .pure _

theorem orderly_get_own_property_descriptor (arguments : List Value) :
    Orderly t own moves fun E => getOwnPropertyDescriptor E arguments := by
  refine .bind (orderly_require_object ..) fun id => .bind (orderly_to_text _) fun key => ?_
  refine .bind (orderly_get_object id) fun o => ?_
  split
  · exact .bind (orderly_of_property _) fun _ => .pure _
  · exact .pure _

theorem orderly_get_own_property_names (arguments : List Value) :
    Orderly t own moves fun _ => getOwnPropertyNames arguments :=
  .bind (orderly_require_object ..) fun id => .bind (orderly_get_object id) fun _ =>
    orderly_text_array _

theorem orderly_keys (arguments : List Value) : Orderly t own moves fun _ => keys arguments :=
  .bind (orderly_require_object ..) fun id => .bind (orderly_get_object id) fun _ =>
    orderly_text_array _

theorem orderly_read_patches (descriptions : ObjectId) (names : List String) :
    Orderly t own moves fun E => readPatches E descriptions names := by
  induction names with
  | nil => exact .pure []
  | cons key rest ih =>
    refine .bind (orderly_get_object _) fun o => .ite ?_ ih
    refine .bind (orderly_get_property ..) fun description => .bind (orderly_to_patch _) fun patch => ?_
    exact .bind ih fun patches => .pure _

theorem orderly_define_from (id : ObjectId) (descriptions : Value) :
    Orderly t own moves fun E => defineFrom E id descriptions := by
  refine .bind (orderly_to_object descriptions) fun holder => .bind (orderly_get_object _) fun o => ?_
  refine .bind (orderly_read_patches ..) fun patches => .forM patches fun entry => ?_
  exact .discard (orderly_define_property ..)

theorem orderly_create (arguments : List Value) : Orderly t own moves fun E => create E arguments := by
  unfold create
  dsimp only
  have made (proto : Option ObjectId) : Orderly t own moves fun E =>
      createObjectFrom proto >>= fun id =>
        if (argument arguments 1).isUndefined then (pure (.object id) : Eval Value)
        else defineFrom E id (argument arguments 1) >>= fun _ => pure (.object id) :=
    .bind (orderly_create_object_from proto) fun id =>
      .ite (.pure _) (.bind (orderly_define_from ..) fun _ => .pure _)
  split
  · exact .bind (.pure _) made
  · exact .bind (.pure _) made
  · exact .bind (orderly_display_value _) fun _ => .bind (orderly_throw_fault _) made

theorem orderly_define_one (arguments : List Value) :
    Orderly t own moves fun E => defineOne E arguments := by
  refine .bind (orderly_require_object ..) fun id => .bind (orderly_to_text _) fun key => ?_
  refine .bind (orderly_to_patch _) fun patch => ?_
  exact .bind (.discard (orderly_define_property ..)) fun _ => .pure _

theorem orderly_define_all (arguments : List Value) :
    Orderly t own moves fun E => defineAll E arguments :=
  .bind (orderly_require_object ..) fun _ => .bind (orderly_define_from ..) fun _ => .pure _

theorem orderly_prevent (id : ObjectId) :
    Orderly t own moves fun _ => modifyObject id (·.preventExtensions) :=
  .change id _ .preventExtensions

theorem orderly_prevent_extensions (arguments : List Value) :
    Orderly t own moves fun _ => preventExtensions arguments :=
  .bind (orderly_require_object ..) fun id => .bind (orderly_prevent id) fun _ => .pure _

theorem orderly_is_extensible (arguments : List Value) :
    Orderly t own moves fun _ => isExtensible arguments :=
  .bind (orderly_require_object ..) fun id => .bind (orderly_get_object id) fun _ => .pure _

theorem orderly_restrict (id : ObjectId) (freezes : Bool) :
    Orderly t own moves fun E => restrict E id freezes := by
  refine .bind (orderly_get_object id) fun o => .bind (.forM _ fun key => ?_) fun _ => orderly_prevent id
  refine .bind (orderly_get_object id) fun current => ?_
  split
  · exact .pure ()
  · exact .discard (orderly_define_property ..)

theorem orderly_restrict_object (function : String) (freezes : Bool) (arguments : List Value) :
    Orderly t own moves fun E => restrictObject E function freezes arguments :=
  .bind (orderly_require_object ..) fun id => .bind (orderly_restrict id freezes) fun _ => .pure _

theorem orderly_test_restricted (function : String) (frozen : Bool) (arguments : List Value) :
    Orderly t own moves fun _ => testRestricted function frozen arguments :=
  .bind (orderly_require_object ..) fun id => .bind (orderly_get_object id) fun _ => .pure _

theorem orderly_describe_kind (this : Value) : Orderly t own moves fun _ => describeKind this := by
  unfold describeKind
  dsimp only
  split
  · exact .bind (.pure _) fun name => .pure _
  · exact .bind (.pure _) fun name => .pure _
  · refine .bind (orderly_to_object _) fun id => .bind (orderly_get_object id) fun o => ?_
    exact .bind (.pure _) fun name => .pure _

theorem orderly_locale_text (this : Value) : Orderly t own moves fun E => localeText E this :=
  .bind (orderly_get_value_property ..) fun _ => .bind (orderly_ask_heap _) fun _ =>
    orderly_unless _ (.call ..)

theorem orderly_object_value (this : Value) : Orderly t own moves fun _ => objectValue this :=
  .bind (orderly_to_object this) fun _ => .pure _

theorem orderly_own_property_named (this : Value) (arguments : List Value) :
    Orderly t own moves fun E => ownPropertyNamed E this arguments :=
  .bind (orderly_to_text _) fun _ => .bind (orderly_to_object this) fun id =>
    .bind (orderly_get_object id) fun _ => .pure _

theorem orderly_has_own_property (this : Value) (arguments : List Value) :
    Orderly t own moves fun E => hasOwnProperty E this arguments :=
  .bind (orderly_own_property_named this arguments) fun _ => .pure _

theorem orderly_property_is_enumerable (this : Value) (arguments : List Value) :
    Orderly t own moves fun E => propertyIsEnumerable E this arguments :=
  .bind (orderly_own_property_named this arguments) fun _ => .pure _

theorem orderly_is_prototype_of (this : Value) (arguments : List Value) :
    Orderly t own moves fun _ => isPrototypeOf this arguments := by
  unfold isPrototypeOf
  split
  · exact .bind (orderly_to_object this) fun id => .bind (orderly_ask_heap _) fun _ => .pure _
  · exact .pure _

/-! ## Booleans and numbers -/

theorem orderly_primitive_of (value : Value) : Orderly t own moves fun _ => primitiveOf value := by
  unfold primitiveOf
  split
  · exact .bind (orderly_get_object _) fun _ => .pure _
  · exact .pure _

theorem orderly_wrap_boolean (arguments : List Value) :
    Orderly t own moves fun _ => wrapBoolean arguments :=
  .bind (orderly_create_wrapper _ (by simp)) fun _ => .pure _

theorem orderly_this_boolean (method : String) (this : Value) :
    Orderly t own moves fun _ => thisBoolean method this := by
  refine .bind (orderly_primitive_of this) fun value => ?_
  split
  · exact .pure _
  · exact orderly_throw_fault _

theorem orderly_boolean_text (this : Value) : Orderly t own moves fun _ => booleanText this :=
  .bind (orderly_this_boolean ..) fun _ => .pure _

theorem orderly_boolean_value (this : Value) : Orderly t own moves fun _ => booleanValue this :=
  .bind (orderly_this_boolean ..) fun _ => .pure _

theorem orderly_number_of (arguments : List Value) :
    Orderly t own moves fun E => numberOf E arguments := by
  cases arguments with
  | nil => exact .pure _
  | cons v rest => exact orderly_to_number v

theorem orderly_wrap_number (arguments : List Value) :
    Orderly t own moves fun E => wrapNumber E arguments :=
  .bind (orderly_number_of arguments) fun _ => .bind (orderly_create_wrapper _ (by simp)) fun _ => .pure _

theorem orderly_this_number (method : String) (this : Value) :
    Orderly t own moves fun _ => thisNumber method this := by
  refine .bind (orderly_primitive_of this) fun value => ?_
  split
  · exact .pure _
  · exact orderly_throw_fault _

theorem orderly_checked_radix (requested : Number) :
    Orderly t own moves fun _ =>
      (match requested.within? 2 36 with
      | some radix => pure radix
      | none => throwFault .radix : Eval Nat) := by
  split
  · exact .pure _
  · exact orderly_throw_fault _

theorem orderly_radix_of (arguments : List Value) :
    Orderly t own moves fun E => radixOf E arguments := by
  unfold radixOf
  dsimp only
  split
  · exact .bind (.pure _) orderly_checked_radix
  · exact .bind (orderly_to_integer _) orderly_checked_radix

theorem orderly_number_text (this : Value) (arguments : List Value) :
    Orderly t own moves fun E => numberText E this arguments :=
  .bind (orderly_this_number ..) fun _ => .bind (orderly_radix_of arguments) fun _ =>
    .ite (.pure _) (.pure _)

theorem orderly_number_locale_text (this : Value) :
    Orderly t own moves fun _ => numberLocaleText this :=
  .bind (orderly_this_number ..) fun _ => .pure _

theorem orderly_number_value (this : Value) : Orderly t own moves fun _ => numberValue this :=
  .bind (orderly_this_number ..) fun _ => .pure _

theorem orderly_number_fixed (this : Value) (arguments : List Value) :
    Orderly t own moves fun E => numberFixed E this arguments := by
  refine .bind (orderly_this_number ..) fun n => .bind (orderly_to_integer _) fun places => ?_
  split
  · exact orderly_throw_fault _
  · exact .ite (.pure _) (.pure _)

theorem orderly_parse_integer (arguments : List Value) :
    Orderly t own moves fun E => parseInteger E arguments :=
  .bind (orderly_to_text _) fun _ => .bind (orderly_to_int32 _) fun _ => .pure _

theorem orderly_parse_number (arguments : List Value) :
    Orderly t own moves fun E => parseNumber E arguments :=
  .bind (orderly_to_text _) fun _ => .pure _

theorem orderly_is_not_number (arguments : List Value) :
    Orderly t own moves fun E => isNotNumber E arguments :=
  .bind (orderly_to_number _) fun _ => .pure _

theorem orderly_is_finite_number (arguments : List Value) :
    Orderly t own moves fun E => isFiniteNumber E arguments :=
  .bind (orderly_to_number _) fun _ => .pure _

/-! ## Strings -/

theorem orderly_text_of (arguments : List Value) : Orderly t own moves fun E => textOf E arguments := by
  cases arguments with
  | nil => exact .pure _
  | cons v rest => exact orderly_to_text v

theorem orderly_wrap_text (arguments : List Value) :
    Orderly t own moves fun E => wrapText E arguments :=
  .bind (orderly_text_of arguments) fun _ => .bind (orderly_create_wrapper _ (by simp)) fun _ => .pure _

theorem orderly_string_value (this : Value) : Orderly t own moves fun _ => stringValue this := by
  refine .bind (orderly_primitive_of this) fun value => ?_
  split
  · exact .pure _
  · exact orderly_throw_fault _

theorem orderly_from_code_units (arguments : List Value) :
    Orderly t own moves fun E => fromCodeUnits E arguments :=
  .bind (.mapM arguments orderly_to_uint16) fun _ => .pure _

theorem orderly_this_text (this : Value) : Orderly t own moves fun E => thisText E this :=
  .bind (orderly_check_coercible this) fun _ => orderly_to_text this

theorem orderly_char_at (this : Value) (arguments : List Value) :
    Orderly t own moves fun E => charAt E this arguments :=
  .bind (orderly_this_text this) fun _ => .bind (orderly_to_integer _) fun _ => .pure _

theorem orderly_char_code_at (this : Value) (arguments : List Value) :
    Orderly t own moves fun E => charCodeAt E this arguments := by
  refine .bind (orderly_this_text this) fun text => .bind (orderly_to_integer _) fun place => ?_
  split <;> exact .pure _

theorem orderly_bounds (length : Nat) (arguments : List Value) :
    Orderly t own moves fun E => bounds E length arguments := by
  unfold bounds
  dsimp only
  refine .bind (orderly_to_integer _) fun first => ?_
  have both (last : Number) : Orderly t own moves fun _ => (pure (first, last) : Eval (Number × Number)) :=
    .pure _
  split
  · exact .bind (.pure _) both
  · exact .bind (orderly_to_integer _) both

theorem orderly_slice_text (this : Value) (arguments : List Value) :
    Orderly t own moves fun E => sliceText E this arguments :=
  .bind (orderly_this_text this) fun _ => .bind (orderly_bounds ..) fun _ => .pure _

theorem orderly_substring (this : Value) (arguments : List Value) :
    Orderly t own moves fun E => substring E this arguments :=
  .bind (orderly_this_text this) fun _ => .bind (orderly_bounds ..) fun _ => .pure _

theorem orderly_concat (this : Value) (arguments : List Value) :
    Orderly t own moves fun E => concat E this arguments :=
  .bind (orderly_this_text this) fun _ => .bind (.mapM arguments orderly_to_text) fun _ => .pure _

theorem orderly_separated (text : String) (limit : Nat) (separator : Value) :
    Orderly t own moves fun E =>
      match separator with
      | .undefined => (pure none : Eval (Option String)) >>= fun separator =>
        textArray (List.take limit (match separator with
          | none => [text]
          | some separator => partsOf text separator))
      | value => some <$> toText E value >>= fun separator =>
        textArray (List.take limit (match separator with
          | none => [text]
          | some separator => partsOf text separator)) := by
  split
  · exact .bind (.pure none) fun _ => orderly_text_array _
  · exact .bind (.map some (orderly_to_text _)) fun _ => orderly_text_array _

theorem orderly_split (this : Value) (arguments : List Value) :
    Orderly t own moves fun E => split E this arguments := by
  unfold split
  dsimp only
  refine .bind (orderly_this_text this) fun text => ?_
  split
  · exact .bind (.pure _) fun limit => orderly_separated text limit _
  · refine .bind (orderly_to_uint32 _) fun requested => ?_
    exact .bind (.pure _) fun limit => orderly_separated text limit _

theorem orderly_index_of (this : Value) (arguments : List Value) :
    Orderly t own moves fun E => indexOf E this arguments :=
  .bind (orderly_this_text this) fun _ => .bind (orderly_to_text _) fun _ =>
    .bind (orderly_to_integer _) fun _ => .pure _

theorem orderly_last_index_of (this : Value) (arguments : List Value) :
    Orderly t own moves fun E => lastIndexOf E this arguments :=
  .bind (orderly_this_text this) fun _ => .bind (orderly_to_text _) fun _ =>
    .bind (orderly_to_number _) fun _ => .pure _

theorem orderly_locale_compare (this : Value) (arguments : List Value) :
    Orderly t own moves fun E => localeCompare E this arguments :=
  .bind (orderly_this_text this) fun _ => .bind (orderly_to_text _) fun _ => .pure _

theorem orderly_replacement_units (text search : String) (m : Text.Match) (r : Replacement) :
    Orderly t own moves fun E => replacementUnits E text search m r := by
  cases r with
  | byFunction f => exact .bind (.call ..) fun result => .bind (orderly_to_text result) fun _ => .pure _
  | byTemplate template => exact .pure _

theorem orderly_replaced (text search : String) (r : Replacement) :
    Orderly t own moves fun E =>
      match Text.findFrom? (Text.units search) (Text.units text) 0 with
      | none => (pure (.string text) : Eval Value)
      | some place =>
        replacementUnits E text search
            ⟨(Text.units text).take place, Text.units search,
              (Text.units text).drop (place + (Text.units search).length)⟩ r >>= fun inserted =>
          pure (.string (Text.ofUnits ((Text.units text).take place ++ inserted ++
            (Text.units text).drop (place + (Text.units search).length)))) := by
  split
  · exact .pure _
  · exact .bind (orderly_replacement_units ..) fun _ => .pure _

theorem orderly_replace (this : Value) (arguments : List Value) :
    Orderly t own moves fun E => replace E this arguments := by
  unfold replace
  dsimp only
  refine .bind (orderly_this_text this) fun text => .bind (orderly_to_text _) fun search => ?_
  refine .bind (orderly_ask_heap _) fun callable => .ite ?_ ?_
  · exact .bind (.pure _) (orderly_replaced text search)
  · exact .bind (.map _ (orderly_to_text _)) (orderly_replaced text search)

theorem orderly_change_text (this : Value) (f : String → String) :
    Orderly t own moves fun E => changeText E this f :=
  .bind (orderly_this_text this) fun _ => .pure _

theorem orderly_print (arguments : List Value) : Orderly t own moves fun E => print E arguments :=
  .bind (.mapM arguments orderly_to_text) fun _ => .bind (.printLine _) fun _ => .pure _

/-! ## All functions -/

theorem orderly_run {f : Builtin} (allowed : t.Allows f) (this : Value) (arguments : List Value) :
    Orderly t own moves fun E => run E f this arguments := by
  unfold run
  cases f with
  | nothing | boolean => exact .pure _
  | object => exact orderly_object_of arguments
  | getPrototypeOf => exact orderly_get_prototype_of arguments
  | getOwnPropertyDescriptor => exact orderly_get_own_property_descriptor arguments
  | getOwnPropertyNames => exact orderly_get_own_property_names arguments
  | objectKeys => exact orderly_keys arguments
  | objectCreate => exact orderly_create arguments
  | defineProperty => exact orderly_define_one arguments
  | defineProperties => exact orderly_define_all arguments
  | preventExtensions => exact orderly_prevent_extensions arguments
  | isExtensible => exact orderly_is_extensible arguments
  | «seal» | freeze => exact orderly_restrict_object ..
  | isSealed | isFrozen => exact orderly_test_restricted ..
  | objectToString => exact orderly_describe_kind this
  | objectToLocaleString => exact orderly_locale_text this
  | objectValueOf => exact orderly_object_value this
  | hasOwnProperty => exact orderly_has_own_property this arguments
  | isPrototypeOf => exact orderly_is_prototype_of this arguments
  | propertyIsEnumerable => exact orderly_property_is_enumerable this arguments
  | function => exact orderly_function_of arguments
  | functionCall => exact orderly_call_on this arguments
  | functionApply => exact orderly_apply_on this arguments
  | functionBind => exact orderly_bind this arguments
  | functionToString => exact orderly_function_text this
  | error kind => exact orderly_error_of kind arguments
  | errorToString => exact orderly_error_text this
  | booleanConstruct => exact orderly_wrap_boolean arguments
  | booleanToString => exact orderly_boolean_text this
  | booleanValueOf => exact orderly_boolean_value this
  | number => exact .bind (orderly_number_of arguments) fun _ => .pure _
  | numberConstruct => exact orderly_wrap_number arguments
  | numberToString => exact orderly_number_text this arguments
  | numberToLocaleString => exact orderly_number_locale_text this
  | numberValueOf => exact orderly_number_value this
  | numberToFixed => exact orderly_number_fixed this arguments
  | string => exact .bind (orderly_text_of arguments) fun _ => .pure _
  | stringConstruct => exact orderly_wrap_text arguments
  | fromCharCode => exact orderly_from_code_units arguments
  | stringValueOf => exact orderly_string_value this
  | charAt => exact orderly_char_at this arguments
  | charCodeAt => exact orderly_char_code_at this arguments
  | stringConcat => exact orderly_concat this arguments
  | stringIndexOf => exact orderly_index_of this arguments
  | stringLastIndexOf => exact orderly_last_index_of this arguments
  | localeCompare => exact orderly_locale_compare this arguments
  | stringSlice => exact orderly_slice_text this arguments
  | substring => exact orderly_substring this arguments
  | split => exact orderly_split this arguments
  | replace => exact orderly_replace this arguments
  | toLowerCase | toUpperCase | trim => exact orderly_change_text ..
  | array => exact orderly_array_of arguments
  | isArray => exact orderly_is_array arguments
  | arrayPush => exact orderly_push this arguments
  | arrayPop => exact orderly_pop this
  | arrayJoin => exact orderly_join this arguments
  | arrayToString => exact orderly_array_text this
  | arraySlice => exact orderly_slice this arguments
  | arrayIndexOf => exact orderly_index_of_element this arguments
  | arrayForEach => exact orderly_for_each this arguments
  | arrayMap => exact orderly_map this arguments
  | isNaN => exact orderly_is_not_number arguments
  | isFinite => exact orderly_is_finite_number arguments
  | parseInt => exact orderly_parse_integer arguments
  | parseFloat => exact orderly_parse_number arguments
  | print => exact orderly_print arguments
  | host f => exact orderly_run_host (allowed f rfl) this arguments

theorem orderly_construct {c : Construction} (allowed : ∀ f, c = .call f → t.Allows f) {id : ObjectId}
    (mine : own.objects id) (arguments : List Value) :
    Orderly t own moves fun E => construct E c id arguments := by
  cases c with
  | call f => exact orderly_run (allowed f rfl) _ arguments
  | error => exact orderly_construct_error mine arguments

end ScriptEngine.Library
