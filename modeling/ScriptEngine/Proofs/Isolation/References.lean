import ScriptEngine.Evaluation.Script
import ScriptEngine.Library.Arrays
import ScriptEngine.Library.Strings
import ScriptEngine.Proofs.Object.Change

/-!
The objects that a value, an object or an environment refers to. Of some objects that are known it can be said that
something refers to no others. What is read out of such a thing, and what is made of it by a change that mentions no
others, refers to no others either.
-/

namespace ScriptEngine

/-- Things that may refer to objects: `Only known a` says that `a` refers to none but known ones. -/
class Refers (α : Type) where
  Only (known : ObjectId → Prop) (a : α) : Prop

open Refers (Only)

variable {known : ObjectId → Prop} {α β : Type}

/-! ## What refers to objects -/

instance : Refers ObjectId := ⟨fun known id => known id⟩

instance : Refers Unit := ⟨fun _ _ => True⟩

instance : Refers Bool := ⟨fun _ _ => True⟩

instance : Refers Nat := ⟨fun _ _ => True⟩

instance : Refers Number := ⟨fun _ _ => True⟩

instance : Refers Int32 := ⟨fun _ _ => True⟩

instance : Refers UInt32 := ⟨fun _ _ => True⟩

instance : Refers UInt16 := ⟨fun _ _ => True⟩

instance : Refers String := ⟨fun _ _ => True⟩

instance : Refers EnvironmentId := ⟨fun _ _ => True⟩

instance : Refers SwitchClause := ⟨fun _ _ => True⟩

instance [Refers α] : Refers (Option α) := ⟨fun known a => ∀ x, a = some x → Only known x⟩

instance [Refers α] : Refers (List α) := ⟨fun known items => ∀ x ∈ items, Only known x⟩

instance [Refers α] [Refers β] : Refers (α × β) := ⟨fun known pair => Only known pair.1 ∧ Only known pair.2⟩

instance : Refers Value where
  Only known
    | .object id => known id
    | _ => True

instance : Refers PropertyKind where
  Only known
    | .data value _ => Only known value
    | .accessor get set => Only known get ∧ Only known set

instance : Refers Property := ⟨fun known p => Only known p.kind⟩

instance : Refers PropertyPatch :=
  ⟨fun known patch => Only known patch.value ∧ Only known patch.get ∧ Only known patch.set⟩

instance : Refers Callable where
  Only known
    | .script f => Only known f.lexicalThis
    | .native _ => True
    | .bound f => known f.target ∧ Only known f.this ∧ Only known f.arguments

instance : Refers ObjectKind where
  Only known
    | .function f => Only known f
    | _ => True

/-- An object refers to what its kind, its prototype and its properties refer to. -/
structure Object.RefersOnly (known : ObjectId → Prop) (o : Object) : Prop where
  kind : Only known o.kind
  proto : Only known o.proto
  properties : ∀ key p, o.properties.find? key = some p → Only known p

instance : Refers Object := ⟨Object.RefersOnly⟩

instance : Refers Binding := ⟨fun known b => Only known b.value⟩

instance : Refers Environment where
  Only known e := match e.bindings with
    | .declarative names => ∀ name b, names.find? name = some b → Only known b
    | .properties object _ => known object

instance : Refers Context := ⟨fun known c => Only known c.this⟩

/-- The prototypes of what the engine makes are known. -/
structure Intrinsics.RefersOnly (known : ObjectId → Prop) (i : Intrinsics) : Prop where
  object : known i.objectPrototype
  function : known i.functionPrototype
  array : known i.arrayPrototype
  boolean : known i.booleanPrototype
  number : known i.numberPrototype
  string : known i.stringPrototype
  error : ∀ kind, known (i.errorPrototype kind)

instance : Refers Intrinsics := ⟨Intrinsics.RefersOnly⟩

instance : Refers Realm := ⟨fun known r => Only known r.intrinsics ∧ known r.globalObject⟩

instance : Refers Completion where
  Only known
    | .normal value => Only known value
    | .returned value => Only known value
    | .broke _ value => Only known value
    | .continued _ value => Only known value

instance : Refers LoopStep where
  Only known
    | .next value => Only known value
    | .exit value => Only known value
    | .propagate c => Only known c

instance : Refers Reference where
  Only known
    | .name .. => True
    | .property base _ _ => Only known base

instance : Refers Abrupt where
  Only known
    | .thrown value => Only known value
    | _ => True

instance [Refers α] [Refers β] : Refers (Except α β) where
  Only known
    | .error e => Only known e
    | .ok a => Only known a

instance : Refers ScriptError where
  Only known
    | .uncaught value _ => Only known value
    | _ => True

instance : Refers KeyWalk := ⟨fun known w => Only known w.current⟩

instance : Refers Library.Visit := ⟨fun known v => Only known v.callback ∧ Only known v.this ∧ known v.object⟩

instance : Refers Library.Replacement where
  Only known
    | .byFunction f => Only known f
    | .byTemplate _ => True

/-! ## Values -/

theorem only_undefined : Only known Value.undefined := trivial

theorem only_number (n : Number) : Only known (Value.number n) := trivial

theorem only_string (s : String) : Only known (Value.string s) := trivial

theorem only_pair [Refers α] [Refers β] {a : α} {b : β} (first : Only known a) (second : Only known b) :
    Only known (a, b) :=
  ⟨first, second⟩

theorem only_none [Refers α] : Only known (none : Option α) := nofun

theorem only_some [Refers α] {a : α} (only : Only known a) : Only known (some a) := by
  rintro _ ⟨⟩
  exact only

theorem only_nil [Refers α] : Only known ([] : List α) := nofun

theorem only_cons [Refers α] {a : α} {items : List α} (first : Only known a) (rest : Only known items) :
    Only known (a :: items) :=
  List.forall_mem_cons.2 ⟨first, rest⟩

theorem only_append [Refers α] {items others : List α} (first : Only known items) (rest : Only known others) :
    Only known (items ++ others) :=
  List.forall_mem_append.2 ⟨first, rest⟩

theorem only_getD [Refers α] {a : Option α} {absent : α} (only : Only known a) (other : Only known absent) :
    Only known (a.getD absent) := by
  cases a with
  | none => exact other
  | some a => exact only a rfl

theorem only_or [Refers α] {a b : Option α} (first : Only known a) (second : Only known b) :
    Only known (a <|> b) := by
  cases a with
  | none => exact second
  | some a => exact first

/-- What a value refers to is the object that it is. -/
theorem only_as_object {v : Value} (only : Only known v) : Only known v.asObject? := by
  rintro id same
  cases v with
  | object id =>
    cases same
    exact only
  | _ => cases same

theorem only_argument {arguments : List Value} (only : Only known arguments) (index : Nat) :
    Only known (Library.argument arguments index) := by
  rw [Library.argument, List.getD_eq_getElem?_getD]
  refine only_getD (fun v found => only v (List.mem_of_getElem? found)) trivial

theorem only_fill_jump {c : Completion} {value : Option Value} (only : Only known c) (last : Only known value) :
    Only known (c.fillJump value) := by
  unfold Completion.fillJump
  split
  · exact last
  · exact last
  · exact only

theorem only_or_undefined {c : Completion} (only : Only known c) : Only known c.orUndefined := by
  unfold Completion.orUndefined
  split
  · exact only_some trivial
  · exact only

theorem only_loop_step {labels : List String} {value : Option Value} {c : Completion} (last : Only known value)
    (only : Only known c) : Only known (loopStep labels value c) := by
  unfold loopStep
  split
  · exact only_or only last
  · split
    · exact only_or only last
    · exact only_fill_jump only last
  · split
    · exact only_or only last
    · exact only_fill_jump only last
  · exact only

/-! ## Properties -/

theorem only_patch {patch : PropertyPatch} (value : Only known patch.value) (get : patch.get = none)
    (set : patch.set = none) : Only known patch :=
  ⟨value, get ▸ only_none, set ▸ only_none⟩

theorem only_patch_data {value : Value} (only : Only known value) (attributes : Attributes) :
    Only known (PropertyPatch.data value attributes) :=
  only_patch (only_some only) rfl rfl

theorem only_patch_of_value {value : Value} (only : Only known value) : Only known (PropertyPatch.ofValue value) :=
  only_patch (only_some only) rfl rfl

theorem only_create {patch : PropertyPatch} (only : Only known patch) : Only known patch.create := by
  obtain ⟨value, get, set⟩ := only
  change Only known patch.create.kind
  unfold PropertyPatch.create
  dsimp only
  split
  · exact ⟨only_getD get only_none, only_getD set only_none⟩
  · exact only_getD value trivial

theorem only_change_kind {patch : PropertyPatch} {current : Property} (only : Only known current) :
    Only known (patch.changeKind? current) := by
  rintro kind changed
  unfold PropertyPatch.changeKind? at changed
  split at changed
  · cases changed
    exact only
  · split at changed
    · split at changed
      · cases changed
      · split at changed
        · cases changed
          exact ⟨only_none, only_none⟩
        · cases changed
          trivial
    · obtain ⟨-, same⟩ := Option.ite_none_right_eq_some.1 changed
      cases same
      exact only

theorem only_fill {patch : PropertyPatch} {kind : PropertyKind} (only : Only known patch)
    (before : Only known kind) : Only known (patch.fill kind) := by
  obtain ⟨value, get, set⟩ := only
  cases kind with
  | data v writable => exact only_getD value before
  | accessor g s => exact ⟨only_getD get before.1, only_getD set before.2⟩

theorem only_update {patch : PropertyPatch} {current : Property} (only : Only known patch)
    (before : Only known current) : Only known (patch.update? current) := by
  rintro updated found
  unfold PropertyPatch.update? at found
  split at found
  · obtain ⟨kind, changed, rfl⟩ := Option.map_eq_some_iff.1 found
    exact only_fill only (only_change_kind before kind changed)
  · cases found

/-! ## Objects -/

namespace Object

variable {o : Object} {key : String} {p : Property} {patch : PropertyPatch}

theorem only_new {kind : ObjectKind} {proto : Option ObjectId} (only : Only known kind) (up : Only known proto) :
    Only known (Object.new kind proto) :=
  ⟨only, up, nofun⟩

theorem only_set (only : Only known o) (new : Only known p) : Only known (o.set key p) := by
  refine ⟨only.kind, only.proto, fun other q found => ?_⟩
  rw [find_set] at found
  split at found
  · cases found
    exact new
  · exact only.properties other q found

theorem only_set_data {value : Value} {attributes : Attributes} (only : Only known o) (new : Only known value) :
    Only known (o.setData key value attributes) :=
  only_set only new

theorem only_prevent_extensions (only : Only known o) : Only known o.preventExtensions :=
  ⟨only.kind, only.proto, only.properties⟩

/-- An own property is one that the object holds, or a code unit. -/
theorem only_get_own (only : Only known o) (key : String) : Only known (o.getOwn? key) := by
  rintro p found
  unfold getOwn? at found
  split at found
  · next held =>
    cases found
    exact only.properties key _ held
  · split at found
    · obtain ⟨index, -, rest⟩ := Option.bind_eq_some_iff.1 found
      obtain ⟨unit, -, made⟩ := Option.bind_eq_some_iff.1 rest
      cases made
      trivial
    · cases found

theorem only_delete (only : Only known o) (key : String) : Only known (o.delete key).2 := by
  unfold delete
  split
  · exact only
  · split
    · refine ⟨only.kind, only.proto, fun other q found => ?_⟩
      rw [OrderedMap.find?_erase] at found
      split at found
      · cases found
      · exact only.properties other q found
    · exact only

theorem only_define_ordinary (only : Only known o) (new : Only known patch) (key : String) :
    Only known (o.defineOrdinary key patch).2 := by
  unfold defineOrdinary
  split
  · split
    · exact only_set only (only_create new)
    · exact only
  · next current held =>
    split
    · exact only
    · split
      · next updated changed =>
        exact only_set only (only_update new (only_get_own only key current held) updated changed)
      · exact only

theorem only_modify_length {f : Value → Bool → PropertyKind} (only : Only known o)
    (keeps : ∀ value writable, Only known value → Only known (f value writable)) : Only known (o.modifyLength f) := by
  unfold modifyLength
  split
  · next value writable enumerable configurable held =>
    exact only_set only (keeps value writable (only.properties _ _ held))
  · exact only

theorem only_set_array_length (only : Only known o) (length : Nat) : Only known (o.setArrayLength length) :=
  only_modify_length only fun _ _ _ => trivial

theorem only_freeze_array_length (only : Only known o) : Only known o.freezeArrayLength :=
  only_modify_length only fun _ _ held => held

theorem only_drop_elements (only : Only known o) (doomed : List (Nat × String)) :
    Only known (o.dropElements doomed).2 := by
  induction doomed generalizing o with
  | nil => exact only
  | cons entry rest ih =>
    obtain ⟨index, key⟩ := entry
    have removed := only_delete only key
    unfold dropElements
    split
    · next changed same =>
      rw [same] at removed
      exact ih removed
    · next changed same =>
      rw [same] at removed
      exact only_set_array_length removed _

theorem only_define_length (only : Only known o) (new : Only known patch) : Only known (o.defineLength patch).2 := by
  have plain (staged : PropertyPatch) (same : staged.value = patch.value ∧ staged.get = patch.get ∧
      staged.set = patch.set) : Only known (o.defineOrdinary lengthKey staged).2 := by
    obtain ⟨value, get, set⟩ := same
    exact only_define_ordinary only ⟨value ▸ new.1, get ▸ new.2.1, set ▸ new.2.2⟩ lengthKey
  unfold defineLength
  dsimp only
  split
  · split
    · exact plain patch ⟨rfl, rfl, rfl⟩
    · split
      · exact only
      · have staged := plain (if patch.writable == some false then { patch with writable := some true } else patch)
          (by split <;> exact ⟨rfl, rfl, rfl⟩)
        split
        · next changed same =>
          rw [same] at staged
          exact staged
        · next changed same =>
          rw [same] at staged
          split
          · exact only_freeze_array_length (only_drop_elements staged _)
          · exact only_drop_elements staged _
  · exact plain patch ⟨rfl, rfl, rfl⟩

theorem only_define_element (only : Only known o) (new : Only known patch) (index : Nat) (key : String) :
    Only known (o.defineElement index key patch).2 := by
  have defined := only_define_ordinary only new key
  unfold defineElement
  dsimp only
  split
  · exact only
  · split
    · next changed same =>
      rw [same] at defined
      exact defined
    · next changed same =>
      rw [same] at defined
      split
      · exact only_set_array_length defined _
      · exact defined

theorem only_define (only : Only known o) (new : Only known patch) (key : String) :
    Only known (o.define key patch).2 := by
  unfold define
  split
  · split
    · exact only_define_length only new
    · split
      · exact only_define_element only new _ key
      · exact only_define_ordinary only new key
  · exact only_define_ordinary only new key

/-! ### New objects -/

theorem only_elements {items : List Value} (only : Only known items) {entry : String × Property}
    (member : entry ∈ elements items) : Only known entry.2 := by
  obtain ⟨⟨v, index⟩, among, rfl⟩ := List.mem_map.1 member
  exact only v (List.fst_mem_of_mem_zipIdx among)

theorem only_found {entries : List (String × Property)} (only : ∀ entry ∈ entries, Only known entry.2)
    (found : OrderedMap.lookup key entries = some p) : Only known p := by
  induction entries with
  | nil => cases found
  | cons entry rest ih =>
    obtain ⟨k, q⟩ := entry
    rw [OrderedMap.lookup] at found
    split at found
    · cases found
      exact only _ List.mem_cons_self
    · exact ih (fun other member => only other (List.mem_cons_of_mem _ member)) found

theorem only_of_elements {proto : ObjectId} {items : List Value} (up : known proto) (only : Only known items) :
    Only known (ofElements proto items) := by
  refine ⟨trivial, only_some up, fun key p found => only_found (fun entry member => ?_) found⟩
  rcases List.mem_cons.1 member with rfl | element
  · trivial
  · exact only_elements only element

theorem only_of_arguments {proto : ObjectId} {items : List Value} (up : known proto) (only : Only known items) :
    Only known (ofArguments proto items) := by
  refine ⟨trivial, only_some up, fun key p found => only_found (fun entry member => ?_) found⟩
  rcases List.mem_append.1 member with element | length
  · exact only_elements only element
  · obtain rfl := List.mem_singleton.1 length
    trivial

theorem only_of_callable {proto : ObjectId} {f : Callable} {length : Nat} {name : String} (up : known proto)
    (only : Only known f) : Only known (ofCallable proto f length name) :=
  only_set_data (only_set_data (only_new only (only_some up)) trivial) trivial

theorem only_wrapping {intrinsics : Intrinsics} {kind : ObjectKind} (up : Only known intrinsics)
    (only : Only known kind) : Only known (wrapping intrinsics kind) := by
  unfold wrapping
  split
  · exact only_new only (only_some up.boolean)
  · exact only_new only (only_some up.number)
  · exact only_set_data (only_new only (only_some up.string)) trivial
  · exact only_new only (only_some up.object)

theorem only_of_error {intrinsics : Intrinsics} (up : Only known intrinsics) (kind : ErrorKind) (message : String) :
    Only known (ofError intrinsics kind message) := by
  have new : Only known (Object.new .error (some (intrinsics.errorPrototype kind))) :=
    only_new trivial (only_some (up.error kind))
  unfold ofError
  dsimp only
  split
  · exact new
  · exact only_set_data new trivial

end Object

/-! ## What the heap says -/

/-- The known objects refer to known ones. -/
def Heap.Enclosed (h : Heap) (known : ObjectId → Prop) : Prop :=
  ∀ id, known id → Only known (h.get id)

namespace Heap

variable {h : Heap} {id : ObjectId}

theorem only_find (enclosed : h.Enclosed known) {start : Option ObjectId} (only : Only known start) (key : String) :
    Only known (h.find? start key) := by
  unfold find?
  generalize h.objects.size + 1 = fuel
  induction fuel generalizing start with
  | zero => exact only_none
  | succ fuel ih =>
    cases start with
    | none => exact only_none
    | some id =>
      have here := enclosed id (only id rfl)
      unfold findFrom?
      dsimp only
      split
      · next p found =>
        rintro _ ⟨⟩
        exact Object.only_get_own here key p found
      · exact ih here.proto

theorem only_callable (enclosed : h.Enclosed known) {value : Value} (only : Only known value) :
    Only known (h.callable? value) := by
  rintro f found
  obtain ⟨id, same, runs⟩ := Option.bind_eq_some_iff.1 found
  have kind := (enclosed id (only_as_object only id same)).kind
  unfold Object.callable? at runs
  split at runs
  · next g isFunction =>
    cases runs
    rwa [isFunction] at kind
  · cases runs

/-- The function that a bound one calls in the end is known if the bound one is. -/
theorem only_target (enclosed : h.Enclosed known) (only : known id) : known (h.target id) := by
  unfold target
  generalize h.objects.size = fuel
  induction fuel generalizing id with
  | zero =>
    unfold targetWithin
    exact only
  | succ fuel ih =>
    unfold targetWithin
    cases runs : (h.get id).callable? with
    | none => exact only
    | some f =>
      have callable := only_callable enclosed (show Only known (Value.object id) from only) f runs
      cases f with
      | bound f => exact ih callable.1
      | _ => exact only

theorem only_next (enclosed : h.Enclosed known) {walk : KeyWalk} (only : Only known walk) :
    Only known (walk.next h).2 := by
  unfold KeyWalk.next
  generalize h.objects.size + 1 = fuel
  induction fuel generalizing walk with
  | zero => exact only
  | succ fuel ih =>
    obtain ⟨origin, current, pending, listed, shadowed⟩ := walk
    unfold KeyWalk.nextWithin
    cases current with
    | none => exact only_none
    | some id =>
      have here := enclosed id (only id rfl)
      cases pending <;>
        · dsimp only
          split
          · exact only
          · exact ih here.proto

end Heap

/-! ## Environments -/

namespace Environment

variable {e : Environment} {name : String} {value : Value}

theorem only_declarative (outer : Option EnvironmentId) : Only known (declarative outer) :=
  fun _ _ => nofun

theorem only_binding (only : Only known e) (name : String) : Only known (e.binding? name) := by
  obtain ⟨outer, bindings⟩ := e
  cases bindings with
  | declarative names => exact fun b found => only name b found
  | properties object providesThis => exact only_none

theorem only_set (only : Only known e) {b : Binding} (new : Only known b) : Only known (e.set name b) := by
  obtain ⟨outer, bindings⟩ := e
  cases bindings with
  | declarative names =>
    intro other c found
    rw [OrderedMap.find?_insert] at found
    split at found
    · cases found
      exact new
    · exact only other c found
  | properties object providesThis => exact only

theorem only_erase (only : Only known e) : Only known (e.erase name) := by
  obtain ⟨outer, bindings⟩ := e
  cases bindings with
  | declarative names =>
    intro other c found
    rw [OrderedMap.find?_erase] at found
    split at found
    · cases found
    · exact only other c found
  | properties object providesThis => exact only

theorem only_create_mutable (only : Only known e) (deletable : Bool) : Only known (e.createMutable name deletable) := by
  unfold createMutable
  split
  · exact only
  · exact only_set only trivial

theorem only_create_immutable (only : Only known e) (strict : Bool) : Only known (e.createImmutable name strict) :=
  only_set only trivial

theorem only_declare (only : Only known e) (new : Only known value) : Only known (e.declare name value) :=
  only_set only new

theorem only_initialize (only : Only known e) (new : Only known value) : Only known (e.initialize? name value).2 := by
  unfold initialize?
  split
  · split
    · exact only
    · exact only_set only new
  · exact only

theorem only_create_lexical (only : Only known e) (names : List LexicalName) : Only known (e.createLexical names) := by
  unfold createLexical
  induction names generalizing e with
  | nil => exact only
  | cons n rest ih =>
    refine ih ?_
    dsimp only
    split
    · exact only_create_immutable only true
    · exact only_create_mutable only false

theorem only_implicit_this (only : Only known e) : Only known e.implicitThis := by
  unfold implicitThis
  split
  · next object bindings =>
    simp only [Only, bindings] at only
    exact only
  · trivial

theorem only_copy_names {source : Environment} (from_ : Only known source) (only : Only known e)
    (names : List String) : Only known (copyNames source e names) := by
  unfold copyNames
  induction names generalizing e with
  | nil => exact only
  | cons name rest ih =>
    refine ih (only_declare only (only_getD ?_ only_undefined))
    rintro v found
    obtain ⟨b, held, rfl⟩ := Option.map_eq_some_iff.1 found
    exact only_binding from_ name b held

theorem only_bind_parameters (only : Only known e) (names : List String) {arguments : List Value}
    (given : Only known arguments) : Only known (bindParameters e names arguments) := by
  induction names generalizing e arguments with
  | nil =>
    unfold bindParameters
    exact only
  | cons name rest ih =>
    cases arguments with
    | nil => exact ih (only_declare only only_undefined) given
    | cons v values =>
      exact ih (only_declare only (given v List.mem_cons_self)) fun x member => given x (List.mem_cons_of_mem _ member)

theorem only_bind_vars (only : Only known e) (names : List String) : Only known (bindVars e names) := by
  unfold bindVars
  induction names generalizing e with
  | nil => exact only
  | cons name rest ih =>
    refine ih ?_
    dsimp only
    split
    · exact only
    · exact only_declare only only_undefined

end Environment

end ScriptEngine
