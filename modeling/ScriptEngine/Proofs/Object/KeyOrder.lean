import ScriptEngine.Realm
import ScriptEngine.Proofs.Object.Mixed
import ScriptEngine.Proofs.Object.OwnKeys

/-!
The order of an object's own properties over any sequence of operations. The code units of a wrapped string
come first; behind them each property has its place from when it was last created.
-/

namespace ScriptEngine.Object

variable {o : Object} {key : String} {patch : PropertyPatch}

/-- How a property is defined when a value is written: the value replaces that of an own property, or becomes
a new one. -/
def writing (o : Object) (key : String) (v : Value) : PropertyPatch :=
  if (o.getOwn? key).isSome then .ofValue v else .data v .all

/-- A value is written as data. -/
def write (o : Object) (key : String) (v : Value) : Bool × Object :=
  o.define key (o.writing key v)

/-- An operation on an object by itself. -/
inductive Operation where
  | define (key : String) (patch : PropertyPatch)
  | write (key : String) (v : Value)
  | delete (key : String)
  | preventExtensions

namespace Operation

/-- What an operation makes of an object, accepted or not. -/
def apply (operation : Operation) (o : Object) : Object :=
  match operation with
  | define key patch => (o.define key patch).2
  | write key v => (o.write key v).2
  | delete key => (o.delete key).2
  | preventExtensions => o.preventExtensions

end Operation

/-- An object after operations, the last of which is the first of the list. -/
def after (o : Object) : List Operation → Object
  | [] => o
  | last :: earlier => last.apply (o.after earlier)

/-- The number of the operation that created a property, if it is there now; zero for one that has been there
all the time. -/
def createdAt (o : Object) (key : String) : List Operation → Nat
  | [] => 0
  | _ :: earlier =>
    if ((o.after earlier).getOwn? key).isSome then o.createdAt key earlier else earlier.length + 1

/-- One property was created before another one, or both were there before, in this order. -/
def CameBefore (o : Object) (history : List Operation) (first second : String) : Prop :=
  o.createdAt first history < o.createdAt second history ∨
    (o.createdAt first history = 0 ∧ o.createdAt second history = 0 ∧ [first, second].Sublist o.ownKeys)

/-! ## Names that an object holds -/

/-- The names that an object holds, with one more at their end unless it is there. -/
def keysWith (o : Object) (key : String) : List String :=
  if key ∈ o.properties.keys then o.properties.keys else o.properties.keys ++ [key]

/-- The names of own properties other than code units. -/
def heldKeys (o : Object) : List String :=
  o.properties.keys.filter (!o.unitKeys.contains ·)

theorem own_keys_eq (o : Object) : o.ownKeys = o.unitKeys ++ o.heldKeys := by
  unfold ownKeys heldKeys
  dsimp only
  split
  · rename_i empty
    rw [List.isEmpty_iff.1 empty, List.nil_append]
    exact (List.filter_eq_self.2 fun _ _ => rfl).symm
  · rfl

theorem keys_sublist_with (o : Object) (key : String) : o.properties.keys.Sublist (o.keysWith key) := by
  unfold keysWith
  split
  · exact .refl _
  · exact List.sublist_append_left ..

theorem keys_define_ordinary (o : Object) (key : String) (patch : PropertyPatch) :
    (o.defineOrdinary key patch).2.properties.keys = o.properties.keys ∨
      (o.defineOrdinary key patch).2.properties.keys = o.keysWith key := by
  have inserted (p : Property) : (o.set key p).properties.keys = o.keysWith key :=
    OrderedMap.keys_insert o.properties key p
  unfold defineOrdinary
  repeat' split
  all_goals simp [inserted]

theorem keys_modify_length (o : Object) (f : Value → Bool → PropertyKind) :
    (o.modifyLength f).properties.keys = o.properties.keys := by
  unfold modifyLength
  split
  · rename_i value writable enumerable configurable found
    have there : lengthKey ∈ o.properties.keys := by rw [← OrderedMap.find?_isSome, found]; rfl
    exact (OrderedMap.keys_insert ..).trans (if_pos there)
  · rfl

theorem keys_delete (o : Object) (key : String) :
    (o.delete key).2.properties.keys = o.properties.keys ∨
      (o.delete key).2.properties.keys = o.properties.keys.erase key := by
  unfold delete
  repeat' split
  all_goals simp [OrderedMap.keys_erase]

theorem keys_drop_elements (o : Object) (doomed : List (Nat × String)) :
    (o.dropElements doomed).2.properties.keys.Sublist o.properties.keys := by
  induction doomed generalizing o with
  | nil => exact .refl _
  | cons entry rest ih =>
    obtain ⟨index, key⟩ := entry
    have removed : (o.delete key).2.properties.keys.Sublist o.properties.keys := by
      rcases keys_delete o key with same | erased
      · simp only [same, List.Sublist.refl]
      · rw [erased]
        exact List.erase_sublist
    unfold dropElements
    split
    · rename_i smaller deleted
      rw [deleted] at removed
      exact (ih smaller).trans removed
    · rename_i same refused
      rw [refused] at removed
      rwa [setArrayLength, keys_modify_length]

/-- A definition that does not cut an array makes a new name the last one, if there is one at all. -/
theorem keys_define_uncut (uncut : o.isArray → key = lengthKey → o.properties.find? key = none)
    (patch : PropertyPatch) :
    (o.define key patch).2.properties.keys = o.properties.keys ∨
      (o.define key patch).2.properties.keys = o.keysWith key := by
  unfold define
  split
  · rename_i array
    split
    · rename_i same
      obtain rfl : key = lengthKey := by simpa using same
      have noLength : o.arrayLength.1 = 0 := by rw [arrayLength, uncut array rfl]
      have no_cut {shrunk : Object} (isCut : Cut o patch shrunk) : False := by
        cases isCut with
        | intro given less => exact absurd (noLength ▸ less) (Nat.not_lt_zero _)
      have defined := define_length_outcome o patch
      generalize (o.defineLength patch).2 = changed at defined
      cases defined with
      | refused => exact .inl rfl
      | ordinary => exact keys_define_ordinary ..
      | cut isCut => exact (no_cut isCut).elim
      | frozen isCut => exact (no_cut isCut).elim
    · split
      · rename_i index isIndex
        have defined := define_element_outcome o index key patch
        generalize (o.defineElement index key patch).2 = changed at defined
        cases defined with
        | refused => exact .inl rfl
        | covered => exact keys_define_ordinary ..
        | beyond =>
          rw [setArrayLength, keys_modify_length]
          exact keys_define_ordinary ..
      · exact keys_define_ordinary ..
  · exact keys_define_ordinary ..

/-- A definition of the length of an array can take names away as well. -/
theorem keys_define_length (o : Object) (patch : PropertyPatch) :
    (o.defineLength patch).2.properties.keys.Sublist (o.keysWith lengthKey) := by
  have ordinary (description : PropertyPatch) :
      (o.defineOrdinary lengthKey description).2.properties.keys.Sublist (o.keysWith lengthKey) := by
    rcases keys_define_ordinary o lengthKey description with same | new
    · rw [same]
      exact keys_sublist_with ..
    · simp only [new, List.Sublist.refl]
  have cut {shrunk : Object} (isCut : Cut o patch shrunk) :
      shrunk.properties.keys.Sublist (o.keysWith lengthKey) := by
    cases isCut
    exact (keys_drop_elements ..).trans (ordinary _)
  have defined := define_length_outcome o patch
  generalize (o.defineLength patch).2 = changed at defined
  cases defined with
  | refused => exact keys_sublist_with ..
  | ordinary => exact ordinary patch
  | cut isCut => exact cut isCut
  | frozen isCut =>
    rw [freezeArrayLength, keys_modify_length]
    exact cut isCut

theorem keys_define (o : Object) (key : String) (patch : PropertyPatch) :
    (o.define key patch).2.properties.keys.Sublist (o.keysWith key) := by
  by_cases cuts : o.isArray = true ∧ key = lengthKey
  · obtain ⟨array, rfl⟩ := cuts
    simpa [define, array] using keys_define_length o patch
  · rcases keys_define_uncut (fun array isLength => absurd ⟨array, isLength⟩ cuts) patch with same | new
    · rw [same]
      exact keys_sublist_with ..
    · simp only [new, List.Sublist.refl]

/-! ## Names of own properties -/

variable {changed : Object} {names : List String} {operation : Operation} {history : List Operation}

theorem unit_keys_of_kind (same : changed.kind = o.kind) : changed.unitKeys = o.unitKeys := by
  unfold unitKeys
  rw [same]

theorem held_keys_sublist (o : Object) : o.heldKeys.Sublist o.ownKeys := by
  rw [own_keys_eq]
  exact List.sublist_append_right ..

/-- The names other than code units, with one more that is no code unit either. -/
theorem filter_keys_with (o : Object) (key : String) :
    (o.keysWith key).filter (!o.unitKeys.contains ·) =
      if key ∈ o.ownKeys then o.heldKeys else o.heldKeys ++ [key] := by
  have own := o.mem_own_keys_iff key
  unfold keysWith heldKeys
  by_cases held : key ∈ o.properties.keys
  · rw [if_pos held, if_pos (own.2 (.inr held))]
  · rw [if_neg held, List.filter_append]
    by_cases unit : key ∈ o.unitKeys
    · rw [if_pos (own.2 (.inl unit))]
      simp [unit]
    · have new : key ∉ o.ownKeys := fun listed => (own.1 listed).elim unit held
      rw [if_neg new]
      simp [unit]

theorem own_keys_of_keys (kind : changed.kind = o.kind) (keys : changed.properties.keys = o.properties.keys) :
    changed.ownKeys = o.ownKeys := by
  rw [own_keys_eq, own_keys_eq, heldKeys, heldKeys, unit_keys_of_kind kind, keys]

/-- A definition that does not cut an array leaves every own property at its place, and a new one comes
last. -/
theorem own_keys_define_uncut (uncut : o.isArray → key = lengthKey → o.properties.find? key = none)
    (patch : PropertyPatch) :
    (o.define key patch).2.ownKeys = o.ownKeys ∨
      key ∉ o.ownKeys ∧ (o.define key patch).2.ownKeys = o.ownKeys ++ [key] := by
  have kind := define_kind o key patch
  rcases keys_define_uncut uncut patch with same | new
  · exact .inl (own_keys_of_keys kind same)
  · rw [own_keys_eq, heldKeys, unit_keys_of_kind kind, new, filter_keys_with]
    by_cases own : key ∈ o.ownKeys
    · rw [if_pos own, ← own_keys_eq]
      exact .inl rfl
    · rw [if_neg own, ← List.append_assoc, ← own_keys_eq]
      exact .inr ⟨own, rfl⟩

theorem held_keys_define (o : Object) (key : String) (patch : PropertyPatch) :
    (o.define key patch).2.heldKeys.Sublist (if key ∈ o.ownKeys then o.heldKeys else o.heldKeys ++ [key]) := by
  rw [← filter_keys_with, heldKeys, unit_keys_of_kind (define_kind o key patch)]
  exact (keys_define o key patch).filter _

/-- A removal takes a name from its place, or none. -/
theorem own_keys_delete (o : Object) (key : String) :
    (o.delete key).2.ownKeys = o.ownKeys ∨ (o.delete key).2.ownKeys = o.ownKeys.erase key := by
  have kind := delete_kind o key
  rcases keys_delete o key with same | erased
  · exact .inl (own_keys_of_keys kind same)
  · rw [own_keys_eq, own_keys_eq, heldKeys, heldKeys, unit_keys_of_kind kind, erased,
      o.properties.nodup_keys.erase_eq_filter]
    by_cases unit : key ∈ o.unitKeys
    · -- A property under the name of a code unit is not listed a second time.
      left
      rw [List.filter_filter]
      congr 1
      refine List.filter_congr fun name _ => ?_
      by_cases same : name = key <;> simp [same, unit]
    · right
      have distinct : (o.properties.keys.filter (!o.unitKeys.contains ·)).Nodup := o.properties.nodup_keys.filter _
      rw [List.erase_append_right _ unit, distinct.erase_eq_filter, List.filter_filter, List.filter_filter]
      congr 1
      exact List.filter_congr fun _ _ => Bool.and_comm ..

/-- The code units that have no property: those at indices that no array can have. -/
def HasFarUnit (o : Object) (key : String) : Prop :=
  ∃ text i, o.kind = .string text ∧ arrayIndexLimit ≤ i ∧ i < (Text.units text).length ∧ key = indexKey i

/-- The names that are listed are those of own properties, but for code units at indices that no array can
have. -/
theorem mem_own_keys_iff_own (o : Object) (key : String) :
    key ∈ o.ownKeys ↔ (o.getOwn? key).isSome ∨ o.HasFarUnit key := by
  constructor
  · rw [mem_own_keys_iff]
    rintro (unit | held)
    · unfold unitKeys at unit
      split at unit
      · rename_i text kind
        obtain ⟨i, inside, rfl⟩ := List.mem_map.1 unit
        rw [List.mem_range] at inside
        rcases Nat.lt_or_ge i arrayIndexLimit with near | far
        · left
          unfold getOwn?
          split
          · rfl
          · simp [kind, unitProperty?, array_index_of_index_key near, inside]
        · exact .inr ⟨text, i, kind, far, inside, rfl⟩
      · cases unit
    · left
      obtain ⟨p, found⟩ := Option.isSome_iff_exists.1 ((OrderedMap.find?_isSome ..).2 held)
      rw [get_own_of_find found]
      rfl
  · rintro (own | ⟨text, i, kind, _, inside, rfl⟩)
    · obtain ⟨p, found⟩ := Option.isSome_iff_exists.1 own
      exact mem_own_keys found
    · rw [mem_own_keys_iff, unitKeys, kind]
      exact .inl (List.mem_map.2 ⟨i, List.mem_range.2 inside, rfl⟩)

/-! ## Single operations -/

namespace Operation

theorem apply_kind (operation : Operation) (o : Object) : (operation.apply o).kind = o.kind := by
  cases operation with
  | define => exact define_kind ..
  | write => exact define_kind ..
  | delete => exact delete_kind ..
  | preventExtensions => rfl

/-- What an operation leaves of the order of own properties. One that is there stays at its place, whatever it
becomes, and a new one comes last. One that is removed leaves the others in order, and so do the elements that
a smaller length of an array takes away. -/
def KeepsOrder (operation : Operation) (o : Object) : Prop :=
  match operation with
  | define key _ | write key _ =>
    if key ∈ o.ownKeys then
      if o.isArray ∧ key = lengthKey then (operation.apply o).ownKeys.Sublist o.ownKeys
      else (operation.apply o).ownKeys = o.ownKeys
    else (operation.apply o).ownKeys = o.ownKeys ∨ (operation.apply o).ownKeys = o.ownKeys ++ [key]
  | delete key => (operation.apply o).ownKeys = o.ownKeys ∨ (operation.apply o).ownKeys = o.ownKeys.erase key
  | preventExtensions => (operation.apply o).ownKeys = o.ownKeys

theorem keeps_order (operation : Operation) (o : Object) : operation.KeepsOrder o := by
  have defined (key : String) (patch : PropertyPatch) :
      if key ∈ o.ownKeys then
        if o.isArray ∧ key = lengthKey then (o.define key patch).2.ownKeys.Sublist o.ownKeys
        else (o.define key patch).2.ownKeys = o.ownKeys
      else (o.define key patch).2.ownKeys = o.ownKeys ∨ (o.define key patch).2.ownKeys = o.ownKeys ++ [key] := by
    split
    · rename_i own
      split
      · have held := held_keys_define o key patch
        rw [if_pos own] at held
        rw [own_keys_eq, own_keys_eq, unit_keys_of_kind (define_kind o key patch)]
        exact held.append_left _
      · rename_i uncut
        rcases own_keys_define_uncut (fun array isLength => absurd ⟨array, isLength⟩ uncut) patch with same | new
        · exact same
        · exact absurd own new.1
    · rename_i new
      have absent (array : o.isArray) (_ : key = lengthKey) : o.properties.find? key = none := by
        rw [← Option.not_isSome_iff_eq_none, OrderedMap.find?_isSome]
        exact fun held => new ((o.mem_own_keys_iff key).2 (.inr held))
      exact (own_keys_define_uncut absent patch).imp_right And.right
  cases operation with
  | define key patch => exact defined key patch
  | write key v => exact defined key _
  | delete key => exact own_keys_delete o key
  | preventExtensions => rfl

/-- At most one name comes to be listed in one operation, behind those that are. -/
theorem held_keys_apply (operation : Operation) (o : Object) :
    (operation.apply o).heldKeys.Sublist o.heldKeys ∨
      ∃ key, key ∉ o.ownKeys ∧ (operation.apply o).heldKeys.Sublist (o.heldKeys ++ [key]) := by
  have defined (key : String) (patch : PropertyPatch) :
      (o.define key patch).2.heldKeys.Sublist o.heldKeys ∨
        ∃ key', key' ∉ o.ownKeys ∧ (o.define key patch).2.heldKeys.Sublist (o.heldKeys ++ [key']) := by
    have held := held_keys_define o key patch
    split at held
    · exact .inl held
    · rename_i new
      exact .inr ⟨key, new, held⟩
  cases operation with
  | define key patch => exact defined key patch
  | write key v => exact defined key _
  | delete key =>
    left
    rw [heldKeys, heldKeys, apply, unit_keys_of_kind (delete_kind o key)]
    refine List.Sublist.filter _ ?_
    rcases keys_delete o key with same | erased
    · simp only [same, List.Sublist.refl]
    · rw [erased]
      exact List.erase_sublist
  | preventExtensions => exact .inl (.refl _)

end Operation

/-! ## Histories -/

theorem after_kind (o : Object) (history : List Operation) : (o.after history).kind = o.kind := by
  induction history with
  | nil => rfl
  | cons last earlier ih => exact (last.apply_kind _).trans ih

theorem created_at_le (o : Object) (key : String) (history : List Operation) :
    o.createdAt key history ≤ history.length := by
  induction history with
  | nil => exact Nat.le_refl _
  | cons last earlier ih =>
    unfold createdAt
    split
    · exact Nat.le_succ_of_le ih
    · exact Nat.le_refl _

theorem created_at_of_own (own : ((o.after history).getOwn? key).isSome) (last : Operation) :
    o.createdAt key (last :: history) = o.createdAt key history :=
  if_pos own

theorem created_at_of_new (new : key ∉ (o.after history).ownKeys) (last : Operation) :
    o.createdAt key (last :: history) = history.length + 1 :=
  if_neg fun own => new ((mem_own_keys_iff_own ..).2 (.inl own))

theorem own_of_held (held : key ∈ o.heldKeys) : (o.getOwn? key).isSome := by
  obtain ⟨p, found⟩ := Option.isSome_iff_exists.1 ((OrderedMap.find?_isSome ..).2 (List.mem_filter.1 held).1)
  rw [get_own_of_find found]
  rfl

/-- The own properties other than code units are listed as they were created. -/
theorem held_keys_in_order (o : Object) (history : List Operation) :
    (o.after history).heldKeys.Pairwise (o.CameBefore history) := by
  induction history with
  | nil =>
    rw [List.pairwise_iff_forall_sublist]
    exact fun listed => .inr ⟨rfl, rfl, listed.trans o.held_keys_sublist⟩
  | cons last earlier ih =>
    have still : (o.after earlier).heldKeys.Pairwise (o.CameBefore (last :: earlier)) := by
      refine ih.imp_of_mem fun first second before => ?_
      rwa [CameBefore, created_at_of_own (own_of_held first), created_at_of_own (own_of_held second)]
    rcases last.held_keys_apply (o.after earlier) with fewer | ⟨key, new, more⟩
    · exact still.sublist fewer
    · refine List.Pairwise.sublist more (List.pairwise_append.2 ⟨still, List.pairwise_singleton .., ?_⟩)
      intro first held second isNew
      rw [List.mem_singleton] at isNew
      subst isNew
      left
      rw [created_at_of_own (own_of_held held), created_at_of_new new]
      exact Nat.lt_succ_of_le (created_at_le ..)

/-! ## Code units -/

/-- An object that holds no property under the name of a code unit of the string that it wraps. -/
def Unshadowed (o : Object) : Prop :=
  ∀ text key unit, o.kind = .string text → unitProperty? text key = some unit → o.properties.find? key = none

/-- Objects that wrap no string have no code units. -/
theorem unshadowed_of_kind (wraps : ∀ text, o.kind ≠ .string text) : o.Unshadowed :=
  fun text _ _ kind _ => absurd kind (wraps text)

/-- New objects that wrap a primitive value hold no property under the name of a code unit. -/
theorem unshadowed_wrapping (intrinsics : Intrinsics) (kind : ObjectKind) :
    (Object.wrapping intrinsics kind).Unshadowed := by
  cases kind with
  | string =>
    intro text key unit _ there
    obtain ⟨index, isIndex, _⟩ := Option.bind_eq_some_iff.1 there
    have other := ne_length_of_index isIndex
    simp [wrapping, setData, new, Ne.symm other]
  | _ => exact unshadowed_of_kind fun text same => by cases same

theorem unit_read_only {text : String} {unit : Property} (there : unitProperty? text key = some unit) :
    ∃ value, unit = ⟨.data value false, true, false⟩ := by
  obtain ⟨_, _, there⟩ := Option.bind_eq_some_iff.1 there
  obtain ⟨_, _, same⟩ := Option.bind_eq_some_iff.1 there
  cases same
  exact ⟨_, rfl⟩

theorem get_own_of_same_find (kind : changed.kind = o.kind)
    (same : changed.properties.find? key = o.properties.find? key) : changed.getOwn? key = o.getOwn? key := by
  unfold getOwn?
  rw [same, kind]

variable {value : Value} {enumerable : Bool}

/-- What a definition makes of a read-only value that cannot be configured: it stays, and the object comes to
hold it if a mixed description repeats it. -/
theorem define_read_only (plain : o.isArray = false)
    (own : o.getOwn? key = some ⟨.data value false, enumerable, false⟩) (name : String) (patch : PropertyPatch) :
    (o.define name patch).2.getOwn? key = some ⟨.data value false, enumerable, false⟩ ∧
      (((o.define name patch).2.properties.find? key).isSome ↔ (o.properties.find? key).isSome ∨
        name = key ∧ patch.isMixed ∧ patch.valuePart.matchesProperty ⟨.data value false, enumerable, false⟩) := by
  have ordinary : o.define name patch = o.defineOrdinary name patch := by simp [define, plain]
  rw [ordinary]
  by_cases same : name = key
  · subst same
    rw [define_ordinary_read_only own patch]
    split
    · rename_i repeats
      rw [Bool.and_eq_true] at repeats
      exact ⟨by simp [get_own_set], by simp [repeats]⟩
    · rename_i different
      rw [Bool.and_eq_true] at different
      exact ⟨own, by simp [different]⟩
  · have found := find_define_ordinary_of_ne o patch same
    rw [get_own_of_same_find (define_ordinary_kind ..) found, found]
    exact ⟨own, by simp [same]⟩

/-- What an operation makes of a read-only value that cannot be configured. -/
theorem apply_read_only (plain : o.isArray = false)
    (own : o.getOwn? key = some ⟨.data value false, enumerable, false⟩) (operation : Operation) :
    (operation.apply o).getOwn? key = some ⟨.data value false, enumerable, false⟩ ∧
      (((operation.apply o).properties.find? key).isSome ↔ (o.properties.find? key).isSome ∨
        ∃ patch, operation = .define key patch ∧ patch.isMixed ∧
          patch.valuePart.matchesProperty ⟨.data value false, enumerable, false⟩) := by
  cases operation with
  | define name patch =>
    obtain ⟨still, held⟩ := define_read_only plain own name patch
    refine ⟨still, held.trans (or_congr_right ?_)⟩
    constructor
    · rintro ⟨rfl, repeats⟩
      exact ⟨patch, rfl, repeats⟩
    · rintro ⟨_, same, repeats⟩
      cases same
      exact ⟨rfl, repeats⟩
  | write name v =>
    obtain ⟨still, held⟩ := define_read_only plain own name (o.writing name v)
    have unmixed : (o.writing name v).isMixed = false := by
      unfold writing
      split <;> rfl
    refine ⟨still, ?_⟩
    simpa [unmixed, Operation.apply, write] using held
  | delete name =>
    have kept : ((o.delete name).2).properties.find? key = o.properties.find? key := by
      by_cases same : name = key
      · subst same
        simp [delete, own]
      · exact find_delete_of_ne o same
    have still := get_own_of_same_find (delete_kind o name) kept
    exact ⟨still.trans own, by simp [Operation.apply, kept]⟩
  | preventExtensions => exact ⟨own, by simp [Operation.apply, Object.preventExtensions]⟩

/-- Through a whole history a code unit stays as it is. The object comes to hold it exactly if a mixed
description repeated it. -/
theorem unit_after {text : String} {unit : Property} (unshadowed : o.Unshadowed) (wraps : o.kind = .string text)
    (there : unitProperty? text key = some unit) (history : List Operation) :
    (o.after history).getOwn? key = some unit ∧
      (((o.after history).properties.find? key).isSome ↔
        ∃ patch, .define key patch ∈ history ∧ patch.isMixed ∧ patch.valuePart.matchesProperty unit) := by
  obtain ⟨value, rfl⟩ := unit_read_only there
  induction history with
  | nil =>
    have apart := unshadowed text key _ wraps there
    exact ⟨by simp [after, getOwn?, apart, wraps, there], by simp [after, apart]⟩
  | cons last earlier ih =>
    obtain ⟨own, held⟩ := ih
    have plain : (o.after earlier).isArray = false := by simp [isArray, after_kind, wraps]
    obtain ⟨still, now⟩ := apply_read_only plain own last
    refine ⟨still, now.trans ?_⟩
    rw [held]
    constructor
    · rintro (⟨patch, before, repeats⟩ | ⟨patch, rfl, repeats⟩)
      · exact ⟨patch, List.mem_cons_of_mem _ before, repeats⟩
      · exact ⟨patch, List.mem_cons_self, repeats⟩
    · rintro ⟨patch, member, repeats⟩
      rcases List.mem_cons.1 member with now | before
      · exact .inr ⟨patch, now.symm, repeats⟩
      · exact .inl ⟨patch, before, repeats⟩

/-- The own properties of an object, after any operations. No name is listed twice, and those that are listed
are the names of own properties, but for code units at indices that no array can have. The code units of a
wrapped string come first, and the others follow in the order in which they were last created. No operation
moves a property that is there. The properties that a wrapper of a string holds come to hold a code unit as
well, as it is, exactly if a description has repeated it together with a function, which is passed over. -/
theorem own_keys_in_order (o : Object) (unshadowed : o.Unshadowed) (history : List Operation) :
    (o.after history).ownKeys.Nodup ∧
    (∀ key, key ∈ (o.after history).ownKeys ↔
      ((o.after history).getOwn? key).isSome ∨ o.HasFarUnit key) ∧
    (∃ held, (o.after history).ownKeys = o.unitKeys ++ held ∧ held.Pairwise (o.CameBefore history)) ∧
    (∀ operation : Operation, operation.KeepsOrder (o.after history)) ∧
    (∀ text key unit, o.kind = .string text → unitProperty? text key = some unit →
      (o.after history).getOwn? key = some unit ∧
      (key ∈ (o.after history).properties.keys ↔
        ∃ patch, .define key patch ∈ history ∧ patch.isMixed ∧ patch.valuePart.matchesProperty unit)) := by
  refine ⟨nodup_own_keys _, fun key => ?_, ⟨(o.after history).heldKeys, ?_, held_keys_in_order o history⟩,
    fun operation => operation.keeps_order _, fun text key unit wraps there => ?_⟩
  · rw [mem_own_keys_iff_own, HasFarUnit, HasFarUnit, after_kind]
  · rw [own_keys_eq, unit_keys_of_kind (after_kind o history)]
  · rw [← OrderedMap.find?_isSome]
    exact unit_after unshadowed wraps there history

/-- The wrapper of a text holds its first code unit after that was repeated together with a function. -/
theorem own_keys_of_wrapped_text :
    ((Object.wrapping Intrinsics.first (.string "ab")).after
        [.define "0" { value := some (.string "a"), get := some none }]).ownKeys.Nodup ∧
      "0" ∈ ((Object.wrapping Intrinsics.first (.string "ab")).after
        [.define "0" { value := some (.string "a"), get := some none }]).properties.keys := by
  obtain ⟨distinct, _, _, _, units⟩ := own_keys_in_order (Object.wrapping Intrinsics.first (.string "ab"))
    (unshadowed_wrapping _ _) [.define "0" { value := some (.string "a"), get := some none }]
  refine ⟨distinct, (units "ab" "0" ⟨.data (.string "a") false, true, false⟩ rfl (by decide)).2.2 ?_⟩
  exact ⟨_, List.mem_singleton.2 rfl, rfl, by decide⟩

end ScriptEngine.Object
