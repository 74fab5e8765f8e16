import Mathlib.Data.Nat.Find
import ScriptEngine.Proofs.Object.ArrayLength
import ScriptEngine.Proofs.Object.OwnKeys

/-!
What a definition leaves behind, told by whether it was accepted. A refused one leaves the object as it was,
but for an array that was to become shorter: it gives up elements from its end until one cannot be removed.
-/

namespace ScriptEngine

/-- The description under which an array is cut: its length becomes read-only afterwards. -/
def PropertyPatch.staged (patch : PropertyPatch) : PropertyPatch :=
  if patch.writable == some false then { patch with writable := some true } else patch

theorem PropertyPatch.staged_flags (patch : PropertyPatch) :
    patch.staged.configurable = patch.configurable ∧ patch.staged.enumerable = patch.enumerable := by
  unfold staged
  split <;> exact ⟨rfl, rfl⟩

namespace Object

variable {o base after : Object} {key : String} {patch : PropertyPatch} {keep covered : String → Bool}
  {requested : Number} {n m : Nat} {writable enumerable : Bool}

/-! ## Objects that lost properties -/

/-- An object that lost the properties whose names are not to be kept. The others are as they were and in
the order in which they were, except that a length may have become another one. -/
structure Pruned (o : Object) (keep : String → Bool) (after : Object) : Prop where
  kind : after.kind = o.kind
  proto : after.proto = o.proto
  extensible : after.extensible = o.extensible
  keys : after.properties.keys = o.properties.keys.filter keep
  others : ∀ key, key ≠ lengthKey → keep key → after.properties.find? key = o.properties.find? key

/-- A length covers a name that is no index from it on. -/
def covers (n : Nat) (key : String) : Bool :=
  (arrayIndex? key).all (· < n)

/-- An array that was cut: it lost exactly the indices from a number on, and has a given length, which may
be writable. -/
structure CutTo (o : Object) (n : Nat) (length : Number) (writable : Bool) (after : Object) : Prop where
  pruned : o.Pruned (covers n) after
  length : after.HasLength length writable false

theorem covers_iff {n : Nat} : covers n key = true ↔ ∀ index, arrayIndex? key = some index → index < n := by
  simp [covers, Option.all_eq_true]

theorem pruned_refl (o : Object) : o.Pruned (fun _ => true) o :=
  ⟨rfl, rfl, rfl, (List.filter_eq_self.2 fun _ _ => rfl).symm, fun _ _ _ => rfl⟩

theorem pruned_trans (early : o.Pruned keep base) (late : base.Pruned covered after) :
    o.Pruned (fun key => keep key && covered key) after where
  kind := late.kind.trans early.kind
  proto := late.proto.trans early.proto
  extensible := late.extensible.trans early.extensible
  keys := by
    rw [late.keys, early.keys, List.filter_filter]
    exact List.filter_congr fun key _ => Bool.and_comm (covered key) (keep key)
  others key other kept := by
    rw [Bool.and_eq_true] at kept
    exact (late.others key other kept.2).trans (early.others key other kept.1)

/-- Only the names of properties that were there are of account. -/
theorem pruned_congr (pruned : o.Pruned keep after)
    (same : ∀ key ∈ o.properties.keys, keep key = covered key) : o.Pruned covered after where
  kind := pruned.kind
  proto := pruned.proto
  extensible := pruned.extensible
  keys := by rw [pruned.keys, List.filter_congr same]
  others key other kept := by
    by_cases there : key ∈ o.properties.keys
    · exact pruned.others key other ((same key there).trans kept)
    · have gone : key ∉ after.properties.keys := by
        rw [pruned.keys]
        exact fun member => there ((List.mem_filter.1 member).1)
      rw [← OrderedMap.find?_isSome, Option.not_isSome_iff_eq_none] at there gone
      rw [there, gone]

theorem pruned_set_length (has : o.HasLength requested writable enumerable) (p : Property) :
    o.Pruned (fun _ => true) (o.set lengthKey p) where
  kind := rfl
  proto := rfl
  extensible := rfl
  keys := by
    have there : lengthKey ∈ o.properties.keys := by
      rw [← OrderedMap.find?_isSome, has]
      rfl
    have same : (o.set lengthKey p).properties.keys = o.properties.keys := by
      rw [set, OrderedMap.keys_insert, if_pos there]
    exact same.trans (List.filter_eq_self.2 fun _ _ => rfl).symm
  others key other _ := by rw [find_set, if_neg (Ne.symm other)]

theorem pruned_delete (array : o.isArray) (removed : (o.delete key).1) :
    o.Pruned (· != key) (o.delete key).2 := by
  have own := get_own_array array key
  unfold delete at removed ⊢
  cases found : o.getOwn? key with
  | none =>
    apply pruned_congr (pruned_refl o)
    intro other there
    rw [own] at found
    rw [← OrderedMap.find?_isSome] at there
    have distinct : other ≠ key := by
      rintro rfl
      rw [found] at there
      cases there
    simpa using distinct
  | some p =>
    rw [found] at removed
    dsimp only at removed ⊢
    by_cases configurable : p.configurable
    · rw [if_pos configurable]
      have keys := OrderedMap.keys_erase o.properties key
      rw [o.properties.nodup_keys.erase_eq_filter key] at keys
      refine ⟨rfl, rfl, rfl, keys, fun other _ distinct => ?_⟩
      have unequal : key ≠ other := fun same => by simp [same] at distinct
      simp [unequal]
    · rw [if_neg configurable] at removed
      cases removed

/-! ## Removal of elements -/

/-- No property under one of the names is there that cannot be removed. -/
def Free (o : Object) (doomed : List (Nat × String)) : Prop :=
  ∀ entry ∈ doomed, ∀ p, o.properties.find? entry.2 = some p → p.configurable

theorem delete_accepted (array : o.isArray)
    (free : ∀ p, o.properties.find? key = some p → p.configurable) : (o.delete key).1 = true := by
  unfold delete
  rw [get_own_array array]
  cases found : o.properties.find? key with
  | none => rfl
  | some p => simp [free p found]

/-- Elements that can all be removed are removed. -/
theorem drop_elements_free {doomed : List (Nat × String)} (array : o.isArray) (free : o.Free doomed) :
    (o.dropElements doomed).1 = true ∧
      o.Pruned (fun key => decide (key ∉ doomed.map Prod.snd)) (o.dropElements doomed).2 := by
  induction doomed generalizing o with
  | nil => exact ⟨rfl, by simpa [dropElements] using pruned_refl o⟩
  | cons entry rest ih =>
    obtain ⟨index, key⟩ := entry
    have removed := delete_accepted array (free _ List.mem_cons_self)
    have first := pruned_delete array removed
    have still : (o.delete key).2.isArray := is_array_of_kind first.kind array
    have freeOn : (o.delete key).2.Free rest := by
      intro entry later p found
      by_cases same : key = entry.2
      · rw [← same, get_own_deleted array removed] at found
        cases found
      · rw [find_delete_of_ne o same] at found
        exact free entry (List.mem_cons_of_mem _ later) p found
    obtain ⟨complete, others⟩ := ih still freeOn
    have unfolded : o.dropElements ((index, key) :: rest) = (o.delete key).2.dropElements rest := by
      rw [dropElements]
      cases outcome : o.delete key with
      | mk done smaller =>
        rw [outcome] at removed
        cases removed
        rfl
    rw [unfolded]
    refine ⟨complete, pruned_congr (pruned_trans first others) fun name _ => ?_⟩
    rw [List.map_cons, Bool.eq_iff_iff]
    simp

/-- Removal goes on where the removal of the first elements ended. -/
theorem drop_elements_append {early late : List (Nat × String)} (complete : (o.dropElements early).1 = true) :
    o.dropElements (early ++ late) = (o.dropElements early).2.dropElements late := by
  induction early generalizing o with
  | nil => rfl
  | cons entry rest ih =>
    obtain ⟨index, key⟩ := entry
    rw [List.cons_append, dropElements, dropElements]
    rw [dropElements] at complete
    cases outcome : o.delete key with
    | mk done smaller =>
      rw [outcome] at complete
      cases done with
      | true => exact ih complete
      | false => cases complete

/-- Removal leaves alone what it is not about. -/
theorem find_drop_elements {doomed : List (Nat × String)} (complete : (o.dropElements doomed).1 = true)
    (others : ∀ entry ∈ doomed, entry.2 ≠ key) :
    (o.dropElements doomed).2.properties.find? key = o.properties.find? key := by
  induction doomed generalizing o with
  | nil => rfl
  | cons entry rest ih =>
    obtain ⟨index, name⟩ := entry
    have first := find_delete_of_ne o (others _ List.mem_cons_self)
    rw [dropElements] at complete ⊢
    cases outcome : o.delete name with
    | mk done smaller =>
      rw [outcome] at complete first
      cases done with
      | true => exact (ih complete fun entry later => others entry (List.mem_cons_of_mem _ later)).trans first
      | false => cases complete

/-- An element that cannot be removed becomes the last one of the array. -/
theorem drop_elements_stopped {doomed : List (Nat × String)} {index : Nat} {p : Property}
    (found : o.properties.find? key = some p) (fixed : p.configurable = false) :
    o.dropElements ((index, key) :: doomed) = (false, o.setArrayLength (index + 1)) := by
  have refused : o.delete key = (false, o) := by
    unfold delete
    rw [get_own_of_find found]
    simp [fixed]
  rw [dropElements, refused]

/-! ## Elements that stay -/

/-- The last element from a length on that cannot be removed. -/
structure Blocks (o : Object) (n m : Nat) : Prop where
  least : n ≤ m
  stays : ∃ key p, arrayIndex? key = some m ∧ o.getOwn? key = some p ∧ p.configurable = false
  last : ∀ key index p, arrayIndex? key = some index → m < index → o.getOwn? key = some p → p.configurable

/-- Either an element blocks the way to a length, or all that it does not cover can be removed. -/
theorem blocks_or_free (o : Object) (n : Nat) :
    (∃ m, o.Blocks n m) ∨ o.Free (o.indicesFrom n) := by
  classical
  let Fixed (index : Nat) : Prop :=
    n ≤ index ∧ ∃ key p, arrayIndex? key = some index ∧ o.getOwn? key = some p ∧ p.configurable = false
  have bounded : ∀ index, Fixed index → index ≤ arrayIndexLimit :=
    fun index ⟨_, key, p, isIndex, _⟩ => Nat.le_of_lt (array_index_lt isIndex)
  by_cases any : ∃ index, Fixed index
  · obtain ⟨index, fixed⟩ := any
    obtain ⟨least, stays⟩ := Nat.findGreatest_spec (bounded index fixed) fixed
    left
    apply Exists.intro
    apply Blocks.mk least stays
    intro key later p isIndex above own
    by_contra notConfigurable
    have isFixed : Fixed later := ⟨Nat.le_trans least (Nat.le_of_lt above), key, p, isIndex, own,
      by simpa using notConfigurable⟩
    exact Nat.findGreatest_is_greatest above (bounded later isFixed) isFixed
  · right
    intro entry member p found
    obtain ⟨index, key⟩ := entry
    obtain ⟨_, isIndex, beyond⟩ := mem_indices_from.1 member
    by_contra notConfigurable
    exact any ⟨index, beyond, key, p, isIndex, get_own_of_find found, by simpa using notConfigurable⟩

/-- Which elements stay does not depend on the length. -/
theorem blocks_iff_of_pruned (array : o.isArray) (pruned : o.Pruned (fun _ => true) base) :
    base.Blocks n m ↔ o.Blocks n m := by
  have still := is_array_of_kind pruned.kind array
  have same {key index} (isIndex : arrayIndex? key = some index) : base.getOwn? key = o.getOwn? key := by
    rw [get_own_array still, get_own_array array]
    exact pruned.others key (ne_length_of_index isIndex) rfl
  have transfer {one other : Object}
      (alike : ∀ key index, arrayIndex? key = some index → one.getOwn? key = other.getOwn? key)
      (blocks : one.Blocks n m) : other.Blocks n m := by
    obtain ⟨key, p, isIndex, own, fixed⟩ := blocks.stays
    apply Blocks.mk blocks.least ⟨key, p, isIndex, (alike key m isIndex).symm.trans own, fixed⟩
    intro key index q isIndex above there
    exact blocks.last key index q isIndex above ((alike key index isIndex).trans there)
  exact ⟨transfer fun _ _ => same, transfer fun _ _ isIndex => (same isIndex).symm⟩

/-! ## Cutting -/

/-- The elements behind a number, and no others, were removed one by one. -/
theorem cut_of_removed {doomed : List (Nat × String)} (array : o.isArray)
    (has : o.HasLength requested true false) (free : o.Free doomed)
    (exactly : ∀ entry ∈ doomed, arrayIndex? entry.2 = some entry.1 ∧ n ≤ entry.1)
    (all : ∀ key ∈ o.properties.keys, ∀ index, arrayIndex? key = some index → n ≤ index →
      (index, key) ∈ doomed) :
    (o.dropElements doomed).1 = true ∧ o.CutTo n requested true (o.dropElements doomed).2 := by
  obtain ⟨complete, pruned⟩ := drop_elements_free array free
  have length : (o.dropElements doomed).2.properties.find? lengthKey = o.properties.find? lengthKey :=
    find_drop_elements complete fun entry listed => ne_length_of_index (exactly entry listed).1
  refine ⟨complete, pruned_congr pruned ?_, has_length_of_find length has⟩
  intro key there
  rw [Bool.eq_iff_iff, decide_eq_true_eq, covers_iff]
  constructor
  · intro kept index isIndex
    by_contra beyond
    exact kept (List.mem_map.2 ⟨_, all key there index isIndex (Nat.le_of_not_lt beyond), rfl⟩)
  · intro below member
    obtain ⟨⟨index, name⟩, listed, rfl⟩ := List.mem_map.1 member
    obtain ⟨isIndex, beyond⟩ := exactly _ listed
    exact Nat.not_lt.2 beyond (below index isIndex)

/-- An array whose last elements can all be removed loses exactly those that the length does not cover. -/
theorem cut_free (array : o.isArray) (has : o.HasLength requested true false)
    (free : o.Free (o.indicesFrom n)) :
    (o.dropElements (o.indicesFrom n)).1 = true ∧
      o.CutTo n requested true (o.dropElements (o.indicesFrom n)).2 := by
  apply cut_of_removed array has free
  · intro entry listed
    exact (mem_indices_from.1 listed).2
  · intro key there index isIndex beyond
    exact mem_indices_from.2 ⟨there, isIndex, beyond⟩

theorem cut_set_length {length : Number} (cut : o.CutTo n length true after) (m : Nat) :
    o.CutTo n (.ofNat m) true (after.setArrayLength m) := by
  rw [set_array_length_of_has cut.length]
  refine ⟨?_, has_length_set ..⟩
  have set := pruned_set_length cut.length ⟨.data (.ofNat m) true, false, false⟩
  exact pruned_congr (pruned_trans cut.pruned set) fun key _ => Bool.and_true _

/-- An array with an element that stays loses exactly the elements behind the last such element, which becomes
its last one. -/
theorem cut_blocked (array : o.isArray) (has : o.HasLength requested true false) (blocks : o.Blocks n m) :
    (o.dropElements (o.indicesFrom n)).1 = false ∧
      o.CutTo (m + 1) (.ofNat (m + 1)) true (o.dropElements (o.indicesFrom n)).2 := by
  obtain ⟨key, p, isIndex, own, fixed⟩ := blocks.stays
  rw [get_own_array array] at own
  have there : key ∈ o.properties.keys := by
    rw [← OrderedMap.find?_isSome, own]
    rfl
  have doomed := doomed_indices_from o n
  obtain ⟨early, late, split, first⟩ :=
    List.eq_append_cons_of_mem (mem_indices_from.2 ⟨there, isIndex, blocks.least⟩)
  rw [split] at doomed ⊢
  obtain ⟨_, sorted, apart⟩ := List.pairwise_append.1 doomed.sorted
  -- What comes before the element is behind it: the same index again would be the same element.
  have behind : ∀ entry ∈ early, arrayIndex? entry.2 = some entry.1 ∧ m + 1 ≤ entry.1 := by
    intro entry listed
    have isEntry := (doomed.indices entry (List.mem_append_left _ listed)).1
    have above := apart entry listed _ List.mem_cons_self
    have distinct : m ≠ entry.1 := by
      rintro rfl
      have same : entry.2 = key := (index_key_of_array_index isEntry).symm.trans (index_key_of_array_index isIndex)
      exact first (same ▸ listed)
    exact ⟨isEntry, by omega⟩
  have free : o.Free early := by
    intro entry listed q found
    obtain ⟨isEntry, above⟩ := behind entry listed
    exact blocks.last entry.2 entry.1 q isEntry above (get_own_of_find found)
  obtain ⟨complete, cut⟩ := cut_of_removed array has free behind (by
    intro other member index otherIndex beyond
    have listed := doomed.all other index (OrderedMap.lookup_isSome.2 member) otherIndex
      (by have := blocks.least; omega)
    rcases List.mem_append.1 listed with before | after
    · exact before
    · rcases List.mem_cons.1 after with here | later
      · cases here
        omega
      · have below := (List.pairwise_cons.1 sorted).1 _ later
        dsimp only at below
        omega)
  have still : (o.dropElements early).2.properties.find? key = some p := by
    rw [find_drop_elements complete, own]
    intro entry listed
    rintro rfl
    obtain ⟨isEntry, above⟩ := behind entry listed
    rw [isIndex] at isEntry
    cases isEntry
    omega
  rw [drop_elements_append complete, drop_elements_stopped still fixed]
  exact ⟨rfl, cut_set_length cut (m + 1)⟩

/-! ## A smaller length -/

/-- A description asks an array for a smaller length. -/
structure Shortens (o : Object) (key : String) (patch : PropertyPatch) (requested : Number) : Prop where
  array : o.isArray
  isLength : key = lengthKey
  asked : patch.value = some (.number requested)
  less : requested.clampTo maxWord < o.arrayLength.1

/-- An array may get another length: the one that it has may be replaced, and the description gives it no
flag that it cannot have. -/
structure Permits (o : Object) (patch : PropertyPatch) : Prop where
  writable : o.arrayLength.2 = true
  fixed : patch.configurable ≠ some true
  hidden : patch.enumerable ≠ some true

theorem flags_allowed_iff {kind : PropertyKind} : patch.flagsAllowed ⟨kind, false, false⟩ = true ↔
    patch.configurable ≠ some true ∧ patch.enumerable ≠ some true := by
  obtain ⟨_, _, _, _, seen, configurable⟩ := patch
  cases seen <;> cases configurable <;> simp [PropertyPatch.flagsAllowed, PropertyPatch.agrees]

/-- A length that may be replaced is replaced, unless it is to be configured or seen by loops. -/
theorem define_length_accepted_iff {old : Number} {v : Value} (has : o.HasLength old true false)
    (asked : patch.value = some v) :
    (o.defineOrdinary lengthKey patch).1 = true ↔
      patch.configurable ≠ some true ∧ patch.enumerable ≠ some true := by
  have updates : (patch.update? ⟨.data (.number old) true, false, false⟩).isSome ↔
      patch.configurable ≠ some true ∧ patch.enumerable ≠ some true := by
    have flags : patch.flagsAllowed ⟨.data (.number old) true, false, false⟩ = true ↔
        patch.configurable ≠ some true ∧ patch.enumerable ≠ some true := flags_allowed_iff
    rw [← flags]
    unfold PropertyPatch.update?
    split
    · rename_i allowed
      simp [PropertyPatch.changeKind?, PropertyPatch.isGeneric, PropertyPatch.mentionsData,
        Property.isData, asked, allowed]
    · rename_i refused
      simp [refused]
  rw [← updates]
  unfold defineOrdinary
  rw [get_own_of_find has]
  dsimp only
  split
  · rename_i unchanged
    have agreed : patch.matchesProperty ⟨.data (.number old) true, false, false⟩ := by
      simpa [PropertyPatch.isEmpty, PropertyPatch.isGeneric, PropertyPatch.mentionsData, asked] using unchanged
    simp only [PropertyPatch.matchesProperty, Bool.and_eq_true] at agreed
    obtain ⟨⟨seen, configurable⟩, _⟩ := agreed
    have flags : patch.flagsAllowed ⟨.data (.number old) true, false, false⟩ := by
      simp only [PropertyPatch.flagsAllowed, Bool.false_or, Bool.and_eq_true]
      exact ⟨by simpa using configurable, seen⟩
    rw [updates, ← flags_allowed_iff]
    simpa using flags
  · cases patch.update? ⟨.data (.number old) true, false, false⟩ <;> simp

theorem has_length_replaced {old : Number} (has : o.HasLength old writable enumerable)
    (asked : patch.value = some (.number requested))
    (accepted : (o.defineOrdinary lengthKey patch).1 = true) :
    (o.defineOrdinary lengthKey patch).2.HasLength requested (patch.writable.getD writable) enumerable := by
  rw [HasLength, find_length_defined has accepted, asked]
  rfl

theorem pruned_define_length {old : Number} (has : o.HasLength old writable enumerable)
    (patch : PropertyPatch) : o.Pruned (fun _ => true) (o.defineOrdinary lengthKey patch).2 := by
  unfold defineOrdinary
  rw [get_own_of_find has]
  dsimp only
  split
  · exact pruned_refl o
  · split
    · exact pruned_set_length has _
    · exact pruned_refl o

/-- What a cut array is after its length was made read-only, if that was asked for. -/
theorem cut_freeze {length : Number} (cut : o.CutTo n length true after) (freezes : Bool) :
    o.CutTo n length (!freezes) (if freezes then after.freezeArrayLength else after) := by
  cases freezes with
  | false => exact cut
  | true =>
    rw [if_pos rfl, freeze_array_length_of_has cut.length]
    have set := pruned_set_length cut.length ⟨.data (.number length) false, false, false⟩
    exact ⟨pruned_congr (pruned_trans cut.pruned set) fun _ _ => Bool.and_true _, has_length_set ..⟩

/-- What holds of an array under another length holds of the array. -/
theorem cut_of_pruned {length : Number} (pruned : o.Pruned (fun _ => true) base)
    (cut : base.CutTo n length writable after) : o.CutTo n length writable after :=
  ⟨pruned_congr (pruned_trans pruned cut.pruned) fun _ _ => Bool.true_and _, cut.length⟩

theorem define_length_shorter (shortens : o.Shortens key patch requested) (free : o.arrayLength.2 = true) :
    o.define key patch =
      match o.defineOrdinary lengthKey patch.staged with
      | (false, o) => (false, o)
      | (true, begun) =>
        ((begun.dropElements (begun.indicesFrom (requested.clampTo maxWord))).1,
          if patch.writable == some false then
            (begun.dropElements (begun.indicesFrom (requested.clampTo maxWord))).2.freezeArrayLength
          else (begun.dropElements (begun.indicesFrom (requested.clampTo maxWord))).2) := by
  obtain ⟨array, rfl, asked, less⟩ := shortens
  obtain ⟨value, _, _, _, _, _⟩ := patch
  obtain rfl : value = some (.number requested) := asked
  unfold define defineLength PropertyPatch.staged
  rw [if_pos array, if_pos (by simp)]
  dsimp only
  rw [if_neg (Nat.not_le.2 less)]
  exact if_neg (by simp [free])

/-- An array comes to a smaller length exactly if its length permits it and no element stays. If it permits it
and an element stays, the array is cut behind the last one that does. -/
theorem define_shorter {old : Number} (has : o.HasLength old writable false)
    (shortens : o.Shortens key patch requested) :
    (¬o.Permits patch → o.define key patch = (false, o)) ∧
    (∀ m, o.Permits patch → o.Blocks (requested.clampTo maxWord) m → (o.define key patch).1 = false ∧
      o.CutTo (m + 1) (.ofNat (m + 1)) (patch.writable != some false) (o.define key patch).2) ∧
    (o.Permits patch → (∀ m, ¬o.Blocks (requested.clampTo maxWord) m) → (o.define key patch).1 = true ∧
      o.CutTo (requested.clampTo maxWord) requested (patch.writable != some false) (o.define key patch).2) := by
  have length := array_length_of_has has
  by_cases free : o.arrayLength.2 = true
  · obtain rfl : writable = true := by simpa [length] using free
    have stages : patch.staged.Stages patch := stages_of_patch patch
    have asked := stages.value.trans shortens.asked
    have permits : o.Permits patch ↔ (o.defineOrdinary lengthKey patch.staged).1 = true := by
      rw [define_length_accepted_iff has asked, patch.staged_flags.1, patch.staged_flags.2]
      exact ⟨fun permits => ⟨permits.fixed, permits.hidden⟩, fun flags => ⟨free, flags.1, flags.2⟩⟩
    have whole := pruned_define_length has patch.staged
    have replaced := has_length_replaced has asked
    have unchanged := @define_ordinary_refused o lengthKey patch.staged
    rw [permits, define_length_shorter shortens free]
    cases outcome : o.defineOrdinary lengthKey patch.staged with
    | mk accepted begun =>
      rw [outcome] at whole replaced unchanged
      cases accepted with
      | false =>
        rw [show begun = o from unchanged rfl]
        have never : (false, o).1 ≠ true := Bool.false_ne_true
        exact ⟨fun _ => rfl, fun _ accepted => absurd accepted never, fun accepted => absurd accepted never⟩
      | true =>
        have still := replaced rfl
        rw [stages.writable] at still
        have array := is_array_of_kind whole.kind shortens.array
        dsimp only
        refine ⟨fun never => absurd rfl never, fun m _ blocks => ?_, fun _ unblocked => ?_⟩
        · have blocksOn := (blocks_iff_of_pruned shortens.array whole).2 blocks
          obtain ⟨stopped, cut⟩ := cut_blocked array still blocksOn
          exact ⟨stopped, cut_freeze (cut_of_pruned whole cut) _⟩
        · rcases blocks_or_free begun (requested.clampTo maxWord) with ⟨m, blocks⟩ | free
          · exact absurd ((blocks_iff_of_pruned shortens.array whole).1 blocks) (unblocked m)
          · obtain ⟨complete, cut⟩ := cut_free array still free
            exact ⟨complete, cut_freeze (cut_of_pruned whole cut) _⟩
  · have refused : o.define key patch = (false, o) := by
      obtain ⟨array, rfl, asked, less⟩ := shortens
      unfold define defineLength
      rw [if_pos array, if_pos (by simp), asked]
      dsimp only
      rw [if_neg (Nat.not_le.2 less), if_pos (by simpa using free)]
    have never : ¬o.Permits patch := fun permits => free permits.writable
    exact ⟨fun _ => refused, fun _ permits => absurd permits never, fun permits => absurd permits never⟩

/-! ## Any definition -/

theorem define_element_refused {index : Nat} (refused : (o.defineElement index key patch).1 = false) :
    (o.defineElement index key patch).2 = o := by
  unfold defineElement at refused ⊢
  dsimp only at refused ⊢
  split at refused
  · rename_i shut
    rw [if_pos shut]
  · rename_i allowed
    rw [if_neg allowed]
    have unchanged := @define_ordinary_refused o key patch
    cases outcome : o.defineOrdinary key patch with
    | mk accepted defined =>
      rw [outcome] at refused unchanged
      cases accepted with
      | false => exact unchanged rfl
      | true => cases refused

/-- A length that does not become smaller is a property like any other. -/
theorem define_length_not_shorter (array : o.isArray)
    (longer : ¬∃ requested, o.Shortens lengthKey patch requested) :
    o.define lengthKey patch = o.defineOrdinary lengthKey patch := by
  unfold define defineLength
  rw [if_pos array, if_pos (by simp)]
  dsimp only
  split
  · rename_i requested asked
    by_cases covers : o.arrayLength.1 ≤ requested.clampTo maxWord
    · rw [if_pos covers]
    · exact absurd ⟨requested, array, rfl, asked, Nat.lt_of_not_le covers⟩ longer
  · rfl

/-- Only an array that is to become shorter is changed by a definition that is refused. -/
theorem define_refused (refused : (o.define key patch).1 = false) :
    (o.define key patch).2 = o ∨ ∃ requested, o.Shortens key patch requested := by
  by_cases shortens : ∃ requested, o.Shortens key patch requested
  · exact .inr shortens
  · left
    by_cases array : o.isArray
    · by_cases isLength : key = lengthKey
      · subst isLength
        rw [define_length_not_shorter array shortens] at refused ⊢
        exact define_ordinary_refused refused
      · unfold define at refused ⊢
        rw [if_pos array, if_neg (by simpa using isLength)] at refused ⊢
        cases isIndex : arrayIndex? key with
        | some index =>
          rw [isIndex] at refused
          exact define_element_refused refused
        | none =>
          rw [isIndex] at refused
          exact define_ordinary_refused refused
    · unfold define at refused ⊢
      rw [if_neg array] at refused ⊢
      exact define_ordinary_refused refused

/-- A definition that is refused leaves an object as it was, except that an array whose length may be
replaced by the smaller one that is asked for gives up the elements behind the last one that stays: that
becomes its last, and nothing else is changed. A smaller length that is accepted takes exactly the elements
that it does not cover. In both cases the length ends read-only exactly if that is asked for. -/
theorem define_outcome (o : Object) (key : String) (patch : PropertyPatch)
    (formed : o.isArray → o.WellFormedArray maxWord) :
    ((o.define key patch).1 = false → (o.define key patch).2 = o ∨
      ∃ requested m, o.Shortens key patch requested ∧ o.Permits patch ∧
        o.Blocks (requested.clampTo maxWord) m) ∧
    ∀ requested, o.Shortens key patch requested →
      ((o.define key patch).1 = true ↔
        o.Permits patch ∧ ∀ m, ¬o.Blocks (requested.clampTo maxWord) m) ∧
      ((o.define key patch).1 = true →
        o.CutTo (requested.clampTo maxWord) requested (patch.writable != some false) (o.define key patch).2) ∧
      ∀ m, o.Permits patch → o.Blocks (requested.clampTo maxWord) m →
        o.CutTo (m + 1) (.ofNat (m + 1)) (patch.writable != some false) (o.define key patch).2 := by
  have length {requested} (shortens : o.Shortens key patch requested) :
      ∃ n writable, o.HasLength (.ofNat n) writable false := by
    obtain ⟨_, n, _, ⟨writable, has⟩, _⟩ := formed shortens.array
    exact ⟨n, writable, has⟩
  constructor
  · intro refused
    rcases define_refused refused with same | ⟨requested, shortens⟩
    · exact .inl same
    · obtain ⟨_, _, has⟩ := length shortens
      obtain ⟨shut, _, cuts⟩ := define_shorter has shortens
      by_cases permits : o.Permits patch
      · by_cases blocked : ∃ m, o.Blocks (requested.clampTo maxWord) m
        · obtain ⟨m, blocks⟩ := blocked
          exact .inr ⟨requested, m, shortens, permits, blocks⟩
        · have accepted := (cuts permits fun m blocks => blocked ⟨m, blocks⟩).1
          rw [refused] at accepted
          cases accepted
      · exact .inl (congrArg Prod.snd (shut permits))
  · intro requested shortens
    obtain ⟨_, _, has⟩ := length shortens
    obtain ⟨shut, stops, cuts⟩ := define_shorter has shortens
    have ways : (o.define key patch).1 = true →
        o.Permits patch ∧ ∀ m, ¬o.Blocks (requested.clampTo maxWord) m := by
      intro accepted
      have permits : o.Permits patch := by
        by_contra never
        rw [shut never] at accepted
        cases accepted
      refine ⟨permits, fun m blocks => ?_⟩
      rw [(stops m permits blocks).1] at accepted
      cases accepted
    refine ⟨⟨ways, fun way => (cuts way.1 way.2).1⟩, fun accepted => ?_, fun m permits blocks => ?_⟩
    · obtain ⟨permits, unblocked⟩ := ways accepted
      exact (cuts permits unblocked).2
    · exact (stops m permits blocks).2

/-- An array of three elements, the second of which stays. -/
def fixedSecond : Object :=
  ((ofElements ⟨0⟩ [.ofNat 7, .ofNat 8, .ofNat 9]).define (indexKey 1) { configurable := some false }).2

theorem fixed_second_well_formed : fixedSecond.WellFormedArray maxWord :=
  well_formed_define (Nat.le_refl _) (well_formed_of_elements _ (by decide))
    fun isLength => absurd isLength (indexKey_ne_lengthKey 1)

theorem fixed_second_blocks : fixedSecond.Blocks 0 1 := by
  have behind : ∀ key ∈ fixedSecond.ownKeys, (arrayIndex? key).all (· ≤ 1) ∨
      (fixedSecond.getOwn? key).all (·.configurable) := by decide
  apply Blocks.mk (Nat.zero_le 1) ⟨indexKey 1, ⟨.data (.ofNat 8) true, true, false⟩, by decide, by decide, rfl⟩
  intro key index p isIndex above own
  have found := behind key (mem_own_keys own)
  rw [isIndex, own] at found
  simpa [Nat.not_le.2 above] using found

/-- Asked for no elements and a read-only length, the array loses its third element only. -/
theorem define_outcome_fixed_second :
    (fixedSecond.define lengthKey { value := some (.ofNat 0), writable := some false }).1 = false ∧
      fixedSecond.CutTo 2 (.ofNat 2) false
        (fixedSecond.define lengthKey { value := some (.ofNat 0), writable := some false }).2 := by
  obtain ⟨_, shorter⟩ := define_outcome fixedSecond lengthKey
    { value := some (.ofNat 0), writable := some false } fun _ => fixed_second_well_formed
  have shortens : fixedSecond.Shortens lengthKey
      { value := some (.ofNat 0), writable := some false } (.ofNat 0) := by
    constructor <;> decide
  have permits : fixedSecond.Permits { value := some (.ofNat 0), writable := some false } := by
    constructor <;> decide
  have blocks : fixedSecond.Blocks ((Number.ofNat 0).clampTo maxWord) 1 := fixed_second_blocks
  obtain ⟨complete, _, stopped⟩ := shorter _ shortens
  constructor
  · rw [Bool.eq_false_iff]
    exact fun accepted => (complete.1 accepted).2 1 blocks
  · exact stopped 1 permits blocks

end Object
end ScriptEngine
