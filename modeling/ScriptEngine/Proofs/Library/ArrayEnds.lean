import Mathlib.Data.List.Induction
import ScriptEngine.Library.Arrays
import ScriptEngine.Proofs.Evaluation.Writing

/-!
The end of an array. One element more is a property at the index that is the length, behind all others, and a length that
is one more; taking it away again leaves the array that was there. Where nothing can be added, or the last element cannot
be removed, the array stays as it is and an error is thrown.
-/

namespace ScriptEngine

/-! ## Maps -/

namespace OrderedMap

variable {α : Type}

theorem entries_ext {entries other : List (String × α)} (distinct : (entries.map Prod.fst).Nodup)
    (names : entries.map Prod.fst = other.map Prod.fst) (values : ∀ key, lookup key entries = lookup key other) :
    entries = other := by
  induction entries generalizing other with
  | nil => exact (List.map_eq_nil_iff.1 names.symm).symm
  | cons e rest ih =>
    obtain ⟨key, v⟩ := e
    cases other with
    | nil => cases names
    | cons e' rest' =>
      obtain ⟨key', w⟩ := e'
      rw [List.map_cons, List.map_cons, List.cons.injEq] at names
      obtain ⟨same, names⟩ := names
      dsimp only at same
      subst same
      rw [List.map_cons, List.nodup_cons] at distinct
      have first : v = w := by simpa [lookup] using values key
      have later : rest = rest' := by
        apply ih distinct.2 names
        intro name
        by_cases hit : key = name
        · subst hit
          rw [lookup_eq_none.2 distinct.1, lookup_eq_none.2 (names ▸ distinct.1)]
        · simpa [lookup, hit] using values name
      rw [first, later]

/-- A map is known from its names in their order and the values under them. -/
theorem ext_of_find {m other : OrderedMap α} (names : m.keys = other.keys)
    (values : ∀ key, m.find? key = other.find? key) : m = other := by
  obtain ⟨entries, distinct⟩ := m
  obtain ⟨entries', _⟩ := other
  have same : entries = entries' := entries_ext distinct names values
  subst same
  rfl

end OrderedMap

/-! ## Arrays that grow by elements -/

namespace Object

variable {o after : Object} {n k : Nat} {v : Value} {xs : List Value}

/-- An array of a length that may change, with no index from the length on. -/
structure Open (o : Object) (n : Nat) : Prop where
  array : o.isArray
  length : o.HasLength (.ofNat n) true false
  below : o.IndicesBelow n

/-- The array with another length. -/
def resized (o : Object) (n : Nat) : Object :=
  o.set lengthKey ⟨.data (.ofNat n) true, false, false⟩

/-- The array with a value at an index behind all others. -/
def append (o : Object) (n : Nat) (v : Value) : Object :=
  (o.set (indexKey n) (.data v .all)).resized (n + 1)

/-- The array with values at an index and those that follow it. -/
def appendAll (o : Object) (n : Nat) : List Value → Object
  | [] => o
  | v :: rest => (o.append n v).appendAll (n + 1) rest

/-- The names of a number of indices. -/
def indexKeys (n count : Nat) : List String :=
  (List.range' n count).map indexKey

/-- What an array is after values were put behind its elements. -/
structure Appended (o : Object) (n : Nat) (xs : List Value) (after : Object) : Prop where
  kind : after.kind = o.kind
  proto : after.proto = o.proto
  extensible : after.extensible = o.extensible
  keys : after.ownKeys = o.ownKeys ++ indexKeys n xs.length
  elements : ∀ i v, xs[i]? = some v → after.getOwn? (indexKey (n + i)) = some (.data v .all)
  length : after.HasLength (.ofNat (n + xs.length)) true false
  others : ∀ key, key ≠ lengthKey → key ∉ indexKeys n xs.length → after.getOwn? key = o.getOwn? key

theorem own_keys_array (array : o.isArray) : o.ownKeys = o.properties.keys := by
  have units : o.unitKeys = [] := by
    unfold unitKeys
    split
    · next kind => simp [isArray, kind] at array
    · rfl
  unfold ownKeys
  rw [units]
  rfl

theorem Open.lengthKey_mem (isOpen : o.Open n) : lengthKey ∈ o.properties.keys := by
  rw [← OrderedMap.find?_isSome, isOpen.length]
  rfl

theorem Open.not_own (isOpen : o.Open n) (least : n ≤ k) (small : k < maxWord) : o.getOwn? (indexKey k) = none := by
  by_contra there
  have below := isOpen.below _ k (Option.ne_none_iff_isSome.1 there) (array_index_of_index_key small)
  omega

theorem Open.not_mem (isOpen : o.Open n) (least : n ≤ k) (small : k < maxWord) :
    indexKey k ∉ o.properties.keys := by
  have missing := isOpen.not_own least small
  rw [get_own_array isOpen.array] at missing
  rw [← OrderedMap.find?_isSome, missing]
  exact Bool.false_ne_true

theorem find_append (o : Object) (n : Nat) (v : Value) (key : String) : (o.append n v).properties.find? key =
    if lengthKey = key then some ⟨.data (.ofNat (n + 1)) true, false, false⟩
    else if indexKey n = key then some (.data v .all) else o.properties.find? key := by
  rw [append, resized, find_set, find_set]

theorem open_append (isOpen : o.Open n) (v : Value) : (o.append n v).Open (n + 1) where
  array := isOpen.array
  length := (find_append o n v lengthKey).trans (if_pos rfl)
  below := by
    intro key index there isIndex
    have array : (o.append n v).isArray := isOpen.array
    rw [get_own_array array, find_append, if_neg (ne_length_of_index isIndex).symm] at there
    split at there
    · next same =>
      subst same
      rw [array_index_of_key isIndex]
      exact Nat.lt_succ_self n
    · rw [← get_own_array isOpen.array] at there
      exact Nat.lt_succ_of_lt (isOpen.below key index there isIndex)

theorem keys_append (isOpen : o.Open n) (small : n < maxWord) (v : Value) :
    (o.append n v).properties.keys = o.properties.keys ++ [indexKey n] := by
  have added : (o.set (indexKey n) (.data v .all)).properties.keys = o.properties.keys ++ [indexKey n] := by
    rw [set, OrderedMap.keys_insert, if_neg (isOpen.not_mem (Nat.le_refl n) small)]
  have there : lengthKey ∈ (o.set (indexKey n) (.data v .all)).properties.keys := by
    rw [added]
    exact List.mem_append_left _ isOpen.lengthKey_mem
  rw [append, resized, set, OrderedMap.keys_insert, if_pos there, added]

theorem appended_one (isOpen : o.Open n) (small : n < maxWord) (v : Value) : o.Appended n [v] (o.append n v) where
  kind := rfl
  proto := rfl
  extensible := rfl
  keys := by
    have array : (o.append n v).isArray := isOpen.array
    rw [own_keys_array array, own_keys_array isOpen.array, keys_append isOpen small]
    rfl
  elements := by
    intro i w there
    have array : (o.append n v).isArray := isOpen.array
    obtain ⟨rfl, rfl⟩ : i = 0 ∧ v = w := by
      cases i with
      | zero => exact ⟨rfl, by simpa using there⟩
      | succ i => simp at there
    rw [Nat.add_zero, get_own_array array, find_append, if_neg (indexKey_ne_lengthKey _).symm, if_pos rfl]
  length := (find_append o n v lengthKey).trans (if_pos rfl)
  others := by
    intro key notLength notIndex
    have array : (o.append n v).isArray := isOpen.array
    have other : indexKey n ≠ key := by
      rintro rfl
      exact notIndex (List.mem_singleton.2 rfl)
    rw [get_own_array array, get_own_array isOpen.array, find_append, if_neg notLength.symm, if_neg other]

theorem Appended.trans {between : Object} {ys : List Value} (early : o.Appended n xs between)
    (late : between.Appended (n + xs.length) ys after) : o.Appended n (xs ++ ys) after where
  kind := late.kind.trans early.kind
  proto := late.proto.trans early.proto
  extensible := late.extensible.trans early.extensible
  keys := by
    rw [late.keys, early.keys, List.append_assoc, List.length_append, indexKeys, indexKeys, indexKeys,
      ← List.map_append, List.range'_append_1]
  elements := by
    intro i v there
    rcases Nat.lt_or_ge i xs.length with inside | beyond
    · rw [List.getElem?_append_left inside] at there
      have apart : indexKey (n + i) ∉ indexKeys (n + xs.length) ys.length := by
        intro mem
        obtain ⟨j, range, same⟩ := List.mem_map.1 mem
        have := (List.mem_range'_1.1 range).1
        have := indexKey_inj.1 same
        omega
      rw [late.others _ (indexKey_ne_lengthKey _) apart]
      exact early.elements i v there
    · rw [List.getElem?_append_right beyond] at there
      have place : n + i = n + xs.length + (i - xs.length) := by omega
      rw [place]
      exact late.elements _ v there
  length := by
    rw [List.length_append, ← Nat.add_assoc]
    exact late.length
  others := by
    intro key notLength notIndex
    have parts : indexKeys n (xs ++ ys).length = indexKeys n xs.length ++ indexKeys (n + xs.length) ys.length := by
      rw [List.length_append, indexKeys, indexKeys, indexKeys, ← List.map_append, List.range'_append_1]
    rw [parts, List.mem_append, not_or] at notIndex
    rw [late.others key notLength notIndex.2, early.others key notLength notIndex.1]

theorem open_append_all (isOpen : o.Open n) (xs : List Value) : (o.appendAll n xs).Open (n + xs.length) := by
  induction xs generalizing o n with
  | nil => exact isOpen
  | cons v rest ih =>
    have later := ih (open_append isOpen v)
    rw [Nat.add_assoc, Nat.add_comm 1] at later
    exact later

theorem append_all_concat (o : Object) (n : Nat) (xs : List Value) (v : Value) :
    o.appendAll n (xs ++ [v]) = (o.appendAll n xs).append (n + xs.length) v := by
  induction xs generalizing o n with
  | nil => rfl
  | cons x rest ih =>
    rw [List.cons_append, appendAll, ih, appendAll, List.length_cons, Nat.add_assoc, Nat.add_comm 1]

theorem appended_all (isOpen : o.Open n) (small : n + xs.length ≤ maxWord) : o.Appended n xs (o.appendAll n xs) := by
  induction xs generalizing o n with
  | nil =>
    exact ⟨rfl, rfl, rfl, (List.append_nil _).symm, fun i v there => by simp at there, isOpen.length,
      fun _ _ _ => rfl⟩
  | cons v rest ih =>
    rw [List.length_cons] at small
    have first := appended_one isOpen (by omega) v
    have later := ih (open_append isOpen v) (by omega)
    exact first.trans later

/-! ## Definitions of the length -/

/-- A length that covers all indices is defined as it is. -/
theorem define_covering_length (array : o.isArray) (has : o.HasLength (.ofNat n) true false) (small : k ≤ maxWord)
    (below : o.IndicesBelow k) : o.define lengthKey (.ofValue (.ofNat k)) = (true, o.resized k) := by
  have own := get_own_of_find has
  have accepts : o.AcceptsWrite lengthKey := by
    unfold AcceptsWrite
    rw [own]
    exact ⟨_, rfl⟩
  have ordinary : o.defineOrdinary lengthKey (.ofValue (.ofNat k)) = (true, o.resized k) := by
    have done := write_ordinary accepts (.ofNat k)
    rw [writing, written, own] at done
    exact done
  have clamped : (Number.ofNat k).clampTo maxWord = k := by
    rw [Number.clampTo_ofNat (by decide)]
    exact Nat.min_eq_left small
  have nothing : (o.resized k).indicesFrom k = [] := by
    rw [List.eq_nil_iff_forall_not_mem]
    rintro ⟨index, key⟩ listed
    obtain ⟨there, isIndex, beyond⟩ := mem_indices_from.1 listed
    have same : (o.resized k).isArray := array
    rw [← OrderedMap.find?_isSome, ← get_own_array same, resized, get_own_set,
      if_neg (ne_length_of_index isIndex).symm] at there
    exact Nat.not_lt.2 beyond (below key index there isIndex)
  have cut : (o.resized k).dropElements ((o.resized k).indicesFrom k) = (true, o.resized k) := by
    rw [nothing]
    rfl
  unfold define defineLength
  rw [if_pos array, if_pos (beq_self_eq_true _), array_length_of_has has]
  simp only [PropertyPatch.ofValue, Value.ofNat, clamped]
  split
  · exact ordinary
  · simp only [PropertyPatch.ofValue, Value.ofNat] at ordinary
    simp [ordinary, cut]

theorem resized_self (has : o.HasLength (.ofNat n) true false) : o.resized n = o := by
  exact set_same has

/-! ## The last element -/

/-- The last element is removed. -/
theorem delete_appended (isOpen : o.Open n) (v : Value) : (o.append n v).delete (indexKey n) =
    (true, { o.append n v with properties := (o.append n v).properties.erase (indexKey n) }) := by
  have array : (o.append n v).isArray := isOpen.array
  unfold delete
  rw [get_own_array array, find_append, if_neg (indexKey_ne_lengthKey n).symm, if_pos rfl]
  rfl

/-- Without its last element and with the length from before the array is what it was. -/
theorem resized_erased (isOpen : o.Open n) (small : n < maxWord) (v : Value) :
    ({ o.append n v with properties := (o.append n v).properties.erase (indexKey n) } : Object).resized n = o := by
  have keys := keys_append isOpen small v
  have missing := isOpen.not_mem (Nat.le_refl n) small
  have erased : ((o.append n v).properties.erase (indexKey n)).keys = o.properties.keys := by
    rw [OrderedMap.keys_erase, keys, List.erase_append_right _ missing, List.erase_cons_head, List.append_nil]
  have properties : ((o.append n v).properties.erase (indexKey n)).insert lengthKey
      ⟨.data (.ofNat n) true, false, false⟩ = o.properties := by
    apply OrderedMap.ext_of_find
    · rw [OrderedMap.keys_insert, if_pos (erased ▸ isOpen.lengthKey_mem), erased]
    · intro key
      rw [OrderedMap.find?_insert, OrderedMap.find?_erase, find_append]
      split
      · next same =>
        subst same
        exact isOpen.length.symm
      · split
        · next same =>
          subst same
          have none := isOpen.not_own (Nat.le_refl n) small
          rw [get_own_array isOpen.array] at none
          exact none.symm
        · rfl
  obtain ⟨kind, proto, extensible, own⟩ := o
  exact congrArg (Object.mk kind proto extensible) properties

end Object

/-! ## Inheritance -/

namespace Heap

variable {h : Heap} {id : ObjectId} {o : Object} {key : String}

/-- Where nothing is found a write is permitted if a property can be added. -/
theorem can_put_of_nothing (nothing : h.found? id key = none) : h.canPut id key = (h.get id).extensible := by
  unfold found? at nothing
  unfold canPut
  dsimp only
  cases own : (h.get id).getOwn? key with
  | some p =>
    rw [own] at nothing
    cases nothing
  | none =>
    rw [own] at nothing
    cases proto : (h.get id).proto with
    | none => rfl
    | some above =>
      rw [proto] at nothing
      dsimp only at nothing ⊢
      rw [nothing]
      rfl

/-- What is inherited does not change with an object that has the same property as before, or as before none. -/
theorem find_from_set (same : o.getOwn? key = (h.get id).getOwn? key) (proto : o.proto = (h.get id).proto)
    (fuel : Nat) (start : Option ObjectId) : (h.set id o).findFrom? key fuel start = h.findFrom? key fuel start := by
  induction fuel generalizing start with
  | zero => rfl
  | succ fuel ih =>
    cases start with
    | none => rfl
    | some other =>
      unfold findFrom?
      have alike : ((h.set id o).get other).getOwn? key = (h.get other).getOwn? key ∧
          ((h.set id o).get other).proto = (h.get other).proto := by
        by_cases here : id = other
        · subst here
          by_cases there : id.index < h.objects.size
          · rw [get_set_self o there]
            exact ⟨same, proto⟩
          · have nothing : h.set id o = h := by
              obtain ⟨objects⟩ := h
              exact congrArg Heap.mk (Array.setIfInBounds_eq_of_size_le (Nat.not_lt.1 there))
            rw [nothing]
            exact ⟨rfl, rfl⟩
        · rw [get_set_of_ne o here]
          exact ⟨rfl, rfl⟩
      simp only [alike.1, alike.2, ih]

theorem find_set (same : o.getOwn? key = (h.get id).getOwn? key) (proto : o.proto = (h.get id).proto)
    (start : Option ObjectId) : (h.set id o).find? start key = h.find? start key := by
  rw [find?, find?, size_set, find_from_set same proto]

end Heap

/-! ## Runs -/

namespace Machine

variable {m : Machine} (engine : Engine) {id : ObjectId} {n k : Nat} {v : Value} {xs : List Value}
  {writable enumerable : Bool}

theorem there_of_array (array : (m.heap.get id).isArray) : id.index < m.heap.objects.size := by
  by_contra outside
  have nothing : m.heap.get id = default := by
    simp [Heap.get, Array.getD_eq_getD_getElem?, Nat.not_lt.1 outside]
  rw [nothing] at array
  cases array

/-- The length of an array is read. -/
theorem run_length_of (has : (m.heap.get id).HasLength (.ofNat n) writable enumerable) (small : n ≤ Object.maxWord) :
    m.run (Library.lengthOf engine id) = (.ok n, m) := by
  have word : (Number.ofNat n).toUint32.toNat = n := Number.toUint32_ofNat small
  have ran : m.run (toUint32 engine (.ofNat n)) = (.ok (Number.ofNat n).toUint32, m) := rfl
  have read : m.run (getProperty engine id Object.lengthKey) = (.ok (.ofNat n), m) :=
    run_get_own engine (Object.get_own_of_find has) rfl
  rw [Library.lengthOf, run_bind_ok read, run_bind_ok ran, word]
  rfl

/-- A length that covers all indices is set. -/
theorem run_set_length (array : (m.heap.get id).isArray) (has : (m.heap.get id).HasLength (.ofNat n) true false)
    (small : k ≤ Object.maxWord) (below : (m.heap.get id).IndicesBelow k) :
    m.run (Library.setLength engine id k) = (.ok (), m.withObject id ((m.heap.get id).resized k)) := by
  have own := Object.get_own_of_find has
  have data : ∀ p, m.heap.found? id Object.lengthKey = some p → p.isData := by
    intro p found
    rw [Heap.found?, own] at found
    cases found
    rfl
  have permitted : m.heap.canPut id Object.lengthKey = true := by
    unfold Heap.canPut
    dsimp only
    rw [own]
    rfl
  have writing : (m.heap.get id).writing Object.lengthKey (.ofNat k) = .ofValue (.ofNat k) := by
    unfold Object.writing
    rw [own]
    rfl
  have word : Number.ofUint32 (Number.ofNat k).toUint32 = .ofNat k := by
    rw [Number.ofUint32, Number.toUint32_ofNat small]
  have valid := Number.eq_ofNat small
  have given : (PropertyPatch.ofValue (.ofNat k)).value = some (.ofNat k) := rfl
  have number : m.run (toNumber engine (.ofNat k)) = (.ok (.ofNat k), m) := rfl
  have checked : ((m.heap.get id).isArray && Object.lengthKey == Object.lengthKey) = true := by
    rw [array, beq_self_eq_true]
    rfl
  rw [Library.setLength, run_put_property data, if_pos permitted, writing, run_discard, defineProperty,
    run_bind_ok (run_ask ..), if_pos checked, check_length_bind, given]
  dsimp only
  rw [run_bind_ok number, word, if_pos valid, run_bind_ok (run_update_object ..)]
  have defined := Object.define_covering_length array has small below
  simp only [PropertyPatch.ofValue, Value.ofNat] at defined
  simp only [PropertyPatch.ofValue, defined]
  rfl

/-- Nothing is inherited under an index from a number on. -/
def InheritsNone (m : Machine) (id : ObjectId) (n : Nat) : Prop :=
  ∀ i, n ≤ i → i < Object.maxWord → m.heap.find? (m.heap.get id).proto (indexKey i) = none

theorem found_of_inherits_none (isOpen : (m.heap.get id).Open n) (alone : m.InheritsNone id n) (small : n < Object.maxWord) :
    m.heap.found? id (indexKey n) = none := by
  rw [Heap.found?, isOpen.not_own (Nat.le_refl n) small]
  exact alone n (Nat.le_refl n) small

/-- A value is put at the index that is the length. -/
theorem run_put_next (isOpen : (m.heap.get id).Open n) (alone : m.InheritsNone id n) (small : n < Object.maxWord)
    (extensible : (m.heap.get id).extensible = true) (v : Value) :
    m.run (putProperty engine id (indexKey n) v true) = (.ok (), m.withObject id ((m.heap.get id).append n v)) := by
  have isIndex := array_index_of_index_key small
  have missing := isOpen.not_own (Nat.le_refl n) small
  have nothing := found_of_inherits_none isOpen alone small
  have data : ∀ p, m.heap.found? id (indexKey n) = some p → p.isData := by
    intro p found
    cases nothing.symm.trans found
  have permitted : m.heap.canPut id (indexKey n) = true := (Heap.can_put_of_nothing nothing).trans extensible
  have length := Object.array_length_of_nat isOpen.length
  have other : (m.heap.get id).isArray → indexKey n ≠ Object.lengthKey := fun _ => indexKey_ne_lengthKey n
  have room : (m.heap.get id).HasRoom (indexKey n) := by
    intro _ _ _ _
    rw [length]
  have written : (m.heap.get id).write (indexKey n) v = (true, (m.heap.get id).append n v) := by
    have value : (m.heap.get id).written (indexKey n) v = .data v .all := by
      rw [Object.written, missing]
    rcases Object.write_accepted (Heap.accepts_of_can_put data permitted) room other v with
      ⟨_, inside⟩ | ⟨index, _, same, _, ends⟩
    · have less := inside n isOpen.array isIndex
      rw [length] at less
      exact absurd (Nat.lt_of_lt_of_le less (Nat.min_le_left ..)) (Nat.lt_irrefl n)
    · cases isIndex.symm.trans same
      have still : ((m.heap.get id).set (indexKey n) (.data v .all)).HasLength (.ofNat n) true false :=
        Object.has_length_of_find (by rw [Object.find_set, if_neg (indexKey_ne_lengthKey n)]) isOpen.length
      rw [ends, value, Object.set_array_length_of_has still]
      rfl
  rw [run_permitted data other permitted, written]
  rfl

theorem inherits_none_append (there : id.index < m.heap.objects.size) (alone : m.InheritsNone id n) (v : Value)
    (array : (m.heap.get id).isArray) : (m.withObject id ((m.heap.get id).append n v)).InheritsNone id (n + 1) := by
  intro i above small
  have same : ((m.heap.get id).append n v).getOwn? (indexKey i) = (m.heap.get id).getOwn? (indexKey i) := by
    have array' : ((m.heap.get id).append n v).isArray := array
    have other : indexKey n ≠ indexKey i := fun same => by
      have := indexKey_inj.1 same
      omega
    rw [Object.get_own_array array', Object.get_own_array array, Object.find_append,
      if_neg (indexKey_ne_lengthKey i).symm, if_neg other]
  rw [withObject, Heap.get_set_self _ there]
  rw [Heap.find_set same rfl]
  exact alone i (by omega) small

/-- Values are put one behind the other. -/
theorem run_put_elements (isOpen : (m.heap.get id).Open n) (alone : m.InheritsNone id n)
    (small : n + xs.length ≤ Object.maxWord) (extensible : (m.heap.get id).extensible = true) :
    m.run (Library.putElements engine id n xs) =
      (.ok (n + xs.length), m.withObject id ((m.heap.get id).appendAll n xs)) := by
  have there := there_of_array isOpen.array
  induction xs generalizing m n with
  | nil =>
    rw [Object.appendAll, with_object_self]
    rfl
  | cons v rest ih =>
    rw [List.length_cons] at small
    have here := run_put_next engine isOpen alone (by omega) extensible v
    have get : (m.withObject id ((m.heap.get id).append n v)).heap.get id = (m.heap.get id).append n v :=
      Heap.get_set_self _ there
    have still : id.index < (m.withObject id ((m.heap.get id).append n v)).heap.objects.size := by
      rw [withObject, Heap.size_set]
      exact there
    have isOpen' : ((m.withObject id ((m.heap.get id).append n v)).heap.get id).Open (n + 1) := by
      rw [get]
      exact Object.open_append isOpen v
    have extensible' : ((m.withObject id ((m.heap.get id).append n v)).heap.get id).extensible = true := by
      rw [get]
      exact extensible
    have later := ih isOpen' (inherits_none_append there alone v isOpen.array) (by omega) extensible' still
    rw [Library.putElements, run_bind_ok here, later, get, with_object_twice, Object.appendAll, List.length_cons,
      Nat.add_assoc, Nat.add_comm 1]

/-- Values are added at the end. -/
theorem run_push (isOpen : (m.heap.get id).Open n) (alone : m.InheritsNone id n)
    (small : n + xs.length ≤ Object.maxWord) (extensible : (m.heap.get id).extensible = true) :
    m.run (Library.push engine (.object id) xs) =
      (.ok (.ofNat (n + xs.length)), m.withObject id ((m.heap.get id).appendAll n xs)) := by
  have there := there_of_array isOpen.array
  have counted := run_length_of engine isOpen.length (by omega)
  have put := run_put_elements engine isOpen alone small extensible
  have full := Object.open_append_all isOpen xs
  have get : (m.withObject id ((m.heap.get id).appendAll n xs)).heap.get id = (m.heap.get id).appendAll n xs :=
    Heap.get_set_self _ there
  have settled : (m.withObject id ((m.heap.get id).appendAll n xs)).run (Library.setLength engine id (n + xs.length)) =
      (.ok (), m.withObject id ((m.heap.get id).appendAll n xs)) := by
    rw [← get] at full
    rw [run_set_length engine full.array full.length small full.below, Object.resized_self full.length, with_object_self]
  have taken : m.run (toObject (.object id)) = (.ok id, m) := rfl
  rw [Library.push, run_bind_ok taken, run_bind_ok counted, run_bind_ok put, run_bind_ok settled]
  rfl

/-- The last element is taken away, and the array is what it was before. -/
theorem run_pop {o : Object} (there : id.index < m.heap.objects.size) (get : m.heap.get id = o.append n v)
    (isOpen : o.Open n) (small : n < Object.maxWord) :
    m.run (Library.pop engine (.object id)) = (.ok v, m.withObject id o) := by
  have longer := Object.open_append isOpen v
  have own : (m.heap.get id).getOwn? (indexKey n) = some (.data v .all) := by
    have last := (Object.appended_one isOpen small v).elements 0 v rfl
    rwa [← get] at last
  rw [← get] at longer
  have counted := run_length_of engine longer.length small
  have read := run_get_own engine own rfl
  let erased : Object := { o.append n v with properties := (o.append n v).properties.erase (indexKey n) }
  have removed : m.run (discard (deleteProperty id (indexKey n) true)) = (.ok (), m.withObject id erased) := by
    have deleted := Object.delete_appended isOpen v
    rw [run_discard, deleteProperty, run_bind_ok (run_update_object ..), get, deleted]
    rfl
  have placed : (m.withObject id erased).heap.get id = erased := Heap.get_set_self _ there
  have resized : (m.withObject id erased).run (Library.setLength engine id n) = (.ok (), m.withObject id o) := by
    have array : erased.isArray := isOpen.array
    have has : erased.HasLength (.ofNat (n + 1)) true false := by
      have length := (Object.open_append isOpen v).length
      rw [Object.HasLength, OrderedMap.find?_erase, if_neg (indexKey_ne_lengthKey n)]
      exact length
    have below : erased.IndicesBelow n := by
      intro key index found isIndex
      rw [Object.get_own_array array, OrderedMap.find?_erase] at found
      split at found
      · cases found
      · next other =>
        rw [Object.find_append, if_neg (Object.ne_length_of_index isIndex).symm, if_neg other,
          ← Object.get_own_array isOpen.array] at found
        exact isOpen.below key index found isIndex
    rw [← placed] at array has below
    rw [run_set_length engine array has small.le below, placed, with_object_twice]
    exact congrArg (fun o => (Except.ok (), m.withObject id o)) (Object.resized_erased isOpen small v)
  have taken : m.run (toObject (.object id)) = (.ok id, m) := rfl
  rw [Library.pop, run_bind_ok taken, run_bind_ok counted]
  dsimp only
  rw [run_bind_ok read, run_bind_ok removed, run_bind_ok resized]
  rfl

end Machine

/-- Elements are taken away one after the other. -/
def popAll (engine : Engine) (this : Value) : Nat → Eval (List Value)
  | 0 => return []
  | count + 1 => do
    let v ← Library.pop engine this
    return v :: (← popAll engine this count)

namespace Machine

variable {m : Machine} (engine : Engine) {id : ObjectId} {n : Nat} {xs : List Value}

/-- What was added is taken away from its end on. -/
theorem run_pop_all (isOpen : (m.heap.get id).Open n) (small : n + xs.length ≤ Object.maxWord) :
    (m.withObject id ((m.heap.get id).appendAll n xs)).run (popAll engine (.object id) xs.length) =
      (.ok xs.reverse, m) := by
  have there := there_of_array isOpen.array
  induction xs using List.reverseRecOn with
  | nil =>
    rw [Object.appendAll, with_object_self]
    rfl
  | append_singleton front v ih =>
    rw [List.length_append, List.length_singleton] at small ⊢
    have full := Object.open_append_all isOpen front
    have grown := Object.append_all_concat (m.heap.get id) n front v
    have still : id.index < (m.withObject id ((m.heap.get id).appendAll n (front ++ [v]))).heap.objects.size := by
      rw [withObject, Heap.size_set]
      exact there
    have get : (m.withObject id ((m.heap.get id).appendAll n (front ++ [v]))).heap.get id =
        ((m.heap.get id).appendAll n front).append (n + front.length) v :=
      (Heap.get_set_self _ there).trans grown
    have popped := run_pop engine still get full (by omega)
    rw [with_object_twice] at popped
    rw [popAll, run_bind_ok popped, run_bind_ok (ih (by omega)), List.reverse_append]
    rfl

/-! ## Errors -/

/-- What an error leaves: it is one of a type, and no object that was there is changed. -/
structure Refuses (m : Machine) (action : Eval Value) : Prop where
  fails : ∃ fault : Fault, fault.kind = .type ∧ m.run action = m.run (throwFault fault)
  unchanged : ∀ any : ObjectId, any.index < m.heap.objects.size → (m.run action).2.heap.get any = m.heap.get any

theorem refuses_of_fault {action : Eval Value} {fault : Fault} (kind : fault.kind = .type)
    (ends : m.run action = m.run (throwFault fault)) : m.Refuses action where
  fails := ⟨fault, kind, ends⟩
  unchanged any there := by
    rw [ends]
    exact get_after_fault m fault there

/-- Nothing is added to an array that is not extensible or of which the length may not change. -/
theorem push_refused (formed : (m.heap.get id).WellFormedArray Object.maxWord)
    (length : (m.heap.get id).arrayLength.1 = n) (alone : m.InheritsNone id n) (some : xs ≠ [])
    (small : n + xs.length ≤ Object.maxWord)
    (fixed : (m.heap.get id).extensible = false ∨ (m.heap.get id).arrayLength.2 = false) :
    m.Refuses (Library.push engine (.object id) xs) := by
  obtain ⟨array, k, within, ⟨writable, has⟩, below⟩ := formed
  have known := Object.array_length_of_nat has
  obtain rfl : k = n := by
    rw [known] at length
    exact (Nat.min_eq_left within).symm.trans length
  obtain ⟨v, rest, rfl⟩ := List.exists_cons_of_ne_nil some
  rw [List.length_cons] at small
  have inside : k < Object.maxWord := by omega
  have isIndex := array_index_of_index_key inside
  have missing : (m.heap.get id).getOwn? (indexKey k) = none := by
    by_contra there
    exact Nat.lt_irrefl k (below _ k (Option.ne_none_iff_isSome.1 there) isIndex)
  have nothing : m.heap.found? id (indexKey k) = none := by
    rw [Heap.found?, missing]
    exact alone k (Nat.le_refl k) (by omega)
  have data : ∀ p, m.heap.found? id (indexKey k) = Option.some p → p.isData := by
    intro p found
    cases nothing.symm.trans found
  have refused : ¬ m.heap.AllowsPut id (indexKey k) := by
    rintro ⟨permitted, room⟩
    rw [Heap.can_put_of_nothing nothing] at permitted
    obtain closed | fixed := fixed
    · cases closed.symm.trans permitted
    · cases fixed.symm.trans (room array k isIndex length.le)
  obtain ⟨-, fault, kind, thrown⟩ := @run_put_refused m engine id (indexKey k) v data
    (fun _ => indexKey_ne_lengthKey k) refused
  have counted := run_length_of engine has within
  have taken : m.run (toObject (.object id)) = (.ok id, m) := rfl
  apply refuses_of_fault kind
  rw [Library.push, run_bind_ok taken, run_bind_ok counted, run_bind, Library.putElements, run_bind, thrown]
  rfl

/-- An element that cannot be removed stays. -/
theorem pop_refused {last : Nat} {p : Property} (formed : (m.heap.get id).WellFormedArray Object.maxWord)
    (length : (m.heap.get id).arrayLength.1 = last + 1) (own : (m.heap.get id).getOwn? (indexKey last) = some p)
    (data : p.isData) (fixed : p.configurable = false) : m.Refuses (Library.pop engine (.object id)) := by
  obtain ⟨array, k, within, ⟨writable, has⟩, below⟩ := formed
  obtain rfl : k = last + 1 := by
    rw [Object.array_length_of_nat has] at length
    exact (Nat.min_eq_left within).symm.trans length
  have counted := run_length_of engine has within
  obtain ⟨v, writable, kind⟩ : ∃ v writable, p.kind = .data v writable := by
    unfold Property.isData at data
    split at data
    · next v writable kind => exact ⟨v, writable, kind⟩
    · cases data
  have read := run_get_own engine own kind
  have refused : (m.heap.get id).delete (indexKey last) = (false, m.heap.get id) := by
    unfold Object.delete
    rw [own]
    simp [fixed]
  have removed : m.run (discard (deleteProperty id (indexKey last) true)) =
      m.run (throwFault (.undeletable (indexKey last))) := by
    rw [run_discard, deleteProperty, run_bind_ok (run_update_object ..), refused, Heap.set_get_self]
    rfl
  have taken : m.run (toObject (.object id)) = (.ok id, m) := rfl
  have kindOf : (Fault.undeletable (indexKey last)).kind = .type := rfl
  apply refuses_of_fault kindOf
  rw [Library.pop, run_bind_ok taken, run_bind_ok counted]
  dsimp only
  rw [run_bind_ok read, run_bind, removed]
  rfl

/-- Values that are added at the end of an array are its last elements, in their order, and nothing else is changed but the
length; as many are then taken away again, last first, and the machine is the one from before. Where there is something
to add and nothing can be added, and where the last element cannot be removed, that is an error, and no object that is
there changes. -/
theorem push_and_pop (engine : Engine) (formed : (m.heap.get id).WellFormedArray Object.maxWord)
    (plain : ∀ key index, arrayIndex? key = some index → m.heap.find? (m.heap.get id).proto key = none)
    (length : (m.heap.get id).arrayLength.1 = n) (small : n + xs.length ≤ Object.maxWord) :
    ((m.heap.get id).extensible = true → (m.heap.get id).arrayLength.2 = true → ∃ o,
      (m.heap.get id).Appended n xs o ∧
      m.run (Library.push engine (.object id) xs) = (.ok (.ofNat (n + xs.length)), m.withObject id o) ∧
      (m.withObject id o).heap.get id = o ∧
      (∀ other ≠ id, (m.withObject id o).heap.get other = m.heap.get other) ∧
      (m.withObject id o).run (popAll engine (.object id) xs.length) = (.ok xs.reverse, m)) ∧
    (xs ≠ [] → (m.heap.get id).extensible = false ∨ (m.heap.get id).arrayLength.2 = false →
      m.Refuses (Library.push engine (.object id) xs)) ∧
    (∀ last p, n = last + 1 → (m.heap.get id).getOwn? (indexKey last) = some p → p.isData →
      p.configurable = false → m.Refuses (Library.pop engine (.object id))) := by
  have alone : m.InheritsNone id n := fun i _ inside => plain _ i (array_index_of_index_key inside)
  constructor
  · intro extensible free
    obtain ⟨array, k, within, ⟨writable, has⟩, below⟩ := formed
    have known := Object.array_length_of_nat has
    obtain rfl : k = n := by
      rw [known] at length
      exact (Nat.min_eq_left within).symm.trans length
    obtain rfl : writable = true := by
      rw [known] at free
      exact free
    have isOpen : (m.heap.get id).Open k := ⟨array, has, below⟩
    have there := there_of_array array
    exact ⟨_, Object.appended_all isOpen small, run_push engine isOpen alone small extensible, Heap.get_set_self _ there,
      fun other apart => Heap.get_set_of_ne _ apart.symm, run_pop_all engine isOpen small⟩
  constructor
  · intro some fixed
    exact push_refused engine formed length alone some small fixed
  · rintro last p rfl own data fixed
    exact pop_refused engine formed length own data fixed

end Machine

/-- Two values are added to the first array of a new engine, and taken away again. -/
theorem first_array_pushed :
    ((Machine.bare {}).heap.get Intrinsics.first.arrayPrototype).WellFormedArray Object.maxWord ∧
    (∀ key index, arrayIndex? key = some index →
      (Machine.bare {}).heap.find? ((Machine.bare {}).heap.get Intrinsics.first.arrayPrototype).proto key = none) ∧
    ∃ after, (Machine.bare {}).run (Library.push (engineAt 0) (.object Intrinsics.first.arrayPrototype)
        [.null, .boolean true]) = (.ok (.ofNat 2), after) ∧
      after.run (popAll (engineAt 0) (.object Intrinsics.first.arrayPrototype) 2) =
        (.ok [.boolean true, .null], .bare {}) := by
  have plain : ∀ key index, arrayIndex? key = some index →
      (Machine.bare {}).heap.find? ((Machine.bare {}).heap.get Intrinsics.first.arrayPrototype).proto key = none :=
    fun _ _ _ => rfl
  obtain ⟨grows, -, -⟩ := @Machine.push_and_pop _ _ 0 [.null, .boolean true] (engineAt 0)
    first_array_well_formed plain rfl (by decide)
  obtain ⟨o, -, pushed, -, -, popped⟩ := grows rfl rfl
  exact ⟨first_array_well_formed, plain, _, pushed, popped⟩

end ScriptEngine
