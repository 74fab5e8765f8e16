import Mathlib.Logic.Function.Basic
import ScriptEngine.Proofs.Inheritance.Finite
import ScriptEngine.Proofs.Isolation.Library
import ScriptEngine.Proofs.Library.ArrayEnds
import ScriptEngine.Proofs.Number.Places

/-!
Arrays made from the elements of another one. Where the other has nothing at an index, by itself or by inheritance,
nothing is put into the new one, so holes stay holes, also at the end, where only the length tells of them. A function
that is called for the elements is called for those alone, in their order.
-/

namespace ScriptEngine

open Refers (Only)

namespace Object

variable {o : Object} {proto : ObjectId} {n k : Nat} {f : Nat → Option Value} {v : Value}

/-- The value at an index, if there is one that the object owns. -/
def element? (o : Object) (i : Nat) : Option Value :=
  match (o.getOwn? (indexKey i)).map Property.kind with
  | some (.data v _) => some v
  | _ => none

/-- What is owned at indices are values. -/
def DataElements (o : Object) : Prop :=
  ∀ key index p, arrayIndex? key = some index → o.getOwn? key = some p → p.isData

/-- An array as a literal makes it, with values at some of the indices and nothing else but its length. -/
structure Sparse (o : Object) (proto : ObjectId) (n : Nat) (f : Nat → Option Value) : Prop where
  array : o.isArray
  proto : o.proto = some proto
  extensible : o.extensible = true
  small : n ≤ maxWord
  length : o.HasLength (.ofNat n) true false
  elements : ∀ i, i < maxWord → o.getOwn? (indexKey i) = (f i).map (.data · .all)
  others : ∀ key, (o.getOwn? key).isSome → key = lengthKey ∨ ∃ i, i < n ∧ key = indexKey i

/-- The elements from one on, up to some number. -/
def window (o : Object) (first count : Nat) : Nat → Option Value :=
  fun i => if i < count then o.element? (first + i) else none

/-- The indices below a number at which there is an element, in their order. -/
def present (o : Object) (n : Nat) : List Nat :=
  (List.range n).filter fun i => (o.element? i).isSome

theorem window_none (o : Object) (first count : Nat) : o.window first count count = none :=
  if_neg (Nat.lt_irrefl count)

theorem window_succ (o : Object) (first count : Nat) :
    o.window first (count + 1) = Function.update (o.window first count) count (o.element? (first + count)) := by
  funext i
  rw [Function.update_apply, window, window]
  by_cases last : i = count
  · subst last
    rw [if_pos rfl, if_pos (Nat.lt_succ_self i)]
  · have same : i < count + 1 ↔ i < count := by omega
    rw [if_neg last, if_congr same rfl rfl]

/-- At an index there is nothing, or a value. -/
theorem element_cases (data : o.DataElements) (small : k < maxWord) :
    o.getOwn? (indexKey k) = none ∧ o.element? k = none ∨
      ∃ v p writable, o.getOwn? (indexKey k) = some p ∧ p.kind = .data v writable ∧ o.element? k = some v := by
  cases own : o.getOwn? (indexKey k) with
  | none =>
    left
    exact ⟨rfl, by rw [element?, own]; rfl⟩
  | some p =>
    right
    have isData := data _ k p (array_index_of_index_key small) own
    unfold Property.isData at isData
    split at isData
    · next v writable kind => exact ⟨v, p, writable, rfl, kind, by simp [element?, own, kind]⟩
    · cases isData

theorem Sparse.element_eq (sparse : o.Sparse proto n f) (small : k < maxWord) : o.element? k = f k := by
  rw [element?, sparse.elements k small]
  cases f k <;> rfl

theorem Sparse.beyond (sparse : o.Sparse proto n f) (least : n ≤ k) (small : k < maxWord) : f k = none := by
  by_contra some
  have there : (o.getOwn? (indexKey k)).isSome := by
    rw [sparse.elements k small, Option.isSome_map]
    exact Option.isSome_iff_ne_none.2 some
  obtain isLength | ⟨i, inside, same⟩ := sparse.others _ there
  · exact indexKey_ne_lengthKey k isLength
  · have := indexKey_inj.1 same
    omega

theorem Sparse.below (sparse : o.Sparse proto n f) (covers : ∀ i, k ≤ i → i < maxWord → f i = none) :
    o.IndicesBelow k := by
  intro key index there isIndex
  have small := array_index_lt isIndex
  rw [← index_key_of_array_index isIndex, sparse.elements index small, Option.isSome_map] at there
  by_contra outside
  rw [covers index (Nat.not_lt.1 outside) small] at there
  cases there

/-- A new array has its length and nothing else. -/
theorem sparse_fresh (proto : ObjectId) : (ofElements proto []).Sparse proto 0 fun _ => none := by
  have own : ∀ key, (ofElements proto []).getOwn? key =
      if lengthKey = key then some (.data (.ofNat 0) arrayLengthAttributes) else none := by
    intro key
    rw [get_own_array rfl]
    rfl
  constructor
  · rfl
  · rfl
  · rfl
  · exact Nat.zero_le _
  · rfl
  · intro i _
    rw [own, if_neg (indexKey_ne_lengthKey i).symm]
    rfl
  · intro key there
    left
    by_contra other
    rw [own, if_neg (Ne.symm other)] at there
    cases there

/-- A value is put where nothing is. -/
theorem sparse_define (sparse : o.Sparse proto n f) (small : k < maxWord) (hole : f k = none) (v : Value) :
    ∃ after, o.define (indexKey k) (.data v .all) = (true, after) ∧
      after.Sparse proto (max n (k + 1)) (Function.update f k (some v)) := by
  have isIndex := array_index_of_index_key small
  have missing : o.getOwn? (indexKey k) = none := by rw [sparse.elements k small, hole, Option.map_none]
  have accepts : o.AcceptsWrite (indexKey k) := by
    rw [AcceptsWrite, missing]
    exact sparse.extensible
  have known : o.arrayLength = (n, true) := by
    have covered : Nat.min n maxWord = n := Nat.min_eq_left sparse.small
    rw [array_length_of_nat sparse.length, covered]
  have room : o.HasRoom (indexKey k) := fun _ _ _ _ => by rw [known]
  have patch : o.writing (indexKey k) v = .data v .all := by
    rw [writing, missing]
    rfl
  have value : o.written (indexKey k) v = .data v .all := by rw [written, missing]
  -- Whatever becomes of the length, nothing else is changed but the element.
  have placed : ∀ after : Object, after.kind = o.kind → after.proto = o.proto → after.extensible = o.extensible →
      after.HasLength (.ofNat (max n (k + 1))) true false →
      (∀ key, key ≠ lengthKey →
        after.getOwn? key = if indexKey k = key then some (.data v .all) else o.getOwn? key) →
      after.Sparse proto (max n (k + 1)) (Function.update f k (some v)) := by
    intro after kind up open_ length own
    constructor
    · have array := sparse.array
      unfold isArray at array ⊢
      rwa [kind]
    · exact up.trans sparse.proto
    · exact open_.trans sparse.extensible
    · exact Nat.max_le.2 ⟨sparse.small, small⟩
    · exact length
    · intro i inside
      rw [own _ (indexKey_ne_lengthKey i), Function.update_apply]
      by_cases here : i = k
      · subst here
        rw [if_pos rfl, if_pos rfl]
        rfl
      · rw [if_neg here, if_neg fun same => here (indexKey_inj.1 same).symm, sparse.elements i inside]
    · intro key there
      by_cases isLength : key = lengthKey
      · exact .inl isLength
      · rw [own key isLength] at there
        split at there
        · next same => exact .inr ⟨k, by omega, same.symm⟩
        · rcases sparse.others key there with isLength | ⟨i, inside, same⟩
          · exact .inl isLength
          · exact .inr ⟨i, by omega, same⟩
  have written := write_accepted accepts room (fun _ => indexKey_ne_lengthKey k) v
  rw [write, patch, value, known] at written
  have still : (o.set (indexKey k) (.data v .all)).HasLength (.ofNat n) true false :=
    has_length_of_find (by rw [find_set, if_neg (indexKey_ne_lengthKey k)]) sparse.length
  rcases written with ⟨ends, inside⟩ | ⟨index, _, same, outside, ends⟩
  · have less := inside k sparse.array isIndex
    refine ⟨_, ends, placed _ rfl rfl rfl ?_ fun key _ => get_own_set ..⟩
    rwa [Nat.max_eq_left (Nat.succ_le_of_lt less)]
  · cases isIndex.symm.trans same
    rw [set_array_length_of_has still] at ends
    refine ⟨_, ends, placed _ rfl rfl rfl ?_ fun key isLength => ?_⟩
    · rw [Nat.max_eq_right (Nat.le_succ_of_le outside), HasLength, find_set, if_pos rfl]
      rfl
    · rw [get_own_set, if_neg (Ne.symm isLength), get_own_set]

/-- The length is set to one that covers all elements. -/
theorem sparse_resized (sparse : o.Sparse proto n f) (small : k ≤ maxWord)
    (covers : ∀ i, k ≤ i → i < maxWord → f i = none) : (o.resized k).Sparse proto k f where
  array := sparse.array
  proto := sparse.proto
  extensible := sparse.extensible
  small := small
  length := by
    rw [HasLength, resized, find_set, if_pos rfl]
    rfl
  elements i inside := by
    rw [resized, get_own_set, if_neg (indexKey_ne_lengthKey i).symm, sparse.elements i inside]
  others key there := by
    by_cases isLength : key = lengthKey
    · exact .inl isLength
    · rw [resized, get_own_set, if_neg (Ne.symm isLength)] at there
      obtain same | ⟨i, inside, rfl⟩ := sparse.others key there
      · exact .inl same
      · refine .inr ⟨i, Nat.lt_of_not_le fun outside => ?_, rfl⟩
        have within : i < maxWord := Nat.lt_of_lt_of_le inside sparse.small
        rw [sparse.elements i within, covers i outside within] at there
        cases there

end Object

/-! ## Runs -/

namespace Machine

variable {m : Machine} (engine : Engine) {id copy : ObjectId} {proto : ObjectId} {n k s t count : Nat} {c o : Object}
  {f : Nat → Option Value} {v : Value}

/-- The address of the next new object. -/
def fresh (m : Machine) : ObjectId :=
  ⟨m.heap.objects.size⟩

/-- The machine with a new object. -/
def withNew (m : Machine) (o : Object) : Machine :=
  { m with heap := (m.heap.add o).2 }

theorem get_with_new_self (m : Machine) (o : Object) : (m.withNew o).heap.get m.fresh = o :=
  Heap.get_add_self m.heap o

theorem get_with_new (o : Object) (there : m.heap.Holds id) : (m.withNew o).heap.get id = m.heap.get id :=
  Heap.get_add_of_lt o there

theorem holds_with_new (o : Object) (there : m.heap.Holds id) : (m.withNew o).heap.Holds id := by
  rw [Heap.Holds, withNew, Heap.size_add]
  exact Nat.lt_succ_of_lt there

/-- A new object that is changed. -/
theorem with_new_with_object (m : Machine) (o changed : Object) :
    (m.withNew o).withObject m.fresh changed = m.withNew changed := by
  have same : (m.heap.objects.push o).setIfInBounds m.heap.objects.size changed = m.heap.objects.push changed := by
    apply Array.ext_getElem?
    intro i
    rw [Array.getElem?_setIfInBounds, Array.getElem?_push, Array.getElem?_push, Array.size_push]
    split
    · next here => simp [here]
    · next other => simp [Ne.symm other]
  exact congrArg (fun objects => { m with heap := ⟨objects⟩ }) same

/-- An array of some length that can be read element by element: what it owns at indices are values, and it inherits
nothing under the name of an index. -/
structure Readable (m : Machine) (id : ObjectId) (n : Nat) : Prop where
  array : (m.heap.get id).isArray
  small : n ≤ Object.maxWord
  length : ∃ writable enumerable, (m.heap.get id).HasLength (.ofNat n) writable enumerable
  data : (m.heap.get id).DataElements
  plain : ∃ ids, m.heap.Ascends (m.heap.get id).proto ids ∧ ∀ up ∈ ids, m.heap.Holds up ∧
    ∀ key index, arrayIndex? key = some index → (m.heap.get up).getOwn? key = none

theorem Readable.there (readable : m.Readable id n) : m.heap.Holds id :=
  there_of_array readable.array

theorem Readable.inherits_none (readable : m.Readable id n) : m.InheritsNone id k := by
  obtain ⟨ids, ascends, empty⟩ := readable.plain
  intro i _ small
  rw [Heap.find_eq_first ascends, List.findSome?_eq_none_iff]
  intro up member
  exact (empty up member).2 _ i (array_index_of_index_key small)

/-- New objects do not matter. -/
theorem Readable.with_new (readable : m.Readable id n) (o : Object) : (m.withNew o).Readable id n := by
  obtain ⟨ids, ascends, empty⟩ := readable.plain
  have same := get_with_new o readable.there
  constructor
  · rw [same]
    exact readable.array
  · exact readable.small
  · rw [same]
    exact readable.length
  · rw [same]
    exact readable.data
  · refine ⟨ids, ?_, fun up member => ⟨holds_with_new o (empty up member).1, ?_⟩⟩
    · rw [same]
      exact Heap.ascends_of_same_links ascends fun up member => by rw [get_with_new o (empty up member).1]
    · rw [get_with_new o (empty up member).1]
      exact (empty up member).2

theorem run_has_element (alone : m.InheritsNone id k) (small : k < Object.maxWord) :
    m.run (askHeap (·.has id (indexKey k))) = (.ok ((m.heap.get id).getOwn? (indexKey k)).isSome, m) := by
  rw [run_ask, Heap.has, Heap.find_of_own (alone k (Nat.le_refl k) small)]

theorem run_define_element {after : Object}
    (defined : (m.heap.get copy).define (indexKey k) (.data v .all) = (true, after)) :
    m.run (Library.defineElement engine copy k v) = (.ok (), m.withObject copy after) := by
  rw [Library.defineElement, run_discard, run_define_property fun _ same => absurd same (indexKey_ne_lengthKey k),
    Machine.defined, defined]
  rfl

/-! ## Parts -/

/-- Elements are copied to a new array, and holes are left out. -/
theorem run_copy_elements (readable : m.Readable id n) (fits : s + t + count ≤ n) (reached : k ≤ t)
    (sparse : c.Sparse proto k ((m.heap.get id).window s t)) :
    ∃ full last, last ≤ t + count ∧ full.Sparse proto last ((m.heap.get id).window s (t + count)) ∧
      (m.withNew c).run (Library.copyElements engine id m.fresh (s + t) t count) = (.ok (), m.withNew full) := by
  induction count generalizing t k c with
  | zero => exact ⟨c, k, reached, sparse, rfl⟩
  | succ count ih =>
    have small := readable.small
    have now := readable.with_new c
    have same := get_with_new c readable.there
    have asked := run_has_element now.inherits_none (k := s + t) (by omega)
    rw [same] at asked
    rw [Library.copyElements, run_bind_ok asked]
    have grown := (m.heap.get id).window_succ s t
    have later : t + 1 + count = t + (count + 1) := by omega
    have fits : s + (t + 1) + count ≤ n := by omega
    rcases Object.element_cases (k := s + t) readable.data (by omega)
      with ⟨own, none⟩ | ⟨v, p, writable, own, kind, some⟩
    · rw [none, ← (m.heap.get id).window_none s t, Function.update_eq_self] at grown
      obtain ⟨full, last, within, copied, ran⟩ := ih fits (Nat.le_succ_of_le reached) (grown ▸ sparse)
      rw [later] at within copied
      refine ⟨full, last, within, copied, ?_⟩
      rw [own, if_neg (by simp)]
      exact ran
    · rw [some] at grown
      have read := @run_get_own (m.withNew c) id _ v engine p writable (same ▸ own) kind
      obtain ⟨longer, defined, sparse⟩ := Object.sparse_define sparse (k := t) (by omega) (Object.window_none ..) v
      obtain ⟨full, last, within, copied, ran⟩ := ih fits (by omega) (grown ▸ sparse)
      rw [later] at within copied
      have put := run_define_element (m := m.withNew c) engine ((get_with_new_self m c).symm ▸ defined)
      rw [with_new_with_object] at put
      refine ⟨full, last, within, copied, ?_⟩
      rw [own, Option.isSome_some, if_pos rfl, run_bind_ok read, run_bind_ok put]
      exact ran

/-- The length of a new array is set. -/
theorem run_resize (sparse : c.Sparse proto k f) (small : n ≤ Object.maxWord)
    (covers : ∀ i, n ≤ i → i < Object.maxWord → f i = none) :
    (c.resized n).Sparse proto n f ∧
      (m.withNew c).run (Library.setLength engine m.fresh n) = (.ok (), m.withNew (c.resized n)) := by
  have placed := get_with_new_self m c
  have array := sparse.array
  have length := sparse.length
  have below := sparse.below covers
  rw [← placed] at array length below
  have set := run_set_length engine array length small below
  rw [placed, with_new_with_object] at set
  exact ⟨Object.sparse_resized sparse small covers, set⟩

theorem Readable.run_length (readable : m.Readable id n) : m.run (Library.lengthOf engine id) = (.ok n, m) := by
  obtain ⟨writable, enumerable, has⟩ := readable.length
  exact run_length_of engine has readable.small

/-- The elements between two places make a new array. -/
theorem run_slice_between {arguments : List Value} (readable : m.Readable id n) {first last : Nat} (inside : first ≤ n)
    (within : last ≤ n)
    (begins : m.run (Library.relativePlace engine n (Library.argument arguments 0) 0) = (.ok first, m))
    (ends : m.run (Library.relativePlace engine n (Library.argument arguments 1) n) = (.ok last, m)) :
    ∃ c, c.Sparse m.realm.intrinsics.arrayPrototype (last - first) ((m.heap.get id).window first (last - first)) ∧
      m.run (Library.slice engine (.object id) arguments) = (.ok (.object m.fresh), m.withNew c) := by
  have small := readable.small
  have empty : (Object.ofElements m.realm.intrinsics.arrayPrototype []).Sparse m.realm.intrinsics.arrayPrototype 0
      ((m.heap.get id).window first 0) := Object.sparse_fresh _
  obtain ⟨full, count, few, copied, ran⟩ := @run_copy_elements m engine id _ n 0 first 0
    (last - first) _ readable (by omega) (Nat.le_refl 0) empty
  rw [Nat.zero_add] at few copied
  obtain ⟨resized, set⟩ := run_resize engine (n := last - first) copied (by omega)
    fun i outside _ => if_neg (Nat.not_lt.2 outside)
  have taken : m.run (toObject (.object id)) = (.ok id, m) := rfl
  have made : m.run (createArray []) = (.ok m.fresh, m.withNew (.ofElements m.realm.intrinsics.arrayPrototype [])) := rfl
  refine ⟨_, resized, ?_⟩
  rw [Library.slice, run_bind_ok taken, run_bind_ok (readable.run_length engine), run_bind_ok begins, run_bind_ok ends,
    run_bind_ok made]
  exact (run_bind_ok ran _).trans (run_bind_ok set _)

theorem run_relative_place (m : Machine) (engine : Engine) (n : Nat) (x : Number) (absent : Nat) :
    m.run (Library.relativePlace engine n (.number x) absent) = (.ok (Number.placeFrom n x), m) := by
  rw [← Number.relativeTo_toInteger]
  rfl

/-! ## Calls -/

/-- Calls of a function for elements of an array, one after the other, each with what it gives, which is put into
another array under the same index. -/
inductive Rounds (engine : Engine) (visit : Library.Visit) (o : Object) (copy : ObjectId) (m : Machine) :
    List (Nat × Value) → Machine → Prop
  | start : Rounds engine visit o copy m [] m
  | round {results : List (Nat × Value)} {before after : Machine} {i : Nat} {v w : Value}
      (earlier : Rounds engine visit o copy m results before) (there : o.element? i = some v)
      (called : before.run (visit.call engine i v) = (.ok w, after)) :
      Rounds engine visit o copy m (results ++ [(i, w)])
        (after.withObject copy ((after.heap.get copy).define (indexKey i) (.data w .all)).2)

/-- Before the first call nothing has happened. -/
theorem Rounds.none_before {engine : Engine} {visit : Library.Visit} {results : List (Nat × Value)} {before : Machine}
    (rounds : Rounds engine visit o copy m results before) (none : results = []) : before = m := by
  cases rounds with
  | start => rfl
  | round => exact absurd none (by simp)

/-- What a call leaves alone that is made for an element: the array, and what is inherited under later indices. -/
structure Spares (id : ObjectId) (i : Nat) (before after : Machine) : Prop where
  array : after.heap.get id = before.heap.get id
  plain : after.InheritsNone id (i + 1)

/-- Whenever the function is called for the next element it returns normally and leaves the array alone. -/
def Calm (engine : Engine) (visit : Library.Visit) (copy : ObjectId) (n : Nat) (m : Machine) : Prop :=
  ∀ results before i v, Rounds engine visit (m.heap.get visit.object) copy m results before → i < n →
    results.map Prod.fst = (m.heap.get visit.object).present i → (m.heap.get visit.object).element? i = some v →
    ∃ w after, before.run (visit.call engine i v) = (.ok w, after) ∧ Spares visit.object i before after

/-! ### The new array -/

/-- Neither the state nor the arguments of a call refer to the object that is made next. -/
structure Unaware (m : Machine) (arguments : List Value) : Prop where
  machine : m.Enclosed (· ≠ m.fresh)
  arguments : Only (· ≠ m.fresh) arguments

/-- No code comes to the new array: not where it starts, and not by what the function is called with. -/
structure Secluded (engine : Engine) (visit : Library.Visit) (copy : ObjectId) (m : Machine) : Prop where
  engine : engine.Discreet (· ≠ copy)
  machine : m.Among (· ≠ copy)
  visit : Only (· ≠ copy) visit

theorem among_with_new (enclosed : m.Enclosed (· ≠ m.fresh)) (o : Object) : (m.withNew o).Among (· ≠ m.fresh) := by
  obtain ⟨heap, environments, context, callers, realm⟩ := enclosed
  refine ⟨⟨fun id other => ?_, environments, context, callers, realm⟩, fun id beyond => ?_⟩
  · have same : (m.withNew o).heap.get id = m.heap.get id := Heap.get_add_of_ne other
    rw [same]
    exact heap id other
  · rintro rfl
    rw [withNew, Heap.size_add] at beyond
    exact Nat.not_succ_le_self _ beyond

/-- What becomes of an object that no code comes to does not matter. -/
theorem among_with_object (among : m.Among (· ≠ copy)) (o : Object) : (m.withObject copy o).Among (· ≠ copy) := by
  obtain ⟨⟨heap, environments, context, callers, realm⟩, new⟩ := among
  refine ⟨⟨fun id other => ?_, environments, context, callers, realm⟩, fun id beyond => new id ?_⟩
  · have same : (m.withObject copy o).heap.get id = m.heap.get id := Heap.get_set_of_ne o other.symm
    rw [same]
    exact heap id other
  · rwa [withObject, Heap.size_set] at beyond

theorem only_element {known : ObjectId → Prop} (only : Only known o) (there : o.element? k = some v) :
    Only known v := by
  unfold Object.element? at there
  split at there
  · next value writable kind =>
    cases there
    obtain ⟨p, own, isData⟩ := Option.map_eq_some_iff.1 kind
    have property : Only known p.kind := Object.only_get_own only _ p own
    rwa [isData] at property
  · cases there

/-- A call for an element keeps away from the new array. -/
theorem Secluded.called {visit : Library.Visit} {before : Machine} (secluded : Secluded engine visit copy m)
    (among : before.Among (· ≠ copy)) (there : (m.heap.get visit.object).element? k = some v) :
    before.StaysAmong (· ≠ copy) (before.run (visit.call engine k v)) := by
  have elements := secluded.machine.heap visit.object secluded.visit.2.2
  exact Library.discreet_visit_call secluded.engine secluded.visit k (only_element elements there) before among

/-- So it does in the whole of the rounds. -/
theorem Secluded.rounds {visit : Library.Visit} {results : List (Nat × Value)} {before : Machine}
    (secluded : Secluded engine visit copy m)
    (rounds : Rounds engine visit (m.heap.get visit.object) copy m results before) : before.Among (· ≠ copy) := by
  induction rounds with
  | start => exact secluded.machine
  | round earlier there called ih =>
    have stays := secluded.called engine ih there
    rw [called] at stays
    exact among_with_object stays.among _

/-! ### All elements -/

theorem lookup_none {results : List (Nat × Value)} (listed : results.map Prod.fst = o.present k) :
    results.lookup k = none := by
  rw [List.lookup_eq_none_iff]
  intro entry member
  have index : entry.1 ∈ o.present k := listed ▸ List.mem_map_of_mem member
  have below := List.mem_range.1 (List.mem_filter.1 index).1
  exact bne_iff_ne.2 (Nat.ne_of_gt below)

theorem present_succ (o : Object) (k : Nat) :
    o.present (k + 1) = o.present k ++ if (o.element? k).isSome then [k] else [] := by
  rw [Object.present, List.range_succ, List.filter_append, List.filter_singleton]
  cases (o.element? k).isSome <;> rfl

theorem run_visit_hole {visit : Library.Visit} (missing : m.heap.find? (some visit.object) (indexKey k) = none)
    (use : Nat → Value → Eval Unit) : m.run (Library.visitElements engine visit use k (count + 1)) =
      m.run (Library.visitElements engine visit use (k + 1) count) := by
  have asked : m.run (askHeap (·.has visit.object (indexKey k))) = (.ok false, m) := by
    rw [run_ask, Heap.has, missing]
    rfl
  rw [Library.visitElements, run_bind_ok asked]
  rfl

/-- The function is called for a value, and what it gives is put into the new array. -/
theorem run_visit_value {visit : Library.Visit} {after : Machine} {p : Property} {w : Value} {writable : Bool}
    {longer : Object} (found : m.heap.find? (some visit.object) (indexKey k) = some p) (kind : p.kind = .data v writable)
    (called : m.run (visit.call engine k v) = (.ok w, after))
    (defined : (after.heap.get copy).define (indexKey k) (.data w .all) = (true, longer)) :
    m.run (Library.visitElements engine visit (Library.defineElement engine copy) k (count + 1)) =
      (after.withObject copy longer).run
        (Library.visitElements engine visit (Library.defineElement engine copy) (k + 1) count) := by
  have asked : m.run (askHeap (·.has visit.object (indexKey k))) = (.ok true, m) := by
    rw [run_ask, Heap.has, found]
    rfl
  have read := run_get_found engine found kind
  rw [Library.visitElements, run_bind_ok asked, if_pos rfl, run_bind_ok read, run_bind_ok called,
    run_bind_ok (run_define_element engine defined)]

/-- The function is called for what is left of the elements. -/
theorem run_visit_elements {visit : Library.Visit} {before : Machine} {results : List (Nat × Value)}
    (small : n ≤ Object.maxWord)
    (secluded : Secluded engine visit copy m) (data : (m.heap.get visit.object).DataElements)
    (calm : Calm engine visit copy n m)
    (rounds : Rounds engine visit (m.heap.get visit.object) copy m results before) (left : k + count = n)
    (listed : results.map Prod.fst = (m.heap.get visit.object).present k)
    (same : before.heap.get visit.object = m.heap.get visit.object) (alone : before.InheritsNone visit.object k)
    (sparse : (before.heap.get copy).Sparse proto n (results.lookup ·)) :
    ∃ all final, Rounds engine visit (m.heap.get visit.object) copy m all final ∧
      all.map Prod.fst = (m.heap.get visit.object).present n ∧
      final.heap.get visit.object = m.heap.get visit.object ∧ (final.heap.get copy).Sparse proto n (all.lookup ·) ∧
      before.run (Library.visitElements engine visit (Library.defineElement engine copy) k count) = (.ok (), final) := by
  induction count generalizing k before results with
  | zero =>
    obtain rfl : k = n := left
    exact ⟨results, before, rounds, listed, same, sparse, rfl⟩
  | succ count ih =>
    have left' : k + 1 + count = n := by omega
    have inside : k < Object.maxWord := by omega
    have more := present_succ (m.heap.get visit.object) k
    have found := Heap.find_of_own (alone k (Nat.le_refl k) inside)
    rw [same] at found
    rcases Object.element_cases data inside with ⟨own, none⟩ | ⟨v, p, writable, own, kind, some⟩
    · rw [none, Option.isSome_none, if_neg Bool.false_ne_true, List.append_nil] at more
      rw [run_visit_hole engine (found.trans own)]
      exact ih rounds left' (more ▸ listed) same (fun i least => alone i (Nat.le_of_succ_le least)) sparse
    · obtain ⟨w, after, called, array, plain⟩ := calm results before k v rounds (by omega) listed some
      have stays := secluded.called engine (secluded.rounds engine rounds) some
      rw [called] at stays
      have untouched : after.heap.get copy = before.heap.get copy := stays.others copy fun other => other rfl
      have hole := lookup_none listed
      rw [← untouched] at sparse
      obtain ⟨longer, defined, grown⟩ := Object.sparse_define sparse inside hole w
      have there := there_of_array sparse.array
      have next := rounds.round some called
      rw [defined] at next
      have listed' : (results ++ [(k, w)]).map Prod.fst = (m.heap.get visit.object).present (k + 1) := by
        rw [more, some, Option.isSome_some, if_pos rfl, List.map_append, listed]
        rfl
      have same' : (after.withObject copy longer).heap.get visit.object = m.heap.get visit.object := by
        rw [withObject, Heap.get_set_of_ne _ (Ne.symm secluded.visit.2.2), array, same]
      have values : Function.update (results.lookup ·) k (Option.some w) = ((results ++ [(k, w)]).lookup ·) := by
        funext i
        rw [Function.update_apply, List.lookup_append]
        by_cases here : i = k
        · subst here
          rw [if_pos rfl, hole]
          simp
        · rw [if_neg here]
          simp [List.lookup_cons, beq_eq_false_iff_ne.2 here]
      have alone' : (after.withObject copy longer).InheritsNone visit.object (k + 1) := by
        intro i least fits
        have kept : longer.getOwn? (indexKey i) = (after.heap.get copy).getOwn? (indexKey i) := by
          rw [grown.elements i fits, sparse.elements i fits, Function.update_of_ne (by omega)]
        have up : longer.proto = (after.heap.get copy).proto := grown.proto.trans sparse.proto.symm
        rw [same', ← same, ← array, withObject, Heap.find_set kept up]
        exact plain i least fits
      have sparse' : ((after.withObject copy longer).heap.get copy).Sparse proto n ((results ++ [(k, w)]).lookup ·) := by
        rw [withObject, Heap.get_set_self _ there, ← values]
        rwa [Nat.max_eq_left (by omega)] at grown
      obtain ⟨all, final, rounds, listed, unchanged, made, ran⟩ := ih next left' listed' same' alone' sparse'
      exact ⟨all, final, rounds, listed, unchanged, made,
        (run_visit_value engine (found.trans own) kind called defined).trans ran⟩

/-- The machine with a new array of a length that has no elements. -/
def withHoles (m : Machine) (n : Nat) : Machine :=
  m.withNew ((Object.ofElements m.realm.intrinsics.arrayPrototype []).resized n)

/-- Where there is an element there is one of what the function gave, and nowhere else. -/
theorem same_holes {results : List (Nat × Value)} (data : o.DataElements) (below : o.IndicesBelow n)
    (sparse : c.Sparse proto n (results.lookup ·)) (listed : results.map Prod.fst = o.present n)
    (small : k < Object.maxWord) :
    (c.getOwn? (indexKey k)).isSome = (o.getOwn? (indexKey k)).isSome := by
  rw [sparse.elements k small, Option.isSome_map]
  have element : (o.element? k).isSome = (o.getOwn? (indexKey k)).isSome := by
    rcases Object.element_cases data small with ⟨own, none⟩ | ⟨v, p, writable, own, kind, some⟩
    · rw [own, none]
      rfl
    · rw [own, some]
      rfl
  rw [← element, Bool.eq_iff_iff, List.lookup_isSome_iff]
  have listed_iff : k ∈ results.map Prod.fst ↔ k < n ∧ (o.element? k).isSome := by
    rw [listed, Object.present, List.mem_filter, List.mem_range]
  constructor
  · rintro ⟨p, member, same⟩
    obtain rfl := beq_iff_eq.1 same
    exact (listed_iff.1 (List.mem_map_of_mem member)).2
  · intro there
    have inside : k < n := below _ k (element ▸ there) (array_index_of_index_key small)
    obtain ⟨p, member, same⟩ := List.mem_map.1 (listed_iff.2 ⟨inside, there⟩)
    exact ⟨p, member, beq_iff_eq.2 same.symm⟩

/-- Before any call there is a new array of holes. -/
theorem run_map_begun {arguments : List Value} {visit : Library.Visit} (readable : m.Readable id n)
    (asked : visit = ⟨Library.argument arguments 0, Library.argument arguments 1, id⟩)
    (callable : m.heap.isCallable visit.callback) :
    ((m.withHoles n).heap.get m.fresh).Sparse m.realm.intrinsics.arrayPrototype n (fun _ => none) ∧
      m.run (Library.map engine (.object id) arguments) =
        (m.withHoles n).run (Library.visitElements engine visit (Library.defineElement engine m.fresh) 0 n >>= fun _ =>
          pure (.object m.fresh)) := by
  subst asked
  have begun : m.run (Library.beginVisit engine (.object id) arguments) =
      (.ok (n, ⟨Library.argument arguments 0, Library.argument arguments 1, id⟩), m) := by
    have taken : m.run (toObject (.object id)) = (.ok id, m) := rfl
    have accepted : m.run (Library.requireCallback (Library.argument arguments 0)) = (.ok (), m) := by
      rw [Library.requireCallback, run_bind_ok (run_ask ..), if_pos callable]
      rfl
    rw [Library.beginVisit, run_bind_ok taken, run_bind_ok (readable.run_length engine), run_bind_ok accepted]
    rfl
  have made : m.run (createArray []) = (.ok m.fresh, m.withNew (.ofElements m.realm.intrinsics.arrayPrototype [])) := rfl
  obtain ⟨sparse, set⟩ := run_resize (m := m) engine (Object.sparse_fresh m.realm.intrinsics.arrayPrototype)
    readable.small fun _ _ _ => rfl
  constructor
  · rw [withHoles, get_with_new_self]
    exact sparse
  · rw [Library.map, run_bind_ok begun, run_bind_ok made, run_bind_ok set]
    rfl

theorem Readable.ne_fresh (readable : m.Readable id n) : id ≠ m.fresh := by
  rintro rfl
  exact Nat.lt_irrefl _ readable.there

/-- The function is called for all elements. -/
theorem run_map_calm {arguments : List Value} {visit : Library.Visit} (readable : m.Readable id n)
    (asked : visit = ⟨Library.argument arguments 0, Library.argument arguments 1, id⟩)
    (callable : m.heap.isCallable visit.callback) (discreet : engine.Discreet (· ≠ m.fresh))
    (unaware : m.Unaware arguments) (calm : Calm engine visit m.fresh n (m.withHoles n)) :
    ∃ results final, Rounds engine visit (m.heap.get id) m.fresh (m.withHoles n) results final ∧
      results.map Prod.fst = (m.heap.get id).present n ∧ final.heap.get id = m.heap.get id ∧
      (final.heap.get m.fresh).Sparse m.realm.intrinsics.arrayPrototype n (results.lookup ·) ∧
      m.run (Library.map engine (.object id) arguments) = (.ok (.object m.fresh), final) := by
  obtain ⟨sparse, begun⟩ := run_map_begun engine readable asked callable
  subst asked
  have still : (m.withHoles n).Readable id n := readable.with_new _
  have same : (m.withHoles n).heap.get id = m.heap.get id := get_with_new _ readable.there
  have secluded : Secluded engine ⟨Library.argument arguments 0, Library.argument arguments 1, id⟩ m.fresh
      (m.withHoles n) := by
    refine ⟨discreet, among_with_new unaware.machine _, ?_⟩
    exact ⟨only_argument unaware.arguments 0, only_argument unaware.arguments 1, readable.ne_fresh⟩
  obtain ⟨results, final, rounds, listed, unchanged, mapped, ran⟩ := run_visit_elements engine
    readable.small secluded still.data calm .start (Nat.zero_add n) rfl rfl still.inherits_none sparse
  rw [same] at rounds listed unchanged
  exact ⟨results, final, rounds, listed, unchanged, mapped, begun.trans (run_bind_ok ran _)⟩

/-- An array of some length whose elements are values and that inherits nothing under the name of an index. -/
structure Copyable (m : Machine) (id : ObjectId) (n : Nat) : Prop where
  sound : m.heap.Sound
  formed : (m.heap.get id).WellFormedArray Object.maxWord
  length : (m.heap.get id).arrayLength.1 = n
  data : (m.heap.get id).DataElements
  plain : ∀ key index, arrayIndex? key = some index → m.heap.find? (m.heap.get id).proto key = none

theorem Copyable.known_length (copyable : m.Copyable id n) : n ≤ Object.maxWord ∧ (m.heap.get id).IndicesBelow n ∧
    ∃ writable, (m.heap.get id).HasLength (.ofNat n) writable false := by
  obtain ⟨_, k, within, ⟨writable, has⟩, below⟩ := copyable.formed
  have length := copyable.length
  have small : Nat.min k Object.maxWord = k := Nat.min_eq_left within
  rw [Object.array_length_of_nat has, small] at length
  subst length
  exact ⟨within, below, writable, has⟩

theorem Copyable.readable (copyable : m.Copyable id n) : m.Readable id n := by
  obtain ⟨small, -, writable, has⟩ := copyable.known_length
  obtain ⟨ids, ascends⟩ := copyable.sound.founded (m.heap.get id).proto
  refine ⟨copyable.formed.array, small, ⟨writable, false, has⟩, copyable.data, ids, ascends, fun up member => ?_⟩
  constructor
  · exact copyable.sound.holds_of_mem ascends (fun above link => copyable.sound.closed id above link) up member
  · intro key index isIndex
    have nothing := copyable.plain key index isIndex
    rw [Heap.find_eq_first ascends, List.findSome?_eq_none_iff] at nothing
    exact nothing up member

/-- The elements between the places that two numbers name. -/
theorem run_slice (readable : m.Readable id n) (x y : Number) :
    ∃ c, m.run (Library.slice engine (.object id) [.number x, .number y]) = (.ok (.object m.fresh), m.withNew c) ∧
      c.Sparse m.realm.intrinsics.arrayPrototype (y.placeFrom n - x.placeFrom n)
        ((m.heap.get id).window (x.placeFrom n) (y.placeFrom n - x.placeFrom n)) := by
  let arguments : List Value := [.number x, .number y]
  have begins : m.run (Library.relativePlace engine n (Library.argument arguments 0) 0) = (.ok (x.placeFrom n), m) :=
    run_relative_place m engine n x 0
  have ends : m.run (Library.relativePlace engine n (Library.argument arguments 1) n) = (.ok (y.placeFrom n), m) :=
    run_relative_place m engine n y n
  obtain ⟨c, sparse, ran⟩ := run_slice_between engine readable (x.placeFrom_le n) (y.placeFrom_le n) begins ends
  exact ⟨c, ran, sparse⟩

/-- The elements from a place on. -/
theorem run_slice_rest (readable : m.Readable id n) (x : Number) :
    ∃ c, m.run (Library.slice engine (.object id) [.number x]) = (.ok (.object m.fresh), m.withNew c) ∧
      c.Sparse m.realm.intrinsics.arrayPrototype (n - x.placeFrom n)
        ((m.heap.get id).window (x.placeFrom n) (n - x.placeFrom n)) := by
  have begins : m.run (Library.relativePlace engine n (Library.argument [.number x] 0) 0) = (.ok (x.placeFrom n), m) :=
    run_relative_place m engine n x 0
  have ends : m.run (Library.relativePlace engine n (Library.argument [.number x] 1) n) = (.ok n, m) := rfl
  obtain ⟨c, sparse, ran⟩ := run_slice_between engine readable (x.placeFrom_le n) (Nat.le_refl n) begins ends
  exact ⟨c, ran, sparse⟩

/-- Two arrays that hold the elements before and behind a place. -/
structure Divided (o : Object) (proto : ObjectId) (n k : Nat) (front back : Object) : Prop where
  before : front.Sparse proto k (o.window 0 k)
  behind : back.Sparse proto (n - k) (o.window k (n - k))
  whole : ∀ i, i < n → o.element? i = if i < k then front.element? i else back.element? (i - k)

theorem run_slice_parts (readable : m.Readable id n) (inside : k ≤ n) :
    ∃ front back, Divided (m.heap.get id) m.realm.intrinsics.arrayPrototype n k front back ∧
      m.run (Library.slice engine (.object id) [.ofNat 0, .ofNat k]) = (.ok (.object m.fresh), m.withNew front) ∧
      (m.withNew front).run (Library.slice engine (.object id) [.ofNat k]) =
        (.ok (.object (m.withNew front).fresh), (m.withNew front).withNew back) := by
  have small := readable.small
  have limit : Object.maxWord < mantissaLimit := by decide
  obtain ⟨front, ran, before⟩ := run_slice engine readable (.ofNat 0) (.ofNat k)
  obtain ⟨back, ranToo, behind⟩ := run_slice_rest engine (readable.with_new front) (.ofNat k)
  rw [Number.placeFrom_ofNat (by omega), Number.placeFrom_ofNat (by omega), Nat.zero_min, Nat.min_eq_left inside,
    Nat.sub_zero] at before
  rw [Number.placeFrom_ofNat (by omega), Nat.min_eq_left inside, get_with_new front readable.there] at behind
  refine ⟨front, back, ⟨before, behind, fun i within => ?_⟩, ran, ranToo⟩
  split
  · next early =>
    rw [before.element_eq (by omega), Object.window, if_pos early, Nat.zero_add]
  · next late =>
    rw [behind.element_eq (by omega), Object.window, if_pos (by omega), Nat.add_sub_cancel' (Nat.not_lt.1 late)]

/-- A new array of the results that a function gives for the elements of another one. -/
structure Mapped (engine : Engine) (visit : Library.Visit) (n : Nat) (m : Machine) (results : List (Nat × Value))
    (final : Machine) : Prop where
  rounds : Rounds engine visit (m.heap.get visit.object) m.fresh (m.withHoles n) results final
  once : results.map Prod.fst = (m.heap.get visit.object).present n
  array : (final.heap.get m.fresh).Sparse m.realm.intrinsics.arrayPrototype n (results.lookup ·)
  holes : ∀ i, i < Object.maxWord → ((final.heap.get m.fresh).getOwn? (indexKey i)).isSome =
    ((m.heap.get visit.object).getOwn? (indexKey i)).isSome
  unchanged : final.heap.get visit.object = m.heap.get visit.object

/-- A part of an array is a new array whose length is the distance of its two places, with the elements from the first of
them on and with a hole wherever there is none, so that two parts that meet hold all elements and all holes. What a
function gives for the elements makes a new array of the same length with the same holes: it is called once for each
element, in their order, as long as each call returns normally, leaves the array alone and puts nothing where an
element could be inherited from. No call comes to the new array, as nothing refers to it before it is made. The array
itself stays as it is. -/
theorem slice_and_map_keep_holes (steps : Nat) (copyable : m.Copyable id n) :
    (∀ x y : Number, ∃ c,
      m.run (Library.slice (engineAt steps) (.object id) [.number x, .number y]) =
        (.ok (.object m.fresh), m.withNew c) ∧
      c.Sparse m.realm.intrinsics.arrayPrototype (y.placeFrom n - x.placeFrom n)
        ((m.heap.get id).window (x.placeFrom n) (y.placeFrom n - x.placeFrom n))) ∧
    (∀ k ≤ n, ∃ front back, Divided (m.heap.get id) m.realm.intrinsics.arrayPrototype n k front back ∧
      m.run (Library.slice (engineAt steps) (.object id) [.ofNat 0, .ofNat k]) =
        (.ok (.object m.fresh), m.withNew front) ∧
      (m.withNew front).run (Library.slice (engineAt steps) (.object id) [.ofNat k]) =
        (.ok (.object (m.withNew front).fresh), (m.withNew front).withNew back)) ∧
    (∀ c other, m.heap.Holds other → other ≠ m.fresh ∧ (m.withNew c).heap.get other = m.heap.get other) ∧
    ∀ arguments visit, visit = ⟨Library.argument arguments 0, Library.argument arguments 1, id⟩ →
      m.heap.isCallable visit.callback → m.Unaware arguments →
      Calm (engineAt steps) visit m.fresh n (m.withHoles n) → ∃ results final,
      m.run (Library.map (engineAt steps) (.object id) arguments) = (.ok (.object m.fresh), final) ∧
      Mapped (engineAt steps) visit n m results final := by
  have readable := copyable.readable
  constructor
  · exact run_slice _ readable
  constructor
  · exact fun k inside => run_slice_parts _ readable inside
  constructor
  · intro c other there
    constructor
    · rintro rfl
      exact Nat.lt_irrefl _ there
    · exact get_with_new c there
  · intro arguments visit asked callable unaware calm
    obtain ⟨results, final, rounds, once, unchanged, array, ran⟩ := run_map_calm (engineAt steps) readable asked callable
      (engine_discreet _ steps) unaware calm
    subst asked
    obtain ⟨-, below, -⟩ := copyable.known_length
    have holes := fun i small => same_holes (k := i) copyable.data below array once small
    exact ⟨results, final, ran, rounds, once, array, holes, unchanged⟩

end Machine

/-! ## An array with a hole -/

/-- A new engine with a function of the library, and behind it an array of one value and a hole. -/
def engineWithHole (name : String) (call : Builtin) : Machine :=
  { Machine.bare {} with
    heap := ⟨(firstObjects ++
      [.ofCallable Intrinsics.first.functionPrototype (.native ⟨name, call, none⟩) 1 name,
        (Object.ofElements Intrinsics.first.arrayPrototype [.null]).resized 2]).toArray⟩ }

section

variable (name : String) (call : Builtin)

theorem get_own_of_pair (key : String) : ((engineWithHole name call).heap.get ⟨15⟩).getOwn? key =
    if Object.lengthKey = key then some ⟨.data (.ofNat 2) true, false, false⟩
    else if indexKey 0 = key then some (.data .null .all) else none := by
  have whole : (engineWithHole name call).heap.get ⟨15⟩ =
    (Object.ofElements Intrinsics.first.arrayPrototype [.null]).resized 2 := rfl
  rw [whole, Object.resized, Object.get_own_set, Object.get_own_array rfl]
  split
  · rfl
  · next other =>
    rw [Object.ofElements, Object.arrayProperties, OrderedMap.find?, OrderedMap.lookup, if_neg other]
    rfl

theorem copyable_pair : (engineWithHole name call).Copyable ⟨15⟩ 2 where
  sound := Heap.sound_of_reached (Heap.reached_of_ordered rfl)
  formed := by
    refine ⟨rfl, 2, by decide, ⟨true, rfl⟩, fun key index there isIndex => ?_⟩
    rw [get_own_of_pair, if_neg (Object.ne_length_of_index isIndex).symm] at there
    split at there
    · next same =>
      subst same
      rw [array_index_of_key isIndex]
      exact Nat.zero_lt_two
    · cases there
  length := rfl
  data := by
    intro key index p isIndex own
    rw [get_own_of_pair, if_neg (Object.ne_length_of_index isIndex).symm] at own
    split at own
    · cases own
      rfl
    · cases own
  plain := by
    intro key index isIndex
    have ascends : (engineWithHole name call).heap.Ascends ((engineWithHole name call).heap.get ⟨15⟩).proto
      [⟨2⟩, ⟨0⟩] := .step (.step .top)
    have none : ((engineWithHole name call).heap.get ⟨2⟩).getOwn? key = none :=
      (Object.get_own_set ..).trans (if_neg (Object.ne_length_of_index isIndex).symm)
    rw [Heap.find_eq_first ascends, List.findSome?_cons, none]
    rfl

theorem enclosed_pair : (engineWithHole name call).Enclosed (· ≠ (engineWithHole name call).fresh) := by
  have first : Only (· ≠ (⟨16⟩ : ObjectId)) Realm.first := by
    refine ⟨⟨by decide, by decide, by decide, by decide, by decide, by decide, fun kind => ?_⟩, by decide⟩
    cases kind <;> decide
  obtain ⟨-, environments, context, callers, realm⟩ := Machine.enclosed_bare first {}
  refine ⟨Heap.enclosed_of_list fun o member => ?_, environments, context, callers, realm⟩
  rcases List.mem_append.1 member with early | late
  · exact only_first_objects first.1 o early
  · rcases List.mem_pair.1 late with rfl | rfl
    · exact Object.only_of_callable first.1.function trivial
    · exact Object.only_set (Object.only_of_elements first.1.array (only_cons trivial only_nil)) trivial

end

open Machine

/-- A function that tells arrays is called for the value and not for the hole. -/
theorem pair_copied :
    (engineWithHole "isArray" .isArray).Copyable ⟨15⟩ 2 ∧
    (∃ c, (engineWithHole "isArray" .isArray).run
        (Library.slice (engineAt 100) (.object ⟨15⟩) [.number (.ofInt (-1)), .number (.infinite false)]) =
          (.ok (.object ⟨16⟩), (engineWithHole "isArray" .isArray).withNew c) ∧
        c.Sparse ⟨2⟩ (Number.placeFrom 2 (.infinite false) - Number.placeFrom 2 (.ofInt (-1)))
          (((engineWithHole "isArray" .isArray).heap.get ⟨15⟩).window (Number.placeFrom 2 (.ofInt (-1)))
            (Number.placeFrom 2 (.infinite false) - Number.placeFrom 2 (.ofInt (-1))))) ∧
    (engineWithHole "isArray" .isArray).Unaware [.object ⟨14⟩] ∧
    Calm (engineAt 100) ⟨.object ⟨14⟩, .undefined, ⟨15⟩⟩ ⟨16⟩ 2 ((engineWithHole "isArray" .isArray).withHoles 2) ∧
    ∃ results final, (engineWithHole "isArray" .isArray).run
        (Library.map (engineAt 100) (.object ⟨15⟩) [.object ⟨14⟩]) = (.ok (.object ⟨16⟩), final) ∧
      Mapped (engineAt 100) ⟨.object ⟨14⟩, .undefined, ⟨15⟩⟩ 2 (engineWithHole "isArray" .isArray) results final := by
  have copyable := copyable_pair "isArray" .isArray
  have calm : Calm (engineAt 100) ⟨.object ⟨14⟩, .undefined, ⟨15⟩⟩ ⟨16⟩ 2
      ((engineWithHole "isArray" .isArray).withHoles 2) := by
    intro results before i v rounds inside listed there
    have still : ((engineWithHole "isArray" .isArray).withHoles 2).Readable ⟨15⟩ 2 := copyable.readable.with_new _
    obtain rfl | rfl : i = 0 ∨ i = 1 := by omega
    · have first : ((engineWithHole "isArray" .isArray).heap.get ⟨15⟩).element? 0 = some .null := rfl
      obtain rfl : .null = v := Option.some.inj (first.symm.trans there)
      obtain rfl := rounds.none_before (List.map_eq_nil_iff.1 listed)
      exact ⟨.boolean false, _, rfl, rfl, still.inherits_none⟩
    · have second : ((engineWithHole "isArray" .isArray).heap.get ⟨15⟩).element? 1 = none := rfl
      cases second.symm.trans there
  have unaware : (engineWithHole "isArray" .isArray).Unaware [.object ⟨14⟩] := by
    refine ⟨enclosed_pair "isArray" .isArray, only_cons ?_ only_nil⟩
    exact (by decide : (⟨14⟩ : ObjectId) ≠ ⟨16⟩)
  obtain ⟨slice, -, -, map⟩ := slice_and_map_keep_holes 100 copyable
  obtain ⟨results, final, ran, mapped⟩ := map [.object ⟨14⟩] ⟨.object ⟨14⟩, .undefined, ⟨15⟩⟩ rfl rfl unaware calm
  exact ⟨copyable, slice (.ofInt (-1)) (.infinite false), unaware, calm, results, final, ran, mapped⟩

/-! ## Elements from the prototype -/

namespace Machine

variable {m : Machine} {id : ObjectId} {steps : Nat}

/-- A call of a function of the library. -/
theorem run_call_native {f : NativeFunction} {callee : ObjectId}
    (callable : (m.heap.get callee).callable? = some (.native f))
    (this : Value) (arguments : List Value) :
    m.run ((engineAt (steps + 1)).call (.object callee) this arguments) =
      m.run (nested (Library.run (engineAt steps) f.call this arguments)) := by
  have asked : m.run (askHeap (·.callable? (.object callee))) = (.ok (some (.native f)), m) := by
    rw [run_ask]
    exact congrArg (fun c => (Except.ok c, m)) callable
  change m.run (callValue (engineAt steps) (.object callee) this arguments) = _
  rw [callValue, run_bind_ok asked]
  rfl

theorem run_call_push {name : String} {construct : Option Construction} {callee : ObjectId} {n : Nat} {xs : List Value}
    (callable : (m.heap.get callee).callable? = some (.native ⟨name, .arrayPush, construct⟩))
    (room : m.callDepth < m.options.maxCallDepth) (isOpen : (m.heap.get id).Open n) (alone : m.InheritsNone id n)
    (small : n + xs.length ≤ Object.maxWord) (extensible : (m.heap.get id).extensible = true) :
    m.run ((engineAt (steps + 1)).call (.object callee) (.object id) xs) =
      (.ok (.ofNat (n + xs.length)), m.withObject id ((m.heap.get id).appendAll n xs)) := by
  have pushed := @run_push { m with callDepth := m.callDepth + 1 } (engineAt steps) id n xs isOpen alone small
    extensible
  rw [run_call_native callable, run_nested room]
  let ending (ended : Except Abrupt Value × Machine) : Except Abrupt Value × Machine :=
    (ended.1, { ended.2 with callDepth := ended.2.callDepth - 1 })
  exact congrArg ending pushed

end Machine

section

variable {x : Machine} {n i : Nat} {f : Nat → Option Value}

/-- The visit of an array with a hole by the function that adds elements to the prototype of arrays. -/
def growingVisit : Library.Visit :=
  ⟨.object ⟨14⟩, .object ⟨2⟩, ⟨15⟩⟩

/-- The objects around such a visit: so many elements were added to the prototype, and the array has not changed. -/
structure Growing (x : Machine) (n : Nat) (f : Nat → Option Value) : Prop where
  callee : (x.heap.get ⟨14⟩).callable? = some (.native ⟨"push", .arrayPush, none⟩)
  room : x.callDepth < x.options.maxCallDepth
  array : x.heap.get ⟨15⟩ = (engineWithHole "push" .arrayPush).heap.get ⟨15⟩
  copy : (x.heap.get ⟨16⟩).Sparse ⟨2⟩ 2 f
  isOpen : (x.heap.get ⟨2⟩).Open n
  extensible : (x.heap.get ⟨2⟩).extensible = true
  proto : (x.heap.get ⟨2⟩).proto = some ⟨0⟩
  top : x.heap.get ⟨0⟩ = .new .ordinary none

theorem Growing.inherits_none (growing : Growing x n f) : x.InheritsNone ⟨2⟩ n := by
  intro i _ _
  have ascends : x.heap.Ascends (some ⟨0⟩) [⟨0⟩] := by
    apply Heap.Ascends.step
    rw [growing.top]
    exact .top
  rw [growing.proto, Heap.find_eq_first ascends, List.findSome?_cons, growing.top]
  rfl

/-- A call adds three elements to the prototype, and their number is put into the new array. -/
theorem Growing.round (growing : Growing x n f) {p : Property} {v : Value} {writable : Bool}
    (found : x.heap.find? (some ⟨15⟩) (indexKey i) = some p) (kind : p.kind = .data v writable) (hole : f i = none)
    (inside : i < 2) (small : n + 3 ≤ Object.maxWord) (count : Nat) :
    ∃ called next, x.run (growingVisit.call (engineAt 100) i v) = (.ok (.ofNat (n + 3)), called) ∧
      called.heap.get ⟨15⟩ = x.heap.get ⟨15⟩ ∧
      next.heap.get ⟨2⟩ = (x.heap.get ⟨2⟩).appendAll n [v, .ofNat i, .object ⟨15⟩] ∧
      Growing next (n + 3) (Function.update f i (some (.ofNat (n + 3)))) ∧
      x.run (Library.visitElements (engineAt 100) growingVisit (Library.defineElement (engineAt 100) ⟨16⟩) i (count + 1)) =
        next.run (Library.visitElements (engineAt 100) growingVisit (Library.defineElement (engineAt 100) ⟨16⟩) (i + 1)
          count) := by
  let xs : List Value := [v, .ofNat i, .object ⟨15⟩]
  let after := x.withObject ⟨2⟩ ((x.heap.get ⟨2⟩).appendAll n xs)
  have called : x.run (growingVisit.call (engineAt 100) i v) = (.ok (.ofNat (n + 3)), after) :=
    @run_call_push x ⟨2⟩ 99 "push" none ⟨14⟩ n xs growing.callee growing.room growing.isOpen growing.inherits_none small
      growing.extensible
  have others : ∀ id : ObjectId, (⟨2⟩ : ObjectId) ≠ id → after.heap.get id = x.heap.get id :=
    fun id apart => Heap.get_set_of_ne _ apart
  have grown : after.heap.get ⟨2⟩ = (x.heap.get ⟨2⟩).appendAll n xs :=
    Heap.get_set_self _ (there_of_array growing.isOpen.array)
  have appended : (x.heap.get ⟨2⟩).Appended n xs _ := Object.appended_all growing.isOpen small
  have copy := growing.copy
  rw [← others ⟨16⟩ (by decide)] at copy
  obtain ⟨longer, defined, filled⟩ := Object.sparse_define copy (k := i) (by omega) hole (.ofNat (n + 3))
  have apart : ∀ id : ObjectId, (⟨16⟩ : ObjectId) ≠ id → (after.withObject ⟨16⟩ longer).heap.get id = after.heap.get id :=
    fun id apart => Heap.get_set_of_ne _ apart
  have placed : (after.withObject ⟨16⟩ longer).heap.get ⟨16⟩ = longer :=
    Heap.get_set_self _ (there_of_array copy.array)
  refine ⟨after, after.withObject ⟨16⟩ longer, called, others ⟨15⟩ (by decide), ?_, ?_, ?_⟩
  · rw [apart ⟨2⟩ (by decide), grown]
  · constructor
    · rw [apart ⟨14⟩ (by decide), others ⟨14⟩ (by decide)]
      exact growing.callee
    · exact growing.room
    · rw [apart ⟨15⟩ (by decide), others ⟨15⟩ (by decide)]
      exact growing.array
    · rw [placed]
      rwa [Nat.max_eq_left (by omega)] at filled
    · rw [apart ⟨2⟩ (by decide), grown]
      exact Object.open_append_all growing.isOpen xs
    · rw [apart ⟨2⟩ (by decide), grown, appended.extensible]
      exact growing.extensible
    · rw [apart ⟨2⟩ (by decide), grown, appended.proto]
      exact growing.proto
    · rw [apart ⟨0⟩ (by decide), others ⟨0⟩ (by decide)]
      exact growing.top
  · exact @run_visit_value x (engineAt 100) _ _ _ _ growingVisit _ _ _ _ _ found kind called defined

/-- Where the function adds elements to the prototype of arrays, the hole is taken for an element, and filled. -/
theorem hole_filled_from_prototype : ∃ first second third final : Machine,
    (engineWithHole "push" .arrayPush).Copyable ⟨15⟩ 2 ∧
    ((engineWithHole "push" .arrayPush).withHoles 2).run (growingVisit.call (engineAt 100) 0 .null) =
      (.ok (.ofNat 3), first) ∧
    first.heap.get ⟨15⟩ = (engineWithHole "push" .arrayPush).heap.get ⟨15⟩ ∧
    second.heap.get ⟨15⟩ = (engineWithHole "push" .arrayPush).heap.get ⟨15⟩ ∧
    second.run (growingVisit.call (engineAt 100) 1 (.ofNat 0)) = (.ok (.ofNat 6), third) ∧
    third.heap.get ⟨15⟩ = (engineWithHole "push" .arrayPush).heap.get ⟨15⟩ ∧
    (engineWithHole "push" .arrayPush).run
      (Library.map (engineAt 100) (.object ⟨15⟩) [.object ⟨14⟩, .object ⟨2⟩]) = (.ok (.object ⟨16⟩), final) ∧
    final.heap.get ⟨15⟩ = (engineWithHole "push" .arrayPush).heap.get ⟨15⟩ ∧
    ((engineWithHole "push" .arrayPush).heap.get ⟨15⟩).getOwn? (indexKey 1) = none ∧
    (final.heap.get ⟨16⟩).getOwn? (indexKey 1) = some (.data (.ofNat 6) .all) := by
  let m := engineWithHole "push" .arrayPush
  have copyable : m.Copyable ⟨15⟩ 2 := copyable_pair "push" .arrayPush
  obtain ⟨sparse, begun⟩ := @run_map_begun m (engineAt 100) ⟨15⟩ 2 [.object ⟨14⟩, .object ⟨2⟩] growingVisit
    copyable.readable rfl rfl
  have empty : ((m.withHoles 2).heap.get ⟨2⟩).Open 0 := by
    refine ⟨rfl, rfl, fun key index there isIndex => ?_⟩
    have none : ((m.withHoles 2).heap.get ⟨2⟩).getOwn? key = none :=
      (Object.get_own_set ..).trans (if_neg (Object.ne_length_of_index isIndex).symm)
    rw [none] at there
    cases there
  have growing : Growing (m.withHoles 2) 0 fun _ => none := ⟨rfl, by decide, rfl, sparse, empty, rfl, rfl, rfl⟩
  have own := get_own_of_pair "push" .arrayPush
  have apart : indexKey 0 ≠ indexKey 1 := fun same => absurd (indexKey_inj.1 same) (by decide)
  have value : (m.withHoles 2).heap.find? (some ⟨15⟩) (indexKey 0) = some (.data .null .all) := by
    rw [Heap.find?, Heap.find_from_succ, growing.array, own, if_neg (indexKey_ne_lengthKey 0).symm, if_pos rfl]
    rfl
  have hole : (m.heap.get ⟨15⟩).getOwn? (indexKey 1) = none := by
    rw [own, if_neg (indexKey_ne_lengthKey 1).symm, if_neg apart]
  have empty := growing.isOpen
  obtain ⟨first, second, called, kept, grown, growing, ran⟩ := growing.round value rfl rfl (by decide) (by decide) 1
  have inherited : second.heap.find? (some ⟨15⟩) (indexKey 1) = some (.data (.ofNat 0) .all) := by
    have link : (second.heap.get ⟨15⟩).proto = some ⟨2⟩ := by
      rw [growing.array]
      rfl
    apply Heap.find_of_proto (growing.array ▸ hole) link
    rw [grown]
    exact (Object.appended_all empty (by decide)).elements 1 (.ofNat 0) rfl
  obtain ⟨third, final, calledAgain, keptAgain, -, growing', ranOn⟩ := growing.round inherited rfl rfl (by decide)
    (by decide) 0
  refine ⟨first, second, third, final, copyable, called, kept, growing.array, calledAgain, keptAgain.trans growing.array,
    begun.trans (run_bind_ok (ran.trans ranOn) _), growing'.array, hole, growing'.copy.elements 1 (by decide)⟩

end

end ScriptEngine
