import Mathlib.Order.Bounds.Image
import ScriptEngine.Text.Search

/-!
Where a list of code units occurs in another one. The two scans for it find the least place of this kind from a start
on, and the greatest one up to a bound.
-/

namespace ScriptEngine.Text

variable {needle haystack : List UInt16} {u : UInt16} {place : Nat}

/-- A list occurs in another one at a place, before which as many units stand. -/
def Occurs (needle haystack : List UInt16) (place : Nat) : Prop :=
  ∃ before after, before ++ needle ++ after = haystack ∧ before.length = place

/-- What occurs in a list ends in it. -/
theorem Occurs.inside (occurs : Occurs needle haystack place) : place + needle.length ≤ haystack.length := by
  obtain ⟨before, after, rfl, rfl⟩ := occurs
  simp

theorem occurs_zero_iff : Occurs needle haystack 0 ↔ needle <+: haystack := by
  constructor
  · rintro ⟨before, after, rfl, none⟩
    rw [List.eq_nil_of_length_eq_zero none]
    exact ⟨after, rfl⟩
  · rintro ⟨after, rfl⟩
    exact ⟨[], after, rfl, rfl⟩

theorem occurs_succ_iff : Occurs needle (u :: haystack) (place + 1) ↔ Occurs needle haystack place := by
  constructor
  · rintro ⟨before, after, same, length⟩
    cases before with
    | nil => cases length
    | cons v before =>
      cases same
      exact ⟨before, after, rfl, Nat.succ_inj.1 length⟩
  · rintro ⟨before, after, rfl, rfl⟩
    exact ⟨u :: before, after, rfl, rfl⟩

theorem occurs_nil_iff : Occurs needle [] place ↔ needle = [] ∧ place = 0 := by
  constructor
  · rintro ⟨before, after, same, rfl⟩
    rw [List.append_eq_nil_iff, List.append_eq_nil_iff] at same
    rw [same.1.1]
    exact ⟨same.1.2, rfl⟩
  · rintro ⟨rfl, rfl⟩
    exact occurs_zero_iff.2 List.nil_prefix

/-- The units from a place on begin with those that occur there. -/
theorem occurs_iff_drop : Occurs needle haystack place ↔ place ≤ haystack.length ∧ needle <+: haystack.drop place := by
  constructor
  · rintro ⟨before, after, rfl, rfl⟩
    rw [List.append_assoc, List.drop_left]
    exact ⟨by simp, List.prefix_append needle after⟩
  · rintro ⟨inside, after, same⟩
    refine ⟨haystack.take place, after, ?_, List.length_take_of_le inside⟩
    rw [List.append_assoc, same, List.take_append_drop]

instance (needle haystack : List UInt16) (place : Nat) : Decidable (Occurs needle haystack place) :=
  decidable_of_iff _ occurs_iff_drop.symm

/-! ## First and last places -/

/-- The least number of a set, if there is one. -/
def FirstOf (places : Set Nat) : Option Nat → Prop
  | some place => IsLeast places place
  | none => places = ∅

/-- The greatest number of a set, if there is one. -/
def LastOf (places : Set Nat) : Option Nat → Prop
  | some place => IsGreatest places place
  | none => places = ∅

variable {places : Set Nat} {found : Option Nat} {count : Nat → Nat}

/-- The first place stays the first one when all are counted in another way. -/
theorem FirstOf.map (first : FirstOf places found) (grows : Monotone count) :
    FirstOf (count '' places) (found.map count) := by
  cases found with
  | none =>
    have none : places = ∅ := first
    exact none ▸ Set.image_empty count
  | some place => exact grows.map_isLeast first

theorem LastOf.map (last : LastOf places found) (grows : Monotone count) :
    LastOf (count '' places) (found.map count) := by
  cases found with
  | none =>
    have none : places = ∅ := last
    exact none ▸ Set.image_empty count
  | some place => exact grows.map_isGreatest last

theorem FirstOf.eq_none_iff (first : FirstOf places found) : found = none ↔ places = ∅ := by
  cases found with
  | none => exact iff_of_true rfl first
  | some place =>
    refine iff_of_false (by simp) ?_
    rintro rfl
    exact first.1

theorem LastOf.eq_none_iff (last : LastOf places found) : found = none ↔ places = ∅ := by
  cases found with
  | none => exact iff_of_true rfl last
  | some place =>
    refine iff_of_false (by simp) ?_
    rintro rfl
    exact last.1

theorem FirstOf.eq_some {place : Nat} (first : FirstOf places found) (least : IsLeast places place) :
    found = some place := by
  cases found with
  | none => exact absurd (Set.nonempty_of_mem least.1) (Set.not_nonempty_iff_eq_empty.2 first)
  | some other => rw [first.unique least]

theorem LastOf.eq_some {place : Nat} (last : LastOf places found) (greatest : IsGreatest places place) :
    found = some place := by
  cases found with
  | none => exact absurd (Set.nonempty_of_mem greatest.1) (Set.not_nonempty_iff_eq_empty.2 last)
  | some other => rw [last.unique greatest]

theorem FirstOf.unique {other : Option Nat} (first : FirstOf places found) (again : FirstOf places other) :
    found = other := by
  cases other with
  | none => exact first.eq_none_iff.2 again
  | some place => exact first.eq_some again

theorem LastOf.unique {other : Option Nat} (last : LastOf places found) (again : LastOf places other) :
    found = other := by
  cases other with
  | none => exact last.eq_none_iff.2 again
  | some place => exact last.eq_some again

/-! ## The scans -/

/-- A list that does not begin a text occurs in it just where it occurs behind the first unit. -/
theorem places_behind (other : ¬ needle <+: u :: haystack) :
    {i | Occurs needle (u :: haystack) i} = Nat.succ '' {i | Occurs needle haystack i} := by
  ext i
  cases i with
  | zero => simp [occurs_zero_iff, other]
  | succ i => simp [occurs_succ_iff]

theorem find_at_first (needle haystack : List UInt16) (index : Nat) :
    ∃ found, FirstOf {i | Occurs needle haystack i} found ∧
      findAt? needle index haystack = found.map (index + ·) := by
  induction haystack generalizing index with
  | nil =>
    by_cases empty : needle = []
    · refine ⟨some 0, ⟨occurs_nil_iff.2 ⟨empty, rfl⟩, fun _ _ => Nat.zero_le _⟩, ?_⟩
      simp [findAt?, empty]
    · refine ⟨none, Set.eq_empty_of_forall_notMem fun i mem => empty (occurs_nil_iff.1 mem).1, ?_⟩
      simp [findAt?, empty]
  | cons u rest ih =>
    by_cases here : needle <+: u :: rest
    · refine ⟨some 0, ⟨occurs_zero_iff.2 here, fun _ _ => Nat.zero_le _⟩, ?_⟩
      rw [findAt?, if_pos (List.isPrefixOf_iff_prefix.2 here)]
      rfl
    · obtain ⟨found, first, same⟩ := ih (index + 1)
      refine ⟨found.map Nat.succ, places_behind here ▸ first.map fun _ _ => Nat.succ_le_succ, ?_⟩
      rw [findAt?, if_neg (mt List.isPrefixOf_iff_prefix.1 here), same, Option.map_map]
      congr 1
      funext i
      exact Nat.add_right_comm index 1 i

/-- The scan forward finds the least place from its start on. -/
theorem find_from_first (needle : List UInt16) {haystack : List UInt16} {start : Nat}
    (inside : start ≤ haystack.length) :
    FirstOf {i | Occurs needle haystack i ∧ start ≤ i} (findFrom? needle haystack start) := by
  obtain ⟨found, first, same⟩ := find_at_first needle (haystack.drop start) start
  have places : {i | Occurs needle haystack i ∧ start ≤ i} =
      (start + ·) '' {i | Occurs needle (haystack.drop start) i} := by
    ext i
    simp only [Set.mem_ofPred_eq, Set.mem_image, occurs_iff_drop, List.length_drop, List.drop_drop]
    constructor
    · rintro ⟨⟨within, occurs⟩, behind⟩
      exact ⟨i - start, ⟨by omega, by rwa [Nat.add_sub_of_le behind]⟩, by omega⟩
    · rintro ⟨j, ⟨within, occurs⟩, rfl⟩
      exact ⟨⟨by omega, occurs⟩, Nat.le_add_right start j⟩
  rw [findFrom?, same, places]
  exact first.map fun _ _ less => Nat.add_le_add_left less start

/-- The scan from the front finds the least place of all. -/
theorem find_first (needle haystack : List UInt16) :
    FirstOf {i | Occurs needle haystack i} (findFrom? needle haystack 0) := by
  simpa only [Nat.zero_le, and_true] using find_from_first needle (Nat.zero_le haystack.length)

theorem find_last_at_last (needle haystack : List UInt16) (bound index : Nat) (before : Option Nat) :
    ∃ found, LastOf {i | Occurs needle haystack i ∧ index + i ≤ bound} found ∧
      findLastAt? needle bound index before haystack = (found.map (index + ·)).or before := by
  induction haystack generalizing index before with
  | nil =>
    by_cases here : index ≤ bound ∧ needle = []
    · refine ⟨some 0, ⟨⟨occurs_nil_iff.2 ⟨here.2, rfl⟩, here.1⟩, fun i mem => ?_⟩, by simp [findLastAt?, here]⟩
      exact (occurs_nil_iff.1 mem.1).2.le
    · refine ⟨none, Set.eq_empty_of_forall_notMem fun i mem => here ?_, ?_⟩
      · obtain ⟨empty, rfl⟩ := occurs_nil_iff.1 mem.1
        exact ⟨mem.2, empty⟩
      · have none : (decide (index ≤ bound) && needle.isEmpty) = false := by simpa using here
        simp [findLastAt?, none]
  | cons u rest ih =>
    by_cases beyond : bound < index
    · refine ⟨none, Set.eq_empty_of_forall_notMem fun i mem => ?_, by simp [findLastAt?, beyond]⟩
      exact absurd mem.2 (by omega)
    · -- What is found behind the first unit counts more than that it begins here.
      obtain ⟨later, last, same⟩ := ih (index + 1)
        (if needle.isPrefixOf (u :: rest) then some index else before)
      have behind (i : Nat) : (Occurs needle (u :: rest) (i + 1) ∧ index + (i + 1) ≤ bound) ↔
          Occurs needle rest i ∧ index + 1 + i ≤ bound := by
        rw [occurs_succ_iff, Nat.add_right_comm, Nat.add_assoc]
      rw [findLastAt?, if_neg beyond]
      dsimp only
      rw [same]
      cases later with
      | some place =>
        refine ⟨some (place + 1), ⟨(behind place).2 last.1, fun i mem => ?_⟩, ?_⟩
        · cases i with
          | zero => exact Nat.zero_le _
          | succ i => exact Nat.succ_le_succ (last.2 ((behind i).1 mem))
        · simp only [Option.map_some, Option.some_or, Nat.add_right_comm, Nat.add_assoc]
      | none =>
        have none : {i | Occurs needle rest i ∧ index + 1 + i ≤ bound} = ∅ := last
        have first (i : Nat) (mem : Occurs needle (u :: rest) i ∧ index + i ≤ bound) : i = 0 := by
          cases i with
          | zero => rfl
          | succ i => exact absurd (none ▸ (behind i).1 mem : i ∈ (∅ : Set Nat)) (Set.notMem_empty i)
        by_cases here : needle <+: u :: rest
        · refine ⟨some 0, ⟨⟨occurs_zero_iff.2 here, by omega⟩, fun i mem => (first i mem).le⟩, ?_⟩
          rw [if_pos (List.isPrefixOf_iff_prefix.2 here)]
          rfl
        · refine ⟨Option.none, Set.eq_empty_of_forall_notMem fun i mem => here ?_, ?_⟩
          · rw [← occurs_zero_iff, ← first i mem]
            exact mem.1
          · rw [if_neg (mt List.isPrefixOf_iff_prefix.1 here)]
            rfl

/-- The scan for the last place finds the greatest one up to its bound. -/
theorem find_last_last (needle haystack : List UInt16) (bound : Nat) :
    LastOf {i | Occurs needle haystack i ∧ i ≤ bound} (findLast? needle haystack bound) := by
  obtain ⟨found, last, same⟩ := find_last_at_last needle haystack bound 0 none
  simp only [Nat.zero_add, Option.map_id', Option.or_none] at last same
  rwa [findLast?, same]

end ScriptEngine.Text
