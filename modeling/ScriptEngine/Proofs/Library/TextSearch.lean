import ScriptEngine.Library.Strings
import ScriptEngine.Proofs.Evaluation.Outcome
import ScriptEngine.Proofs.Number.Places
import ScriptEngine.Proofs.Text.Occurrence

/-!
Searching strings and taking parts of them. The position that a script gives is a place in the string: a number without
its fraction, moved to the nearest end if it lies outside. The search forward starts there, the one backward ends there.

An array of units is read by its places, and a place outside must not be read. The methods are written a second time
with this checked wherever they take a part or a difference, and it is shown that no check ever fails.
-/

namespace ScriptEngine

open Text Number

namespace Text

variable {needle haystack units : List UInt16} {places : List Nat} {start bound first last place : Nat}

/-! ## Parts with their bounds checked -/

/-- The difference of two numbers, if the second is not the greater one. -/
def difference? (a b : Nat) : Option Nat :=
  if b ≤ a then some (a - b) else none

/-- The units from one place up to another, if these are places of the list in this order. -/
def slice? (units : List UInt16) (first last : Nat) : Option (List UInt16) :=
  if first ≤ last ∧ last ≤ units.length then some ((units.take last).drop first) else none

/-- The first among some places where a list stands; nothing if the part at one of them is not in the text. -/
def firstAmong? (needle haystack : List UInt16) : List Nat → Option (Option Nat)
  | [] => some none
  | place :: rest => do
    let part ← slice? haystack place (place + needle.length)
    if part = needle then some (some place) else firstAmong? needle haystack rest

/-- The search forward by places. -/
def findFromChecked? (needle haystack : List UInt16) (start : Nat) : Option (Option Nat) :=
  if haystack.length < needle.length then some none
  else do
    let last ← difference? haystack.length needle.length
    firstAmong? needle haystack (List.range' start (last + 1 - start))

/-- The search backward by places. -/
def findLastChecked? (needle haystack : List UInt16) (bound : Nat) : Option (Option Nat) :=
  if haystack.length < needle.length then some none
  else do
    let last ← difference? haystack.length needle.length
    firstAmong? needle haystack (List.range (Min.min bound last + 1)).reverse

theorem slice_of_le (ordered : first ≤ last) (inside : last ≤ units.length) :
    slice? units first last = some ((units.take last).drop first) :=
  if_pos ⟨ordered, inside⟩

theorem slice_one (inside : place < units.length) : slice? units place (place + 1) = some [units[place]] := by
  rw [slice_of_le (Nat.le_add_right place 1) inside, List.drop_take, Nat.add_sub_cancel_left,
    List.drop_eq_getElem_cons inside, List.take_succ_cons, List.take_zero]

theorem difference_of_le {a b : Nat} (le : b ≤ a) : difference? a b = some (a - b) :=
  if_pos le

/-- As long as the parts are in the text, the places are looked at one by one. -/
theorem first_among (inside : ∀ place ∈ places, place + needle.length ≤ haystack.length) :
    firstAmong? needle haystack places = some (places.find? fun place => Occurs needle haystack place) := by
  induction places with
  | nil => rfl
  | cons place rest ih =>
    have here := inside place List.mem_cons_self
    have part : (haystack.take (place + needle.length)).drop place = needle ↔ Occurs needle haystack place := by
      rw [List.drop_take, Nat.add_sub_cancel_left, occurs_iff_drop, List.prefix_iff_eq_take]
      exact ⟨fun same => ⟨by omega, same.symm⟩, fun occurs => occurs.2.symm⟩
    rw [firstAmong?, slice_of_le (Nat.le_add_right ..) here, Option.bind_eq_bind, Option.bind_some, List.find?_cons]
    by_cases occurs : Occurs needle haystack place
    · rw [if_pos (part.2 occurs), decide_eq_true occurs]
    · rw [if_neg (mt part.1 occurs), decide_eq_false occurs,
        ih fun other mem => inside other (List.mem_cons_of_mem _ mem)]

section

variable {p : Nat → Prop} [DecidablePred p]

theorem holds_of_find (found : places.find? (fun i => p i) = some place) : p place ∧ place ∈ places :=
  ⟨by simpa using List.find?_some found, List.mem_of_find?_eq_some found⟩

theorem none_of_find (found : places.find? (fun i => p i) = none) : {i | p i ∧ i ∈ places} = ∅ :=
  Set.eq_empty_of_forall_notMem fun i mem => absurd (decide_eq_true mem.1) (List.find?_eq_none.1 found i mem.2)

/-- What a search in a list finds stands before all else that it looks for. -/
theorem before_of_find {r : Nat → Nat → Prop} (ordered : places.Pairwise r)
    (found : places.find? (fun i => p i) = some place) {other : Nat} (mem : other ∈ places) (holds : p other) :
    other = place ∨ r place other := by
  obtain ⟨-, before, after, rfl, none⟩ := List.find?_eq_some_iff_append.1 found
  rcases List.mem_append.1 mem with early | late
  · have not : ¬ p other := by simpa using none other early
    exact absurd holds not
  · rcases List.mem_cons.1 late with same | late
    · exact .inl same
    · exact .inr ((List.pairwise_cons.1 (List.pairwise_append.1 ordered).2.1).1 other late)

/-- The search through growing places finds the first one, -/
theorem find_first_among (ordered : places.Pairwise (· < ·)) :
    FirstOf {i | p i ∧ i ∈ places} (places.find? fun i => p i) := by
  cases found : places.find? fun i => p i with
  | none => exact none_of_find found
  | some place =>
    exact ⟨holds_of_find found, fun _ mem => (before_of_find ordered found mem.2 mem.1).elim (·.ge) Nat.le_of_lt⟩

/-- and through shrinking places the last one. -/
theorem find_last_among (ordered : places.Pairwise (· > ·)) :
    LastOf {i | p i ∧ i ∈ places} (places.find? fun i => p i) := by
  cases found : places.find? fun i => p i with
  | none => exact none_of_find found
  | some place =>
    exact ⟨holds_of_find found, fun _ mem => (before_of_find ordered found mem.2 mem.1).elim (·.le) Nat.le_of_lt⟩

end

theorem find_from_checked (within : start ≤ haystack.length) :
    findFromChecked? needle haystack start = some (findFrom? needle haystack start) := by
  have first := find_from_first needle within
  unfold findFromChecked?
  split
  · next long =>
    have none : {i | Occurs needle haystack i ∧ start ≤ i} = ∅ := by
      refine Set.eq_empty_of_forall_notMem fun i mem => ?_
      have inside := mem.1.inside
      omega
    rw [first.eq_none_iff.2 none]
  · next short =>
    have fits : needle.length ≤ haystack.length := Nat.not_lt.1 short
    rw [difference_of_le fits, Option.bind_eq_bind, Option.bind_some, first_among]
    · refine congrArg some (FirstOf.unique ?_ first)
      have places : {i | Occurs needle haystack i ∧ start ≤ i} =
          {i | Occurs needle haystack i ∧ i ∈ List.range' start (haystack.length - needle.length + 1 - start)} := by
        ext i
        refine and_congr_right fun occurs => ?_
        have inside := occurs.inside
        rw [List.mem_range'_1]
        omega
      exact places ▸ find_first_among List.pairwise_lt_range'
    · intro place mem
      rw [List.mem_range'_1] at mem
      omega

theorem find_last_checked (needle haystack : List UInt16) (bound : Nat) :
    findLastChecked? needle haystack bound = some (findLast? needle haystack bound) := by
  have last := find_last_last needle haystack bound
  unfold findLastChecked?
  split
  · next long =>
    have none : {i | Occurs needle haystack i ∧ i ≤ bound} = ∅ := by
      refine Set.eq_empty_of_forall_notMem fun i mem => ?_
      have inside := mem.1.inside
      omega
    rw [last.eq_none_iff.2 none]
  · next short =>
    have fits : needle.length ≤ haystack.length := Nat.not_lt.1 short
    rw [difference_of_le fits, Option.bind_eq_bind, Option.bind_some, first_among]
    · refine congrArg some (LastOf.unique ?_ last)
      have places : {i | Occurs needle haystack i ∧ i ≤ bound} = {i | Occurs needle haystack i ∧
          i ∈ (List.range (Min.min bound (haystack.length - needle.length) + 1)).reverse} := by
        ext i
        refine and_congr_right fun occurs => ?_
        have inside := occurs.inside
        rw [List.mem_reverse, List.mem_range]
        omega
      exact places ▸ find_last_among (List.pairwise_reverse.2 List.pairwise_lt_range)
    · intro place mem
      rw [List.mem_reverse, List.mem_range] at mem
      omega

end Text

namespace Library

variable (engine : Engine) (this : Value) (arguments : List Value)

/-! ## The methods with their bounds checked -/

/-- Every method takes its part only where its bounds are places of the string, and gives nothing otherwise. -/
def charAtChecked : Eval (Option Value) := do
  let text ← thisText engine this
  let place ← toInteger engine (argument arguments 0)
  let units := Text.units text
  if place.lt .zero || (Number.ofNat units.length).le place then return some (.string "")
  else return (slice? units place.wholePart (place.wholePart + 1)).map (.string <| ofUnits ·)

def charCodeAtChecked : Eval (Option Value) := do
  let text ← thisText engine this
  let place ← toInteger engine (argument arguments 0)
  let units := Text.units text
  if place.lt .zero || (Number.ofNat units.length).le place then return some (.number .nan)
  else return units[place.wholePart]?.map (.ofNat ·.toNat)

def sliceChecked : Eval (Option Value) := do
  let units := Text.units (← thisText engine this)
  let (first, last) ← bounds engine units.length arguments
  let first := first.relativeTo units.length
  let last := last.relativeTo units.length
  if last ≤ first then return some (.string "")
  else return (slice? units first last).map (.string <| ofUnits ·)

def substringChecked : Eval (Option Value) := do
  let units := Text.units (← thisText engine this)
  let (first, last) ← bounds engine units.length arguments
  let a := first.clampTo units.length
  let b := last.clampTo units.length
  return (slice? units (Min.min a b) (Max.max a b)).map (.string <| ofUnits ·)

def indexOfChecked : Eval (Option Value) := do
  let text ← thisText engine this
  let search ← toText engine (argument arguments 0)
  let place ← toInteger engine (argument arguments 1)
  let units := Text.units text
  return (findFromChecked? (Text.units search) units (place.clampTo units.length)).map placeOrMissing

def lastIndexOfChecked : Eval (Option Value) := do
  let text ← thisText engine this
  let search ← toText engine (argument arguments 0)
  let bound ← toNumber engine (argument arguments 1)
  let units := Text.units text
  let place := if bound.isNaN then units.length else bound.clampTo units.length
  return (findLastChecked? (Text.units search) units place).map placeOrMissing

/-- No method that searches a string or takes a part of it ever looks at a place outside. -/
structure StaysInText : Prop where
  charAt : charAtChecked engine this arguments = some <$> charAt engine this arguments
  charCodeAt : charCodeAtChecked engine this arguments = some <$> charCodeAt engine this arguments
  slice : sliceChecked engine this arguments = some <$> sliceText engine this arguments
  substring : substringChecked engine this arguments = some <$> substring engine this arguments
  indexOf : indexOfChecked engine this arguments = some <$> indexOf engine this arguments
  lastIndexOf : lastIndexOfChecked engine this arguments = some <$> lastIndexOf engine this arguments

variable {place : Number} {units : List UInt16}

theorem unit_at_outside (outside : (place.lt .zero || (Number.ofNat units.length).le place) = true) :
    unitAt? units place = none :=
  if_pos outside

/-- A place that the guard lets pass is one of the string. -/
theorem unit_at_inside (number : place ≠ .nan)
    (inside : ¬ (place.lt .zero || (Number.ofNat units.length).le place) = true) :
    ∃ within : place.wholePart < units.length, unitAt? units place = some units[place.wholePart] := by
  have both : place.lt .zero = false ∧ (Number.ofNat units.length).le place = false := by simpa using inside
  have within := wholePart_lt number both.1 both.2
  exact ⟨within, by rw [unitAt?, if_neg inside, List.getElem?_eq_getElem within]⟩

theorem between_nothing {first last : Nat} (none : last ≤ first) : between units first last = "" := by
  rw [between, List.drop_eq_nil_of_le (Nat.le_trans (List.length_take_le ..) none)]
  rfl

theorem stays_in_text : StaysInText engine this arguments where
  charAt := by
    unfold charAtChecked charAt toInteger
    simp only [map_bind, bind_assoc, pure_bind]
    refine bind_congr fun text => bind_congr fun number => ?_
    split
    · next outside =>
      rw [unit_at_outside outside]
      rfl
    · next inside =>
      obtain ⟨within, unit⟩ := unit_at_inside (toInteger_ne_nan number) inside
      rw [unit, slice_one within]
      rfl
  charCodeAt := by
    unfold charCodeAtChecked charCodeAt toInteger
    simp only [map_bind, bind_assoc, pure_bind]
    refine bind_congr fun text => bind_congr fun number => ?_
    split
    · next outside =>
      rw [unit_at_outside outside]
      rfl
    · next inside =>
      obtain ⟨within, unit⟩ := unit_at_inside (toInteger_ne_nan number) inside
      rw [unit, List.getElem?_eq_getElem within]
      rfl
  slice := by
    unfold sliceChecked sliceText
    simp only [map_bind, map_pure]
    refine bind_congr fun text => bind_congr fun places => ?_
    split
    · next none => rw [between_nothing none]
    · next some => rw [slice_of_le (Nat.le_of_not_le some) (relativeTo_le ..), between, Option.map_some]
  substring := by
    unfold substringChecked substring
    simp only [map_bind, map_pure]
    refine bind_congr fun text => bind_congr fun places => ?_
    have inside (x : Number) : x.clampTo (Text.units text).length ≤ (Text.units text).length :=
      clampTo_eq _ x ▸ placeIn_le _ x
    rw [slice_of_le (by omega) (Nat.max_le.2 ⟨inside _, inside _⟩), between, Option.map_some]
  indexOf := by
    unfold indexOfChecked indexOf
    simp only [map_bind, map_pure]
    refine bind_congr fun text => bind_congr fun search => bind_congr fun place => ?_
    rw [find_from_checked (clampTo_eq _ place ▸ placeIn_le _ place), Option.map_some]
  lastIndexOf := by
    unfold lastIndexOfChecked lastIndexOf
    simp only [map_bind, map_pure]
    refine bind_congr fun text => bind_congr fun search => bind_congr fun bound => ?_
    rw [find_last_checked, Option.map_some]

end Library

/-! ## Search -/

/-- The last place that a search backward may find: what is not a number does not bound it. -/
def Number.boundIn (length : Nat) (x : Number) : Nat :=
  if x.isNaN then length else placeIn length x

section

variable (engine : Engine) (m : Machine) (s t : String) (x : Number)

theorem run_index_of :
    m.run (Library.indexOf engine (.string s) [.string t, .number x]) =
      (.ok (Library.placeOrMissing (findFrom? (units t) (units s) (placeIn (units s).length x))), m) := by
  have runs : m.run (Library.indexOf engine (.string s) [.string t, .number x]) =
    (.ok (Library.placeOrMissing (findFrom? (units t) (units s) (x.toInteger.clampTo (units s).length))), m) := rfl
  rw [runs, clampTo_eq, placeIn_toInteger]

theorem run_last_index_of :
    m.run (Library.lastIndexOf engine (.string s) [.string t, .number x]) =
      (.ok (Library.placeOrMissing (findLast? (units t) (units s) (boundIn (units s).length x))), m) := by
  rw [boundIn, ← clampTo_eq]
  rfl

/-- Without a position the whole string is searched, forward and backward. -/
theorem run_index_of_all :
    m.run (Library.indexOf engine (.string s) [.string t]) =
      (.ok (Library.placeOrMissing (findFrom? (units t) (units s) 0)), m) :=
  run_index_of engine m s t .nan

theorem run_last_index_of_all :
    m.run (Library.lastIndexOf engine (.string s) [.string t]) =
      (.ok (Library.placeOrMissing (findLast? (units t) (units s) (units s).length)), m) :=
  run_last_index_of engine m s t .nan

end

theorem missing_iff (found : Option Nat) :
    Library.placeOrMissing found = .number (.ofInt (-1)) ↔ found = none := by
  cases found with
  | none => exact iff_of_true rfl rfl
  | some place =>
    refine iff_of_false (fun same => ?_) (by simp)
    have same : Number.ofNat place = .ofInt (-1) := by injection same
    have sign := congrArg Number.isNegative same
    rw [isNegative_ofNat] at sign
    exact absurd sign (by decide)

/-- The search forward gives the least place of a string from the position on, and the search backward the greatest one
up to it, or minus one if there is none; without a position, both fail together. No place outside the string is looked
at on the way, nor by the methods that take parts, and in a string whose length is a number the places that bound them
are what the operations on numbers give. -/
theorem searches_find_nearest_places (engine : Engine) (m : Machine) (s t : String) :
    (∀ x : Number, ∃ first last,
      FirstOf {i | Occurs (units t) (units s) i ∧ placeIn (units s).length x ≤ i} first ∧
      LastOf {i | Occurs (units t) (units s) i ∧ i ≤ boundIn (units s).length x} last ∧
      m.run (Library.indexOf engine (.string s) [.string t, .number x]) = (.ok (Library.placeOrMissing first), m) ∧
      m.run (Library.lastIndexOf engine (.string s) [.string t, .number x]) =
        (.ok (Library.placeOrMissing last), m)) ∧
    (∃ first last,
      m.run (Library.indexOf engine (.string s) [.string t]) = (.ok first, m) ∧
      m.run (Library.lastIndexOf engine (.string s) [.string t]) = (.ok last, m) ∧
      (first = .number (.ofInt (-1)) ↔ last = .number (.ofInt (-1)))) ∧
    (∀ this arguments, Library.StaysInText engine this arguments) ∧
    ((units s).length < mantissaLimit → ∀ x : Number,
      x.toInteger.clampTo (units s).length =
        (min (max x.toInteger zero) (ofNat (units s).length)).wholePart ∧
      x.toInteger.relativeTo (units s).length =
        (if lt x.toInteger zero then max (add (ofNat (units s).length) x.toInteger) zero
          else min x.toInteger (ofNat (units s).length)).wholePart) := by
  refine ⟨fun x => ?_, ?_, Library.stays_in_text engine, fun small x => ?_⟩
  · exact ⟨_, _, find_from_first _ (placeIn_le ..), find_last_last .., run_index_of engine m s t x,
      run_last_index_of engine m s t x⟩
  · refine ⟨_, _, run_index_of_all engine m s t, run_last_index_of_all engine m s t, ?_⟩
    have last := find_last_last (units t) (units s) (units s).length
    have everywhere :
        {i | Occurs (units t) (units s) i ∧ i ≤ (units s).length} = {i | Occurs (units t) (units s) i} := by
      ext i
      refine and_iff_left_of_imp fun occurs => ?_
      have inside := occurs.inside
      omega
    rw [everywhere] at last
    rw [missing_iff, missing_iff, (find_first ..).eq_none_iff, last.eq_none_iff]
  · exact ⟨clampTo_eq_min small (toInteger_ne_nan x), relativeTo_eq_add small x⟩

/-- From one and a half on nothing is found, but the search starts at one. -/
theorem search_drops_fraction :
    {i | Occurs (units "b") (units "abc") i ∧
      le (min (max (div (ofNat 3) (ofNat 2)) zero) (ofNat (units "abc").length)) (ofNat i) = true} = ∅ ∧
    (Machine.bare {}).run (Library.indexOf (engineAt 1) (.string "abc")
      [.string "b", .number (div (ofNat 3) (ofNat 2))]) = (.ok (.ofNat 1), Machine.bare {}) := by
  constructor
  · refine Set.eq_empty_of_forall_notMem fun i mem => ?_
    have outside : ∀ i < 3, ¬ (Occurs (units "b") (units "abc") i ∧
        le (min (max (div (ofNat 3) (ofNat 2)) zero) (ofNat (units "abc").length)) (ofNat i) = true) := by
      decide +kernel
    exact outside i (Nat.lt_of_succ_le mem.1.inside) mem
  · rw [run_index_of]
    have found :
        findFrom? (units "b") (units "abc") (placeIn (units "abc").length (div (ofNat 3) (ofNat 2))) = some 1 := by
      decide +kernel
    rw [found]
    rfl

end ScriptEngine
