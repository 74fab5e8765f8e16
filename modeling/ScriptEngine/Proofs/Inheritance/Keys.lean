import ScriptEngine.KeyWalk
import ScriptEngine.Library.Reflection
import ScriptEngine.Proofs.Inheritance.Loops

/-!
Walks over keys, round by round. From any object that has a line a walk gives its keys one by one and
then ends; if nothing changes meanwhile they are, object by object, the enumerable keys that no nearer
object has.
-/

namespace ScriptEngine
namespace KeyWalk

variable {h : Heap} {w later : KeyWalk} {id : ObjectId} {ids above : List ObjectId} {key : String}
  {given : Option String}

/-! ## Rounds -/

/-- The walk with the keys of the object that it has reached listed. -/
def listing (w : KeyWalk) (o : Object) : KeyWalk :=
  match w.pending with
  | some _ => w
  | none => { w with pending := some o.ownKeys, listed := o.ownKeys }

/-- The keys of the object reached that are still to come. -/
def toCome (w : KeyWalk) (o : Object) : List String :=
  w.pending.getD o.ownKeys

/-- The walk with some keys of the object still to come. -/
def behind (w : KeyWalk) (rest : List String) : KeyWalk :=
  { w with pending := some rest }

/-- The walk at the next object, for which all keys of this one are shadowed. -/
def climb (w : KeyWalk) (proto : Option ObjectId) : KeyWalk :=
  { w with current := proto, pending := none, listed := [], shadowed := w.listed ++ w.shadowed }

@[simp] theorem listing_current (w : KeyWalk) (o : Object) : (w.listing o).current = w.current := by
  unfold listing; split <;> rfl

@[simp] theorem listing_shadowed (w : KeyWalk) (o : Object) :
    (w.listing o).shadowed = w.shadowed := by
  unfold listing; split <;> rfl

@[simp] theorem listing_origin (w : KeyWalk) (o : Object) : (w.listing o).origin = w.origin := by
  unfold listing; split <;> rfl

@[simp] theorem listing_pending (w : KeyWalk) (o : Object) :
    (w.listing o).pending = some (w.toCome o) := by
  unfold listing toCome; split <;> simp [*]

@[simp] theorem behind_current (w : KeyWalk) (rest : List String) :
    (w.behind rest).current = w.current := rfl

@[simp] theorem behind_shadowed (w : KeyWalk) (rest : List String) :
    (w.behind rest).shadowed = w.shadowed := rfl

@[simp] theorem behind_listed (w : KeyWalk) (rest : List String) :
    (w.behind rest).listed = w.listed := rfl

@[simp] theorem to_come_behind (w : KeyWalk) (rest : List String) (o : Object) :
    (w.behind rest).toCome o = rest := rfl

@[simp] theorem listing_behind (w : KeyWalk) (rest : List String) (o : Object) :
    (w.behind rest).listing o = w.behind rest := rfl

@[simp] theorem climb_current (w : KeyWalk) (proto : Option ObjectId) :
    (w.climb proto).current = proto := rfl

@[simp] theorem climb_shadowed (w : KeyWalk) (proto : Option ObjectId) :
    (w.climb proto).shadowed = w.listed ++ w.shadowed := rfl

@[simp] theorem climb_to_come (w : KeyWalk) (proto : Option ObjectId) (o : Object) :
    (w.climb proto).toCome o = o.ownKeys := rfl

/-- One round of the way to the next key: it is at the object reached, or the walk goes on to the next
object. -/
def round (h : Heap) (w : KeyWalk) : KeyWalk ⊕ (Option String × KeyWalk) :=
  match w.current with
  | none => .inr (none, w)
  | some id =>
    match nextOwn (h.get id) w.shadowed (w.toCome (h.get id)) with
    | some (key, rest) => .inr (some key, (w.listing (h.get id)).behind rest)
    | none => .inl ((w.listing (h.get id)).climb (h.get id).proto)

theorem round_top (ended : w.current = none) : round h w = .inr (none, w) := by
  rw [round, ended]

theorem next_within_top (fuel : Nat) (ended : w.current = none) : nextWithin h fuel w = (none, w) := by
  obtain ⟨origin, current, pending, listed, shadowed⟩ := w
  obtain rfl : current = none := ended
  cases fuel <;> rfl

theorem next_within_succ (fuel : Nat) (reached : w.current = some id) :
    nextWithin h (fuel + 1) w =
      match round h w with
      | .inl w => nextWithin h fuel w
      | .inr result => result := by
  obtain ⟨origin, current, pending, listed, shadowed⟩ := w
  obtain rfl : current = some id := reached
  -- Only whether the keys are listed and which of them is next decides.
  cases pending with
  | none =>
    simp only [nextWithin, round, listing, toCome, Option.getD_some, Option.getD_none]
    cases nextOwn (h.get id) shadowed (h.get id).ownKeys <;> rfl
  | some keys =>
    simp only [nextWithin, round, listing, toCome, Option.getD_some]
    cases nextOwn (h.get id) shadowed keys <;> rfl

/-! ## What is given at an object -/

/-- A walk gives a key at an object: it is enumerable there and not shadowed. -/
def shows (o : Object) (shadowed : List String) (key : String) : Bool :=
  !shadowed.contains key && (o.getOwn? key).any (·.enumerable)

/-- The first key that is given, if any is; those before it are not. -/
theorem next_own_cases (o : Object) (shadowed keys : List String) :
    (nextOwn o shadowed keys = none ∧ ∀ key ∈ keys, shows o shadowed key = false) ∨
      ∃ skipped key rest, keys = skipped ++ key :: rest ∧ nextOwn o shadowed keys = some (key, rest) ∧
        shows o shadowed key = true ∧ ∀ other ∈ skipped, shows o shadowed other = false := by
  induction keys with
  | nil => exact .inl ⟨rfl, by simp⟩
  | cons first rest ih =>
    by_cases shown : shows o shadowed first = true
    · exact .inr ⟨[], first, rest, rfl, if_pos shown, shown, by simp⟩
    · have onward : nextOwn o shadowed (first :: rest) = nextOwn o shadowed rest := if_neg shown
      rw [Bool.not_eq_true] at shown
      rcases ih with ⟨nothing, hidden⟩ | ⟨skipped, key, behind, rfl, found, visible, hidden⟩
      · exact .inl ⟨onward.trans nothing, List.forall_mem_cons.2 ⟨shown, hidden⟩⟩
      · exact .inr ⟨first :: skipped, key, behind, rfl, onward.trans found, visible,
          List.forall_mem_cons.2 ⟨shown, hidden⟩⟩

/-- What a round does at an object. -/
theorem round_cases (reached : w.current = some id) :
    ((∀ key ∈ w.toCome (h.get id), shows (h.get id) w.shadowed key = false) ∧
      round h w = .inl ((w.listing (h.get id)).climb (h.get id).proto)) ∨
    ∃ skipped key rest, w.toCome (h.get id) = skipped ++ key :: rest ∧
      shows (h.get id) w.shadowed key = true ∧
      (∀ other ∈ skipped, shows (h.get id) w.shadowed other = false) ∧
      round h w = .inr (some key, (w.listing (h.get id)).behind rest) := by
  rcases next_own_cases (h.get id) w.shadowed (w.toCome (h.get id)) with
    ⟨nothing, hidden⟩ | ⟨skipped, key, rest, split, found, shown, hidden⟩
  · exact .inl ⟨hidden, by simp only [round, reached, nothing]⟩
  · exact .inr ⟨skipped, key, rest, split, shown, hidden, by simp only [round, reached, found]⟩

/-- A round after which the walk goes on climbs. -/
theorem round_climbs (on : round h w = .inl later) :
    ∃ id, w.current = some id ∧ (∀ key ∈ w.toCome (h.get id), shows (h.get id) w.shadowed key = false) ∧
      later = (w.listing (h.get id)).climb (h.get id).proto := by
  cases reached : w.current with
  | none => rw [round_top reached] at on; cases on
  | some id =>
    rcases round_cases (h := h) reached with ⟨hidden, climbs⟩ | ⟨_, _, _, _, _, _, gives⟩
    · rw [climbs] at on
      exact ⟨id, rfl, hidden, (Sum.inl.inj on).symm⟩
    · rw [gives] at on
      cases on

/-- The last round finds the walk at its end or a key. -/
theorem round_gives (last : round h w = .inr (given, later)) :
    (w.current = none ∧ given = none ∧ later = w) ∨
    ∃ id skipped key rest, w.current = some id ∧ w.toCome (h.get id) = skipped ++ key :: rest ∧
      shows (h.get id) w.shadowed key = true ∧
      (∀ other ∈ skipped, shows (h.get id) w.shadowed other = false) ∧
      given = some key ∧ later = (w.listing (h.get id)).behind rest := by
  cases reached : w.current with
  | none =>
    rw [round_top reached] at last
    obtain ⟨nothing, same⟩ := Prod.mk.inj (Sum.inr.inj last)
    exact .inl ⟨rfl, nothing.symm, same.symm⟩
  | some id =>
    rcases round_cases (h := h) reached with ⟨_, climbs⟩ | ⟨skipped, key, rest, split, shown, hidden, gives⟩
    · rw [climbs] at last
      cases last
    · rw [gives] at last
      obtain ⟨gave, same⟩ := Prod.mk.inj (Sum.inr.inj last)
      exact .inr ⟨id, skipped, key, rest, rfl, split, shown, hidden, gave.symm, same.symm⟩

/-! ## The next key -/

theorem next_ends_within (ascends : h.Ascends w.current ids) {fuel : Nat} (enough : ids.length ≤ fuel) :
    LoopEnds (round h) w (nextWithin h fuel w) := by
  generalize reached : w.current = start at ascends
  induction ascends generalizing w fuel with
  | top =>
    rw [next_within_top fuel reached]
    exact .stop (round_top reached)
  | @step id above line ih =>
    cases fuel with
    | zero => exact absurd enough (Nat.not_succ_le_zero _)
    | succ fuel =>
      rw [next_within_succ fuel reached]
      rcases round_cases (h := h) reached with ⟨_, on⟩ | ⟨_, key, rest, _, _, _, last⟩
      · rw [on]
        exact .again on (ih (Nat.le_of_succ_le_succ enough) rfl)
      · rw [last]
        exact .stop last

/-- The way to the next key ends. -/
theorem next_ends (ascends : h.Ascends w.current ids) : LoopEnds (round h) w (w.next h) :=
  next_ends_within ascends (Heap.length_le ascends)

theorem next_eq (ascends : h.Ascends w.current ids) {result : Option String × KeyWalk}
    (ends : LoopEnds (round h) w result) : w.next h = result :=
  (next_ends ascends).unique ends

/-- Where a key is given the line goes on. -/
theorem ascends_after (ends : LoopEnds (round h) w (given, later)) (ascends : h.Ascends w.current ids) :
    ∃ rest, h.Ascends later.current rest := by
  apply ends.holds (fun w => ∃ ids, h.Ascends w.current ids)
    (fun result => ∃ rest, h.Ascends result.2.current rest) ⟨ids, ascends⟩
  · rintro w next ⟨ids, ascends⟩ on
    obtain ⟨id, reached, _, rfl⟩ := round_climbs on
    rw [reached] at ascends
    cases ascends with
    | step line => exact ⟨_, line⟩
  · rintro w ⟨given, later⟩ ⟨ids, ascends⟩ last
    rcases round_gives last with ⟨_, _, rfl⟩ | ⟨id, _, _, _, _, _, _, _, _, rfl⟩
    · exact ⟨ids, ascends⟩
    · exact ⟨ids, by simpa using ascends⟩

/-! ## All keys, one after the other -/

/-- A walk gives some keys one after the other and is over then, if nothing changes meanwhile. -/
inductive Lists (h : Heap) : KeyWalk → List String → Prop
  | ended {w last : KeyWalk} (ends : LoopEnds (round h) w (none, last)) : Lists h w []
  | more {w later : KeyWalk} {key : String} {keys : List String}
      (ends : LoopEnds (round h) w (some key, later)) (rest : Lists h later keys) :
      Lists h w (key :: keys)

theorem lists_of_climb {keys : List String} (on : round h w = .inl later) (rest : Lists h later keys) :
    Lists h w keys := by
  cases rest with
  | ended ends => exact .ended (.again on ends)
  | more ends rest => exact .more (.again on ends) rest

/-- The keys that are given along a line below which some are shadowed. -/
def keysAlong (h : Heap) (shadowed : List String) : List ObjectId → List String
  | [] => []
  | id :: above =>
    (h.get id).ownKeys.filter (shows (h.get id) shadowed) ++
      keysAlong h ((h.get id).ownKeys ++ shadowed) above

/-- The keys that a walk has still to give along a line. -/
def left (h : Heap) (w : KeyWalk) : List ObjectId → List String
  | [] => []
  | id :: above =>
    (w.toCome (h.get id)).filter (shows (h.get id) w.shadowed) ++
      keysAlong h ((w.listing (h.get id)).listed ++ w.shadowed) above

theorem left_of_not_listed (unlisted : w.pending = none) (ids : List ObjectId) :
    left h w ids = keysAlong h w.shadowed ids := by
  cases ids with
  | nil => rfl
  | cons id above => simp only [left, keysAlong, toCome, listing, unlisted, Option.getD_none]

/-- From every walk keys are given until it is over. -/
theorem lists_left (ascends : h.Ascends w.current ids) : Lists h w (left h w ids) := by
  generalize reached : w.current = start at ascends
  induction ascends generalizing w with
  | top => exact .ended (.stop (round_top reached))
  | @step id above line ih =>
    -- The keys that the object still gives become fewer with each that is given.
    generalize shown : (w.toCome (h.get id)).filter (shows (h.get id) w.shadowed) = here
    induction here generalizing w with
    | nil =>
      rcases round_cases (h := h) reached with ⟨_, climbs⟩ | ⟨skipped, key, rest, split, visible, _, _⟩
      · have rest := ih (w := (w.listing (h.get id)).climb (h.get id).proto) rfl
        rw [left_of_not_listed rfl] at rest
        rw [left, shown, List.nil_append]
        simpa using lists_of_climb climbs rest
      · rw [split] at shown
        simp [visible] at shown
    | cons key here ihHere =>
      rcases round_cases (h := h) reached with ⟨hidden, _⟩ | ⟨skipped, first, rest, split, visible, hidden, found⟩
      · rw [List.filter_eq_nil_iff.2 (by simpa using hidden)] at shown
        cases shown
      · have later := ihHere (w := (w.listing (h.get id)).behind rest) (by simpa using reached)
        rw [split, List.filter_append, List.filter_eq_nil_iff.2 (by simpa using hidden),
          List.nil_append, List.filter_cons_of_pos visible] at shown
        obtain ⟨rfl, others⟩ := List.cons.inj shown
        have further := later (by simpa using others)
        rw [left, split, List.filter_append, List.filter_eq_nil_iff.2 (by simpa using hidden),
          List.nil_append, List.filter_cons_of_pos visible, List.cons_append]
        apply Lists.more (.stop found)
        simpa [left] using further

/-! ## The bounded enumeration -/

theorem collect_eq {keys : List String} (ascends : h.Ascends w.current ids) (lists : Lists h w keys)
    {fuel : Nat} (enough : keys.length < fuel) : collect h fuel w = keys := by
  induction lists generalizing ids fuel with
  | ended ends =>
    cases fuel with
    | zero => exact absurd enough (Nat.not_lt_zero _)
    | succ fuel => rw [collect, next_eq ascends ends]
  | more ends rest ih =>
    cases fuel with
    | zero => exact absurd enough (Nat.not_lt_zero _)
    | succ fuel =>
      obtain ⟨higher, onward⟩ := ascends_after ends ascends
      rw [collect, next_eq ascends ends]
      exact congrArg _ (ih onward (Nat.lt_of_succ_lt_succ enough))

theorem length_keys_along_le (h : Heap) (shadowed : List String) (ids : List ObjectId) :
    (keysAlong h shadowed ids).length ≤
      ids.foldr (fun o count => (h.get o).ownKeys.length + count) 0 := by
  induction ids generalizing shadowed with
  | nil => exact Nat.le_refl _
  | cons id above ih =>
    rw [keysAlong, List.length_append, List.foldr_cons]
    exact Nat.add_le_add (List.length_filter_le _ _) (ih _)

/-- The bounded enumeration leaves no key out. -/
theorem enumerate_eq (ascends : h.Ascends (some id) ids) : h.enumerate id = keysAlong h [] ids := by
  have lists := lists_left (w := start id) ascends
  rw [left_of_not_listed rfl] at lists
  apply collect_eq ascends lists
  rw [Heap.keyCount, Heap.chain_eq ascends]
  exact Nat.lt_succ_of_le (length_keys_along_le h [] ids)

theorem lists_enumerate (ascends : h.Ascends (some id) ids) : Lists h (start id) (h.enumerate id) := by
  have lists := lists_left (w := start id) ascends
  rw [left_of_not_listed rfl] at lists
  rwa [enumerate_eq ascends]

end KeyWalk

/-! ## Keys that nearer objects hide -/

/-- The enumerable keys of the objects of a line, object by object, without those that an object below
has, be they enumerable there or not. -/
def Heap.visibleKeys (h : Heap) (nearer : List ObjectId) : List ObjectId → List String
  | [] => []
  | id :: above =>
    (Library.enumerableKeys (h.get id)).filter
        (fun key => nearer.all fun below => !(h.get below).ownKeys.contains key) ++
      h.visibleKeys (id :: nearer) above

theorem KeyWalk.keys_along_eq_visible {h : Heap} {shadowed : List String} {nearer : List ObjectId}
    (ids : List ObjectId)
    (same : ∀ key, key ∈ shadowed ↔ ∃ below ∈ nearer, key ∈ (h.get below).ownKeys) :
    keysAlong h shadowed ids = h.visibleKeys nearer ids := by
  induction ids generalizing shadowed nearer with
  | nil => rfl
  | cons id above ih =>
    have higher : ∀ key, key ∈ (h.get id).ownKeys ++ shadowed ↔
        ∃ below ∈ id :: nearer, key ∈ (h.get below).ownKeys := by
      intro key
      rw [List.mem_append, same, List.exists_mem_cons_iff]
    rw [keysAlong, Heap.visibleKeys, ih higher, Library.enumerableKeys, List.filter_filter]
    congr 1
    apply List.filter_congr
    intro key _
    have hidden : shadowed.contains key = !nearer.all fun below => !(h.get below).ownKeys.contains key := by
      rw [Bool.eq_iff_iff]
      simp [same]
    rw [shows, hidden, Bool.not_not]

/-- What an enumeration gives if nothing changes meanwhile. -/
theorem Heap.enumerate_visible {h : Heap} {id : ObjectId} {ids : List ObjectId}
    (ascends : h.Ascends (some id) ids) : h.enumerate id = h.visibleKeys [] ids := by
  rw [KeyWalk.enumerate_eq ascends]
  exact KeyWalk.keys_along_eq_visible ids (by simp)

end ScriptEngine
