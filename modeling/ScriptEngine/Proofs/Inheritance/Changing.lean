import ScriptEngine.Proofs.Inheritance.Keys
import ScriptEngine.Proofs.Object.OwnKeys
import ScriptEngine.Session

/-!
Walks over keys while properties come and go. Whatever happens to the objects of a line between one key
and the next, as long as they stay linked as they are: a key is given at most once and only where it is
enumerable at that moment, and one that is always there to be given is given.
-/

namespace ScriptEngine

/-- The rest of a line is a line. -/
theorem Heap.ascends_of_suffix {h : Heap} {start : Option ObjectId} {ids here : List ObjectId}
    (ascends : h.Ascends start ids) (suffix : here <:+ ids) : h.Ascends here.head? here := by
  induction ascends with
  | top =>
    rw [List.eq_nil_of_suffix_nil suffix]
    exact .top
  | step line ih =>
    rcases List.suffix_cons_iff.1 suffix with rfl | higher
    · exact .step line
    · exact ih higher

theorem Heap.head_of_ascends {h : Heap} {start : Option ObjectId} {ids : List ObjectId}
    (ascends : h.Ascends start ids) : start = ids.head? := by
  cases ascends <;> rfl

namespace KeyWalk

variable {h : Heap} {w later : KeyWalk} {origin id : ObjectId} {ids nearer above : List ObjectId}
  {key : String} {got : Option String} {heaps : Nat → Heap}

/-! ## Where a walk is -/

/-- A walk is at an object of a line, or beyond the last. -/
def Along (ids : List ObjectId) (w : KeyWalk) : Prop :=
  ∃ here, here <:+ ids ∧ w.current = here.head?

theorem along_next (ends : LoopEnds (round h) w (got, later)) (ascends : h.Ascends (some origin) ids)
    (along : w.Along ids) : later.Along ids := by
  apply ends.holds (Along ids) (fun result => result.2.Along ids) along
  · rintro w next ⟨here, suffix, reached⟩ on
    obtain ⟨id, current, _, rfl⟩ := round_climbs on
    have line := Heap.ascends_of_suffix ascends suffix
    rw [← reached, current] at line
    cases line with
    | step line => exact ⟨_, (List.suffix_cons _ _).trans suffix, Heap.head_of_ascends line⟩
  · rintro w ⟨got, later⟩ along last
    rcases round_gives last with ⟨_, _, rfl⟩ | ⟨id, _, _, _, _, _, _, _, _, rfl⟩
    · exact along
    · simpa [Along] using along

theorem ascends_of_along (ascends : h.Ascends (some origin) ids) (along : w.Along ids) :
    ∃ here, h.Ascends w.current here := by
  obtain ⟨here, suffix, reached⟩ := along
  exact ⟨here, reached ▸ Heap.ascends_of_suffix ascends suffix⟩

/-! ## What a walk remembers -/

/-- The keys of the object reached are listed without repetition, and those seen before are among the
ones that the walk has passed or is to leave out. -/
structure Tidy (seen : String → Prop) (w : KeyWalk) : Prop where
  distinct : w.listed.Nodup
  unlisted : w.pending = none → w.listed = []
  passed : ∃ passed, w.listed = passed ++ w.pending.getD [] ∧
    ∀ key, seen key → key ∈ passed ∨ key ∈ w.shadowed

variable {seen : String → Prop}

theorem tidy_start (origin : ObjectId) : (start origin).Tidy fun _ => False where
  distinct := List.nodup_nil
  unlisted _ := rfl
  passed := ⟨[], rfl, fun _ no => no.elim⟩

theorem tidy_listing (tidy : w.Tidy seen) (o : Object) : (w.listing o).Tidy seen := by
  unfold listing
  split
  · exact tidy
  · rename_i unlisted
    obtain ⟨passed, listed, known⟩ := tidy.passed
    rw [tidy.unlisted unlisted] at listed
    obtain ⟨rfl, _⟩ := List.append_eq_nil_iff.1 listed.symm
    exact ⟨o.nodup_own_keys, nofun, [], rfl, known⟩

theorem tidy_climb (tidy : w.Tidy seen) (proto : Option ObjectId) : (w.climb proto).Tidy seen := by
  obtain ⟨passed, listed, known⟩ := tidy.passed
  refine ⟨List.nodup_nil, fun _ => rfl, [], rfl, ?_⟩
  intro key before
  right
  rw [climb_shadowed, List.mem_append]
  rcases known key before with here | nearer
  · left
    rw [listed]
    exact List.mem_append_left _ here
  · exact .inr nearer

/-- A key that is given was not seen before. -/
theorem tidy_behind {skipped rest : List String} (tidy : w.Tidy seen)
    (pending : w.pending = some (skipped ++ key :: rest)) (clear : key ∉ w.shadowed) :
    ¬seen key ∧ (w.behind rest).Tidy fun other => seen other ∨ other = key := by
  obtain ⟨passed, listed, known⟩ := tidy.passed
  rw [pending, Option.getD_some] at listed
  have distinct := tidy.distinct
  constructor
  · intro before
    rcases known key before with here | nearer
    · rw [listed] at distinct
      exact (List.nodup_append.1 distinct).2.2 key here key (by simp) rfl
    · exact clear nearer
  · refine ⟨distinct, nofun, passed ++ skipped ++ [key], by simp [behind, listed], ?_⟩
    rintro other (before | rfl)
    · rcases known other before with here | nearer
      · exact .inl (by simp [here])
      · exact .inr nearer
    · exact .inl (by simp)

theorem clear_of_shows {o : Object} {shadowed : List String} (shown : shows o shadowed key = true) :
    key ∉ shadowed ∧ ∃ p, o.getOwn? key = some p ∧ p.enumerable = true := by
  simpa [shows, Option.any_eq_true] using shown

/-- Keys that are given are new. -/
theorem tidy_next (ends : LoopEnds (round h) w (got, later)) (tidy : w.Tidy seen) :
    (∀ key, got = some key → ¬seen key) ∧ later.Tidy fun key => seen key ∨ got = some key := by
  apply ends.holds (Tidy seen) (fun result =>
    (∀ key, result.1 = some key → ¬seen key) ∧ result.2.Tidy fun key => seen key ∨ result.1 = some key) tidy
  · intro w next tidy on
    obtain ⟨id, _, _, rfl⟩ := round_climbs on
    exact tidy_climb (tidy_listing tidy _) _
  · rintro w ⟨got, later⟩ tidy last
    rcases round_gives last with ⟨_, rfl, rfl⟩ | ⟨id, skipped, key, rest, _, split, shown, _, rfl, rfl⟩
    · exact ⟨nofun, by simpa using tidy⟩
    · have listed := tidy_listing tidy (h.get id)
      have clear : key ∉ (w.listing (h.get id)).shadowed := by
        rw [listing_shadowed]
        exact (clear_of_shows shown).1
      obtain ⟨fresh, still⟩ := tidy_behind listed (by rw [listing_pending, split]) clear
      refine ⟨?_, ?_⟩
      · rintro other same
        rwa [← Option.some.inj same]
      · simpa [eq_comm] using still

/-- A key is given by the object that the walk is at, which has it as an enumerable property. -/
theorem given_own (ends : LoopEnds (round h) w (some key, later)) :
    ∃ id, later.current = some id ∧ ∃ p, (h.get id).getOwn? key = some p ∧ p.enumerable = true := by
  apply ends.holds (fun _ => True) (fun result => ∀ key, result.1 = some key →
    ∃ id, result.2.current = some id ∧ ∃ p, (h.get id).getOwn? key = some p ∧ p.enumerable = true) trivial
  · intro _ _ _ _
    trivial
  · rintro w ⟨got, later⟩ _ last key rfl
    rcases round_gives last with ⟨_, no, _⟩ | ⟨id, _, found, _, reached, _, shown, _, same, rfl⟩
    · cases no
    · obtain rfl := Option.some.inj same
      exact ⟨id, by simpa using reached, (clear_of_shows shown).2⟩
  · rfl

/-! ## What a walk does not miss -/

/-- A walk is still to give a key of an object of a line: it is below the object and has met the key
nowhere, or it is at the object and the key is to come. -/
def Awaits (key : String) (nearer : List ObjectId) (id : ObjectId) (above : List ObjectId)
    (w : KeyWalk) : Prop :=
  key ∉ w.shadowed ∧ ∃ before, before <:+ nearer ∧ w.current = (before ++ id :: above).head? ∧
    (before ≠ [] → key ∉ w.listed) ∧ (before = [] → ∀ keys, w.pending = some keys → key ∈ keys)

/-- An object gives a key, and no nearer one has it. -/
structure Offers (h : Heap) (key : String) (nearer : List ObjectId) (id : ObjectId) : Prop where
  own : ∃ p, (h.get id).getOwn? key = some p ∧ p.enumerable = true
  hidden : ∀ below ∈ nearer, key ∉ (h.get below).ownKeys

theorem awaits_start {beyond : List ObjectId} (line : nearer ++ id :: above = origin :: beyond) :
    (start origin).Awaits key nearer id above := by
  refine ⟨List.not_mem_nil, nearer, List.suffix_refl _, ?_, fun _ => List.not_mem_nil, nofun⟩
  rw [line]
  rfl

/-- At the object the key is to come. -/
theorem to_come_of_awaits (offers : Offers h key nearer id)
    (place : ∀ keys, w.pending = some keys → key ∈ keys) : key ∈ w.toCome (h.get id) := by
  unfold toCome
  cases pending : w.pending with
  | none =>
    obtain ⟨p, own, _⟩ := offers.own
    exact Object.mem_own_keys own
  | some keys => exact place keys pending

theorem shows_of_offers (offers : Offers h key nearer id) {shadowed : List String}
    (clear : key ∉ shadowed) : shows (h.get id) shadowed key = true := by
  obtain ⟨p, own, enumerable⟩ := offers.own
  simp [shows, clear, own, enumerable]

theorem not_mem_listing {o : Object} (unlisted : key ∉ w.listed) (other : key ∉ o.ownKeys) :
    key ∉ (w.listing o).listed := by
  unfold listing
  split
  · exact unlisted
  · exact other

/-- A walk that climbs still awaits the key. -/
theorem awaits_climb (offers : Offers h key nearer id)
    (ascends : h.Ascends (some origin) (nearer ++ id :: above)) (awaits : w.Awaits key nearer id above)
    (on : round h w = .inl later) : later.Awaits key nearer id above := by
  obtain ⟨reached, current, nothing, rfl⟩ := round_climbs on
  obtain ⟨clear, before, suffix, place, unlisted, pending⟩ := awaits
  cases before with
  | nil =>
    -- At the object itself the key would have been given.
    obtain rfl : reached = id := Option.some.inj (current.symm.trans place)
    have hidden := nothing key (to_come_of_awaits offers (pending rfl))
    rw [shows_of_offers offers clear] at hidden
    cases hidden
  | cons below before =>
    obtain rfl : reached = below := Option.some.inj (current.symm.trans place)
    have line : h.Ascends (some reached) (reached :: (before ++ id :: above)) := by
      obtain ⟨front, rfl⟩ := suffix
      rw [List.append_assoc] at ascends
      exact Heap.ascends_of_suffix ascends (List.suffix_append _ _)
    have other := offers.hidden reached (suffix.subset List.mem_cons_self)
    refine ⟨?_, before, (List.suffix_cons _ _).trans suffix, ?_, ?_, nofun⟩
    · rw [climb_shadowed, listing_shadowed, List.mem_append, not_or]
      exact ⟨not_mem_listing (unlisted (List.cons_ne_nil _ _)) other, clear⟩
    · cases line with
      | step line => exact Heap.head_of_ascends line
    · intro _
      exact List.not_mem_nil

/-- A walk that awaits a key gives it or another one, after which it still awaits it. -/
theorem awaits_next (offers : Offers h key nearer id)
    (ascends : h.Ascends (some origin) (nearer ++ id :: above)) (awaits : w.Awaits key nearer id above)
    (ends : LoopEnds (round h) w (got, later)) :
    got = some key ∨ (got ≠ none ∧ later.Awaits key nearer id above) := by
  apply ends.holds (Awaits key nearer id above) (fun result =>
    result.1 = some key ∨ (result.1 ≠ none ∧ result.2.Awaits key nearer id above)) awaits
  · intro w next awaits on
    exact awaits_climb offers ascends awaits on
  · rintro w ⟨got, later⟩ ⟨clear, before, suffix, place, unlisted, pending⟩ last
    rcases round_gives last with
      ⟨ended, _, _⟩ | ⟨reached, skipped, found, rest, current, split, shown, hidden, rfl, rfl⟩
    · rw [ended] at place
      cases before <;> cases place
    · cases before with
      | nil =>
        obtain rfl : reached = id := Option.some.inj (current.symm.trans place)
        have toCome := to_come_of_awaits offers (pending rfl)
        rw [split, List.mem_append, List.mem_cons] at toCome
        rcases toCome with passed | rfl | ahead
        · have unseen := hidden key passed
          rw [shows_of_offers offers clear] at unseen
          cases unseen
        · exact .inl rfl
        · refine .inr ⟨nofun, by simpa using clear, [], List.nil_suffix, by simpa using place,
            fun no => absurd rfl no, ?_⟩
          intro _ keys same
          rwa [← Option.some.inj same]
      | cons below before =>
        obtain rfl : reached = below := Option.some.inj (current.symm.trans place)
        have other := offers.hidden reached (suffix.subset List.mem_cons_self)
        refine .inr ⟨nofun, by simpa using clear, reached :: before, suffix, by simpa using place, ?_, nofun⟩
        intro nonempty
        exact not_mem_listing (unlisted nonempty) other

/-! ## Many keys, one after the other -/

/-- The walk after it was asked for a key in each of the first `n` heaps. -/
def after (heaps : Nat → Heap) (w : KeyWalk) : Nat → KeyWalk
  | 0 => w
  | n + 1 => ((after heaps w n).next (heaps n)).2

/-- What it gives in a heap; none when it is over. -/
def given (heaps : Nat → Heap) (w : KeyWalk) (n : Nat) : Option String :=
  ((after heaps w n).next (heaps n)).1

/-- What comes after the first heaps is a walk on from there. -/
theorem given_add (heaps : Nat → Heap) (w : KeyWalk) (n m : Nat) :
    given heaps w (n + m) = given (fun m => heaps (n + m)) (after heaps w n) m := by
  have same : after heaps w (n + m) = after (fun m => heaps (n + m)) (after heaps w n) m := by
    induction m with
    | zero => rfl
    | succ m ih => rw [← Nat.add_assoc, after, ih, after]
  rw [given, same, given]

theorem given_succ (heaps : Nat → Heap) (w : KeyWalk) (n : Nat) :
    given heaps w (n + 1) = given (fun n => heaps (n + 1)) (w.next (heaps 0)).2 n := by
  rw [Nat.add_comm, given_add]
  simp only [Nat.add_comm 1]
  rfl

/-- Beyond the last object no key is given. -/
theorem given_top (heaps : Nat → Heap) (ended : w.current = none) (n : Nat) : given heaps w n = none := by
  induction n generalizing heaps with
  | zero => rw [given, after, next, next_within_top _ ended]
  | succ n ih =>
    rw [given_succ, next, next_within_top _ ended]
    exact ih _

/-- Where no key is found the walk is beyond the last object. -/
theorem top_of_none (ends : LoopEnds (round h) w (none, later)) : later.current = none := by
  apply ends.holds (fun _ => True) (fun result => result.1 = none → result.2.current = none) trivial
  · intro _ _ _ _
    trivial
  · rintro w ⟨got, later⟩ _ last rfl
    rcases round_gives last with ⟨top, _, rfl⟩ | ⟨_, _, _, _, _, _, _, _, no, _⟩
    · exact top
    · cases no
  · rfl

section Steady

/-! Heaps in which an object always has the same line. -/

variable (steady : ∀ n, (heaps n).Ascends (some origin) ids)

include steady

theorem along_after (n : Nat) (along : w.Along ids) : (after heaps w n).Along ids := by
  induction n with
  | zero => exact along
  | succ n ih =>
    obtain ⟨here, line⟩ := ascends_of_along (steady n) ih
    exact along_next (next_ends line) (steady n) ih

/-- Each key is found by rounds that go on until there is one. -/
theorem ends_after (n : Nat) (along : w.Along ids) :
    LoopEnds (round (heaps n)) (after heaps w n) (given heaps w n, after heaps w (n + 1)) := by
  obtain ⟨here, line⟩ := ascends_of_along (steady n) (along_after steady n along)
  exact next_ends line

theorem tidy_after (n : Nat) (along : w.Along ids) (tidy : w.Tidy fun _ => False) :
    (after heaps w n).Tidy fun key => ∃ m < n, given heaps w m = some key := by
  induction n with
  | zero => simpa [after] using tidy
  | succ n ih =>
    obtain ⟨_, still⟩ := tidy_next (ends_after steady n along) ih
    have same : ∀ key, (∃ m < n + 1, given heaps w m = some key) ↔
        (∃ m < n, given heaps w m = some key) ∨ given heaps w n = some key := by
      intro key
      simp only [Nat.lt_succ_iff_lt_or_eq, or_and_right, exists_or, exists_eq_left]
    simpa only [same] using still

/-- No key is given twice. -/
theorem given_once (along : w.Along ids) (tidy : w.Tidy fun _ => False) {m n : Nat}
    (first : given heaps w m = some key) (second : given heaps w n = some key) : m = n := by
  have fresh : ∀ {early late : Nat}, given heaps w early = some key → given heaps w late = some key →
      ¬early < late := by
    intro early late before again less
    obtain ⟨new, _⟩ := tidy_next (ends_after steady late along) (tidy_after steady late along tidy)
    exact new key again ⟨early, less, before⟩
  exact Nat.le_antisymm (Nat.le_of_not_lt (fresh second first)) (Nat.le_of_not_lt (fresh first second))

/-- A walk that awaits a key gives it in some heap or still awaits it. -/
theorem awaits_after (line : ids = nearer ++ id :: above) (offers : ∀ n, Offers (heaps n) key nearer id)
    (along : w.Along ids) (awaits : w.Awaits key nearer id above) (n : Nat) :
    (∃ m, given heaps w m = some key) ∨ (after heaps w n).Awaits key nearer id above := by
  subst line
  induction n with
  | zero => exact .inr awaits
  | succ n ih =>
    rcases ih with found | still
    · exact .inl found
    · rcases awaits_next (offers n) (steady n) still (ends_after steady n along) with now | ⟨_, still⟩
      · exact .inl ⟨n, now⟩
      · exact .inr still

omit steady in
/-- A walk at an object gives its keys and climbs, or gives no more. -/
theorem over_of_at {here : List ObjectId} (lines : ∀ n, (heaps n).Ascends here.head? here)
    (reached : w.current = here.head?) : ∃ n, given heaps w n = none := by
  induction here generalizing w heaps with
  | nil =>
    refine ⟨0, ?_⟩
    have ended : w.next (heaps 0) = (none, w) := next_within_top _ reached
    rw [given, after, ended]
  | cons id above ih =>
    have onward : ∀ n, (heaps n).Ascends above.head? above := fun n =>
      Heap.ascends_of_suffix (lines n) (List.suffix_cons _ _)
    -- With each key fewer of the object are to come.
    generalize many : (w.toCome ((heaps 0).get id)).length = count
    induction count using Nat.strongRecOn generalizing w heaps with
    | _ count ihCount =>
      have line := lines 0
      rcases round_cases (h := heaps 0) reached with ⟨_, climbs⟩ | ⟨skipped, key, rest, split, _, _, gives⟩
      · cases line with
        | step higher =>
          have leads := Heap.head_of_ascends higher
          obtain ⟨n, ended⟩ := ih onward (w := (w.listing ((heaps 0).get id)).climb ((heaps 0).get id).proto) leads
          have same : w.next (heaps 0) =
              ((w.listing ((heaps 0).get id)).climb ((heaps 0).get id).proto).next (heaps 0) :=
            next_eq (reached ▸ lines 0) (.again climbs (next_ends higher))
          refine ⟨n, ?_⟩
          cases n with
          | zero =>
            rw [given, after] at ended ⊢
            rwa [same]
          | succ n =>
            rw [given_succ] at ended ⊢
            rwa [same]
      · have found := next_eq (reached ▸ lines 0) (.stop gives)
        have fewer : rest.length < count := by
          rw [← many, split, List.length_append, List.length_cons]
          omega
        obtain ⟨n, ended⟩ : ∃ n, given (fun n => heaps (n + 1))
            ((w.listing ((heaps 0).get id)).behind rest) n = none := by
          apply ihCount rest.length fewer
          · intro n
            exact lines (n + 1)
          · simpa using reached
          · intro n
            exact onward (n + 1)
          · simp
        refine ⟨n + 1, ?_⟩
        rwa [given_succ, found]

/-- Every walk is over at some point. -/
theorem exists_over (along : w.Along ids) : ∃ n, given heaps w n = none := by
  obtain ⟨here, suffix, reached⟩ := along
  exact over_of_at (fun n => Heap.ascends_of_suffix (steady n) suffix) reached

/-- A key that is always there to be given is given. -/
theorem given_of_awaits (line : ids = nearer ++ id :: above) (offers : ∀ n, Offers (heaps n) key nearer id)
    (along : w.Along ids) (awaits : w.Awaits key nearer id above) : ∃ n, given heaps w n = some key := by
  obtain ⟨n, ended⟩ := exists_over steady along
  rcases awaits_after steady line offers along awaits n with found | still
  · exact found
  · subst line
    rcases awaits_next (offers n) (steady n) still (ends_after steady n along) with now | ⟨more, _⟩
    · exact ⟨n, now⟩
    · exact absurd ended more

/-- Once a walk gives no key it is over. -/
theorem stays_over (along : w.Along ids) {n m : Nat} (ended : given heaps w n = none) (le : n ≤ m) :
    given heaps w m = none := by
  rcases Nat.eq_or_lt_of_le le with rfl | less
  · exact ended
  · obtain ⟨further, rfl⟩ := Nat.exists_eq_add_of_le less
    rw [given_add]
    apply given_top
    have ends := ends_after steady n along
    rw [ended] at ends
    exact top_of_none ends

end Steady

/-! ## From the beginning -/

theorem origin_next_within (h : Heap) (fuel : Nat) (w : KeyWalk) :
    (nextWithin h fuel w).2.origin = w.origin := by
  induction fuel generalizing w with
  | zero => rfl
  | succ fuel ih =>
    cases reached : w.current with
    | none => rw [next_within_top _ reached]
    | some id =>
      rw [next_within_succ _ reached]
      rcases round_cases (h := h) reached with ⟨_, climbs⟩ | ⟨_, _, rest, _, _, _, gives⟩
      · rw [climbs]
        exact (ih _).trans (listing_origin ..)
      · rw [gives]
        exact listing_origin ..

/-- A walk over the keys of an object at any time: keys may have been asked for in any heaps, and it may
have been begun again. -/
inductive Walked (origin : ObjectId) : KeyWalk → Prop
  | start : Walked origin (.start origin)
  | next {w : KeyWalk} (h : Heap) (walked : Walked origin w) : Walked origin (w.next h).2
  | restart {w : KeyWalk} (walked : Walked origin w) : Walked origin w.restart

/-- Begun again, a walk is as it was at first. -/
theorem restart_eq (walked : Walked origin w) : w.restart = start origin := by
  have same : w.origin = origin := by
    induction walked with
    | start => rfl
    | next h _ ih => exact (origin_next_within h _ _).trans ih
    | restart _ ih => exact ih
  rw [restart, same]

/-- A walk in a heap that stays as it is gives the keys that are listed. -/
theorem given_of_lists {keys : List String} (lists : Lists h w keys) (ascends : h.Ascends w.current ids)
    (n : Nat) : given (fun _ => h) w n = keys[n]? := by
  induction lists generalizing ids n with
  | ended ends =>
    cases n with
    | zero => simp [given, after, next_eq ascends ends]
    | succ n =>
      rw [given_succ, next_eq ascends ends, List.getElem?_nil]
      exact given_top _ (top_of_none ends) n
  | more ends rest ih =>
    cases n with
    | zero => simp [given, after, next_eq ascends ends]
    | succ n =>
      obtain ⟨higher, line⟩ := ascends_after ends ascends
      rw [given_succ, next_eq ascends ends, List.getElem?_cons_succ]
      exact ih line n

/-- What a walk gives when it is asked for a key in each of some heaps that have the same line: without
changes the keys in their order, and with any changes no key twice, only keys that the object reached
has at that moment, all that are always there to be given, and nothing for ever at some point. -/
structure Visits (heaps : Nat → Heap) (ids : List ObjectId) (w : KeyWalk) : Prop where
  unchanged : ∀ h, (∀ n, heaps n = h) → ∀ n, given heaps w n = (h.visibleKeys [] ids)[n]?
  once : ∀ key m n, given heaps w m = some key → given heaps w n = some key → m = n
  current : ∀ key n, given heaps w n = some key →
    ∃ id ∈ ids, (after heaps w (n + 1)).current = some id ∧
      ∃ p, ((heaps n).get id).getOwn? key = some p ∧ p.enumerable = true
  complete : ∀ nearer id above key, ids = nearer ++ id :: above →
    (∀ n, Offers (heaps n) key nearer id) → ∃ n, given heaps w n = some key
  ended : ∃ n, ∀ m, n ≤ m → given heaps w m = none

theorem visits_of_start {heaps : Nat → Heap} (steady : ∀ n, (heaps n).Ascends (some origin) ids) :
    Visits heaps ids (start origin) := by
  have along : (start origin).Along ids := ⟨ids, List.suffix_refl _, Heap.head_of_ascends (steady 0)⟩
  constructor
  · intro h same n
    obtain rfl : heaps = fun _ => h := funext same
    have lists := lists_enumerate (steady 0)
    rw [Heap.enumerate_visible (steady 0)] at lists
    exact given_of_lists lists (steady 0) n
  · intro key m n first second
    exact given_once steady along (tidy_start origin) first second
  · intro key n found
    have ends := ends_after steady n along
    rw [found] at ends
    obtain ⟨id, reached, own⟩ := given_own ends
    obtain ⟨here, suffix, place⟩ := along_after steady (n + 1) along
    rw [reached] at place
    exact ⟨id, suffix.subset (List.mem_of_head? place.symm), reached, own⟩
  · intro nearer id above key line offers
    apply given_of_awaits steady line offers along
    cases steady 0 with
    | step _ => exact awaits_start line.symm
  · obtain ⟨n, ended⟩ := exists_over steady along
    exact ⟨n, fun m le => stays_over steady along ended le⟩

/-- A loop over the keys of an object sees, object by object, the enumerable keys that no nearer object
has, those of the object itself being the ones that `Object.keys` gives. If properties change between
one key and the next, it sees what it should as well as can be, from the beginning and whenever it is begun
again. -/
theorem enumeration_visits {heaps : Nat → Heap} (walked : Walked origin w)
    (steady : ∀ n, (heaps n).Ascends (some origin) ids) :
    (∀ n, (heaps n).enumerate origin = (heaps n).visibleKeys [] ids) ∧
      (∀ n, (heaps n).visibleKeys [] ids =
        Library.enumerableKeys ((heaps n).get origin) ++ (heaps n).visibleKeys [origin] ids.tail) ∧
      (∀ m : Machine, m.run (Library.keys [.object origin]) =
        m.run (Library.textArray (Library.enumerableKeys (m.heap.get origin)))) ∧
      Visits heaps ids w.restart := by
  refine ⟨fun n => Heap.enumerate_visible (steady n), ?_, fun m => rfl, ?_⟩
  · intro n
    cases steady n with
    | step _ => simp [Heap.visibleKeys]
  · rw [restart_eq walked]
    exact visits_of_start steady

/-- An object with two properties that inherits from one with another; after a first moment the second
of its properties is gone. -/
def losing (n : Nat) : Heap :=
  let parent := (Object.new .ordinary none).setData "a" .undefined .all
  let child := (Object.new .ordinary (some ⟨0⟩)).setData "b" .undefined .all
  ⟨#[parent, if n = 0 then child.setData "c" .undefined .all else child]⟩

/-- What is gone before its turn is left out, and what is inherited comes next, and only once. -/
theorem enumeration_visits_losing :
    given losing (start ⟨1⟩) 0 = some "b" ∧ given losing (start ⟨1⟩) 1 = some "a" ∧
      ∀ n, given losing (start ⟨1⟩) n = some "a" → n = 1 := by
  have steady : ∀ n, (losing n).Ascends (some ⟨1⟩) [⟨1⟩, ⟨0⟩] := by
    intro n
    apply Heap.Ascends.step
    have link : ((losing n).get ⟨1⟩).proto = some ⟨0⟩ := by
      cases n <;> rfl
    rw [link]
    exact .step .top
  have second : given losing (start ⟨1⟩) 1 = some "a" := by decide +kernel
  have visits := (enumeration_visits .start steady).2.2.2
  refine ⟨by decide +kernel, second, ?_⟩
  intro n found
  exact visits.once "a" n 1 found second

end KeyWalk
end ScriptEngine
