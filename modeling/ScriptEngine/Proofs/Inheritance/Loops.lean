import ScriptEngine.Evaluation.Operator
import ScriptEngine.Proofs.Inheritance.Lineage

/-!
The loops that go up the line of an object, round by round and without a bound on the number of rounds.
Where an object has a line each of them ends, and with what the bounded search gives. What is found
from a new object on is what it has, or else what was found from its prototype on.
-/

namespace ScriptEngine

/-- A loop that goes on from state to state until it has a result ends with that result. -/
inductive LoopEnds {σ β : Type} (round : σ → σ ⊕ β) : σ → β → Prop
  | stop {s : σ} {b : β} (last : round s = .inr b) : LoopEnds round s b
  | again {s next : σ} {b : β} (on : round s = .inl next) (rest : LoopEnds round next b) :
      LoopEnds round s b

/-- A loop has one result. -/
theorem LoopEnds.unique {σ β : Type} {round : σ → σ ⊕ β} {s : σ} {b c : β} (first : LoopEnds round s b)
    (second : LoopEnds round s c) : b = c := by
  induction first with
  | stop last =>
    cases second with
    | stop also => exact Sum.inr.inj (last.symm.trans also)
    | again on _ => rw [last] at on; cases on
  | again on _ ih =>
    cases second with
    | stop also => rw [on] at also; cases also
    | again also rest =>
      obtain rfl := Sum.inl.inj (on.symm.trans also)
      exact ih rest

/-- What each round keeps, and what the last one makes of it, holds of the result. -/
theorem LoopEnds.holds {σ β : Type} {round : σ → σ ⊕ β} {s : σ} {b : β} (ends : LoopEnds round s b)
    (kept : σ → Prop) (result : β → Prop) (first : kept s)
    (keeps : ∀ s next, kept s → round s = .inl next → kept next)
    (gives : ∀ s b, kept s → round s = .inr b → result b) : result b := by
  induction ends with
  | stop last => exact gives _ _ first last
  | again on _ ih => exact ih (keeps _ _ first on)

namespace Heap

variable {h : Heap} {start : Option ObjectId} {ids : List ObjectId}

/-- One round of the search for a property: at an object that has it the search is over. -/
def findRound (h : Heap) (key : String) : Option ObjectId → Option ObjectId ⊕ Option Property
  | none => .inr none
  | some id =>
    match (h.get id).getOwn? key with
    | some p => .inr (some p)
    | none => .inl (h.get id).proto

/-- One round of the search for an object: at that object the search is over. -/
def searchRound (h : Heap) (wanted : ObjectId) : Option ObjectId → Option ObjectId ⊕ Bool
  | none => .inr false
  | some id => if id = wanted then .inr true else .inl (h.get id).proto

/-- One round of the way to the function that one with bound arguments calls in the end. -/
def targetRound (h : Heap) (id : ObjectId) : ObjectId ⊕ ObjectId :=
  match (h.get id).callable? with
  | some (.bound f) => .inl f.target
  | _ => .inr id

theorem find_ends_within (ascends : h.Ascends start ids) (key : String) {fuel : Nat}
    (enough : ids.length ≤ fuel) : LoopEnds (h.findRound key) start (h.findFrom? key fuel start) := by
  induction ascends generalizing fuel with
  | top => cases fuel <;> exact .stop rfl
  | @step id above line ih =>
    cases fuel with
    | zero => exact absurd enough (Nat.not_succ_le_zero _)
    | succ fuel =>
      have further := ih (Nat.le_of_succ_le_succ enough)
      cases own : (h.get id).getOwn? key with
      | some p =>
        apply LoopEnds.stop
        simp only [findRound, findFrom?, own]
      | none =>
        have on : h.findRound key (some id) = .inl (h.get id).proto := by simp only [findRound, own]
        apply LoopEnds.again on
        simpa only [findFrom?, own] using further

/-- The search for a property ends. -/
theorem find_ends (ascends : h.Ascends start ids) (key : String) :
    LoopEnds (h.findRound key) start (h.find? start key) :=
  find_ends_within ascends key (length_le ascends)

/-- The search for an object ends. -/
theorem search_ends (ascends : h.Ascends start ids) (wanted : ObjectId) :
    LoopEnds (h.searchRound wanted) start ((h.chain start).contains wanted) := by
  rw [chain_eq ascends]
  induction ascends with
  | top => exact .stop rfl
  | @step id above line ih =>
    by_cases same : id = wanted
    · apply LoopEnds.stop
      simp [searchRound, same]
    · have on : h.searchRound wanted (some id) = .inl (h.get id).proto := if_neg same
      apply LoopEnds.again on
      simpa [List.contains_cons, Ne.symm same] using ih

/-- Functions with bound arguments come after the functions they call. -/
def TargetsOlder (h : Heap) : Prop :=
  ∀ id f, (h.get id).callable? = some (.bound f) → f.target.index < id.index

/-- A new object comes after all that there are. -/
theorem targets_older_add (older : h.TargetsOlder) {o : Object}
    (aimed : ∀ f, o.callable? = some (.bound f) → h.Holds f.target) : (h.add o).2.TargetsOlder := by
  intro other f bound
  by_cases new : other = (h.add o).1
  · rw [new, get_add_self] at bound
    rw [new]
    exact aimed f bound
  · rw [get_add_of_ne new] at bound
    exact older other f bound

theorem targets_older_set (older : h.TargetsOlder) {id : ObjectId} {o : Object}
    (aimed : ∀ f, o.callable? = some (.bound f) → f.target.index < id.index) : (h.set id o).TargetsOlder := by
  intro other f bound
  by_cases same : id = other
  · subst same
    by_cases there : h.Holds id
    · rw [get_set_self o there] at bound
      exact aimed f bound
    · rw [get_of_not_holds (by rwa [Holds, size_set])] at bound
      cases bound
  · rw [get_set_of_ne o same] at bound
    exact older other f bound

theorem target_ends_within (older : h.TargetsOlder) {id : ObjectId} {fuel : Nat}
    (enough : h.Holds id → id.index < fuel) : LoopEnds h.targetRound id (h.targetWithin fuel id) := by
  induction fuel generalizing id with
  | zero =>
    have missing : ¬h.Holds id := fun there => Nat.not_lt_zero _ (enough there)
    apply LoopEnds.stop
    rw [targetRound, get_of_not_holds missing]
    rfl
  | succ fuel ih =>
    unfold targetWithin
    split
    · rename_i f same bound
      obtain rfl := Nat.succ.inj same
      have before := older id f bound
      have on : h.targetRound id = .inl f.target := by simp only [targetRound, bound]
      apply LoopEnds.again on
      apply ih
      intro there
      by_cases holds : h.Holds id
      · have := enough holds
        omega
      · rw [get_of_not_holds holds] at bound
        cases bound
    · rename_i other
      apply LoopEnds.stop
      unfold targetRound
      split
      · rename_i f bound
        exact absurd bound (other fuel f rfl)
      · rfl

/-- The way to the function that is called in the end is over at some point. -/
theorem target_ends (older : h.TargetsOlder) (id : ObjectId) :
    LoopEnds h.targetRound id (h.target id) :=
  target_ends_within older fun there => there

/-! ## New objects -/

variable {key : String} {o : Object}

theorem find_from_succ (h : Heap) (key : String) (fuel : Nat) (id : ObjectId) :
    h.findFrom? key (fuel + 1) (some id) = ((h.get id).getOwn? key).or (h.findFrom? key fuel (h.get id).proto) := by
  rw [findFrom?]
  cases (h.get id).getOwn? key <;> rfl

/-- What is found is the first property of the name on the line. -/
theorem find_eq_first (ascends : h.Ascends start ids) (key : String) :
    h.find? start key = ids.findSome? fun id => (h.get id).getOwn? key := by
  have within : ∀ fuel, ids.length ≤ fuel →
      h.findFrom? key fuel start = ids.findSome? fun id => (h.get id).getOwn? key := by
    induction ascends with
    | top => intro fuel _; cases fuel <;> rfl
    | @step id above line ih =>
      intro fuel enough
      cases fuel with
      | zero => exact absurd enough (Nat.not_succ_le_zero _)
      | succ fuel =>
        rw [find_from_succ, ih fuel (Nat.le_of_succ_le_succ enough), List.findSome?_cons]
        cases (h.get id).getOwn? key <;> rfl
  exact within _ (length_le ascends)

/-- What is not found in so many rounds is not found in fewer. -/
theorem find_from_none_of_le {more fewer : Nat} (le : fewer ≤ more) (missed : h.findFrom? key more start = none) :
    h.findFrom? key fewer start = none := by
  induction more generalizing fewer start with
  | zero => rwa [Nat.le_zero.1 le]
  | succ more ih =>
    cases fewer with
    | zero => rfl
    | succ fewer =>
      cases start with
      | none => rfl
      | some id =>
        rw [find_from_succ, Option.or_eq_none_iff] at missed ⊢
        exact ⟨missed.1, ih (Nat.le_of_succ_le_succ le) missed.2⟩

/-- A new object without a property makes no difference to what is found from its prototype on, even if it is
above itself. -/
theorem find_from_add (absent : o.getOwn? key = none) (fuel : Nat) :
    (h.add o).2.findFrom? key fuel o.proto = h.findFrom? key fuel o.proto := by
  induction fuel using Nat.strongRecOn with
  | ind fuel ih =>
    -- The search is followed from the prototype on to where `left` rounds are left of it.
    have follow : ∀ left ≤ fuel, ∀ start, h.findFrom? key fuel o.proto = h.findFrom? key left start →
        (h.add o).2.findFrom? key left start = h.findFrom? key left start := by
      intro left
      induction left with
      | zero => exact fun _ _ _ => rfl
      | succ left onward =>
        intro le start here
        cases start with
        | none => rfl
        | some id =>
          by_cases new : id = (h.add o).1
          · have missing : h.get id = default := get_of_not_holds (by rw [new]; exact Nat.lt_irrefl _)
            have nothing : h.findFrom? key (left + 1) (some id) = none := by
              rw [find_from_succ, missing]
              cases left <;> rfl
            have above : h.findFrom? key left o.proto = none :=
              find_from_none_of_le (Nat.le_of_succ_le le) (here.trans nothing)
            rw [nothing, find_from_succ, new, get_add_self, absent, Option.none_or]
            exact (ih left (Nat.lt_of_succ_le le)).trans above
          · rw [find_from_succ, find_from_succ, get_add_of_ne new]
            rw [find_from_succ] at here
            cases own : (h.get id).getOwn? key with
            | some p => rfl
            | none =>
              rw [own] at here
              exact onward (Nat.le_of_succ_le le) (h.get id).proto here
    exact follow fuel (Nat.le_refl _) o.proto rfl

/-- Where nothing is inherited an object has what it owns. -/
theorem find_of_own {id : ObjectId} (nothing : h.find? (h.get id).proto key = none) :
    h.find? (some id) key = (h.get id).getOwn? key := by
  rw [find?, find_from_succ, find_from_none_of_le (Nat.le_succ _) nothing, Option.or_none]

/-- What the prototype has is found where an object does not have it. -/
theorem find_of_proto {id up : ObjectId} {p : Property} (missing : (h.get id).getOwn? key = none)
    (link : (h.get id).proto = some up) (own : (h.get up).getOwn? key = some p) : h.find? (some id) key = some p := by
  obtain ⟨size, more⟩ : ∃ size, h.objects.size = size + 1 :=
    Nat.exists_eq_succ_of_ne_zero (Nat.ne_zero_of_lt (holds_of_get_own own))
  rw [find?, find_from_succ, missing, Option.none_or, link, more, find_from_succ, own, Option.some_or]

/-- A new object has its own properties, and else those that were found from its prototype on. -/
theorem find_add_self (h : Heap) (o : Object) (key : String) :
    (h.add o).2.find? (some (h.add o).1) key = (o.getOwn? key).or (h.find? o.proto key) := by
  rw [find?, find_from_succ, get_add_self, size_add]
  cases own : o.getOwn? key with
  | some p => rfl
  | none => exact find_from_add own _

end Heap

end ScriptEngine
