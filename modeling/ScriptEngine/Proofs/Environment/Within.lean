import ScriptEngine.Proofs.Environment.Binding

/-!
How environments lie inside each other. Each is made inside one that is older, and what is around it never
changes, so whatever is bound further on, an environment stays where it is: names are looked up through the
same environments from the same place, and two environments of which neither is around the other never meet.
-/

namespace ScriptEngine.EnvironmentStore

/-- An environment lies within another one: it is the same, or the one around it lies within the other. -/
inductive Within (s : EnvironmentStore) : EnvironmentId → EnvironmentId → Prop
  | same (id : EnvironmentId) : s.Within id id
  | inside {id outer whole : EnvironmentId} (around : (s.get id).outer = some outer)
    (within : s.Within outer whole) : s.Within id whole

/-- An environment is there, and so are all around it, each of them older; none of them is barred. -/
inductive Clear (s : EnvironmentStore) (barred : EnvironmentId → Prop) : EnvironmentId → Prop
  | intro {id : EnvironmentId} (there : id.index < s.environments.size) (free : ¬barred id)
    (older : ∀ outer, (s.get id).outer = some outer → outer.index < id.index)
    (around : ∀ outer, (s.get id).outer = some outer → s.Clear barred outer) : s.Clear barred id

/-- No environment is barred. -/
def nothing (_ : EnvironmentId) : Prop := False

/-- What was made stays inside what it was made in. -/
structure Grows (before after : EnvironmentStore) : Prop where
  size : before.environments.size ≤ after.environments.size
  outer : ∀ id, id.index < before.environments.size → (after.get id).outer = (before.get id).outer

variable {s before after : EnvironmentStore} {barred : EnvironmentId → Prop} {id inner outer whole : EnvironmentId}

/-! ## Going outward -/

theorem Clear.there (clear : s.Clear barred id) : id.index < s.environments.size := by
  cases clear with
  | intro there => exact there

theorem Clear.free (clear : s.Clear barred id) : ¬barred id := by
  cases clear with
  | intro _ free => exact free

/-- What is around an environment can be no more than the environment is. -/
theorem Clear.outward (clear : s.Clear barred inner) (within : s.Within inner outer) : s.Clear barred outer := by
  induction within with
  | same => exact clear
  | inside around within ih =>
    cases clear with
    | intro _ _ _ further => exact ih (further _ around)

theorem Clear.mono {fewer : EnvironmentId → Prop} (clear : s.Clear barred id) (bars : ∀ id, fewer id → barred id) :
    s.Clear fewer id := by
  induction clear with
  | intro there free older around ih => exact .intro there (fun also => free (bars _ also)) older ih

/-- What is around an environment is older. -/
theorem index_le_of_within (clear : s.Clear barred inner) (within : s.Within inner outer) :
    outer.index ≤ inner.index := by
  induction within with
  | same => exact Nat.le_refl _
  | inside around within ih =>
    cases clear with
    | intro _ _ older further => exact Nat.le_trans (ih (further _ around)) (Nat.le_of_lt (older _ around))

/-- An environment is clear of all that it does not lie within. -/
theorem clear_of_not_within (clear : s.Clear nothing id) (apart : ∀ bar, barred bar → ¬s.Within id bar) :
    s.Clear barred id := by
  induction clear with
  | @intro id there free older around ih =>
    refine .intro there (fun bars => apart id bars (.same id)) older fun outer found => ?_
    exact ih outer found fun bar bars within => apart bar bars (.inside found within)

/-! ## Later on -/

theorem grows_refl (s : EnvironmentStore) : s.Grows s := ⟨Nat.le_refl _, fun _ _ => rfl⟩

theorem grows_trans {first second third : EnvironmentStore} (early : first.Grows second)
    (late : second.Grows third) : first.Grows third where
  size := Nat.le_trans early.size late.size
  outer id there := (late.outer id (Nat.lt_of_lt_of_le there early.size)).trans (early.outer id there)

theorem grows_add (s : EnvironmentStore) (e : Environment) : s.Grows (s.add e).2 where
  size := by simp
  outer id there := by rw [get_add_of_lt e there]

theorem grows_set (s : EnvironmentStore) (id : EnvironmentId) {e : Environment}
    (same : e.outer = (s.get id).outer) : s.Grows (s.set id e) where
  size := by simp
  outer other there := by
    by_cases changed : id = other
    · subst changed
      rw [get_set_self e there, same]
    · rw [get_set_of_ne e changed]

/-- What is used only as it may be stays where it is. -/
theorem grows_of_keeps {begins : EnvironmentId → String → Prop}
    (keeps : before.Keeps (fun _ => False) begins after) : before.Grows after where
  size := keeps.size
  outer id there := (keeps.environments id there fun no => no).outer

theorem Clear.grows (clear : before.Clear barred id) (grows : before.Grows after) : after.Clear barred id := by
  induction clear with
  | intro there free older around ih =>
    refine .intro (Nat.lt_of_lt_of_le there grows.size) free (fun outer found => ?_) fun outer found => ?_
    · exact older outer ((grows.outer _ there).symm.trans found)
    · exact ih outer ((grows.outer _ there).symm.trans found)

theorem Within.grows (within : before.Within inner outer) (grows : before.Grows after) :
    after.Within inner outer := by
  induction within with
  | same id => exact .same id
  | @inside id outer whole around within ih =>
    have there : id.index < before.environments.size := by
      apply Nat.lt_of_not_le
      intro beyond
      rw [get_beyond beyond] at around
      cases around
    exact .inside ((grows.outer id there).trans around) ih

/-- A new environment is clear of what the one around it is clear of. -/
theorem clear_add {e : Environment} (bounded : ∀ id, barred id → id.index < s.environments.size)
    (inside : e.outer = some outer) (clear : s.Clear barred outer) : (s.add e).2.Clear barred (s.add e).1 := by
  have new : ((s.add e).2.get (s.add e).1).outer = some outer := by rw [get_add_self, inside]
  refine .intro (by simp [add]) (fun bars => Nat.lt_irrefl _ (bounded _ bars)) (fun other found => ?_)
    fun other found => ?_
  · obtain rfl : outer = other := Option.some.inj (new.symm.trans found)
    exact clear.there
  · obtain rfl : outer = other := Option.some.inj (new.symm.trans found)
    exact clear.grows (grows_add s e)

/-- A new environment lies within all that the one around it lies within. -/
theorem within_add {e : Environment} (inside : e.outer = some outer) (within : s.Within outer whole) :
    (s.add e).2.Within (s.add e).1 whole := by
  have new : ((s.add e).2.get (s.add e).1).outer = some outer := by rw [get_add_self, inside]
  exact .inside new (within.grows (grows_add s e))

/-! ## Names -/

theorem within_of_resolve_from {h : Heap} {name : String} {fuel : Nat} {start found : EnvironmentId}
    (resolves : s.resolveFrom? h name fuel (some start) = some found) : s.Within start found := by
  induction fuel generalizing start with
  | zero => cases resolves
  | succ fuel ih =>
    unfold resolveFrom? at resolves
    dsimp only at resolves
    split at resolves
    · cases resolves
      exact .same found
    · cases around : (s.get start).outer with
      | none =>
        rw [around] at resolves
        cases fuel <;> cases resolves
      | some outer =>
        rw [around] at resolves
        exact .inside around (ih resolves)

/-- A name is looked up from the inside outward. -/
theorem within_of_resolve {h : Heap} {name : String} {start found : EnvironmentId}
    (resolves : s.resolve? h start name = some found) : s.Within start found :=
  within_of_resolve_from resolves

/-- A name that is bound in some environment is found there or nearer from everywhere inside. -/
theorem resolve_from_inside {h : Heap} {name : String} {fuel : Nat} (clear : s.Clear barred inner)
    (within : s.Within inner whole) (bound : (s.get whole).has h name = true) (enough : inner.index < fuel) :
    ∃ found, s.resolveFrom? h name fuel (some inner) = some found ∧ s.Within inner found ∧
      s.Within found whole ∧ (s.get found).has h name = true := by
  induction within generalizing fuel with
  | same id =>
    cases fuel with
    | zero => exact absurd enough (Nat.not_lt_zero _)
    | succ fuel => exact ⟨id, if_pos bound, .same id, .same id, bound⟩
  | @inside id outer whole around within ih =>
    cases fuel with
    | zero => exact absurd enough (Nat.not_lt_zero _)
    | succ fuel =>
      by_cases nearer : (s.get id).has h name = true
      · exact ⟨id, if_pos nearer, .same id, .inside around within, nearer⟩
      · cases clear with
        | intro _ _ older further =>
          have room : outer.index < fuel := Nat.lt_of_lt_of_le (older outer around) (Nat.le_of_lt_succ enough)
          obtain ⟨found, resolves, outward, inward, binds⟩ := ih (further outer around) bound room
          refine ⟨found, ?_, .inside around outward, inward, binds⟩
          unfold resolveFrom?
          dsimp only
          rw [if_neg nearer, around]
          exact resolves

theorem resolve_inside {h : Heap} {name : String} (clear : s.Clear barred inner) (within : s.Within inner whole)
    (bound : (s.get whole).has h name = true) :
    ∃ found, s.resolve? h inner name = some found ∧ s.Within inner found ∧ s.Within found whole ∧
      (s.get found).has h name = true :=
  resolve_from_inside clear within bound (Nat.lt_succ_of_lt clear.there)

end ScriptEngine.EnvironmentStore
