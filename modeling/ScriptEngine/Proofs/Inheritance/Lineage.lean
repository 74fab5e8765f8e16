import Mathlib.Data.List.Nodup
import Mathlib.Data.List.Perm.Subperm
import Mathlib.Logic.Relation
import ScriptEngine.Heap

/-!
The line of objects from one on upward, link by link, as it is whatever a bound on the number of links
says. Where there is such a line it is the only one, no object is on it twice, and the bounded walk goes
all of it.
-/

namespace ScriptEngine.Heap

variable {h later : Heap} {start : Option ObjectId} {id other up : ObjectId} {ids above : List ObjectId}

/-- There is an object at an address. -/
def Holds (h : Heap) (id : ObjectId) : Prop :=
  id.index < h.objects.size

/-- An object has another one as its prototype. -/
def Link (h : Heap) (id up : ObjectId) : Prop :=
  (h.get id).proto = some up

/-- The objects from one on upward, up to the first that has no prototype. -/
inductive Ascends (h : Heap) : Option ObjectId → List ObjectId → Prop
  | top : h.Ascends none []
  | step {id : ObjectId} {above : List ObjectId} (rest : h.Ascends (h.get id).proto above) :
      h.Ascends (some id) (id :: above)

/-- Where there is no object nothing is said. -/
theorem get_of_not_holds (missing : ¬h.Holds id) : h.get id = default := by
  have outside : h.objects.size ≤ id.index := Nat.le_of_not_lt missing
  simp [get, Array.getD_eq_getD_getElem?, outside]

theorem holds_of_callable {g : Callable} (runs : (h.get id).callable? = some g) : h.Holds id := by
  by_contra missing
  rw [get_of_not_holds missing] at runs
  cases runs

theorem holds_of_get_own {key : String} {p : Property} (own : (h.get id).getOwn? key = some p) : h.Holds id := by
  by_contra missing
  rw [get_of_not_holds missing] at own
  cases own

/-- A new object changes nothing at other addresses. -/
theorem get_add_of_ne {o : Object} (distinct : id ≠ (h.add o).1) : (h.add o).2.get id = h.get id := by
  by_cases there : h.Holds id
  · exact get_add_of_lt o there
  · have beyond : ¬(h.add o).2.Holds id := by
      intro inside
      rw [Holds, size_add] at inside
      exact distinct (ObjectId.ext (Nat.le_antisymm (Nat.le_of_lt_succ inside) (Nat.le_of_not_lt there)))
    rw [get_of_not_holds there, get_of_not_holds beyond]

theorem holds_of_link (link : h.Link id up) : h.Holds id := by
  by_contra missing
  rw [Link, get_of_not_holds missing] at link
  cases link

/-! ## The line upward -/

theorem ascends_unique (first : h.Ascends start ids) (second : h.Ascends start above) : ids = above := by
  induction first generalizing above with
  | top => cases second; rfl
  | step rest ih =>
    cases second with
    | step other => rw [ih other]

/-- From an object on a line the rest of it goes on. -/
theorem ascends_of_mem (ascends : h.Ascends start ids) (member : id ∈ ids) :
    ∃ nearer rest, ids = nearer ++ id :: rest ∧ h.Ascends (some id) (id :: rest) := by
  induction ascends with
  | top => cases member
  | @step first rest line ih =>
    rcases List.mem_cons.1 member with rfl | member
    · exact ⟨[], rest, rfl, .step line⟩
    · obtain ⟨nearer, higher, rfl, onward⟩ := ih member
      exact ⟨first :: nearer, higher, rfl, onward⟩

/-- An object that stood on the line above itself would have two lines of different length. -/
theorem ascends_nodup (ascends : h.Ascends start ids) : ids.Nodup := by
  induction ascends with
  | top => exact List.nodup_nil
  | @step first rest line ih =>
    apply List.nodup_cons.2 ⟨?_, ih⟩
    intro again
    obtain ⟨nearer, higher, split, onward⟩ := ascends_of_mem line again
    have same := ascends_unique (.step line) onward
    have lengths := congrArg List.length same
    simp only [split, List.length_append, List.length_cons] at lengths
    omega

/-- The objects of a line are those that prototype links lead to. -/
theorem mem_iff_reaches (ascends : h.Ascends (some id) ids) :
    other ∈ ids ↔ Relation.ReflTransGen h.Link id other := by
  constructor
  · intro member
    generalize begins : some id = start at ascends
    induction ascends generalizing id with
    | top => cases member
    | @step first rest line ih =>
      obtain rfl := Option.some.inj begins
      rcases List.mem_cons.1 member with rfl | member
      · exact .refl
      · cases proto : (h.get id).proto with
        | none => rw [proto] at line; cases line; cases member
        | some up => exact .head proto (ih member proto.symm)
  · intro reaches
    induction reaches using Relation.ReflTransGen.head_induction_on generalizing ids with
    | refl => cases ascends; exact List.mem_cons_self
    | head link _ ih =>
      cases ascends with
      | step rest =>
        rw [link] at rest
        exact List.mem_cons_of_mem _ (ih rest)

/-- Nothing on a line inherits from itself. -/
theorem not_reaches_self (ascends : h.Ascends (some id) ids) : ¬Relation.TransGen h.Link id id := by
  intro loops
  obtain ⟨up, link, back⟩ := Relation.TransGen.head'_iff.1 loops
  cases ascends with
  | @step _ rest line =>
    rw [link] at line
    have again : id ∈ rest := (mem_iff_reaches line).2 back
    exact (List.nodup_cons.1 (ascends_nodup (.step (link ▸ line)))).1 again

/-- A line stays while the links of the objects on it do. -/
theorem ascends_of_same_links (ascends : h.Ascends start ids)
    (same : ∀ id ∈ ids, (later.get id).proto = (h.get id).proto) : later.Ascends start ids := by
  induction ascends with
  | top => exact .top
  | @step first rest line ih =>
    rw [List.forall_mem_cons] at same
    apply Ascends.step
    rw [same.1]
    exact ih same.2

/-! ## How far it is to the top -/

/-- All objects of a line are in the heap, except for a last one that there may not be. -/
theorem holds_of_mem_dropLast (ascends : h.Ascends start ids) : ∀ id ∈ ids.dropLast, h.Holds id := by
  induction ascends with
  | top => intro id member; cases member
  | @step first rest line ih =>
    intro id member
    cases rest with
    | nil => cases member
    | cons up rest =>
      rw [List.dropLast_cons_cons, List.mem_cons] at member
      rcases member with rfl | member
      · generalize proto : (h.get id).proto = start at line
        cases line
        exact holds_of_link proto
      · exact ih id member

theorem length_le (ascends : h.Ascends start ids) : ids.length ≤ h.objects.size + 1 := by
  have distinct : (ids.dropLast.map ObjectId.index).Nodup :=
    ((ascends_nodup ascends).sublist (List.dropLast_sublist ids)).map fun _ _ => ObjectId.ext
  have within : ids.dropLast.map ObjectId.index ⊆ List.range h.objects.size := by
    intro index member
    obtain ⟨id, inside, rfl⟩ := List.mem_map.1 member
    exact List.mem_range.2 (holds_of_mem_dropLast ascends id inside)
  have few := (List.Nodup.subperm distinct within).length_le
  rw [List.length_map, List.length_dropLast, List.length_range] at few
  omega

/-- The bounded walk goes along the line. -/
theorem chain_from_eq_take (ascends : h.Ascends start ids) (fuel : Nat) :
    h.chainFrom fuel start = ids.take fuel := by
  induction ascends generalizing fuel with
  | top => cases fuel <;> rfl
  | step rest ih =>
    cases fuel with
    | zero => rfl
    | succ fuel => rw [chainFrom, ih, List.take_succ_cons]

theorem chain_eq (ascends : h.Ascends start ids) : h.chain start = ids := by
  rw [chain, chain_from_eq_take ascends, List.take_of_length_le (length_le ascends)]

end ScriptEngine.Heap
