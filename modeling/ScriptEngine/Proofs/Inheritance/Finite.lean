import Mathlib.Data.List.Induction
import ScriptEngine.Proofs.Evaluation.Outcome
import ScriptEngine.Proofs.Inheritance.Keys

/-!
Objects come into being with a prototype that exists already, and are linked anew only where that closes
no cycle. So on every heap that arises this way each object has a line upward, and every loop along
prototype links ends.
-/

namespace ScriptEngine

namespace Heap

variable {h later : Heap} {id : ObjectId} {proto : Option ObjectId}

/-! ## How heaps arise -/

/-- What a new object refers to apart from its properties exists: its prototype, and the function that it
calls if it has bound arguments. -/
structure Admits (h : Heap) (o : Object) : Prop where
  proto : ∀ up, o.proto = some up → h.Holds up
  target : ∀ f, o.callable? = some (.bound f) → h.Holds f.target

/-- What may happen to a heap: a new object, another prototype for an object, or any change to one that
leaves its prototype and what it calls. -/
inductive Step : Heap → Heap → Prop
  | create {h : Heap} (o : Object) (admitted : h.Admits o) : Step h (h.add o).2
  | relink {h : Heap} (id : ObjectId) (proto : Option ObjectId) (there : h.Holds id)
      (known : ∀ up, proto = some up → h.Holds up) : Step h (h.setPrototype id proto).2
  | change {h : Heap} (id : ObjectId) (o : Object) (proto : o.proto = (h.get id).proto)
      (callable : o.callable? = (h.get id).callable?) : Step h (h.set id o)

/-- A heap that arises from the empty one. -/
def Reached (h : Heap) : Prop :=
  Relation.ReflTransGen Step empty h

/-- What all heaps that arise have in common: prototypes exist, every object has a line upward, and
functions with bound arguments come after those they call. -/
structure Sound (h : Heap) : Prop where
  closed : ∀ id up, h.Link id up → h.Holds up
  founded : ∀ start, ∃ ids, h.Ascends start ids
  older : h.TargetsOlder

/-! ## What a step leaves sound -/

theorem sound_empty : empty.Sound where
  closed id up link := by cases link
  founded start := by
    cases start with
    | none => exact ⟨[], .top⟩
    | some id => exact ⟨[id], .step .top⟩
  older id f bound := by cases bound

/-- All objects of a line exist if the first does. -/
theorem Sound.holds_of_mem (sound : h.Sound) {start : Option ObjectId} {ids : List ObjectId}
    (ascends : h.Ascends start ids) (first : ∀ up, start = some up → h.Holds up) :
    ∀ id ∈ ids, h.Holds id := by
  induction ascends with
  | top => intro id member; cases member
  | step line ih => exact List.forall_mem_cons.2 ⟨first _ rfl, ih fun up link => sound.closed _ up link⟩

/-- If only one object is linked anew, and not below itself, all objects still have a line. -/
theorem founded_of_relinked (id : ObjectId) (founded : ∀ start, ∃ ids, h.Ascends start ids)
    (others : ∀ other, other ≠ id → (later.get other).proto = (h.get other).proto)
    (avoids : ∀ ids, h.Ascends (later.get id).proto ids → id ∉ ids) :
    ∀ start, ∃ ids, later.Ascends start ids := by
  obtain ⟨above, line⟩ := founded (later.get id).proto
  have still : later.Ascends (later.get id).proto above := by
    apply ascends_of_same_links line
    intro other member
    apply others
    rintro rfl
    exact avoids above line member
  intro start
  obtain ⟨ids, ascends⟩ := founded start
  induction ascends with
  | top => exact ⟨[], .top⟩
  | @step other rest _ ih =>
    by_cases same : other = id
    · subst same
      exact ⟨other :: above, .step still⟩
    · obtain ⟨rest, onward⟩ := ih
      exact ⟨other :: rest, .step (by rwa [others other same])⟩

theorem sound_add (sound : h.Sound) {o : Object} (admitted : h.Admits o) : (h.add o).2.Sound := by
  have fresh : (h.add o).2.get (h.add o).1 = o := get_add_self h o
  have missing : ¬h.Holds (h.add o).1 := Nat.lt_irrefl _
  have grows : ∀ other, h.Holds other → (h.add o).2.Holds other := by
    intro other there
    rw [Holds, size_add]
    exact Nat.lt_succ_of_lt there
  constructor
  · intro other up link
    by_cases new : other = (h.add o).1
    · rw [Link, new, fresh] at link
      exact grows up (admitted.proto up link)
    · rw [Link, get_add_of_ne new] at link
      exact grows up (sound.closed other up link)
  · apply founded_of_relinked (h.add o).1 sound.founded
    · intro other distinct
      rw [get_add_of_ne distinct]
    · intro ids line member
      rw [fresh] at line
      exact missing (sound.holds_of_mem line admitted.proto _ member)
  · exact targets_older_add sound.older admitted.target

theorem sound_set (sound : h.Sound) {o : Object} (known : ∀ up, o.proto = some up → h.Holds up)
    (callable : o.callable? = (h.get id).callable?)
    (avoids : ∀ ids, h.Ascends o.proto ids → id ∉ ids) : (h.set id o).Sound := by
  by_cases there : h.Holds id
  · have changed : (h.set id o).get id = o := get_set_self o there
    have same : ∀ other, other ≠ id → (h.set id o).get other = h.get other :=
      fun other distinct => get_set_of_ne o (Ne.symm distinct)
    have size : ∀ other, (h.set id o).Holds other ↔ h.Holds other := by
      intro other
      rw [Holds, size_set, Holds]
    constructor
    · intro other up link
      rw [size]
      by_cases relinked : other = id
      · rw [Link, relinked, changed] at link
        exact known up link
      · rw [Link, same other relinked] at link
        exact sound.closed other up link
    · apply founded_of_relinked id sound.founded
      · intro other distinct
        rw [same other distinct]
      · intro ids line
        rw [changed] at line
        exact avoids ids line
    · exact targets_older_set sound.older fun f bound => sound.older id f (callable ▸ bound)
  · have nothing : h.set id o = h := by
      rw [set, Array.setIfInBounds_eq_of_size_le (Nat.le_of_not_lt there)]
    rwa [nothing]

theorem targets_older_step (older : h.TargetsOlder) (step : Step h later) : later.TargetsOlder := by
  cases step with
  | create o admitted => exact targets_older_add older admitted.target
  | relink id proto there known =>
    unfold setPrototype
    split
    · exact older
    · exact targets_older_set older (older id)
  | change id o proto callable => exact targets_older_set older fun f bound => older id f (callable ▸ bound)

/-- Another prototype is refused if the object is on the line from there. -/
theorem set_prototype_eq (ids : List ObjectId) (ascends : h.Ascends proto ids) :
    h.setPrototype id proto =
      if id ∈ ids then (false, h) else (true, h.set id { h.get id with proto }) := by
  simp only [setPrototype, chain_eq ascends, List.contains_iff_mem]

theorem Sound.step (sound : h.Sound) (step : Step h later) : later.Sound := by
  cases step with
  | create o admitted => exact sound_add sound admitted
  | relink id proto there known =>
    obtain ⟨ids, ascends⟩ := sound.founded proto
    rw [set_prototype_eq ids ascends]
    by_cases cycle : id ∈ ids
    · rwa [if_pos cycle]
    · rw [if_neg cycle]
      have avoids : ∀ line, h.Ascends proto line → id ∉ line := by
        intro line again
        rwa [ascends_unique again ascends]
      exact sound_set (o := { h.get id with proto }) sound known rfl avoids
  | change id o proto callable =>
    apply sound_set sound
    · intro up link
      exact sound.closed id up (proto.symm.trans link)
    · exact callable
    · intro ids line
      rw [proto] at line
      exact (List.nodup_cons.1 (ascends_nodup (.step line))).1

/-- Every heap that arises is sound. -/
theorem sound_of_reached (reached : h.Reached) : h.Sound := by
  induction reached with
  | refl => exact sound_empty
  | tail _ step ih => exact ih.step step

/-- What an object refers to apart from its properties comes before a place. -/
def refersBefore (o : Object) (place : Nat) : Bool :=
  o.proto.all (·.index < place) &&
    match o.callable? with
    | some (.bound f) => f.target.index < place
    | _ => true

/-- Every object of a list comes after those that it refers to. -/
def ordered (objects : List Object) : Bool :=
  objects.zipIdx.all fun entry => refersBefore entry.1 entry.2

theorem admits_of_refers_before {o : Object} (before : refersBefore o h.objects.size) : h.Admits o := by
  unfold refersBefore at before
  rw [Bool.and_eq_true] at before
  constructor
  · intro up link
    have inside := before.1
    rw [link, Option.all_some, decide_eq_true_eq] at inside
    exact inside
  · intro f bound
    have inside := before.2
    simp only [bound, decide_eq_true_eq] at inside
    exact inside

/-- Objects may come into being one after the other. -/
theorem reached_of_ordered {objects : List Object} (inOrder : ordered objects) : (Heap.mk objects.toArray).Reached := by
  induction objects using List.reverseRecOn with
  | nil => exact .refl
  | append_singleton front o ih =>
    rw [ordered, List.zipIdx_append, List.all_append, Bool.and_eq_true] at inOrder
    have before : refersBefore o front.length := by simpa using inOrder.2
    have added : (Heap.mk front.toArray).add o = (⟨front.length⟩, ⟨(front ++ [o]).toArray⟩) := by simp [add]
    have step : Step ⟨front.toArray⟩ ⟨(front ++ [o]).toArray⟩ := by
      have admitted : (Heap.mk front.toArray).Admits o := admits_of_refers_before before
      have create := Step.create o admitted
      rwa [added] at create
    exact .tail (ih inOrder.1) step

/-! ## The ways that loops are run -/

end Heap

/-- Whether an object is among those that another one inherits from. -/
theorem Machine.run_is_prototype_of (m : Machine) (id heir : ObjectId) :
    m.run (Library.isPrototypeOf (.object id) [.object heir]) =
      (.ok (.boolean (m.heap.inheritsFrom heir id)), m) := rfl

/-- Once the `prototype` of a function is read, the line of the object decides. -/
theorem Machine.run_instance_of {m after : Machine} {engine : Engine} {id f proto : ObjectId}
    (callable : m.heap.isCallable (.object f))
    (read : m.run (getProperty engine (m.heap.target f) "prototype") = (.ok (.object proto), after)) :
    m.run (instanceOf engine (.object id) (.object f)) =
      (.ok (after.heap.inheritsFrom id proto), after) := by
  simp only [instanceOf, Value.asObject?]
  rw [run_bind_ok (run_ask ..), if_pos callable, run_bind_ok (run_ask ..), run_bind_ok read, run_ask]

namespace Heap

variable {h : Heap}

/-- What comes of giving an object another prototype: it is refused if the object is reached from there,
and nothing changes then; else only this link does. -/
structure Relinks (h : Heap) (id : ObjectId) (proto : Option ObjectId) : Prop where
  refused : (h.setPrototype id proto).1 = false ↔
    ∃ first, proto = some first ∧ Relation.ReflTransGen h.Link first id
  unchanged : (h.setPrototype id proto).1 = false → (h.setPrototype id proto).2 = h
  size : (h.setPrototype id proto).2.objects.size = h.objects.size
  linked : (h.setPrototype id proto).1 = true →
    (h.setPrototype id proto).2.get id = { h.get id with proto }
  others : ∀ other, other ≠ id → (h.setPrototype id proto).2.get other = h.get other

/-- The loops along prototype links end, each with what the engine takes for its result. -/
structure LoopsEnd (h : Heap) : Prop where
  find : ∀ start key, LoopEnds (h.findRound key) start (h.find? start key)
  has : ∀ id key, ∃ found, LoopEnds (h.findRound key) (some id) found ∧ h.has id key = found.isSome
  setPrototype : ∀ id proto, ∃ cycle, LoopEnds (h.searchRound id) proto cycle ∧
    (h.setPrototype id proto).1 = !cycle
  next : ∀ w : KeyWalk, LoopEnds (KeyWalk.round h) w (w.next h)
  enumerate : ∀ id, KeyWalk.Lists h (.start id) (h.enumerate id)
  isPrototypeOf : ∀ (m : Machine) (id heir : ObjectId), m.heap = h →
    ∃ found, LoopEnds (h.searchRound id) (h.get heir).proto found ∧
      m.run (Library.isPrototypeOf (.object id) [.object heir]) = (.ok (.boolean found), m)
  /-- The function that is asked for its `prototype` is found, and so is the answer after that. -/
  instanceTarget : ∀ f, LoopEnds h.targetRound f (h.target f)
  instanceOf : ∀ (m after : Machine) (engine : Engine) (id f proto : ObjectId), after.heap = h →
    m.heap.isCallable (.object f) →
    m.run (getProperty engine (m.heap.target f) "prototype") = (.ok (.object proto), after) →
    ∃ found, LoopEnds (h.searchRound proto) (h.get id).proto found ∧
      m.run (instanceOf engine (.object id) (.object f)) = (.ok found, after)

theorem Sound.acyclic (sound : h.Sound) (id : ObjectId) : ¬Relation.TransGen h.Link id id := by
  obtain ⟨ids, ascends⟩ := sound.founded (some id)
  exact not_reaches_self ascends

theorem Sound.relinks (sound : h.Sound) {id : ObjectId} (there : h.Holds id)
    (proto : Option ObjectId) : h.Relinks id proto := by
  obtain ⟨ids, ascends⟩ := sound.founded proto
  have reaches : id ∈ ids ↔ ∃ first, proto = some first ∧ Relation.ReflTransGen h.Link first id := by
    cases proto with
    | none => cases ascends; simp
    | some first => simp [mem_iff_reaches ascends]
  by_cases cycle : id ∈ ids
  · have outcome : h.setPrototype id proto = (false, h) := by
      rw [set_prototype_eq ids ascends, if_pos cycle]
    constructor <;> simp [outcome, ← reaches, cycle]
  · have outcome : h.setPrototype id proto = (true, h.set id { h.get id with proto }) := by
      rw [set_prototype_eq ids ascends, if_neg cycle]
    constructor
    · simp [outcome, ← reaches, cycle]
    · simp [outcome]
    · simp [outcome]
    · intro _
      rw [outcome]
      exact get_set_self _ there
    · intro other distinct
      rw [outcome]
      exact get_set_of_ne _ (Ne.symm distinct)

theorem Sound.loops_end (sound : h.Sound) : h.LoopsEnd := by
  constructor
  · intro start key
    obtain ⟨ids, ascends⟩ := sound.founded start
    exact find_ends ascends key
  · intro id key
    obtain ⟨ids, ascends⟩ := sound.founded (some id)
    exact ⟨_, find_ends ascends key, rfl⟩
  · intro id proto
    obtain ⟨ids, ascends⟩ := sound.founded proto
    refine ⟨_, search_ends ascends id, ?_⟩
    unfold setPrototype
    split <;> simp_all
  · intro w
    obtain ⟨ids, ascends⟩ := sound.founded w.current
    exact KeyWalk.next_ends ascends
  · intro id
    obtain ⟨ids, ascends⟩ := sound.founded (some id)
    exact KeyWalk.lists_enumerate ascends
  · rintro m id heir rfl
    obtain ⟨ids, ascends⟩ := sound.founded (m.heap.get heir).proto
    exact ⟨_, search_ends ascends id, Machine.run_is_prototype_of m id heir⟩
  · exact target_ends sound.older
  · rintro m after engine id f proto rfl callable read
    obtain ⟨ids, ascends⟩ := sound.founded (after.heap.get id).proto
    exact ⟨_, search_ends ascends proto, Machine.run_instance_of callable read⟩

/-- On every heap that arises, no object inherits from itself, a new link is refused if and only if it
would change that, and all loops along prototype links end. -/
theorem inheritance_finite (reached : h.Reached) :
    (∀ id, ¬Relation.TransGen h.Link id id) ∧
      (∀ id proto, h.Holds id → h.Relinks id proto) ∧
      h.LoopsEnd := by
  have sound := sound_of_reached reached
  refine ⟨sound.acyclic, ?_, sound.loops_end⟩
  intro id proto there
  exact sound.relinks there proto

/-- An object and one that inherits from it. -/
def parentAndChild : Heap :=
  ((empty.add (.new .ordinary none)).2.add (.new .ordinary (some ⟨0⟩))).2

/-- The parent cannot inherit from its child. -/
theorem inheritance_finite_of_child :
    parentAndChild.Reached ∧ ¬Relation.TransGen parentAndChild.Link ⟨1⟩ ⟨1⟩ ∧
      (parentAndChild.setPrototype ⟨0⟩ (some ⟨1⟩)).1 = false := by
  have parent : empty.Admits (.new .ordinary none) := by
    constructor
    · intro up link
      cases link
    · intro f bound
      cases bound
  have child : (empty.add (.new .ordinary none)).2.Admits (.new .ordinary (some ⟨0⟩)) := by
    constructor
    · intro up link
      obtain rfl := Option.some.inj link
      exact Nat.zero_lt_one
    · intro f bound
      cases bound
  have reached : parentAndChild.Reached := .tail (.single (.create _ parent)) (.create _ child)
  obtain ⟨acyclic, relinks, _⟩ := inheritance_finite reached
  refine ⟨reached, acyclic ⟨1⟩, (relinks ⟨0⟩ (some ⟨1⟩) Nat.zero_lt_two).refused.2 ?_⟩
  exact ⟨⟨1⟩, rfl, .single rfl⟩

end Heap
end ScriptEngine
