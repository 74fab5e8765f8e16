import ScriptEngine.Proofs.Evaluation.DefinePaths
import ScriptEngine.Proofs.Object.Written

/-!
Writing a property that is no function, and not the length of an array: it succeeds exactly where it is
permitted, and then the value is read back; otherwise nothing changes, whether or not that is an error.
-/

namespace ScriptEngine

/-! ## Permission -/

namespace Heap

variable {h : Heap} {id : ObjectId} {key : String}

/-- The property that a write is about: an own one of the object, or else the first that it inherits. -/
def found? (h : Heap) (id : ObjectId) (key : String) : Option Property :=
  match (h.get id).getOwn? key with
  | some p => some p
  | none => h.find? (h.get id).proto key

/-- A write is permitted as the language defines it. An own property decides by itself; an inherited one that
is read-only or has no function to be called forbids it, and a new property needs an extensible object. -/
def canPut (h : Heap) (id : ObjectId) (key : String) : Bool :=
  let o := h.get id
  match (o.getOwn? key).map Property.kind with
  | some (.accessor _ setter) => setter.isSome
  | some (.data _ writable) => writable
  | none =>
    match o.proto with
    | none => o.extensible
    | some above =>
      match (h.find? (some above) key).map Property.kind with
      | none => o.extensible
      | some (.accessor _ setter) => setter.isSome
      | some (.data _ writable) => o.extensible && writable

/-- A write succeeds: it is permitted, and an array that has to grow for it may. -/
def AllowsPut (h : Heap) (id : ObjectId) (key : String) : Prop :=
  h.canPut id key = true ∧ (h.get id).HasRoom key

theorem accepts_of_can_put (data : ∀ p, h.found? id key = some p → p.isData) (permitted : h.canPut id key = true) :
    (h.get id).AcceptsWrite key := by
  unfold found? at data
  unfold canPut at permitted
  unfold Object.AcceptsWrite
  cases own : (h.get id).getOwn? key with
  | some p =>
    obtain ⟨kind, enumerable, configurable⟩ := p
    cases kind with
    | data value writable =>
      simp only [own, Option.map_some] at permitted
      exact ⟨value, permitted ▸ rfl⟩
    | accessor get set =>
      rw [own] at data
      cases data _ rfl
  | none =>
    simp only [own, Option.map_none] at permitted data
    split at permitted
    · exact permitted
    · rename_i above proto
      rw [proto] at data
      split at permitted
      · exact permitted
      · rename_i setter found
        obtain ⟨p, inherited, kind⟩ := Option.map_eq_some_iff.1 found
        have isData := data p inherited
        rw [Property.isData, kind] at isData
        cases isData
      · rw [Bool.and_eq_true] at permitted
        exact permitted.1

end Heap

/-! ## Writes -/

namespace Machine

variable {m : Machine} {engine : Engine} {id : ObjectId} {key : String} {v : Value} {throws : Bool}

/-- A write comes to a definition if it is permitted, and is rejected if it is not. -/
theorem run_put_property (data : ∀ p, m.heap.found? id key = some p → p.isData) :
    m.run (putProperty engine id key v throws) =
      if m.heap.canPut id key then m.run (discard (defineProperty engine id key ((m.heap.get id).writing key v) throws))
      else m.run (rejectWrite key throws) := by
  unfold putProperty Heap.canPut Object.writing
  unfold Heap.found? at data
  rw [run_bind_ok (run_get_object ..)]
  dsimp only
  rcases Option.eq_none_or_eq_some ((m.heap.get id).getOwn? key) with own | ⟨⟨kind, enumerable, configurable⟩, own⟩
  · simp only [own] at data ⊢
    rw [run_bind_ok (run_ask ..)]
    rcases Option.eq_none_or_eq_some (m.heap.get id).proto with proto | ⟨above, proto⟩
    · have nothing : m.heap.find? none key = none := rfl
      simp only [proto, nothing]
      cases (m.heap.get id).extensible <;> rfl
    · simp only [proto] at data ⊢
      rcases Option.eq_none_or_eq_some (m.heap.find? (some above) key) with found | ⟨⟨kind, _, _⟩, found⟩
      · simp only [found]
        cases (m.heap.get id).extensible <;> rfl
      · simp only [found] at data ⊢
        cases kind with
        | data value writable => cases writable <;> cases (m.heap.get id).extensible <;> rfl
        | accessor get set => cases data _ rfl
  · simp only [own] at data ⊢
    cases kind with
    | data value writable => cases writable <;> rfl
    | accessor get set => cases data _ rfl

/-- A permitted write ends well if the object accepts it, or if a refusal is no error. -/
theorem run_permitted (data : ∀ p, m.heap.found? id key = some p → p.isData)
    (other : (m.heap.get id).isArray → key ≠ Object.lengthKey) (permitted : m.heap.canPut id key = true) :
    m.run (putProperty engine id key v throws) =
      match (m.heap.get id).write key v with
      | (accepted, o) =>
        if !accepted && throws then (m.withObject id o).run (throwFault (.redefinition key))
        else (.ok (), m.withObject id o) := by
  have free (array : (m.heap.get id).isArray) (isLength : key = Object.lengthKey) :
      ((m.heap.get id).writing key v).value = none := absurd isLength (other array)
  rw [run_put_property data, if_pos permitted, run_discard, run_define_property free, defined, Object.write]
  cases (m.heap.get id).define key ((m.heap.get id).writing key v) with
  | mk accepted o => cases accepted <;> cases throws <;> rfl

/-- A property that holds a value is read. -/
theorem run_get_found (engine : Engine) {p : Property} {writable : Bool} (found : m.heap.find? (some id) key = some p)
    (kind : p.kind = .data v writable) : m.run (getProperty engine id key) = (.ok v, m) := by
  obtain ⟨_, enumerable, configurable⟩ := p
  subst kind
  rw [getProperty, run_bind_ok (run_ask ..), found]
  rfl

theorem run_get_own (engine : Engine) {p : Property} {writable : Bool} (own : (m.heap.get id).getOwn? key = some p)
    (kind : p.kind = .data v writable) : m.run (getProperty engine id key) = (.ok v, m) :=
  run_get_found engine (by rw [Heap.find?, Heap.findFrom?, own]) kind

/-- What a write leaves is read. -/
theorem run_get_written {o : Object} (there : id.index < m.heap.objects.size)
    (written : (m.heap.get id).Written key v o) :
    (m.withObject id o).run (getProperty engine id key) = (.ok v, m.withObject id o) := by
  have own : ((m.withObject id o).heap.get id).getOwn? key = some ((m.heap.get id).written key v) := by
    rw [withObject, Heap.get_set_self o there, written.value]
  have kind : ((m.heap.get id).written key v).kind = .data v true := by
    unfold Object.written
    split <;> rfl
  exact run_get_own engine own kind

/-- A write that succeeds. -/
theorem run_put_allowed (formed : (m.heap.get id).isArray → (m.heap.get id).WellFormedArray Object.maxWord)
    (data : ∀ p, m.heap.found? id key = some p → p.isData)
    (other : (m.heap.get id).isArray → key ≠ Object.lengthKey) (allowed : m.heap.AllowsPut id key) :
    ∃ o, (m.heap.get id).Written key v o ∧
      ∀ throws, m.run (putProperty engine id key v throws) = (.ok (), m.withObject id o) := by
  obtain ⟨permitted, room⟩ := allowed
  obtain ⟨accepted, written⟩ :=
    Object.written_of_accepted formed (Heap.accepts_of_can_put data permitted) room other v
  refine ⟨_, written, fun throws => ?_⟩
  rw [run_permitted data other permitted]
  dsimp only
  rw [accepted]
  rfl

/-- A write that does not succeed. -/
theorem run_put_refused (data : ∀ p, m.heap.found? id key = some p → p.isData)
    (other : (m.heap.get id).isArray → key ≠ Object.lengthKey) (refused : ¬m.heap.AllowsPut id key) :
    m.run (putProperty engine id key v false) = (.ok (), m) ∧
      ∃ fault : Fault, fault.kind = .type ∧ m.run (putProperty engine id key v true) = m.run (throwFault fault) := by
  by_cases permitted : m.heap.canPut id key = true
  · have full : ¬(m.heap.get id).HasRoom key := fun room => refused ⟨permitted, room⟩
    simp only [Object.HasRoom, Classical.not_forall, Bool.not_eq_true] at full
    obtain ⟨array, index, isIndex, outside, fixed⟩ := full
    have unchanged := Object.write_refused array isIndex outside fixed v
    rw [run_permitted data other permitted, run_permitted data other permitted, unchanged]
    dsimp only
    rw [with_object_self]
    exact ⟨rfl, .redefinition key, rfl, rfl⟩
  · rw [run_put_property data, run_put_property data, if_neg permitted, if_neg permitted]
    exact ⟨rfl, .readOnly key, rfl, rfl⟩

/-- A write of which no function is to be called, other than of the length of an array, succeeds exactly if it
is permitted and an array that has to grow for it may. The property then holds the value, and nothing else is
changed but the length of an array that grows; it is the same whether or not a refusal would be an error. A
write that does not succeed changes no object that is there: it is an error if it is to be one, and comes to
nothing if not. -/
theorem put_reads_back (m : Machine) (engine : Engine) (id : ObjectId) (key : String) (v : Value)
    (there : id.index < m.heap.objects.size)
    (formed : (m.heap.get id).isArray → (m.heap.get id).WellFormedArray Object.maxWord)
    (data : ∀ p, m.heap.found? id key = some p → p.isData)
    (other : (m.heap.get id).isArray → key ≠ Object.lengthKey) :
    ((m.run (putProperty engine id key v true)).1 = .ok () ↔ m.heap.AllowsPut id key) ∧
    (m.heap.AllowsPut id key → ∃ o, (m.heap.get id).Written key v o ∧
      (∀ throws, m.run (putProperty engine id key v throws) = (.ok (), m.withObject id o)) ∧
      (m.withObject id o).heap.get id = o ∧
      (∀ elsewhere ≠ id, (m.withObject id o).heap.get elsewhere = m.heap.get elsewhere) ∧
      (m.withObject id o).run (getProperty engine id key) = (.ok v, m.withObject id o)) ∧
    (¬m.heap.AllowsPut id key →
      m.run (putProperty engine id key v false) = (.ok (), m) ∧
      (∃ fault : Fault, fault.kind = .type ∧
        m.run (putProperty engine id key v true) = m.run (throwFault fault)) ∧
      ∀ any : ObjectId, any.index < m.heap.objects.size →
        (m.run (putProperty engine id key v true)).2.heap.get any = m.heap.get any) := by
  refine ⟨⟨fun ends => ?_, fun allowed => ?_⟩, fun allowed => ?_, fun refused => ?_⟩
  · by_contra refused
    obtain ⟨_, fault, _, thrown⟩ := run_put_refused data other refused
    rw [thrown] at ends
    cases ends
  · obtain ⟨o, _, ends⟩ := run_put_allowed formed data other allowed
    rw [ends]
  · obtain ⟨o, written, ends⟩ := run_put_allowed formed data other allowed
    exact ⟨o, written, ends, Heap.get_set_self o there, fun _ distinct => Heap.get_set_of_ne o (Ne.symm distinct),
      run_get_written there written⟩
  · obtain ⟨silent, fault, kind, thrown⟩ := run_put_refused data other refused
    refine ⟨silent, ⟨fault, kind, thrown⟩, fun any old => ?_⟩
    rw [thrown]
    exact get_after_fault m fault old

end Machine

/-- A new engine writes the first element of its first array, and reads it. -/
theorem first_array_written :
    ((Machine.bare {}).run (putProperty (engineAt 0) Intrinsics.first.arrayPrototype "0" .null true)).1 = .ok () ∧
    ((Machine.bare {}).run (putProperty (engineAt 0) Intrinsics.first.arrayPrototype "0" .null true)).2.run
      (getProperty (engineAt 0) Intrinsics.first.arrayPrototype "0") =
      (.ok .null, ((Machine.bare {}).run
        (putProperty (engineAt 0) Intrinsics.first.arrayPrototype "0" .null true)).2) := by
  obtain ⟨succeeds, allowed, _⟩ := Machine.put_reads_back (Machine.bare {}) (engineAt 0)
    Intrinsics.first.arrayPrototype "0" .null (by decide) (fun _ => first_array_well_formed) (fun p found => by cases found)
    (fun _ => by decide)
  have room : (Machine.bare {}).heap.AllowsPut Intrinsics.first.arrayPrototype "0" := ⟨rfl, fun _ _ _ _ => rfl⟩
  obtain ⟨o, _, ends, _, _, read⟩ := allowed room
  rw [ends true]
  exact ⟨rfl, read⟩

end ScriptEngine
