import ScriptEngine.Evaluation.Script

/-!
What becomes of bindings. One that may not be deleted stays where it is, keeps its flags, and is never
taken back once it is initialized; if it is immutable it then keeps its value too.
-/

namespace ScriptEngine

/-! ## One binding -/

/-- What a binding becomes when it is only used as it may be. -/
structure Binding.Lasts (before after : Binding) : Prop where
  mutable : after.mutable = before.mutable
  deletable : after.deletable = before.deletable
  strict : after.strict = before.strict
  initialized : before.initialized = true → after.initialized = true
  value : before.initialized = true → before.mutable = false → after.value = before.value

theorem Binding.lasts_refl (b : Binding) : b.Lasts b :=
  ⟨rfl, rfl, rfl, id, fun _ _ => rfl⟩

theorem Binding.lasts_trans {first second third : Binding} (early : first.Lasts second)
    (late : second.Lasts third) : first.Lasts third where
  mutable := late.mutable.trans early.mutable
  deletable := late.deletable.trans early.deletable
  strict := late.strict.trans early.strict
  initialized ready := late.initialized (early.initialized ready)
  value ready fixed :=
    (late.value (early.initialized ready) (early.mutable.trans fixed)).trans (early.value ready fixed)

namespace Environment

/-! ## One environment -/

/-- None of the bindings that an environment holds may be deleted. -/
def Firm (e : Environment) : Prop :=
  ∀ name b, e.binding? name = some b → b.deletable = false

/-- What an environment becomes when its bindings are only used as they may be, of which only those with
certain names may be initialized. -/
structure Keeps (begins : String → Prop) (before after : Environment) : Prop where
  outer : after.outer = before.outer
  declarative : after.isDeclarative = before.isDeclarative
  bindings : ∀ name b, before.binding? name = some b → b.deletable = false →
    ∃ kept, after.binding? name = some kept ∧ b.Lasts kept ∧
      (kept.initialized = true → b.initialized = true ∨ begins name)

variable {begins : String → Prop} {e : Environment} {name : String} {b : Binding}

theorem keeps_refl (begins : String → Prop) (e : Environment) : e.Keeps begins e :=
  ⟨rfl, rfl, fun _ b found _ => ⟨b, found, b.lasts_refl, .inl⟩⟩

/-- Which names may be initialized only matters for those that are bound. -/
theorem keeps_mono {other : String → Prop} {after : Environment}
    (more : ∀ name, e.binding? name ≠ none → begins name → other name) (keeps : e.Keeps begins after) :
    e.Keeps other after where
  outer := keeps.outer
  declarative := keeps.declarative
  bindings name b found stays := by
    obtain ⟨kept, there, lasts, begun⟩ := keeps.bindings name b found stays
    exact ⟨kept, there, lasts, fun ready => (begun ready).imp_right (more name (by simp [found]))⟩

theorem keeps_trans {other : String → Prop} {first second third : Environment}
    (early : first.Keeps begins second) (late : second.Keeps other third)
    (more : ∀ name, first.binding? name ≠ none → other name → begins name) : first.Keeps begins third where
  outer := late.outer.trans early.outer
  declarative := late.declarative.trans early.declarative
  bindings name b found stays := by
    obtain ⟨between, there, lasts, begun⟩ := early.bindings name b found stays
    obtain ⟨kept, still, onward, later⟩ := late.bindings name between there (lasts.deletable.trans stays)
    refine ⟨kept, still, Binding.lasts_trans lasts onward, fun ready => ?_⟩
    exact (later ready).elim begun fun starts => .inr (more name (by simp [found]) starts)

theorem outer_set (e : Environment) (name : String) (b : Binding) : (e.set name b).outer = e.outer := by
  obtain ⟨outer, bindings⟩ := e
  cases bindings <;> rfl

theorem outer_erase (e : Environment) (name : String) : (e.erase name).outer = e.outer := by
  obtain ⟨outer, bindings⟩ := e
  cases bindings <;> rfl

theorem outer_initialize (e : Environment) (name : String) (value : Value) :
    (e.initialize? name value).2.outer = e.outer := by
  unfold initialize?
  split
  · split
    · rfl
    · exact outer_set ..
  · rfl

theorem outer_foldl {α : Type} {step : Environment → α → Environment} (each : ∀ e a, (step e a).outer = e.outer)
    (items : List α) (e : Environment) : (items.foldl step e).outer = e.outer := by
  induction items generalizing e with
  | nil => rfl
  | cons a rest ih => exact (ih _).trans (each e a)

theorem outer_create_lexical (e : Environment) (names : List LexicalName) :
    (e.createLexical names).outer = e.outer := by
  refine outer_foldl (fun e n => ?_) names e
  split
  · exact outer_set ..
  · unfold createMutable
    split
    · rfl
    · exact outer_set ..

theorem outer_bind_parameters (e : Environment) (parameters : List String) (values : List Value) :
    (bindParameters e parameters values).outer = e.outer := by
  induction parameters generalizing e values with
  | nil => rfl
  | cons name rest ih => cases values <;> exact (ih ..).trans (outer_set ..)

theorem outer_bind_vars (e : Environment) (names : List String) : (bindVars e names).outer = e.outer := by
  refine outer_foldl (fun e name => ?_) names e
  split
  · rfl
  · exact outer_set ..

theorem outer_copy_names (source e : Environment) (names : List String) :
    (copyNames source e names).outer = e.outer :=
  outer_foldl (fun _ _ => outer_set ..) names e

theorem isDeclarative_erase (e : Environment) (name : String) :
    (e.erase name).isDeclarative = e.isDeclarative := by
  obtain ⟨outer, bindings⟩ := e
  cases bindings <;> rfl

/-- An environment that finds a binding holds its bindings itself. -/
theorem isDeclarative_of_binding (found : e.binding? name = some b) : e.isDeclarative = true := by
  obtain ⟨outer, bindings⟩ := e
  cases bindings with
  | declarative names => rfl
  | properties object providesThis => cases found

/-- A binding is replaced by what it may become. -/
theorem keeps_set {changed : Binding} (found : e.binding? name = some b) (lasts : b.Lasts changed)
    (begun : changed.initialized = true → b.initialized = true ∨ begins name) :
    e.Keeps begins (e.set name changed) where
  outer := outer_set ..
  declarative := isDeclarative_set ..
  bindings other old there _ := by
    rw [binding?_set (isDeclarative_of_binding found)]
    by_cases same : name = other
    · subst same
      obtain rfl : b = old := Option.some.inj (found.symm.trans there)
      exact ⟨changed, if_pos rfl, lasts, begun⟩
    · exact ⟨old, by rw [if_neg same, there], old.lasts_refl, .inl⟩

/-- A name that was not bound at first may be bound in any way. -/
theorem keeps_set_unbound {first : Environment} (keeps : first.Keeps begins e)
    (unbound : first.binding? name = none) (b : Binding) : first.Keeps begins (e.set name b) where
  outer := (outer_set ..).trans keeps.outer
  declarative := (isDeclarative_set ..).trans keeps.declarative
  bindings other old found stays := by
    obtain ⟨kept, there, lasts, begun⟩ := keeps.bindings other old found stays
    refine ⟨kept, ?_, lasts, begun⟩
    rw [binding?_set (isDeclarative_of_binding there), if_neg, there]
    rintro rfl
    rw [unbound] at found
    cases found

theorem keeps_erase (deletable : ∀ b, e.binding? name = some b → b.deletable = true) :
    e.Keeps begins (e.erase name) where
  outer := outer_erase ..
  declarative := isDeclarative_erase ..
  bindings other old found stays := by
    refine ⟨old, ?_, old.lasts_refl, .inl⟩
    rw [binding?_erase (isDeclarative_of_binding found), if_neg, found]
    rintro rfl
    rw [deletable old found] at stays
    cases stays

/-- A binding may get its first value if its name is one of those that may begin. -/
theorem keeps_first_value (begun : begins name) (e : Environment) (value : Value) :
    e.Keeps begins (e.initialize? name value).2 := by
  unfold initialize?
  split
  · rename_i b found
    split
    · exact keeps_refl ..
    · rename_i waiting
      exact keeps_set found ⟨rfl, rfl, rfl, fun _ => rfl, fun ready => absurd ready waiting⟩ fun _ => .inr begun
  · exact keeps_refl ..

/-- New names do not concern the bindings that are there. -/
theorem keeps_create_lexical {names : List LexicalName}
    (unbound : ∀ n ∈ names, e.binding? n.name = none) : e.Keeps begins (e.createLexical names) := by
  have each (names : List LexicalName) (unbound : ∀ n ∈ names, e.binding? n.name = none)
      (now : Environment) (keeps : e.Keeps begins now) : e.Keeps begins (now.createLexical names) := by
    induction names generalizing now with
    | nil => exact keeps
    | cons n rest ih =>
      refine ih (fun other mem => unbound other (.tail _ mem)) _ ?_
      have new := unbound n (.head _)
      dsimp only
      split
      · exact keeps_set_unbound keeps new _
      · unfold createMutable
        split
        · exact keeps
        · exact keeps_set_unbound keeps new _
  exact each names unbound e (keeps_refl ..)

/-! ## Bindings that may not be deleted -/

theorem firm_declarative (outer : Option EnvironmentId) : (declarative outer).Firm := nofun

theorem firm_of_object (object : ObjectId) (providesThis : Bool) (outer : Option EnvironmentId) :
    (ofObject object providesThis outer).Firm := nofun

theorem firm_set (firm : e.Firm) (stays : b.deletable = false) : (e.set name b).Firm := by
  intro other found there
  rw [binding?_set (isDeclarative_set e name b ▸ isDeclarative_of_binding there)] at there
  split at there
  · cases there
    exact stays
  · exact firm other found there

theorem firm_erase (firm : e.Firm) : (e.erase name).Firm := by
  intro other found there
  rw [binding?_erase (isDeclarative_erase e name ▸ isDeclarative_of_binding there)] at there
  split at there
  · cases there
  · exact firm other found there

theorem firm_declare (firm : e.Firm) (value : Value) : (e.declare name value).Firm :=
  firm_set firm rfl

theorem firm_first_value (firm : e.Firm) (value : Value) : (e.initialize? name value).2.Firm := by
  unfold initialize?
  split
  · rename_i b found
    split
    · exact firm
    · exact firm_set firm (firm name b found)
  · exact firm

theorem firm_foldl {α : Type} {step : Environment → α → Environment}
    (each : ∀ e a, e.Firm → (step e a).Firm) (items : List α) {e : Environment} (firm : e.Firm) :
    (items.foldl step e).Firm := by
  induction items generalizing e with
  | nil => exact firm
  | cons a rest ih => exact ih (each e a firm)

theorem firm_create_lexical (firm : e.Firm) (names : List LexicalName) : (e.createLexical names).Firm := by
  refine firm_foldl (fun e n firm => ?_) names firm
  split
  · exact firm_set firm rfl
  · unfold createMutable
    split
    · exact firm
    · exact firm_set firm rfl

theorem firm_bind_parameters (firm : e.Firm) (parameters : List String) (values : List Value) :
    (bindParameters e parameters values).Firm := by
  induction parameters generalizing e values with
  | nil => exact firm
  | cons name rest ih => cases values <;> exact ih (firm_declare firm _) _

theorem firm_bind_vars (firm : e.Firm) (names : List String) : (bindVars e names).Firm := by
  refine firm_foldl (fun e name firm => ?_) names firm
  split
  · exact firm
  · exact firm_declare firm _

theorem firm_copy_names (source : Environment) (firm : e.Firm) (names : List String) :
    (copyNames source e names).Firm :=
  firm_foldl (fun _ _ firm => firm_declare firm _) names firm

end Environment

namespace EnvironmentStore

/-! ## All environments -/

/-- What the environments become when no bindings but those of exempt environments are used otherwise than
they may be, and only certain ones are initialized. -/
structure Keeps (exempt : EnvironmentId → Prop) (begins : EnvironmentId → String → Prop)
    (before after : EnvironmentStore) : Prop where
  size : before.environments.size ≤ after.environments.size
  environments : ∀ id, id.index < before.environments.size → ¬exempt id →
    (before.get id).Keeps (begins id) (after.get id)
  firm : (∀ id, (before.get id).Firm) → ∀ id, (after.get id).Firm

variable {exempt : EnvironmentId → Prop} {begins : EnvironmentId → String → Prop} {s : EnvironmentStore}

theorem keeps_refl (exempt : EnvironmentId → Prop) (begins : EnvironmentId → String → Prop)
    (s : EnvironmentStore) : s.Keeps exempt begins s :=
  ⟨Nat.le_refl _, fun _ _ _ => Environment.keeps_refl .., id⟩

/-- Where anything may happen and which bindings may be initialized only matters for what is there. -/
theorem keeps_mono {other : EnvironmentId → Prop} {more : EnvironmentId → String → Prop}
    {after : EnvironmentStore}
    (exempts : ∀ id, id.index < s.environments.size → exempt id → other id)
    (starts : ∀ id name, id.index < s.environments.size → (s.get id).binding? name ≠ none →
      begins id name → more id name)
    (keeps : s.Keeps exempt begins after) : s.Keeps other more after where
  size := keeps.size
  environments id there checked :=
    Environment.keeps_mono (fun name => starts id name there)
      (keeps.environments id there fun also => checked (exempts id there also))
  firm := keeps.firm

theorem keeps_trans {other : EnvironmentId → Prop} {more : EnvironmentId → String → Prop}
    {first second third : EnvironmentStore}
    (early : first.Keeps exempt begins second) (late : second.Keeps other more third)
    (exempts : ∀ id, id.index < first.environments.size → other id → exempt id)
    (starts : ∀ id name, id.index < first.environments.size → (first.get id).binding? name ≠ none →
      more id name → begins id name) : first.Keeps exempt begins third where
  size := Nat.le_trans early.size late.size
  environments id there checked :=
    Environment.keeps_trans (early.environments id there checked)
      (late.environments id (Nat.lt_of_lt_of_le there early.size) fun also => checked (exempts id there also))
      fun name => starts id name there
  firm all := late.firm (early.firm all)

theorem get_beyond {id : EnvironmentId} (beyond : s.environments.size ≤ id.index) :
    s.get id = default := by
  simp [get, Array.getD_eq_getD_getElem?, beyond]

theorem keeps_add (exempt : EnvironmentId → Prop) (begins : EnvironmentId → String → Prop)
    (s : EnvironmentStore) {e : Environment} (firm : e.Firm) : s.Keeps exempt begins (s.add e).2 where
  size := by simp
  environments id there _ := by
    rw [get_add_of_lt e there]
    exact Environment.keeps_refl ..
  firm all id := by
    rcases Nat.lt_trichotomy id.index s.environments.size with there | last | beyond
    · rw [get_add_of_lt e there]
      exact all id
    · obtain rfl : (s.add e).1 = id := EnvironmentId.ext last.symm
      rw [get_add_self]
      exact firm
    · rw [get_beyond (by rw [size_add]; omega)]
      exact nofun

theorem keeps_set {id : EnvironmentId} {e : Environment}
    (change : exempt id ∨ (s.get id).Keeps (begins id) e) (firm : (s.get id).Firm → e.Firm) :
    s.Keeps exempt begins (s.set id e) where
  size := by simp
  environments other there checked := by
    by_cases same : id = other
    · subst same
      rw [get_set_self e there]
      exact change.resolve_left checked
    · rw [get_set_of_ne e same]
      exact Environment.keeps_refl ..
  firm all other := by
    by_cases same : id = other
    · subst same
      rcases Nat.lt_or_ge id.index s.environments.size with there | beyond
      · rw [get_set_self e there]
        exact firm (all id)
      · rw [get_beyond (by rw [size_set]; exact beyond)]
        exact nofun
    · rw [get_set_of_ne e same]
      exact all other

end EnvironmentStore
end ScriptEngine
