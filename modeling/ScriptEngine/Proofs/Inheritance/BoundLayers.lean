import ScriptEngine.Proofs.Inheritance.Loops

/-!
Functions with bound arguments as layers over other functions. Each comes after the function that it calls, so the
way through the layers ends, and what is asked of a function with bound arguments is asked of the one below them.
-/

namespace ScriptEngine.Heap

variable {α : Type} {h : Heap} {f t : ObjectId} {b : BoundFunction} {layers : List BoundFunction}

/-- An object is a function with bound arguments, which calls another one. -/
def BindsTo (h : Heap) (f target : ObjectId) : Prop :=
  ∃ b, (h.get f).callable? = some (.bound b) ∧ b.target = target

/-- From no function one comes to further and further functions. -/
theorem binds_to_well_founded (older : h.TargetsOlder) : WellFounded fun target f => h.BindsTo f target := by
  apply Subrelation.wf (r := fun target f : ObjectId => target.index < f.index)
  · rintro target f ⟨b, runs, rfl⟩
    exact older f b runs
  · exact (measure ObjectId.index).wf

/-! ## Through all layers -/

/-- What is made of a function from what is made of the one that it calls, through at most `fuel` layers. -/
def throughLayers (h : Heap) (plain : Callable → α) (layer : Option α → α) (fuel : Nat) (g : Callable) : α :=
  match fuel, g with
  | 0, .bound _ => layer none
  | fuel + 1, .bound b => layer ((h.get b.target).callable?.map (h.throughLayers plain layer fuel))
  | _, g => plain g

theorem through_layers_plain {g : Callable} (unbound : ∀ b, g ≠ .bound b) (plain : Callable → α)
    (layer : Option α → α) (fuel : Nat) : h.throughLayers plain layer fuel g = plain g := by
  cases g with
  | bound b => exact absurd rfl (unbound b)
  | script | native => cases fuel <;> rfl

/-- Below an object there are no more layers than there are objects before it. -/
theorem through_layers_enough (older : h.TargetsOlder) (plain : Callable → α) (layer : Option α → α)
    {fuel other : Nat} {g : Callable} (runs : (h.get f).callable? = some g) (enough : f.index ≤ fuel)
    (also : f.index ≤ other) : h.throughLayers plain layer fuel g = h.throughLayers plain layer other g := by
  induction fuel generalizing f other g with
  | zero =>
    have unbound : ∀ b, g ≠ .bound b := by
      rintro b rfl
      exact Nat.not_lt_zero _ (Nat.lt_of_lt_of_le (older f b runs) enough)
    rw [through_layers_plain unbound, through_layers_plain unbound]
  | succ fuel ih =>
    cases g with
    | script | native => cases other <;> rfl
    | bound b =>
      have before := older f b runs
      obtain ⟨less, rfl⟩ := Nat.exists_eq_succ_of_ne_zero (Nat.ne_zero_of_lt (Nat.lt_of_lt_of_le before also))
      have below : (h.get b.target).callable?.map (h.throughLayers plain layer fuel) =
          (h.get b.target).callable?.map (h.throughLayers plain layer less) := by
        cases target : (h.get b.target).callable? with
        | none => rfl
        | some g => exact congrArg some (ih target (by omega) (by omega))
      exact congrArg layer below

/-- With as many steps as there are objects, what is made of the function below is made of it by itself. -/
theorem through_layers_bound (older : h.TargetsOlder) (plain : Callable → α) (layer : Option α → α)
    (b : BoundFunction) :
    h.throughLayers plain layer h.objects.size (.bound b) =
      layer ((h.get b.target).callable?.map (h.throughLayers plain layer h.objects.size)) := by
  cases below : (h.get b.target).callable? with
  | none =>
    cases h.objects.size with
    | zero => rfl
    | succ n => exact congrArg layer (congrArg (Option.map _) below)
  | some g =>
    have there := holds_of_callable below
    unfold Holds at there
    obtain ⟨n, size⟩ := Nat.exists_eq_succ_of_ne_zero (Nat.ne_zero_of_lt there)
    have same : h.throughLayers plain layer h.objects.size g = h.throughLayers plain layer n g :=
      through_layers_enough older plain layer below (Nat.le_of_lt there) (by omega)
    rw [Option.map_some, same, size]
    exact congrArg layer (congrArg (Option.map _) below)

theorem function_name_within_eq (h : Heap) (fuel : Nat) (g : Callable) :
    h.functionNameWithin fuel g =
      h.throughLayers (h.functionNameWithin 0) (fun below => "bound " ++ below.getD "") fuel g := by
  induction fuel generalizing g with
  | zero => cases g <;> rfl
  | succ fuel ih =>
    cases g with
    | script | native => rfl
    | bound b =>
      unfold functionNameWithin throughLayers
      cases (h.get b.target).callable? with
      | none => rfl
      | some target => exact congrArg ("bound " ++ ·) (ih target)

theorem is_constructor_within_eq (h : Heap) (fuel : Nat) (g : Callable) :
    h.isConstructorWithin fuel g =
      h.throughLayers (h.isConstructorWithin 0) (fun below => below.getD false) fuel g := by
  induction fuel generalizing g with
  | zero => cases g <;> rfl
  | succ fuel ih =>
    cases g with
    | script | native => rfl
    | bound b =>
      unfold isConstructorWithin throughLayers
      cases (h.get b.target).callable? with
      | none => rfl
      | some target => exact ih target

/-- The name of a function with bound arguments contains that of the function below. -/
theorem function_name_bound (older : h.TargetsOlder) (b : BoundFunction) :
    h.functionName (.bound b) = "bound " ++ ((h.get b.target).callable?.map h.functionName).getD "" := by
  have within : h.functionName = h.throughLayers _ _ h.objects.size := funext (h.function_name_within_eq _)
  rw [within, through_layers_bound older]

/-- A function with bound arguments constructs if the function below does. -/
theorem is_constructor_bound (older : h.TargetsOlder) (b : BoundFunction) :
    h.isConstructor (.bound b) = ((h.get b.target).callable?.map h.isConstructor).getD false := by
  have within : h.isConstructor = h.throughLayers _ _ h.objects.size := funext (h.is_constructor_within_eq _)
  rw [within, through_layers_bound older]

/-- The function that is called in the end is that of the function below. -/
theorem target_bound (older : h.TargetsOlder) (runs : (h.get f).callable? = some (.bound b)) :
    h.target f = h.target b.target := by
  have on : h.targetRound f = .inl b.target := by simp only [targetRound, runs]
  exact (target_ends older f).unique (.again on (target_ends older b.target))

theorem target_plain (unbound : ∀ b, (h.get f).callable? ≠ some (.bound b)) : h.target f = f := by
  unfold target targetWithin
  split
  · next b _ runs => exact absurd runs (unbound b)
  · rfl

/-! ## Layers -/

/-- An object is a function that is bound over another one, by layers of which the innermost comes first. -/
inductive BoundOver (h : Heap) (t : ObjectId) : List BoundFunction → ObjectId → Prop
  | itself : h.BoundOver t [] t
  | layer {layers : List BoundFunction} {f : ObjectId} {b : BoundFunction}
      (runs : (h.get f).callable? = some (.bound b)) (inner : h.BoundOver t layers b.target) :
      h.BoundOver t (layers ++ [b]) f

/-- Below all layers of a function there is one without bound arguments. -/
theorem exists_bound_over (older : h.TargetsOlder) (f : ObjectId) :
    ∃ t layers, h.BoundOver t layers f ∧ ∀ b, (h.get t).callable? ≠ some (.bound b) := by
  induction f using (binds_to_well_founded older).induction with
  | _ f ih =>
    by_cases bound : ∃ b, (h.get f).callable? = some (.bound b)
    · obtain ⟨b, runs⟩ := bound
      obtain ⟨t, layers, lies, plain⟩ := ih b.target ⟨b, runs, rfl⟩
      exact ⟨t, layers ++ [b], .layer runs lies, plain⟩
    · exact ⟨f, [], .itself, fun b runs => bound ⟨b, runs⟩⟩

/-- There are fewer layers than objects. -/
theorem BoundOver.length_le (lies : h.BoundOver t layers f) (older : h.TargetsOlder) :
    layers.length + t.index ≤ f.index := by
  induction lies with
  | itself => exact Nat.le_of_eq (Nat.zero_add _)
  | layer runs _ ih =>
    have before := older _ _ runs
    rw [List.length_append, List.length_singleton]
    omega

/-- What runs below all layers decides what a function with bound arguments is. -/
structure BoundOver.Shows (h : Heap) (t f : ObjectId) (g : Callable) (count : Nat) : Prop where
  target : h.target f = t
  runs : ∃ c, (h.get f).callable? = some c ∧ h.isConstructor c = h.isConstructor g ∧
    h.functionName c = (List.replicate count "bound ").foldr (· ++ ·) (h.functionName g)

theorem BoundOver.shows (lies : h.BoundOver t layers f) (older : h.TargetsOlder) {g : Callable}
    (runs : (h.get t).callable? = some g) (unbound : ∀ b, g ≠ .bound b) :
    BoundOver.Shows h t f g layers.length := by
  induction lies with
  | itself =>
    have plain (b : BoundFunction) : (h.get t).callable? ≠ some (.bound b) := by
      rw [runs]
      exact fun same => unbound b (Option.some.inj same)
    exact ⟨target_plain plain, g, runs, rfl, rfl⟩
  | @layer layers f b bound inner ih =>
    obtain ⟨target, c, below, constructs, name⟩ := ih
    refine ⟨(target_bound older bound).trans target, .bound b, bound, ?_, ?_⟩
    · rw [is_constructor_bound older, below]
      exact constructs
    · rw [function_name_bound older, below, List.length_append, List.length_singleton, List.replicate_succ]
      exact congrArg ("bound " ++ ·) name

end ScriptEngine.Heap
