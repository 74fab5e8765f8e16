import ScriptEngine.Proofs.Evaluation.Restoration
import ScriptEngine.Realm

/-!
The installation of the library is orderly, when all objects count as its own. A new engine therefore
starts without nested calls, and none of its functions is one of a host.
-/

namespace ScriptEngine

variable {t : Terms} {moves : Bool}

/-- Any object is a run's own, but no environment is used. -/
def anyObject : Rights := { Rights.confined with objects := fun _ => True }

theorem orderly_install_data (id : ObjectId) (key : String) (value : Value) (attributes : Attributes) :
    Orderly t anyObject moves fun _ => modifyObject id (·.setData key value attributes) :=
  orderly_set_own trivial key value attributes

theorem orderly_define_method (target : ObjectId) (name : String) (length : Nat) {call : Builtin}
    (known : t.known ⟨name, call, none⟩) :
    Orderly t anyObject moves fun _ => defineMethod target name length call :=
  .bind (orderly_create_native name length known) fun _ => orderly_install_data ..

theorem orderly_create_constructor (name : String) (length : Nat) {call : Builtin} {c : Construction}
    (proto : ObjectId) (known : t.known ⟨name, call, some c⟩) :
    Orderly t anyObject moves fun _ => createConstructor name length call c proto := by
  refine .bind (.bind orderly_get_intrinsics fun _ => .newObject _ (proper_of_native known)) fun f => ?_
  exact .bind (orderly_install_data ..) fun _ => .bind (orderly_install_data ..) fun _ => .pure f

/-- The actions of a list are orderly if those of its members are. -/
theorem orderly_for_members {α : Type} {own : Rights} {action : Engine → α → Eval Unit}
    {items : List α} (each : ∀ a ∈ items, Orderly t own moves fun E => action E a) :
    Orderly t own moves fun E => items.forM (action E) := by
  induction items with
  | nil => exact .pure ()
  | cons a rest ih =>
    exact .bind (each a List.mem_cons_self) fun _ =>
      ih fun other member => each other (List.mem_cons_of_mem a member)

/-- It is a function of the host. -/
def Builtin.ofHost : Builtin → Bool
  | host _ => true
  | _ => false

/-- It is left to a function of the host. -/
def Construction.ofHost : Construction → Bool
  | call f => f.ofHost
  | error => false

/-- No function of the host has a part in it. -/
structure NativeFunction.Own (f : NativeFunction) : Prop where
  calls : f.call.ofHost = false
  constructs : ∀ c, f.construct = some c → c.ofHost = false

theorem NativeFunction.Own.uses_none {f : NativeFunction} (own : f.Own) (g : HostFunction) : ¬f.Uses g := by
  rintro (calls | constructs)
  · exact Bool.noConfusion ((congrArg Builtin.ofHost calls).symm.trans own.calls)
  · exact Bool.noConfusion (own.constructs _ constructs)

/-- The engine's own functions are possible whatever is taken as given. -/
theorem known_of_own {f : NativeFunction} (own : f.Own) : t.known f :=
  fun g uses => absurd uses (own.uses_none g)

/-- A method is the engine's own. -/
def MethodEntry.Own (e : MethodEntry) : Prop := e.call.ofHost = false

instance (e : MethodEntry) : Decidable e.Own := inferInstanceAs (Decidable (_ = _))

/-- A constructor and its methods are the engine's own. -/
def ConstructorEntry.Own (e : ConstructorEntry) : Prop :=
  e.call.ofHost = false ∧ e.construct.ofHost = false ∧ (∀ m ∈ e.own, m.Own) ∧ ∀ m ∈ e.inherited, m.Own

instance (e : ConstructorEntry) : Decidable e.Own := inferInstanceAs (Decidable (_ ∧ _))

/-- All functions of the library are the engine's own. -/
theorem library_own : (∀ e ∈ constructorEntries, e.Own) ∧ ∀ m ∈ globalFunctions, m.Own := by
  decide

theorem orderly_install_methods (target : ObjectId) {entries : List MethodEntry}
    (own : ∀ m ∈ entries, m.Own) :
    Orderly t anyObject moves fun _ => installMethods target entries :=
  orderly_for_members fun m member =>
    orderly_define_method target m.name m.length (known_of_own ⟨own m member, nofun⟩)

theorem orderly_install_constructor (global : ObjectId) {e : ConstructorEntry} (engines : e.Own) :
    Orderly t anyObject moves fun _ => installConstructor global e := by
  obtain ⟨calls, constructs, own, inherited⟩ := engines
  have known : t.known ⟨e.name, e.call, some e.construct⟩ := by
    refine known_of_own ⟨calls, ?_⟩
    rintro _ ⟨⟩
    exact constructs
  refine .bind (orderly_create_constructor e.name 1 e.proto known) fun f => ?_
  refine .bind (.forM _ fun entry => orderly_install_data ..) fun _ => ?_
  refine .bind (orderly_install_methods f own) fun _ => ?_
  exact .bind (orderly_install_methods e.proto inherited) fun _ => orderly_install_data ..

theorem orderly_install_library : Orderly t anyObject moves fun _ => installLibrary := by
  refine .bind orderly_get_realm fun realm => ?_
  refine .bind (orderly_for_members fun e member => ?_) fun _ => ?_
  · exact orderly_install_constructor _ (library_own.1 e member)
  · refine .bind (.forM _ fun entry => orderly_install_data ..) fun _ => ?_
    exact orderly_install_methods _ library_own.2

/-- What holds of all first objects holds wherever an object is looked for. -/
theorem bare_all {p : Object → Prop} (options : EngineOptions) (each : ∀ o ∈ firstObjects, p o) (absent : p default)
    (id : ObjectId) : p ((Machine.bare options).heap.get id) := by
  by_cases there : id.index < firstObjects.length
  · have found : (Machine.bare options).heap.get id = firstObjects[id.index] := by
      simp [Heap.get, Machine.bare, Array.getD_eq_getD_getElem?, there]
    rw [found]
    exact each _ (List.getElem_mem there)
  · have missing : (Machine.bare options).heap.get id = default := by
      simp [Heap.get, Machine.bare, Array.getD_eq_getD_getElem?, there]
    rwa [missing]

/-- The only function among the first objects is one that does nothing. -/
theorem first_function {o : Object} (member : o ∈ firstObjects) {f : Callable} (runs : o.callable? = some f) :
    f = .native ⟨"", .nothing, none⟩ := by
  simp only [firstObjects, List.mem_append, List.mem_cons, List.not_mem_nil, or_false, List.mem_map] at member
  rcases member with ((rfl | rfl | rfl | rfl | rfl | rfl) | ⟨kind, -, rfl⟩) | rfl <;> cases runs
  rfl

/-- None of the first objects is a function of a host. -/
theorem bare_known (options : EngineOptions) : (Machine.bare options).heap.Known t := by
  refine bare_all options (fun o member f runs => ?_) (known_of_plain rfl)
  obtain rfl : f = ⟨"", .nothing, none⟩ := Callable.native.inj (first_function member runs)
  exact known_of_own ⟨rfl, nofun⟩

theorem run_install_library (options : EngineOptions) :
    ((Machine.bare options).run installLibrary).2 = Machine.new options := by
  unfold Machine.run Machine.new
  generalize installLibrary (Machine.bare options) = ended
  cases ended <;> rfl

/-- A new engine is in the context of whole scripts, without nested calls, and its functions are possible whatever
is taken as given. -/
theorem new_engine_fit {options : EngineOptions} (bound : t.reported options.maxCallDepth) :
    (Machine.new options).Fit t options.maxCallDepth ∧ (Machine.bare options).Settles false (Machine.new options) := by
  have fit : (Machine.bare options).Fit t options.maxCallDepth := ⟨bare_known options, rfl, .inl (Nat.zero_le _)⟩
  have orderly : Orderly t anyObject false fun _ => installLibrary := orderly_install_library
  have ends := alike_of_orderly (alike_spent t options.maxCallDepth) bound orderly _ fit
  rw [← run_install_library]
  exact ⟨ends.fit, ends.settles⟩

theorem new_engine_settles (options : EngineOptions) : (Machine.bare options).Settles false (Machine.new options) :=
  (new_engine_fit (t := .any) trivial).2

/-- A run without functions of a host. -/
def Terms.unhosted : Terms := { Terms.any with hosted := False }

/-- A new engine has no functions of a host. -/
theorem new_engine_unhosted {options : EngineOptions} {id : ObjectId} {f : NativeFunction}
    (runs : ((Machine.new options).heap.get id).callable? = some (.native f)) (g : HostFunction) : ¬f.Uses g :=
  fun uses =>
    have fit : (Machine.new options).Fit .unhosted options.maxCallDepth := (new_engine_fit trivial).1
    (fit.known id f runs g uses .undefined []).hosted

end ScriptEngine
