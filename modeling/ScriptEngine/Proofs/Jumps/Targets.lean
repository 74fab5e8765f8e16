import ScriptEngine.Proofs.Jumps.Confinement
import ScriptEngine.Proofs.Jumps.ReadStatement

/-!
Jumps of programs that were read. The checks made while a program is read are enough for its execution:
each jump ends at the statement that its text shows, and none leaves a function or the program itself.
-/

namespace ScriptEngine

/-! ## Bodies -/

variable {place : Place}

theorem Agrees.yields {action : Eval Completion} {lexical : Eval Exit}
    (agrees : Agrees place action lexical) (within : Yields (Exit.Within place) lexical) :
    Yields (fun c => (c.exit place).Within place) action := by
  intro m c same
  refine within m (c.exit place) ?_
  rw [← agrees, Machine.run_map, same]
  rfl

/-- What a sound statement ends with, its place allows. -/
theorem yields_execute (steps : Nat) {s : Stmt} (sound : (Node.stmt place s).Sound) :
    Yields (fun c => (c.exit place).Within place) ((engineAt steps).execute place.labels s) :=
  (agrees_execute steps place s).yields (yields_execute_at steps place s sound)

theorem yields_execute_body (steps : Nat) (last : Option Value) {body : List Stmt}
    (bare : place.labels = []) (sound : ∀ s ∈ body, (Node.stmt place s).Sound) :
    Yields (fun c => (c.exit place).Within place) (executeAll (engineAt steps) last body) := by
  have agrees := agrees_execute_all (fun s => bare ▸ agrees_execute steps place s) last body
  exact agrees.yields (yields_execute_all (fun s mem => yields_execute_at steps place s (sound s mem)) last)

/-- The body of a function has no jump to leave it by, only a return. -/
theorem ends_function {c : Completion} (within : (c.exit .function).Within .function) :
    (∃ value, c = .normal value) ∨ ∃ value, c = .returned value := by
  cases c with
  | normal value => exact .inl ⟨value, rfl⟩
  | returned value => exact .inr ⟨value, rfl⟩
  | broke label value => cases within
  | continued label value =>
    obtain ⟨labels, found⟩ := within
    cases found

/-- A statement of a script has no jump to leave the script by, not even a return. -/
theorem ends_script {c : Completion} (within : (c.exit .script).Within .script) :
    ∃ value, c = .normal value := by
  cases c with
  | normal value => exact ⟨value, rfl⟩
  | returned value => cases within
  | broke label value => cases within
  | continued label value =>
    obtain ⟨labels, found⟩ := within
    cases found

/-- No statement of a script cuts the others short, so that all of them run. -/
theorem execute_script (steps : Nat) (last : Option Value) {body : List Stmt}
    (sound : ∀ s ∈ body, (Node.stmt .script s).Sound) :
    executeAll (engineAt steps) last body =
      Completion.normal <$> runStatements (engineAt steps) last body := by
  induction body generalizing last with
  | nil => exact (map_pure _ _).symm
  | cons s rest ih =>
    unfold executeAll runStatements
    rw [map_bind]
    refine (yields_execute steps (sound s (.head _))).bind_congr fun c within => ?_
    obtain ⟨value, rfl⟩ := ends_script within
    exact ih _ fun s mem => sound s (.tail _ mem)

/-! ## Programs -/

/-- The jumps of a program end, in every execution, where its text says. -/
structure Program.JumpsEnd (p : Program) : Prop where
  /-- A `break` names or means the innermost statement around it that takes it. -/
  breaks : ∀ place label span, p.Contains (.stmt place ⟨.breakTo label, span⟩) →
    ∃ scope, JumpScope.Innermost (·.endsBreak label) place.scopes (place.breakDepth label) scope
  /-- A `continue` names or means the innermost loop around it that takes it. -/
  continues : ∀ place label span, p.Contains (.stmt place ⟨.continueTo label, span⟩) →
    ∃ labels, JumpScope.Innermost (·.endsContinue label) place.scopes (place.continueDepth label)
      (.loop labels)
  /-- A statement passes jumps on to the statements around it exactly as these depths say, and no jump
  leaves more of them than there are. -/
  statements : ∀ place s steps, p.Contains (.stmt place s) →
    Agrees place ((engineAt steps).execute place.labels s) (Lexical.executeAt steps place s) ∧
      Yields (Exit.Within place) (Lexical.executeAt steps place s)
  /-- A function goes on to the end of its body or returns. -/
  functions : ∀ code steps, p.Contains (.code code) →
    Yields (fun c => (∃ value, c = .normal value) ∨ ∃ value, c = .returned value)
      (executeAll (engineAt steps) none code.body)
  /-- The script goes on to its end. -/
  script : ∀ steps, executeAll (engineAt steps) none p.body =
    Completion.normal <$> runStatements (engineAt steps) none p.body

/-- The checks made while a program is read suffice for all of its executions: every jump ends at the
innermost statement that takes it, and none escapes from a function or from the program. -/
theorem jumps_end_at_their_targets {source : String} {strict : Bool} {p : Program}
    (accepted : Program.ofSource source strict = .ok p) : p.JumpsEnd where
  breaks place label span contained :=
    JumpScope.innermost_of_exists ((Node.sound_iff _).mp (sound_of_source accepted contained)).1
  continues place label span contained := by
    have anchored := ((Node.sound_iff _).mp (sound_of_source accepted contained)).1
    obtain ⟨scope, innermost⟩ := JumpScope.innermost_of_exists anchored
    obtain ⟨labels, rfl⟩ := innermost_loop innermost
    exact ⟨labels, innermost⟩
  statements place s steps contained :=
    ⟨agrees_execute steps place s, yields_execute_at steps place s (sound_of_source accepted contained)⟩
  functions code steps contained := by
    have sound := ((Node.sound_iff _).mp (sound_of_source accepted contained)).2
    have body (s : Stmt) (mem : s ∈ code.body) : (Node.stmt .function s).Sound :=
      sound _ (List.mem_append_left _ (List.mem_map_of_mem mem))
    intro m c same
    exact ends_function (yields_execute_body steps none rfl body m c same)
  script steps := by
    refine execute_script steps none fun s mem => sound_of_source accepted ⟨.stmt .script s, ?_, .here _⟩
    exact List.mem_append_left _ (List.mem_map_of_mem mem)

/-- A jump out of a `try` statement in a `switch` statement in a loop, on the way of which another
one takes its place. -/
def overtakenJump : String :=
  "outer: for (;;) switch (1) { case 1: try { continue outer } finally { break outer } }"

/-- Such a program is read. -/
theorem overtaken_jump_ends :
    ∃ p, Program.ofSource overtakenJump false = .ok p ∧ p.JumpsEnd := by
  have accepted : (Program.ofSource overtakenJump false).isOk = true := by decide +kernel
  cases read : Program.ofSource overtakenJump false with
  | ok p => exact ⟨p, rfl, jumps_end_at_their_targets read⟩
  | error d =>
    rw [read] at accepted
    cases accepted

end ScriptEngine
