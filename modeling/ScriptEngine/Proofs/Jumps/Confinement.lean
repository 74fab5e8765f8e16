import ScriptEngine.Proofs.Evaluation.Outcome
import ScriptEngine.Proofs.Jumps.Agreement

/-!
No jump leaves more statements than there are. If every jump in a statement has somewhere to end, then
so has each jump with which the statement itself ends, and outside functions it does not return.
-/

namespace ScriptEngine

/-- A jump ends at one of the statements around a place, a jump to the next round at a loop, and a return
ends a function. -/
def Exit.Within (place : Place) : Exit → Prop
  | normal _ => True
  | returned _ => place.inFunction = true
  | leave depth _ => depth < place.scopes.length
  | again depth _ => ∃ labels, place.scopes[depth]? = some (.loop labels)

/-! ## Endings -/

namespace Exit.Within

variable {place : Place} {exit : Exit}

theorem inside (within : exit.Within place.inside) : exit.Within place := by
  cases exit <;> exact within

theorem fill_jump (within : exit.Within place) (value : Option Value) :
    (exit.fillJump value).Within place := by
  rcases exit with produced | produced | ⟨depth, _ | produced⟩ | ⟨depth, _ | produced⟩ <;> exact within

theorem or_undefined (within : exit.Within place) : exit.orUndefined.Within place := by
  rcases exit with (_ | produced) | produced | ⟨depth, produced⟩ | ⟨depth, produced⟩ <;> exact within

/-- Around a statement at which jumps end, one statement less is left to a jump. The next round of a loop
is not outside of it. -/
theorem outward {inner : Place} {scope : JumpScope} (within : exit.Within inner)
    (nested : inner.scopes = scope :: place.scopes) (same : inner.inFunction = place.inFunction)
    (left : ∀ labels, scope = .loop labels → ∀ value, exit ≠ .again 0 value) :
    exit.outward.Within place := by
  rcases exit with produced | produced | ⟨_ | depth, produced⟩ | ⟨_ | depth, produced⟩
  · trivial
  · exact same.symm.trans within
  · trivial
  · have bound : depth + 1 < inner.scopes.length := within
    rw [nested] at bound
    exact Nat.lt_of_succ_lt_succ bound
  · obtain ⟨labels, found⟩ := within
    rw [nested] at found
    exact absurd rfl (left labels (Option.some.inj found) produced)
  · obtain ⟨labels, found⟩ := within
    rw [nested] at found
    exact ⟨labels, found⟩

end Exit.Within

/-! ## Lists and blocks -/

section

variable {place : Place} {run : Stmt → Eval Exit}

theorem yields_execute_all {body : List Stmt}
    (inner : ∀ s ∈ body, Yields (Exit.Within place) (run s)) (last : Option Value) :
    Yields (Exit.Within place) (Lexical.executeAll run last body) := by
  induction body generalizing last with
  | nil => exact .pure trivial
  | cons s rest ih =>
    have later := ih fun s mem => inner s (.tail _ mem)
    refine (inner s (.head _)).bind fun exit within => ?_
    split
    · exact later _
    · exact .pure (within.fill_jump last)

theorem yields_execute_block {b : Block}
    (inner : ∀ s ∈ b.body, Yields (Exit.Within place) (run s)) :
    Yields (Exit.Within place) (Lexical.executeBlock run b) := by
  have statements := yields_execute_all inner none
  exact .ite statements (.after fun environment => .inEnvironment environment statements)

/-! ## Handlers -/

theorem yields_handled {handler : Option Handler} {outcome : Except Abrupt Exit}
    (inner : ∀ h ∈ handler, ∀ s ∈ h.body.body, Yields (Exit.Within place) (run s))
    (within : ∀ exit, outcome = .ok exit → exit.Within place) :
    Yields (fun outcome => ∀ exit, outcome = .ok exit → exit.Within place)
      (Lexical.handled run handler outcome) := by
  unfold Lexical.handled
  split
  · have caught := yields_execute_block (inner _ rfl)
    refine .attempt (.after fun _ => .after fun environment => ?_)
    exact .inEnvironment environment caught
  · exact .pure within

theorem yields_execute_try {guarded : Block} {handler : Option Handler} {finalizer : Option Block}
    (inBody : ∀ s ∈ guarded.body, Yields (Exit.Within place) (run s))
    (inHandler : ∀ h ∈ handler, ∀ s ∈ h.body.body, Yields (Exit.Within place) (run s))
    (inFinalizer : ∀ b ∈ finalizer, ∀ s ∈ b.body, Yields (Exit.Within place) (run s)) :
    Yields (Exit.Within place) (Lexical.executeTry run guarded handler finalizer) := by
  refine (yields_execute_block inBody).attempt.bind fun tried within => ?_
  refine (yields_handled inHandler within).bind fun outcome within => ?_
  have settled : Yields (Exit.Within place) (resume (outcome.map Exit.orUndefined)) := by
    refine .resume fun exit same => ?_
    cases outcome with
    | error e => cases same
    | ok before =>
      cases same
      exact (within before rfl).or_undefined
  cases finalizer with
  | none => exact settled
  | some finalizer =>
    refine .ite (.resume within) ?_
    refine (yields_execute_block (inFinalizer finalizer rfl)).bind fun last within => ?_
    exact .ite (.pure within) settled

/-! ## Choices -/

theorem yields_execute_clauses {clauses : List SwitchClause}
    (inner : ∀ c ∈ clauses, ∀ s ∈ c.body, Yields (Exit.Within place) (run s))
    (last : Option Value) :
    Yields (Exit.Within place) (Lexical.executeClauses run last clauses) := by
  induction clauses generalizing last with
  | nil => exact .pure trivial
  | cons c rest ih =>
    have later := ih fun c mem => inner c (.tail _ mem)
    refine (yields_execute_all (inner c (.head _)) none).bind fun exit within => ?_
    split
    · exact later _
    · exact .pure (within.fill_jump last)

theorem yields_execute_selected (engine : Engine) (value : Value) {clauses : List SwitchClause}
    (inner : ∀ c ∈ clauses, ∀ s ∈ c.body, Yields (Exit.Within place) (run s)) :
    Yields (Exit.Within place) (Lexical.executeSelected engine run value clauses) := by
  refine (yields_select_clause engine value clauses).bind fun selected among => ?_
  refine yields_execute_clauses (fun c mem => inner c ?_) none
  split at mem
  · exact (List.dropWhile_sublist _).subset mem
  · exact among.subset mem

theorem yields_execute_switch (engine : Engine) (discriminant : Expr) {clauses : List SwitchClause}
    (names : List LexicalName)
    (inner : ∀ c ∈ clauses, ∀ s ∈ c.body, Yields (Exit.Within place.inChoice) (run s)) :
    Yields (Exit.Within place) (Lexical.executeSwitch engine run discriminant clauses names) := by
  have leaves (exit : Exit) (within : exit.Within place.inChoice) : exit.outward.Within place :=
    within.outward rfl rfl fun labels same => by cases same
  unfold Lexical.executeSwitch
  refine .after fun value => ?_
  have selected := yields_execute_selected engine value inner
  split
  · exact selected.bind fun exit within => .pure (leaves exit within)
  · refine .after fun environment => ?_
    exact (selected.inEnvironment environment).bind fun exit within => .pure (leaves exit within)

end

/-! ## Loops -/

section

variable {place : Place} {run : Stmt → Eval Exit}

/-- A round of a loop goes on, ends the loop or is left for a statement around the loop. -/
theorem yields_round {next : Option Value → Eval Exit}
    (again : ∀ value, Yields (Exit.Within place) (next value)) (value : Option Value) (exit : Exit) :
    exit.Within place.inLoop → Yields (Exit.Within place)
      (match exit with
        | .normal produced | .again 0 produced => next (produced <|> value)
        | exit => return (exit.fillJump value).outward) := by
  intro within
  rcases exit with produced | produced | ⟨depth, produced⟩ | ⟨_ | depth, produced⟩
  · exact again _
  · exact .pure within
  · refine .pure ((within.fill_jump value).outward rfl rfl fun _ _ _ same => ?_)
    cases produced <;> cases same
  · exact again _
  · refine .pure ((within.fill_jump value).outward rfl rfl fun _ _ _ same => ?_)
    cases produced <;> cases same

variable {body : Stmt} (engine : Engine)
  (inner : Yields (Exit.Within place.inLoop) (run body))

include inner

theorem yields_while_rounds (test : Expr) (value : Option Value) (rounds : Nat) :
    Yields (Exit.Within place) (Lexical.whileRounds engine run test body value rounds) := by
  induction rounds generalizing value with
  | zero => exact .throw _
  | succ rounds ih =>
    refine .after fun met => .ite ?_ (.pure trivial)
    exact inner.bind (yields_round ih value)

theorem yields_do_rounds (test : Expr) (value : Option Value) (rounds : Nat) :
    Yields (Exit.Within place) (Lexical.doRounds engine run body test value rounds) := by
  induction rounds generalizing value with
  | zero => exact .throw _
  | succ rounds ih =>
    have next (value : Option Value) : Yields (Exit.Within place)
        (do if (← engine.evaluate test).toBoolean then
              Lexical.doRounds engine run body test value rounds
            else return .normal value) :=
      .after fun met => .ite (ih value) (.pure trivial)
    exact inner.bind (yields_round next value)

theorem yields_execute_for (labels : List String) (init : Option ForInit)
    (test update : Option Expr) :
    Yields (Exit.Within place) (Lexical.executeFor engine run labels init test update body) := by
  refine .after fun outer => ?_
  have rounds (names : List String) (value : Option Value) (rounds : Nat) :
      Yields (Exit.Within place) (Lexical.forRounds engine run
        ⟨labels, test, update, body, names, outer⟩ value rounds) := by
    induction rounds generalizing value with
    | zero => exact .throw _
    | succ rounds ih =>
      refine .after fun met => .ite ?_ (.pure trivial)
      have next (value : Option Value) : Yields (Exit.Within place) (do
          freshIteration names outer
          update.forM fun e => discard (engine.evaluate e)
          Lexical.forRounds engine run ⟨labels, test, update, body, names, outer⟩ value rounds) :=
        .after fun _ => .after fun _ => ih value
      exact inner.bind (yields_round next value)
  have loop (names : List String) : Yields (Exit.Within place)
      (Lexical.runForLoop engine run ⟨labels, test, update, body, names, outer⟩) :=
    .after fun _ => rounds names none engine.rounds
  rcases init with _ | declarators | ⟨constant, declarators⟩ | e
  · exact loop []
  · exact .after fun _ => loop []
  · exact .after fun environment => .after fun _ => .inEnvironment environment (loop _)
  · exact .after fun _ => loop []

theorem yields_for_in_rounds (target : ForInTarget) (walk : KeyWalk) (value : Option Value)
    (rounds : Nat) :
    Yields (Exit.Within place) (Lexical.forInRounds engine run target body walk value rounds) := by
  induction rounds generalizing walk value with
  | zero => exact .throw _
  | succ rounds ih =>
    refine .after fun found => ?_
    rcases found with ⟨_ | key, walk⟩
    · exact .pure trivial
    · have round : Yields (Exit.Within place.inLoop)
          (Lexical.forInBody engine run target (.string key) body) := by
        cases target with
        | var name => exact .after fun _ => .after fun _ => inner
        | expr e => exact .after fun _ => .after fun _ => inner
        | lexical constant name =>
          exact .after fun environment => .after fun _ => .inEnvironment environment inner
      exact round.bind (yields_round (ih walk) value)

theorem yields_execute_for_in (target : ForInTarget) (object : Expr) :
    Yields (Exit.Within place) (Lexical.executeForIn engine run target object body) := by
  refine .after fun subject => .ite (.pure trivial) (.after fun id => ?_)
  exact yields_for_in_rounds engine inner target _ none engine.rounds

end

/-! ## Statements -/

/-- The innermost statement that takes a `continue` is a loop. -/
theorem innermost_loop {label : Option String} {scopes : List JumpScope} {depth : Nat}
    {scope : JumpScope} (innermost : JumpScope.Innermost (·.endsContinue label) scopes depth scope) :
    ∃ labels, scope = .loop labels := by
  have taken := innermost.taken
  cases scope with
  | loop labels => exact ⟨labels, rfl⟩
  | choice labels => cases taken
  | labelled name => cases taken

/-- A jump that has somewhere to end leaves fewer statements than there are around it. -/
theorem within_of_anchored_break {place : Place} {label : Option String}
    (anchored : (StmtForm.breakTo label).InPlace place) :
    (Exit.leave (place.breakDepth label) none).Within place := by
  obtain ⟨scope, innermost⟩ := JumpScope.innermost_of_exists anchored
  exact (List.getElem?_eq_some_iff.mp innermost.found).1

theorem within_of_anchored_continue {place : Place} {label : Option String}
    (anchored : (StmtForm.continueTo label).InPlace place) :
    (Exit.again (place.continueDepth label) none).Within place := by
  obtain ⟨scope, innermost⟩ := JumpScope.innermost_of_exists anchored
  obtain ⟨labels, rfl⟩ := innermost_loop innermost
  exact ⟨labels, innermost.found⟩

theorem yields_execute_form (engine : Engine) {run : Place → Stmt → Eval Exit}
    (inner : ∀ place s, (Node.stmt place s).Sound → Yields (Exit.Within place) (run place s))
    (place : Place) (s : Stmt) (sound : (Node.stmt place s).Sound) :
    Yields (Exit.Within place) (Lexical.executeForm engine run place s.form) := by
  obtain ⟨anchored, below⟩ := (Node.sound_iff _).mp sound
  have inside (s : Stmt) (sound : (Node.stmt place.inside s).Sound) :
      Yields (Exit.Within place) (run place.inside s) :=
    fun m exit same => (inner _ s sound m exit same).inside
  obtain ⟨form, span⟩ := s
  cases form with
  | var declarators => exact .after fun _ => .pure trivial
  | lexical constant declarators => exact .after fun _ => .pure trivial
  | function code => exact .pure trivial
  | expr e => exact .after fun _ => .pure trivial
  | block b =>
    exact yields_execute_block fun s mem => inside s (below _ (List.mem_map_of_mem mem))
  | empty => exact .pure trivial
  | debugger => exact .pure trivial
  | cond test yes no =>
    refine .after fun met => .ite (inside yes (below _ (.tail _ (.head _)))) ?_
    cases no with
    | none => exact .pure trivial
    | some no => exact inside no (below _ (.tail _ (.tail _ (.head _))))
  | whileLoop test body =>
    have inBody := inner _ body (below _ (.tail _ (.head _)))
    exact yields_while_rounds engine inBody test none _
  | doWhile body test =>
    have inBody := inner _ body (below _ (.tail _ (.head _)))
    exact yields_do_rounds engine inBody test none _
  | forLoop init test update body =>
    have inBody := inner _ body (below _ (List.mem_append_right _ (.head _)))
    exact yields_execute_for engine inBody place.labels init test update
  | forIn target object body =>
    have inBody := inner _ body (below _ (List.mem_append_right _ (.tail _ (.head _))))
    exact yields_execute_for_in engine inBody target object
  | ret value =>
    cases value with
    | none => exact .pure anchored
    | some e => exact .after fun _ => .pure anchored
  | breakTo label => exact .pure (within_of_anchored_break anchored)
  | continueTo label => exact .pure (within_of_anchored_continue anchored)
  | throw e => exact .after fun value => .throw _
  | attempt guarded handler finalizer =>
    refine yields_execute_try (fun s mem => inside s (below _ ?_))
      (fun h caught s mem => inside s (below _ ?_)) (fun b last s mem => inside s (below _ ?_))
    · exact List.mem_append_left _ (List.mem_append_left _ (List.mem_map_of_mem mem))
    · refine List.mem_append_left _ (List.mem_append_right _ (List.mem_flatMap.mpr ⟨h, ?_⟩))
      exact ⟨Option.mem_toList.mpr caught, List.mem_map_of_mem mem⟩
    · refine List.mem_append_right _ (List.mem_flatMap.mpr ⟨b, ?_⟩)
      exact ⟨Option.mem_toList.mpr last, List.mem_map_of_mem mem⟩
  | labeled name body =>
    have inBody := inner _ body (below _ (.head _))
    refine inBody.bind fun exit within => .pure (within.outward rfl rfl fun labels same => ?_)
    cases same
  | switch discriminant clauses names =>
    refine yields_execute_switch engine discriminant names fun c among s mem => ?_
    refine inner _ s (below _ (.tail _ (List.mem_flatMap.mpr ⟨c, among, ?_⟩)))
    exact List.mem_append_right _ (List.mem_map_of_mem mem)
  | withObject object body =>
    have inBody := inside body (below _ (.tail _ (.head _)))
    refine .after fun value => .after fun id => .after fun outer => .after fun environment => ?_
    exact .inEnvironment environment inBody

/-- A sound statement ends, if it is not cut short, with a jump that its place allows. -/
theorem yields_execute_at (steps : Nat) (place : Place) (s : Stmt) (sound : (Node.stmt place s).Sound) :
    Yields (Exit.Within place) (Lexical.executeAt steps place s) := by
  induction steps generalizing place s with
  | zero => exact .throw _
  | succ steps ih => exact yields_execute_form (engineAt steps) ih place s sound

end ScriptEngine
