import ScriptEngine.Proofs.Evaluation.Blindness
import ScriptEngine.Proofs.Evaluation.Installation
import ScriptEngine.Proofs.Evaluation.Noting

/-!
What happens once too many calls are nested. Every run of an engine that notes what happens has a history, whatever
is written down of it. A refused call is the last in it, whatever functions, conversions and `try` statements are
under way, and the program is reported as cut short by too many nested calls.
-/

namespace ScriptEngine

/-! ## Histories -/

/-- A run in which the functions of the host pass on what cuts their requests short and run no script inside it. -/
def Terms.alone : Terms := { Terms.any with probed := False }

/-- A refused call is the last that happens, and cuts short what is under way. -/
def Concludes {α : Type} (history : List Event) (outcome : Except Abrupt α) : Prop :=
  ∀ before depth after, history = before ++ .refused depth :: after →
    after = [] ∧ outcome = .error (.overflow depth)

variable {α β : Type}

/-- Runs with some notes and behind some text that differ only in what is printed. The same happens in all of
them, and a refused call is the last of it. -/
def Records (runs : Notes → String → Except Abrupt α × Machine) : Prop :=
  ∃ (outcome : Except Abrupt α) (last : Machine) (history : List Event),
    last.heap.Known .alone ∧ Concludes history outcome ∧
      ∀ notes text, runs notes text = (outcome, last.showing (text ++ notes.texts history))

/-- An action in whose runs the same happens, whatever is written down of it. -/
def Recorded (action : Notes → Eval α) : Prop :=
  ∀ m : Machine, m.heap.Known .alone → Records fun notes text => (m.showing text).run (action notes)

theorem concludes_nothing (outcome : Except Abrupt α) : Concludes [] outcome :=
  fun _ _ _ stands => absurd stands (by simp)

theorem concludes_of_other {e : Event} (other : ∀ depth, e ≠ .refused depth) (outcome : Except Abrupt α) :
    Concludes [e] outcome := by
  intro before depth after stands
  have mem : Event.refused depth ∈ [e] := stands ▸ List.mem_append_right before (.head after)
  exact absurd (List.mem_singleton.mp mem).symm (other depth)

/-- A run after one that was not cut short, and in which nothing was refused. -/
theorem concludes_trans {early late : List Event} {first : Except Abrupt α} {outcome : Except Abrupt β}
    (begun : Concludes early first) (goesOn : ∀ depth, first ≠ .error (.overflow depth))
    (ends : Concludes late outcome) : Concludes (early ++ late) outcome := by
  intro before depth after stands
  rcases List.append_eq_append_iff.mp stands with ⟨between, rfl, same⟩ | ⟨between, same, rest⟩
  · exact ends between depth after same
  · cases between with
    | nil => exact ends [] depth after rest.symm
    | cons e more =>
      obtain ⟨rfl, -⟩ := List.cons.inj rest
      exact absurd (begun before depth more same).2 (goesOn depth)

/-- What cuts an action short may cut short what it is a part of. -/
theorem concludes_error {history : List Event} {e : Abrupt}
    (concludes : Concludes history (.error e : Except Abrupt α)) :
    Concludes history (.error e : Except Abrupt β) := by
  intro before depth after stands
  obtain ⟨nothing, cut⟩ := concludes before depth after stands
  cases cut
  exact ⟨nothing, rfl⟩

namespace Records

/-- Nothing happens. -/
theorem quiet {m : Machine} {action : Eval α} (known : (m.run action).2.heap.Known .alone)
    (blind : ∀ text, (m.showing text).run action = ((m.run action).1, (m.run action).2.showing text)) :
    Records fun _ text => (m.showing text).run action := by
  refine ⟨(m.run action).1, (m.run action).2, [], known, concludes_nothing _, fun notes text => ?_⟩
  rw [Notes.texts, String.append_empty]
  exact blind text

/-- What is done after a run whatever its end, without a look at what has been printed. -/
theorem leave {runs : Notes → String → Except Abrupt α × Machine} (records : Records runs)
    (g : Machine → Machine) (heap : ∀ m, (g m).heap = m.heap)
    (blind : ∀ m text, g (m.showing text) = (g m).showing text) :
    Records fun notes text => ((runs notes text).1, g (runs notes text).2) := by
  obtain ⟨outcome, last, history, known, concludes, same⟩ := records
  refine ⟨outcome, g last, history, (heap last).symm ▸ known, concludes, fun notes text => ?_⟩
  dsimp only
  rw [same, blind]

/-- What happens after something has happened that cut nothing short. -/
theorem append {last : Machine} {first : Except Abrupt α} {early : List Event}
    {runs : Notes → String → Except Abrupt β × Machine} {action : Notes → Eval β} (begun : Concludes early first)
    (goesOn : ∀ depth, first ≠ .error (.overflow depth)) (known : last.heap.Known .alone)
    (recorded : Recorded action)
    (follows : ∀ notes text, runs notes text = (last.showing (text ++ notes.texts early)).run (action notes)) :
    Records runs := by
  obtain ⟨outcome, final, late, known, concludes, same⟩ := recorded last known
  refine ⟨outcome, final, early ++ late, known, concludes_trans begun goesOn concludes, fun notes text => ?_⟩
  rw [follows, Notes.texts_append, ← String.append_assoc]
  exact same notes _

/-- A run that is cut short is not followed by anything. -/
theorem bind {m : Machine} {first : Notes → Eval α} {rest : Notes → α → Eval β}
    (begins : Records fun notes text => (m.showing text).run (first notes))
    (goesOn : ∀ a, Recorded fun notes => rest notes a) :
    Records fun notes text => (m.showing text).run (first notes >>= rest notes) := by
  obtain ⟨outcome, last, history, known, concludes, same⟩ := begins
  cases outcome with
  | ok a =>
    exact append concludes nofun known (goesOn a) fun notes text => Machine.run_bind_ok (same notes text) _
  | error e =>
    exact ⟨.error e, last, history, known, concludes_error concludes, fun notes text =>
      Machine.run_bind_error (same notes text) _⟩

/-- An outcome may be looked at, as long as what no script can catch is passed on. -/
theorem attempt {m : Machine} {tried : Notes → Eval α} {rest : Notes → Except Abrupt α → Eval β}
    (begins : Records fun notes text => (m.showing text).run (tried notes))
    (goesOn : ∀ outcome, (∀ depth, outcome ≠ .error (.overflow depth)) →
      Recorded fun notes => rest notes outcome)
    (passed : ∀ depth notes, rest notes (.error (.overflow depth)) = throw (.overflow depth)) :
    Records fun notes text => (m.showing text).run (ScriptEngine.attempt (tried notes) >>= rest notes) := by
  obtain ⟨outcome, last, history, known, concludes, same⟩ := begins
  have onward (notes : Notes) (text : String) :
      (m.showing text).run (ScriptEngine.attempt (tried notes) >>= rest notes) =
        (last.showing (text ++ notes.texts history)).run (rest notes outcome) := by
    have ended : (m.showing text).run (tried notes) = (outcome, last.showing (text ++ notes.texts history)) :=
      same notes text
    rw [Machine.run_bind_ok (Machine.run_attempt ..), ended]
  by_cases overflows : ∃ depth, outcome = .error (.overflow depth)
  · obtain ⟨depth, rfl⟩ := overflows
    refine ⟨.error (.overflow depth), last, history, known, concludes_error concludes, fun notes text => ?_⟩
    dsimp only
    rw [onward, passed]
    rfl
  · have goes : ∀ depth, outcome ≠ .error (.overflow depth) := fun depth is => overflows ⟨depth, is⟩
    exact append concludes goes known (goesOn outcome goes) onward

/-- Names are declared, or something else is done, without a look at what has been printed. -/
theorem declare {m : Machine} {taken free : Notes → Eval α} (id : EnvironmentId) (names : List LexicalName)
    (refused : Recorded taken) (begun : Recorded free) (known : m.heap.Known .alone) :
    Records fun notes text => (m.showing text).run (declareIn id names (taken notes) (free notes)) := by
  simp only [Machine.run_declare_in]
  by_cases bound : (m.taken? id names).isSome = true
  · have same (text : String) : ((m.showing text).taken? id names).isSome = true := bound
    simp only [same, if_true]
    exact refused m known
  · have same (text : String) : ¬((m.showing text).taken? id names).isSome = true := bound
    simp only [same]
    let declared : Machine :=
      { m with environments := m.environments.set id ((m.environments.get id).createLexical names) }
    exact begun declared known

end Records

theorem Recorded.bind {first : Notes → Eval α} {rest : Notes → α → Eval β} (begins : Recorded first)
    (goesOn : ∀ a, Recorded fun notes => rest notes a) : Recorded fun notes => first notes >>= rest notes :=
  fun m known => .bind (begins m known) goesOn

theorem recorded_resume (outcome : Except Abrupt α) : Recorded fun _ => resume outcome := by
  intro m known
  refine .quiet (m := m) ?_ fun text => ?_
  · rw [Machine.run_resume]
    exact known
  · rw [Machine.run_resume, Machine.run_resume]

/-- What happens in a nested call. A refusal is no part of it. -/
theorem recorded_nested {action : Notes → Eval α} (body : Recorded action) :
    Recorded fun notes => nested (action notes) := by
  intro m known
  rcases Nat.lt_or_ge m.callDepth m.options.maxCallDepth with room | full
  · have ran (notes : Notes) (text : String) := Machine.run_nested (m := m.showing text) room (action notes)
    simp only [ran]
    have begun := body { m with callDepth := m.callDepth + 1 } known
    exact begun.leave (fun left => { left with callDepth := left.callDepth - 1 }) (fun _ => rfl) fun _ _ => rfl
  · have ran (notes : Notes) (text : String) :=
      Machine.run_nested_refused (m := m.showing text) full (action notes)
    simp only [ran]
    exact recorded_resume (.error (.overflow m.callDepth)) m known

/-- Engines that go back to the same actions but for what they write down. -/
structure Engine.Recorded (E : Notes → Engine) : Prop where
  rounds : ∀ notes other, (E notes).rounds = (E other).rounds
  evaluate : ∀ e, ScriptEngine.Recorded fun notes => (E notes).evaluate e
  execute : ∀ labels s, ScriptEngine.Recorded fun notes => (E notes).execute labels s
  call : ∀ f this arguments, ScriptEngine.Recorded fun notes => (E notes).call f this arguments
  construct : ∀ f arguments, ScriptEngine.Recorded fun notes => (E notes).construct f arguments

/-- As long as no run looks at what no script can catch, the same happens in all runs of an orderly action, and
a refused call is the last of it. -/
theorem recorded_of_orderly {own : Rights} {moves : Bool} {action : Engine → Eval α} {E : Notes → Engine}
    (engines : Engine.Recorded E) (orderly : Orderly .alone own moves action) :
    Recorded fun notes => action (E notes) := by
  intro m known
  -- Only bindings and attempts have parts that may be cut short; anything else that is entered is left again.
  induction orderly generalizing m with
  | pure | raise | construction | alter | firstValue | setLexicalEnvironment =>
    exact .quiet known fun _ => rfl
  | read ask blind => exact .quiet known fun text => Prod.ext (congrArg Except.ok (blind m text)) rfl
  | bind first next ihFirst ihNext => exact .bind (ihFirst m known) fun a after known => ihNext a after known
  | attempt tried ended failed passed ihTried ihEnded ihFailed =>
    refine .attempt (ihTried m known) (fun outcome goesOn after known => ?_) fun depth notes => ?_
    · cases outcome with
      | ok a => exact ihEnded a after known
      | error e => exact ihFailed e (fun _ _ => trivial) after known
    · exact passed.resolve_left id (.overflow depth) nofun (E notes)
  | here next ih => exact ih m.context.lexical m known
  | @find own moves α β rest ask place blind found next ih =>
    have asked (notes : Notes) (text : String) : (m.showing text).run (rest (E notes) (ask (m.showing text))) =
        (m.showing text).run (rest (E notes) (ask m)) :=
      congrArg (fun a => (m.showing text).run (rest (E notes) a)) (blind m text)
    obtain ⟨outcome, last, history, safe, concludes, ran⟩ := ih (ask m) m known
    exact ⟨outcome, last, history, safe, concludes, fun notes text => (asked notes text).trans (ran notes text)⟩
  | consult next ih =>
    simp only [Machine.run_bind_ok (Machine.run_ask ..)]
    exact ih m.heap known m known
  | aim target next ih =>
    simp only [Machine.run_bind_ok (Machine.run_ask ..)]
    exact ih (m.heap.callable? (.object target)) m known
  | rounds loop each ih =>
    have same : ∀ notes, (E notes).rounds = (E .none).rounds := fun notes => engines.rounds notes .none
    simp only [same]
    exact ih _ m known
  | newObject o new => exact .quiet (m := m) (known_add known new.known) fun _ => rfl
  | make o new next ih =>
    simp only [Machine.run_bind_ok (Machine.run_new_object ..)]
    exact ih (m.heap.add o).1 { m with heap := (m.heap.add o).2 } (known_add known new.known)
  | change id f checked =>
    have changed := known_of_kind (Object.change_kind (checked _)) (known id)
    exact .quiet (m := m) (known_set known changed) fun _ => rfl
  | changeOwn id f mine keeps =>
    exact .quiet (m := m) (known_set known (known_of_proper keeps (known id))) fun _ => rfl
  | build e firm inside made next ihMade ihNext =>
    simp only [Machine.run_bind_ok (Machine.run_new_environment ..)]
    have made := ihMade (m.environments.add e).1 { m with environments := (m.environments.add e).2 } known
    exact made.bind fun b after known => ihNext (m.environments.add e).1 b after known
  | inContext c made body ih =>
    simp only [Machine.run_in_context]
    have entered := ih { m with context := c, callers := m.context :: m.callers } known
    exact entered.leave _ Machine.heap_pop_context showing_pop_context
  | inEnvironment id made body ih =>
    simp only [Machine.run_in_environment]
    have entered := ih { m with context := { m.context with lexical := id } } known
    exact entered.leave
      (fun left => { left with context := { left.context with lexical := m.context.lexical } }) (fun _ => rfl)
      fun _ _ => rfl
  | script c names reached refused begun ihRefused ihBegun =>
    let entered : Machine := { m with context := c, callers := m.context :: m.callers }
    have inside := Records.declare (m := entered) c.lexical names ihRefused ihBegun known
    simp only [Machine.run_in_context]
    exact inside.leave _ Machine.heap_pop_context showing_pop_context
  | nested body ih => exact recorded_nested ih m known
  | printLine line =>
    have concludes := concludes_of_other (e := .printed (line ++ "\n")) nofun (.ok () : Except Abrupt Unit)
    refine ⟨.ok (), m, [.printed (line ++ "\n")], known, concludes, fun notes text => ?_⟩
    change (Except.ok (), m.showing (text ++ line ++ "\n")) = _
    rw [Notes.texts, Notes.texts, Notes.text, String.append_empty, String.append_assoc]
  | evaluate e => exact engines.evaluate e m known
  | execute labels s => exact engines.execute labels s m known
  | call f this arguments => exact engines.call f this arguments m known
  | construct f arguments => exact engines.construct f arguments m known

theorem Orderly.recorded {action : Engine → Eval α} {E : Notes → Engine} (engines : Engine.Recorded E)
    (orderly : Orderly .alone .none false action) : Recorded fun notes => action (E notes) :=
  recorded_of_orderly engines orderly

/-! ## The engine that notes what happens -/

section Engines

variable {E : Notes → Engine} (engines : Engine.Recorded E)
include engines

end Engines

namespace HostProgram

variable {request : HostRequest} {next : HostValue → HostProgram}

end HostProgram

/-- Few calls may be nested. -/
def fewCalls : EngineOptions := { maxCallDepth := 2 }

/-- A new engine with a function of the host. -/
def hosting (f : HostFunction) : Machine :=
  ((Machine.new fewCalls).run (defineMethod Realm.first.globalObject "again" 1 (.host f))).2

/-- A function that has the host call it again, and would go on whatever came of that. -/
def stubbornRecursion : String :=
  "function f() { try { again(f); } catch (e) { print(1); } finally { print(2); } } f();"

/-- A function of the host that calls its argument and does not heed what comes of it. -/
def HostFunction.heedless : HostFunction where
  run _ arguments := .ask (.call (first arguments) .undefined []) fun _ => .value .undefined

/-- What such a function drops does not end the script: the finalizer runs behind the refused call. -/
theorem heedless_host_goes_on : (Program.ofSource stubbornRecursion false).toOption.any (fun p =>
    ((hosting .heedless).run (evalProgram (engineAt 100) p)).2.output == "2\n") = true := by decide +kernel

end ScriptEngine
