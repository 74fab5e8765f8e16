import ScriptEngine.Proofs.Evaluation.Blindness
import ScriptEngine.Proofs.Evaluation.Noting

/-!
An engine that tells the values that expression statements give. Only the statements of a script are told of:
the functions that it calls are run by the engine itself. What is told is added to what is printed, and where
nothing is told the engine is itself. Each statement ends with the value that was given last.
-/

namespace ScriptEngine

/-! ## Telling values -/

/-- Runs a statement, and tells the value of an expression statement. -/
def tellForm (tell : Value → String) (engine : Engine) (labels : List String) (form : StmtForm) :
    Eval Completion := do
  match form with
  | .expr e =>
    let value ← engine.evaluate e
    write (tell value)
    return .normal (some value)
  | form => executeForm engine labels form

/-- The engine with another way to run statements. -/
def Engine.running (engine : Engine) (execute : List String → Stmt → Eval Completion) : Engine :=
  { engine with execute }

/-- Runs a statement with a number of steps, and tells the value of each expression statement in it. -/
def tellStatement (tell : Value → String) : Nat → List String → Stmt → Eval Completion
  | 0, _, _ => throw .exhausted
  | steps + 1, labels, s => tellForm tell ((engineAt steps).running (tellStatement tell steps)) labels s.form

/-- The engine with a number of steps that tells the values of expression statements. -/
def tellingAt (tell : Value → String) (steps : Nat) : Engine :=
  (engineAt steps).running (tellStatement tell steps)

/-- Nothing is told. -/
def tellNothing (_ : Value) : String := ""

theorem tell_form_nothing (engine : Engine) (labels : List String) (form : StmtForm) :
    tellForm tellNothing engine labels form = executeForm engine labels form := by
  cases form with
  | expr e =>
    unfold tellForm tellNothing
    simp only [write_nothing, pure_bind]
    rfl
  | _ => rfl

theorem tell_statement_nothing (steps : Nat) : tellStatement tellNothing steps = (engineAt steps).execute := by
  induction steps with
  | zero => rfl
  | succ steps ih =>
    funext labels s
    rw [tellStatement, ih]
    exact tell_form_nothing (engineAt steps) labels s.form

/-- Where nothing is told the engine is what it is. -/
theorem telling_nothing (steps : Nat) : tellingAt tellNothing steps = engineAt steps := by
  rw [tellingAt, tell_statement_nothing]
  rfl

/-! ## What is told -/

/-- What shows of a run: something is printed, or an expression statement gives a value. -/
inductive Sign where
  | printed (text : String)
  | gave (value : Value)

namespace Sign

/-- What is printed for a sign. -/
def text (tell : Value → String) : Sign → String
  | printed text => text
  | gave value => tell value

/-- All that is printed for some signs. -/
def texts (tell : Value → String) : List Sign → String
  | [] => ""
  | sign :: rest => sign.text tell ++ texts tell rest

/-- The value of the expression statement that gave one. -/
def value? : Sign → Option Value
  | printed _ => none
  | gave value => some value

/-- The value that was given last, if any was. -/
def last? (signs : List Sign) : Option Value :=
  (signs.filterMap value?).getLast?

theorem texts_append (tell : Value → String) (early late : List Sign) :
    texts tell (early ++ late) = texts tell early ++ texts tell late := by
  induction early with
  | nil => exact String.empty_append.symm
  | cons sign rest ih => rw [List.cons_append, texts, texts, ih, String.append_assoc]

theorem last_append (early late : List Sign) : last? (early ++ late) = (last? late <|> last? early) := by
  rw [last?, List.filterMap_append, List.getLast?_append, last?, last?]
  cases (late.filterMap value?).getLast? <;> rfl

end Sign

variable {α β : Type}

/-- Runs with some ways of telling and behind some text that differ only in what is printed. If they end well,
what they give fits the value that was told last. -/
def Tells (fits : Option Value → α → Prop)
    (runs : (Value → String) → String → Except Abrupt α × Machine) : Prop :=
  ∃ (outcome : Except Abrupt α) (last : Machine) (signs : List Sign),
    (∀ tell text, runs tell text = (outcome, last.showing (text ++ Sign.texts tell signs))) ∧
      ∀ a, outcome = .ok a → fits (Sign.last? signs) a

/-- An action that gives what fits the value that is told last in it. -/
def Leaves (fits : Option Value → α → Prop) (action : (Value → String) → Eval α) : Prop :=
  ∀ m : Machine, Tells fits fun tell text => (m.showing text).run (action tell)

/-- What is done after a run whatever its end. -/
theorem Tells.leave {fits : Option Value → α → Prop} {runs : (Value → String) → String → Except Abrupt α × Machine}
    (tells : Tells fits runs) (g : Machine → Machine) (same : ∀ m text, g (m.showing text) = (g m).showing text) :
    Tells fits fun tell text => ((runs tell text).1, g (runs tell text).2) := by
  obtain ⟨outcome, last, signs, ran, good⟩ := tells
  refine ⟨outcome, g last, signs, fun tell text => ?_, good⟩
  dsimp only
  rw [ran, same]

namespace Leaves

variable {fits : Option Value → α → Prop} {also : Option Value → β → Prop}

theorem mono {stronger : Option Value → α → Prop} {action : (Value → String) → Eval α}
    (leaves : Leaves stronger action) (implies : ∀ given a, stronger given a → fits given a) :
    Leaves fits action := by
  intro m
  obtain ⟨outcome, last, signs, ran, good⟩ := leaves m
  exact ⟨outcome, last, signs, ran, fun a ended => implies _ a (good a ended)⟩

theorem pure {a : α} (good : fits none a) : Leaves fits fun _ => (pure a : Eval α) := by
  intro m
  refine ⟨.ok a, m, [], fun tell text => ?_, fun b same => ?_⟩
  · rw [Sign.texts, String.append_empty]
    rfl
  · cases same
    exact good

theorem throw (e : Abrupt) : Leaves fits fun _ => (throw e : Eval α) := by
  intro m
  refine ⟨.error e, m, [], fun tell text => ?_, nofun⟩
  rw [Sign.texts, String.append_empty]
  rfl

/-- Where nothing is told no value is. -/
theorem blind {action : Eval α} (blind : Blind action) : Leaves (fun given _ => given = none) fun _ => action := by
  intro m
  obtain ⟨outcome, last, printed, ran⟩ := blind m
  refine ⟨outcome, last, [.printed printed], fun tell text => ?_, fun _ _ => rfl⟩
  rw [Sign.texts, Sign.texts, Sign.text, String.append_empty]
  exact ran text

theorem tell (value : Value) : Leaves (fun given _ => given = some value) fun tell => write (tell value) := by
  intro m
  refine ⟨.ok (), m, [.gave value], fun tell text => ?_, fun _ _ => rfl⟩
  rw [Sign.texts, Sign.texts, String.append_empty]
  rfl

/-- What is told later counts, and if nothing is, what was told before. -/
theorem bind {first : (Value → String) → Eval α} {rest : (Value → String) → α → Eval β}
    (begins : Leaves fits first)
    (goesOn : ∀ given a, fits given a → Leaves (fun later b => also (later <|> given) b) fun tell => rest tell a) :
    Leaves also fun tell => first tell >>= rest tell := by
  intro m
  obtain ⟨outcome, middle, early, ran, good⟩ := begins m
  cases outcome with
  | ok a =>
    obtain ⟨ended, last, late, ranOn, goodOn⟩ := goesOn _ a (good a rfl) middle
    refine ⟨ended, last, early ++ late, fun tell text => ?_, fun b same => ?_⟩
    · dsimp only
      rw [Machine.run_bind_ok (ran tell text), Sign.texts_append, ← String.append_assoc]
      exact ranOn tell _
    · rw [Sign.last_append]
      exact goodOn b same
  | error e =>
    exact ⟨.error e, middle, early, fun tell text => Machine.run_bind_error (ran tell text) _, nofun⟩

/-- Something is done first in which nothing is told. -/
theorem after {first : (Value → String) → Eval α} {plain : Eval α} {rest : (Value → String) → α → Eval β}
    (blind : Blind plain) (same : ∀ tell, first tell = plain) (goesOn : ∀ a, Leaves also fun tell => rest tell a) :
    Leaves also fun tell => first tell >>= rest tell := by
  simp only [same]
  apply (Leaves.blind blind).bind
  rintro _ a rfl
  exact (goesOn a).mono fun given b => by simp

theorem ite {c : Prop} [Decidable c] {yes no : (Value → String) → Eval α} (taken : Leaves fits yes)
    (other : Leaves fits no) : Leaves fits fun tell => if c then yes tell else no tell := by
  by_cases holds : c
  · simpa only [holds, if_true] using taken
  · simpa only [holds, if_false] using other

theorem inEnvironment {action : (Value → String) → Eval α} (id : EnvironmentId) (leaves : Leaves fits action) :
    Leaves fits fun tell => ScriptEngine.inEnvironment id (action tell) := by
  intro m
  simp only [Machine.run_in_environment]
  exact (leaves { m with context := { m.context with lexical := id } }).leave
    (fun left => { left with context := { left.context with lexical := m.context.lexical } }) fun _ _ => rfl

theorem inContext {action : (Value → String) → Eval α} (c : Context) (leaves : Leaves fits action) :
    Leaves fits fun tell => ScriptEngine.inContext c (action tell) := by
  intro m
  simp only [Machine.run_in_context]
  exact (leaves { m with context := c, callers := m.context :: m.callers }).leave
    (fun left => (left.run popContext).2) showing_pop_context

/-- What all results of the action are that tells nothing, the results of each are. -/
theorem yields {good : α → Prop} {action : (Value → String) → Eval α} (leaves : Leaves fits action)
    (yields : Yields good (action tellNothing)) : Leaves (fun given a => fits given a ∧ good a) action := by
  intro m
  obtain ⟨outcome, last, signs, ran, fitting⟩ := leaves m
  refine ⟨outcome, last, signs, ran, fun a ended => ⟨fitting a ended, ?_⟩⟩
  apply yields (m.showing "") a
  rw [← ended]
  exact congrArg Prod.fst (ran tellNothing "")

end Leaves

end ScriptEngine
