import Mathlib.Data.List.Induction
import ScriptEngine.Proofs.Hoisting.Declared
import ScriptEngine.Syntax.Grammar.State

/-!
What the reading of a part of a script adds to what is noted of the functions under way. This is a harvest: names of
`var` and functions for the innermost of them, and whether `arguments` is mentioned, which concerns the innermost one
that is no arrow. Readers in sequence add their harvests in sequence.
-/

namespace ScriptEngine.Grammar

/-- What is noted of a function under way and concerns names that are bound when it is entered. -/
structure Notes where
  isArrow : Bool
  vars : List String
  functions : List FunctionCode
  usesArguments : Bool

def BodyState.notes (b : BodyState) : Notes :=
  ⟨b.isArrow, b.vars, b.functions, b.usesArguments⟩

/-- The notes of the functions under way, from the innermost outward. -/
def ReadingState.notes (s : ReadingState) : List Notes :=
  (s.body :: s.outerBodies).map BodyState.notes

/-- What the reading of a part of a script adds to the notes. -/
structure Harvest where
  vars : List String
  functions : List FunctionCode
  mentioned : Bool

namespace Harvest

/-- Nothing is added. -/
def none : Harvest :=
  ⟨[], [], false⟩

/-- One harvest behind another. -/
def and (first second : Harvest) : Harvest :=
  ⟨first.vars ++ second.vars, first.functions ++ second.functions, first.mentioned || second.mentioned⟩

@[simp] theorem none_and (h : Harvest) : none.and h = h := by
  simp [none, and]

@[simp] theorem and_none (h : Harvest) : h.and none = h := by
  simp [none, and]

theorem and_assoc (first second third : Harvest) :
    (first.and second).and third = first.and (second.and third) := by
  simp [and, Bool.or_assoc]

end Harvest

/-! ## Adding to notes -/

/-- Adds names, each of them unless it is there already. -/
def addNames (vars names : List String) : List String :=
  names.foldl (fun known name => if known.contains name then known else known ++ [name]) vars

@[simp] theorem add_no_names (vars : List String) : addNames vars [] = vars :=
  rfl

theorem add_names_append (vars first second : List String) :
    addNames vars (first ++ second) = addNames (addNames vars first) second :=
  List.foldl_append

/-- Names that are added to none are kept where they first occur. -/
theorem add_names_nil (names : List String) : addNames [] names = names.eraseDups := by
  induction names using List.reverseRecOn with
  | nil => rfl
  | append_singleton names name ih =>
    rw [add_names_append, ih, List.eraseDups_append]
    by_cases known : name ∈ names
    · simp [addNames, List.removeAll, known]
    · simp [addNames, List.removeAll, known, List.eraseDups_cons]

/-- Notes a mention of `arguments` for the innermost function that is no arrow. -/
def noteMention : List Notes → List Notes
  | [] => []
  | n :: outer => if n.isArrow then n :: noteMention outer else { n with usesArguments := true } :: outer

theorem note_mention_twice (notes : List Notes) : noteMention (noteMention notes) = noteMention notes := by
  induction notes with
  | nil => rfl
  | cons n outer ih =>
    by_cases arrow : n.isArrow
    · simp [noteMention, arrow, ih]
    · simp [noteMention, arrow]

/-- Adds a harvest to the notes. -/
def Harvest.addTo (h : Harvest) : List Notes → List Notes
  | [] => []
  | n :: outer =>
    let head := { n with vars := addNames n.vars h.vars, functions := n.functions ++ h.functions }
    if h.mentioned then noteMention (head :: outer) else head :: outer

theorem add_none (notes : List Notes) : Harvest.none.addTo notes = notes := by
  cases notes with
  | nil => rfl
  | cons n outer => simp [Harvest.addTo, Harvest.none, addNames]

/-- To add one harvest behind another is to add both. -/
theorem add_and (first second : Harvest) (notes : List Notes) :
    (first.and second).addTo notes = second.addTo (first.addTo notes) := by
  cases notes with
  | nil => rfl
  | cons n outer =>
    have names : addNames n.vars (first.and second).vars = addNames (addNames n.vars first.vars) second.vars :=
      add_names_append _ _ _
    obtain ⟨vars, functions, mentioned⟩ := first
    obtain ⟨vars', functions', mentioned'⟩ := second
    cases mentioned <;> cases mentioned' <;> by_cases arrow : n.isArrow <;>
      simp_all [Harvest.addTo, Harvest.and, noteMention, note_mention_twice]

/-- To notes without anything in them a harvest adds itself. An arrow function leaves a mention to those around. -/
theorem add_to_start (h : Harvest) (isArrow : Bool) (outer : List Notes) :
    h.addTo (⟨isArrow, [], [], false⟩ :: outer) =
      ⟨isArrow, h.vars.eraseDups, h.functions, !isArrow && h.mentioned⟩ ::
        Harvest.addTo ⟨[], [], isArrow && h.mentioned⟩ outer := by
  obtain ⟨vars, functions, mentioned⟩ := h
  cases outer <;> cases isArrow <;> cases mentioned <;>
    simp [Harvest.addTo, noteMention, add_names_nil]

theorem add_to_cons (h : Harvest) (n : Notes) (outer : List Notes) : h.addTo (n :: outer) ≠ [] := by
  obtain ⟨vars, functions, mentioned⟩ := h
  cases mentioned <;> by_cases arrow : n.isArrow <;> simp [Harvest.addTo, noteMention, arrow]

/-! ## Harvests of readers -/

/-- What a reader adds to the notes goes with what it reads. -/
def Harvests {α : Type} (read : Reader α) (good : Harvest → α → Prop) : Prop :=
  ∀ s a next, read s = .ok (a, next) → ∃ h, next.notes = h.addTo s.notes ∧ good h a

/-- A reader adds nothing to the notes. -/
abbrev Silent {α : Type} (read : Reader α) : Prop :=
  Harvests read fun h _ => h = .none

namespace Harvests

variable {α β : Type} {good : Harvest → α → Prop} {also : Harvest → β → Prop} {rest : α → Reader β}

/-- A sequence that reads has read both of its parts. -/
theorem ok_of_bind {first : Reader α} {s next : ReadingState} {b : β} (done : (first >>= rest) s = .ok (b, next)) :
    ∃ a middle, first s = .ok (a, middle) ∧ rest a middle = .ok (b, next) := by
  have steps : (first s >>= fun read => rest read.1 read.2) = .ok (b, next) := done
  cases read : first s with
  | error d =>
    rw [read] at steps
    cases steps
  | ok middle =>
    rw [read] at steps
    exact ⟨middle.1, middle.2, rfl, steps⟩

theorem bind {first : Reader α} (begins : Harvests first good)
    (ends : ∀ h a, good h a → Harvests (rest a) fun k b => also (h.and k) b) :
    Harvests (first >>= rest) also := by
  intro s b next done
  obtain ⟨a, middle, read, done⟩ := ok_of_bind done
  obtain ⟨h, noted, holds⟩ := begins s a middle read
  obtain ⟨k, later, ended⟩ := ends h a holds middle b next done
  exact ⟨h.and k, by rw [later, noted, add_and], ended⟩

/-- Behind a reader that adds nothing there is only the harvest of the rest. -/
theorem silent_bind {first : Reader α} (silent : Silent first) (ends : ∀ a, Harvests (rest a) also) :
    Harvests (first >>= rest) also :=
  silent.bind fun h a nothing => by
    subst nothing
    simpa only [Harvest.none_and] using ends a

theorem pure {b : β} (holds : also .none b) : Harvests (Pure.pure b) also := by
  intro s a next done
  cases done
  exact ⟨.none, (add_none _).symm, holds⟩

theorem map {read : Reader α} (f : α → β) (harvests : Harvests read good)
    (holds : ∀ h a, good h a → also h (f a)) : Harvests (f <$> read) also := by
  rw [map_eq_pure_bind]
  refine harvests.bind fun h a ended => .pure ?_
  simpa only [Harvest.and_none] using holds h a ended

theorem weaken {read : Reader β} {strong : Harvest → β → Prop} (harvests : Harvests read strong)
    (holds : ∀ h b, strong h b → also h b) : Harvests read also := by
  intro s b next done
  obtain ⟨h, noted, ended⟩ := harvests s b next done
  exact ⟨h, noted, holds h b ended⟩

theorem ite {c : Prop} [Decidable c] {yes no : Reader β} (taken : Harvests yes also) (left : Harvests no also) :
    Harvests (if c then yes else no) also := by
  split
  · exact taken
  · exact left

theorem fail (span : Span) (fault : SyntaxFault) : Harvests (failAt span fault) also := by
  intro s a next done
  cases done

theorem fail_then (span : Span) (fault : SyntaxFault) : Harvests (failAt span fault >>= rest) also := by
  have nothing : Harvests (failAt span fault) fun _ (_ : α) => False := .fail span fault
  exact nothing.bind fun _ _ => False.elim

theorem get : Silent get := by
  intro s a next done
  cases done
  exact ⟨.none, (add_none _).symm, rfl⟩

theorem broken : Harvests Grammar.broken also :=
  .silent_bind .get fun s => .fail s.current.span _

theorem modify {f : ReadingState → ReadingState} (h : Harvest) (adds : ∀ s, (f s).notes = h.addTo s.notes) :
    Harvests (modify f : Reader Unit) fun k _ => k = h := by
  intro s a next done
  cases done
  exact ⟨h, adds s, rfl⟩

end Harvests

/-! ## Tokens -/

theorem fails_here {α : Type} {good : Harvest → α → Prop} (fault : SyntaxFault) : Harvests (failHere fault) good :=
  .silent_bind .get fun s => .fail s.current.span fault

theorem silent_peek : Silent peek :=
  .silent_bind .get fun _ => .pure rfl

theorem notes_pass (s : ReadingState) : s.pass.notes = s.notes := by
  obtain ⟨source, previous, current, upcoming, body, outerBodies⟩ := s
  cases upcoming <;> rfl

theorem silent_advance : Silent advance := by
  refine .silent_bind (.modify .none fun s => ?_) fun _ => .silent_bind .get fun _ => .pure rfl
  rw [notes_pass, add_none]

theorem silent_pass : Silent (discard advance) :=
  .map _ silent_advance fun _ _ => id

theorem silent_check (kind : TokenKind) : Silent (check kind) :=
  .silent_bind .get fun _ => .pure rfl

theorem silent_accept (kind : TokenKind) : Silent (accept kind) := by
  refine .silent_bind (silent_check kind) fun there => .ite ?_ (.pure rfl)
  exact .silent_bind silent_pass fun _ => .pure rfl

theorem silent_expect (kind : TokenKind) (what : String) : Silent (expect kind what) :=
  .silent_bind (silent_accept kind) fun _ => .ite (.pure rfl) (fails_here _)

theorem silent_span_from (start : Nat) : Silent (spanFrom start) :=
  .silent_bind .get fun _ => .pure rfl

theorem silent_source_from (start : Nat) : Silent (sourceFrom start) := by
  refine .silent_bind .get fun s => ?_
  split
  · exact .pure rfl
  · exact .broken

theorem silent_end_statement : Silent endStatement := by
  refine .silent_bind (silent_accept _) fun _ => .ite (.pure rfl) ?_
  exact .silent_bind .get fun s => .ite (.pure rfl) (.fail _ _)

theorem silent_is_strict : Silent isStrict :=
  .silent_bind .get fun _ => .pure rfl

theorem silent_binding_name (what : String) : Silent (bindingName what) := by
  refine .silent_bind silent_peek fun token => ?_
  extract_lets finish accepted
  have finished : Silent (finish ()) := .pure rfl
  have named : Silent (accepted ()) := by
    refine .silent_bind silent_pass fun _ => ?_
    exact .silent_bind silent_is_strict fun _ => .ite (.fail_then _ _) finished
  exact .ite named (.fail_then _ _)

/-! ## Bodies -/

/-- A change of the innermost function that concerns no names adds nothing. -/
theorem silent_modify_body {f : BodyState → BodyState} (kept : ∀ b, (f b).notes = b.notes) :
    Silent (modifyBody f) :=
  .modify .none fun s => by
    rw [add_none]
    exact congrArg (· :: s.outerBodies.map BodyState.notes) (kept s.body)

theorem harvests_add_var (name : String) :
    Harvests (modifyBody (·.addVar name)) fun h _ => h = ⟨[name], [], false⟩ := by
  refine .modify _ fun s => congrArg (· :: s.outerBodies.map BodyState.notes) ?_
  by_cases known : name ∈ s.body.vars
  · simp [BodyState.addVar, BodyState.notes, addNames, known]
  · simp [BodyState.addVar, BodyState.notes, addNames, known]

theorem harvests_add_function (code : FunctionCode) :
    Harvests (modifyBody (·.addFunction code)) fun h _ => h = ⟨[], [code], false⟩ :=
  .modify _ fun _ => rfl

theorem notes_note_arguments (bodies : List BodyState) :
    (noteArguments bodies).map BodyState.notes = noteMention (bodies.map BodyState.notes) := by
  induction bodies with
  | nil => rfl
  | cons b outer ih =>
    by_cases arrow : b.isArrow
    · simp [noteArguments, noteMention, BodyState.notes, arrow, ih]
    · simp [noteArguments, noteMention, BodyState.notes, arrow]

theorem harvests_mention_arguments : Harvests mentionArguments fun h _ => h = ⟨[], [], true⟩ := by
  refine .modify _ fun s => ?_
  have mentioned : (⟨[], [], true⟩ : Harvest).addTo s.notes = noteMention s.notes := by
    simp [ReadingState.notes, Harvest.addTo, addNames]
  have noted := notes_note_arguments (s.body :: s.outerBodies)
  rw [mentioned]
  cases found : noteArguments (s.body :: s.outerBodies) with
  | nil =>
    unfold noteArguments at found
    split at found <;> cases found
  | cons body outer =>
    rw [found] at noted
    exact noted

/-- What a body has noted in the end is its own harvest. Of this only the mention of `arguments` in an arrow function
is left for the functions around. -/
theorem harvests_with_body {α : Type} {good : Harvest → α → Prop} {read : Reader α} (isArrow strict : Bool)
    (harvests : Harvests read good) :
    Harvests (withBody isArrow strict read) fun k result => ∃ h, good h result.1 ∧
      result.2.vars = h.vars.eraseDups ∧ result.2.functions = h.functions ∧
      (isArrow = false → result.2.usesArguments = h.mentioned) ∧ k = ⟨[], [], isArrow && h.mentioned⟩ := by
  intro s result next done
  let start : ReadingState := { s with body := .start isArrow strict, outerBodies := s.body :: s.outerBodies }
  unfold withBody at done
  obtain ⟨_, _, begun, done⟩ := Harvests.ok_of_bind done
  cases begun
  obtain ⟨a, middle, ended, left⟩ := Harvests.ok_of_bind done
  obtain ⟨h, noted, holds⟩ := harvests start a middle ended
  obtain ⟨source, previous, current, upcoming, body, outerBodies⟩ := middle
  cases left
  have begins : start.notes = ⟨isArrow, [], [], false⟩ :: s.notes := rfl
  rw [begins, add_to_start] at noted
  obtain ⟨inner, outer⟩ := List.cons.inj noted
  refine ⟨⟨[], [], isArrow && h.mentioned⟩, ?_, h, holds, ?_, ?_, ?_, rfl⟩
  · cases outerBodies with
    | nil => exact absurd outer.symm (add_to_cons _ _ _)
    | cons body rest => exact outer
  · exact congrArg Notes.vars inner
  · exact congrArg Notes.functions inner
  · rintro rfl
    exact congrArg Notes.usesArguments inner

/-- A block adds what its statements add. -/
theorem harvests_with_block {α : Type} {good : Harvest → α → Prop} {read : Reader α} (harvests : Harvests read good) :
    Harvests (withBlock read) fun h result => good h result.1 := by
  refine .silent_bind (silent_modify_body fun _ => rfl) fun _ => .bind harvests fun h a holds => ?_
  refine .silent_bind .get fun s => .silent_bind (silent_modify_body fun _ => rfl) fun _ => .pure ?_
  simpa only [Harvest.and_none] using holds

/-! ## Repetition -/

section

variable {α : Type} {item : Reader α} {one : Harvest → α → Prop} {all : Harvest → List α → Prop}

theorem harvests_while (each : Harvests item one) (nothing : all .none [])
    (more : ∀ h k a items, one h a → all k items → all (h.and k) (a :: items)) (fuel : Nat)
    (wanted : ReadingState → Bool) (done : List α) :
    Harvests (readWhile fuel wanted item done) fun h items => ∃ later, items = done.reverse ++ later ∧ all h later := by
  induction fuel generalizing done with
  | zero => exact .broken
  | succ fuel ih =>
    refine .silent_bind .get fun s => .ite ?_ (.pure ⟨[], by simp, nothing⟩)
    refine .bind each fun h a holds => (ih (a :: done)).weaken fun k items rest => ?_
    obtain ⟨later, rfl, others⟩ := rest
    exact ⟨a :: later, by simp, more h k a later holds others⟩

theorem harvests_separated (each : Harvests item one) (nothing : all .none [])
    (more : ∀ h k a items, one h a → all k items → all (h.and k) (a :: items)) (fuel : Nat) (done : List α) :
    Harvests (readSeparated fuel item done) fun h items => ∃ later, items = done.reverse ++ later ∧ all h later := by
  induction fuel generalizing done with
  | zero => exact .broken
  | succ fuel ih =>
    refine .bind each fun h a holds => .silent_bind (silent_accept _) fun comma => .ite ?_ (.pure ?_)
    · refine (ih (a :: done)).weaken fun k items rest => ?_
      obtain ⟨later, rfl, others⟩ := rest
      exact ⟨a :: later, by simp, more h k a later holds others⟩
    · exact ⟨[a], by simp, more h .none a [] holds nothing⟩

end

end ScriptEngine.Grammar
