import ScriptEngine.Proofs.Reading.Totality

/-!
Readers that pass over known tokens. In sloppy code, and where no arrow is ahead, what a reader does depends on the
tokens that are left and on nothing else.
-/

namespace ScriptEngine.Grammar

/-- These tokens are left in sloppy code, with no arrow among them. -/
structure ReadingState.Faces (s : ReadingState) (tokens : List Token) : Prop where
  left : s.current :: s.upcoming = tokens
  sloppy : s.body.strict = false
  noArrow : ∀ t ∈ tokens, t.kind ≠ .mark .arrow

/-- Before some tokens a reader passes on until only others are left, and its result is good. -/
def Passes {α : Type} (tokens left : List Token) (read : Reader α) (good : α → Prop) : Prop :=
  ∀ s : ReadingState, s.Faces tokens → ∃ a next, read s = .ok (a, next) ∧ good a ∧ next.Faces left

namespace Passes

variable {α β : Type} {tokens middle left : List Token} {good : α → Prop} {also : β → Prop}

theorem bind {first : Reader α} {rest : α → Reader β} (begins : Passes tokens middle first good)
    (ends : ∀ a, good a → Passes middle left (rest a) also) : Passes tokens left (first >>= rest) also := by
  intro s faces
  obtain ⟨a, there, read, holds, goesOn⟩ := begins s faces
  obtain ⟨b, next, ended, result, behind⟩ := ends a holds there goesOn
  refine ⟨b, next, ?_, result, behind⟩
  have steps : (first >>= rest) s = (first s >>= fun read => rest read.1 read.2) := rfl
  rw [steps, read]
  exact ended

theorem pure {a : α} (holds : good a) : Passes tokens tokens (Pure.pure a) good := by
  intro s faces
  exact ⟨a, s, rfl, holds, faces⟩

theorem weaken {read : Reader α} {strong : α → Prop} (passes : Passes tokens left read strong)
    (holds : ∀ a, strong a → good a) : Passes tokens left read good := by
  intro s faces
  obtain ⟨a, next, read, result, there⟩ := passes s faces
  exact ⟨a, next, read, holds a result, there⟩

theorem get : Passes tokens tokens get fun s => s.Faces tokens := by
  intro s faces
  exact ⟨s, s, rfl, faces, faces⟩

theorem ite {c : Prop} [Decidable c] {yes no : Reader α} (taken : Passes tokens left yes good)
    (other : Passes tokens left no good) : Passes tokens left (if c then yes else no) good := by
  split
  · exact taken
  · exact other

/-- A choice that is known to be made. -/
theorem ite_true {c : Prop} [Decidable c] {yes no : Reader α} (holds : c) (taken : Passes tokens left yes good) :
    Passes tokens left (if c then yes else no) good := by
  rwa [if_pos holds]

theorem ite_false {c : Prop} [Decidable c] {yes no : Reader α} (fails : ¬c) (taken : Passes tokens left no good) :
    Passes tokens left (if c then yes else no) good := by
  rwa [if_neg fails]

end Passes

/-! ## Tokens -/

section

variable {t : Token} {rest : List Token}

theorem faces_current {s : ReadingState} (faces : s.Faces (t :: rest)) : s.current = t :=
  (List.cons.inj faces.left).1

theorem faces_upcoming {s : ReadingState} (faces : s.Faces (t :: rest)) : s.upcoming = rest :=
  (List.cons.inj faces.left).2

theorem passes_peek : Passes (t :: rest) (t :: rest) peek (· = t) :=
  Passes.get.bind fun _ faces => .pure (faces_current faces)

theorem passes_advance (more : rest ≠ []) : Passes (t :: rest) rest advance (· = t) := by
  intro s faces
  obtain ⟨source, previous, current, upcoming, body, outerBodies⟩ := s
  obtain rfl : current = t := faces_current faces
  obtain rfl : upcoming = rest := faces_upcoming faces
  cases upcoming with
  | nil => exact absurd rfl more
  | cons next later => exact ⟨current, _, rfl, rfl, rfl, faces.sloppy, fun u mem => faces.noArrow u (.tail _ mem)⟩

theorem passes_over (more : rest ≠ []) : Passes (t :: rest) rest (discard advance) fun _ => True := by
  intro s faces
  obtain ⟨a, there, read, -, goesOn⟩ := passes_advance more s faces
  refine ⟨(), there, ?_, trivial, goesOn⟩
  have steps : (discard advance : Reader Unit) s = (advance s >>= fun read => .ok ((), read.2)) := rfl
  rw [steps, read]
  rfl

theorem passes_check (kind : TokenKind) :
    Passes (t :: rest) (t :: rest) (check kind) (· = (t.kind == kind)) :=
  Passes.get.bind fun _ faces => .pure (by rw [faces_current faces])

theorem passes_accept {kind : TokenKind} (there : t.kind = kind) (more : rest ≠ []) :
    Passes (t :: rest) rest (accept kind) (· = true) := by
  refine (passes_check kind).bind fun found same => .ite_true ?_ ?_
  · simp [same, there]
  · exact (passes_over more).bind fun _ _ => .pure rfl

theorem passes_no_accept {kind : TokenKind} (other : t.kind ≠ kind) :
    Passes (t :: rest) (t :: rest) (accept kind) (· = false) := by
  refine (passes_check kind).bind fun found same => .ite_false ?_ (.pure rfl)
  simp [same, other]

theorem passes_expect {kind : TokenKind} (there : t.kind = kind) (what : String) (more : rest ≠ []) :
    Passes (t :: rest) rest (expect kind what) fun _ => True :=
  (passes_accept there more).bind fun _ found => .ite_true found (.pure trivial)

theorem passes_span_from (start : Nat) : Passes rest rest (spanFrom start) fun _ => True :=
  Passes.get.bind fun _ _ => .pure trivial

theorem passes_is_strict : Passes rest rest isStrict (· = false) :=
  Passes.get.bind fun _ faces => .pure faces.sloppy

/-- A mention of `arguments` makes no code strict. -/
theorem strict_note_arguments {body b : BodyState} {outer others : List BodyState}
    (noted : noteArguments (body :: outer) = b :: others) : b.strict = body.strict := by
  by_cases arrow : body.isArrow
  · rw [noteArguments, if_pos arrow] at noted
    cases noted
    rfl
  · rw [noteArguments, if_neg arrow] at noted
    cases noted
    rfl

theorem passes_mention_arguments : Passes rest rest mentionArguments fun _ => True := by
  intro s faces
  obtain ⟨source, previous, current, upcoming, body, outerBodies⟩ := s
  refine ⟨(), _, rfl, trivial, ?_⟩
  dsimp only
  cases noted : noteArguments (body :: outerBodies) with
  | nil => exact faces
  | cons b outer =>
    exact ⟨faces.left, (strict_note_arguments noted).trans faces.sloppy, faces.noArrow⟩

/-! ## Arrows -/

/-- Behind an open parenthesis no arrow is found where there is none. -/
theorem arrow_follows_nowhere {depth : Nat} (inner : 0 < depth) {tokens : List Token}
    (noArrow : ∀ t ∈ tokens, t.kind ≠ .mark .arrow) : arrowFollows? depth tokens = some false := by
  fun_induction arrowFollows? depth tokens with
  | case1 depth => rfl
  | case2 t rest depth kind ih => exact ih (Nat.succ_pos depth) fun u mem => noArrow u (.tail _ mem)
  | case3 t rest kind => exact absurd inner (Nat.lt_irrefl 0)
  | case4 t rest kind =>
    cases rest with
    | nil => rfl
    | cons next rest =>
      have other : next.kind ≠ .mark .arrow := noArrow next (.tail _ (.head _))
      simp [other]
  | case5 t rest depth others kind ih =>
    exact ih (Nat.pos_of_ne_zero others) fun u mem => noArrow u (.tail _ mem)
  | case6 t rest depth kind => rfl
  | case7 t rest depth opens none last deeper ended ih => exact ih inner fun u mem => noArrow u (.tail _ mem)

theorem passes_at_parameter_list : Passes rest rest atParameterList (· = false) := by
  refine Passes.get.bind fun s faces => ?_
  by_cases opens : s.current.kind = .mark .openParen
  · have nowhere : arrowFollows? 0 (s.current :: s.upcoming) = some false := by
      rw [arrowFollows?]
      · exact arrow_follows_nowhere Nat.one_pos fun t mem => faces.noArrow t (faces.left ▸ .tail _ mem)
      · exact opens
    simp only [opens, beq_self_eq_true, if_true, nowhere]
    exact .pure rfl
  · exact .ite_false (by simp [opens]) (.pure rfl)

/-- The token behind the next one is no arrow. -/
theorem no_single_parameter {s : ReadingState} (faces : s.Faces rest) : s.atSingleParameter = false := by
  have among : s.tokenAt 1 ∈ s.current :: s.upcoming := by
    cases behind : s.upcoming with
    | nil => simp [ReadingState.tokenAt, behind]
    | cons next later => simp [ReadingState.tokenAt, behind]
  have other : (s.tokenAt 1).kind ≠ .mark .arrow := faces.noArrow _ (faces.left ▸ among)
  simp [ReadingState.atSingleParameter, other]

end

end ScriptEngine.Grammar
