import ScriptEngine.Proofs.Jumps.Place
import ScriptEngine.Syntax.Grammar.State

/-!
What the reading of a program keeps. Whatever a rule reads, the labels, loops, choices and blocks around
the place reached are afterwards as they were, in each of the functions around it, and the functions noted
there are sound. Only a declaration adds its names to the innermost block. The rules for tokens and names
are here; those of the grammar follow.
-/

namespace ScriptEngine.Grammar

/-- What is known of the statements around a place, in one function: those at which jumps end, and the
names that the blocks have declared so far, from the innermost outward. -/
structure BodyOutline where
  labels : List LabelEntry
  iterationDepth : Nat
  switchDepth : Nat
  blocks : List (List LexicalName)

namespace BodyOutline

/-- No statements are around. -/
def start : BodyOutline := ⟨[], 0, 0, []⟩

/-- Inside a block that has declared some names so far. -/
def inBlock (names : List LexicalName) (known : BodyOutline) : BodyOutline :=
  { known with blocks := names :: known.blocks }

end BodyOutline

/-- What a function under way knows of the statements around. -/
def BodyState.outline (b : BodyState) : BodyOutline :=
  ⟨b.labels, b.iterationDepth, b.switchDepth, b.blocks⟩

/-- The functions under way know of these statements, from the innermost outward. None of their blocks has
declared a name twice, and they have noted nothing but sound functions. -/
structure ReadingState.Reached (around : List BodyOutline) (s : ReadingState) : Prop where
  outline : (s.body :: s.outerBodies).map BodyState.outline = around
  distinct : ∀ known ∈ around, ∀ names ∈ known.blocks, DistinctNames names
  functions : ∀ b ∈ s.body :: s.outerBodies, ∀ code ∈ b.functions, (Node.code code).Sound

/-- From states of one kind only states of another kind are reached, which may depend on what is read; and
that is good. -/
def Leads (before : ReadingState → Prop) (after : α → ReadingState → Prop) (read : Reader α)
    (good : α → Prop) : Prop :=
  ∀ s a next, read s = .ok (a, next) → before s → after a next ∧ good a

/-- What is read is good, and afterwards the same is known. -/
abbrev Reads (around : List BodyOutline) (read : Reader α) (good : α → Prop) : Prop :=
  Leads (ReadingState.Reached around) (fun _ => ReadingState.Reached around) read good

namespace Leads

variable {before : ReadingState → Prop} {between : α → ReadingState → Prop}
  {after : β → ReadingState → Prop} {good : α → Prop} {also : β → Prop}

/-- Nothing is read where a result is given. -/
theorem give {b : β} (kept : ∀ s, before s → after b s) (holds : also b) :
    Leads before after (Pure.pure b) also := by
  intro s b next done reached
  cases done
  exact ⟨kept s reached, holds⟩

theorem pure {b : β} (holds : also b) : Leads before (fun _ => before) (Pure.pure b) also :=
  give (fun _ => id) holds

theorem bind {first : Reader α} {rest : α → Reader β} (begins : Leads before between first good)
    (ends : ∀ a, good a → Leads (between a) after (rest a) also) :
    Leads before after (first >>= rest) also := by
  intro s b next done reached
  have steps : (first s >>= fun read => rest read.1 read.2) = .ok (b, next) := done
  cases read : first s with
  | error d =>
    rw [read] at steps
    cases steps
  | ok middle =>
    rw [read] at steps
    obtain ⟨reached, holds⟩ := begins s middle.1 middle.2 read reached
    exact ends middle.1 holds middle.2 b next steps reached

theorem map {read : Reader α} (f : α → β) (reads : Leads before (fun a => after (f a)) read good)
    (holds : ∀ a, good a → also (f a)) : Leads before after (f <$> read) also := by
  rw [map_eq_pure_bind]
  exact reads.bind fun a good => give (fun _ => id) (holds a good)

theorem ite {c : Prop} [Decidable c] {yes no : Reader β} (taken : Leads before after yes also)
    (left : Leads before after no also) : Leads before after (if c then yes else no) also := by
  split
  · exact taken
  · exact left

/-- Nothing is read where a fault is reported. -/
theorem fail (span : Span) (fault : SyntaxFault) : Leads before after (failAt span fault) also := by
  intro s a next done
  cases done

theorem fail_then (span : Span) (fault : SyntaxFault) (rest : α → Reader β) :
    Leads before after (failAt span fault >>= rest) also := by
  have nothing : Leads before (fun _ => before) (failAt span fault) (fun _ : α => False) :=
    .fail span fault
  exact nothing.bind fun _ impossible => impossible.elim

theorem get : Leads before (fun _ => before) (get : Reader ReadingState) before := by
  intro s a next done reached
  cases done
  exact ⟨reached, reached⟩

/-- Nothing is read where the reader is broken. -/
theorem broken : Leads before after Grammar.broken also :=
  .bind .get fun s _ => .fail s.current.span _

theorem modify {f : ReadingState → ReadingState} {changed : ReadingState → Prop}
    (leads : ∀ s, before s → changed (f s)) :
    Leads before (fun _ => changed) (modify f : Reader Unit) fun _ => True := by
  intro s a next done reached
  cases done
  exact ⟨leads s reached, trivial⟩

end Leads

variable {around : List BodyOutline}

/-! ## Tokens -/

theorem reads_fail_here {good : α → Prop} (fault : SyntaxFault) :
    Reads around (failHere fault) good :=
  .bind .get fun s _ => .fail s.current.span fault

theorem reads_peek : Reads around peek fun _ => True :=
  .bind .get fun _ _ => .pure trivial

theorem reached_pass {s : ReadingState} (reached : s.Reached around) : s.pass.Reached around := by
  obtain ⟨source, previous, current, upcoming, body, outerBodies⟩ := s
  cases upcoming with
  | nil => exact reached
  | cons token rest => exact ⟨reached.outline, reached.distinct, reached.functions⟩

theorem reads_advance : Reads around advance fun _ => True :=
  .bind (.modify fun _ => reached_pass) fun _ _ => .bind .get fun _ _ => .pure trivial

theorem reads_pass : Reads around (discard advance) fun _ => True :=
  .map _ reads_advance fun _ _ => trivial

theorem reads_check (kind : TokenKind) : Reads around (check kind) fun _ => True :=
  .bind .get fun _ _ => .pure trivial

theorem reads_accept (kind : TokenKind) : Reads around (accept kind) fun _ => True := by
  refine .bind (reads_check kind) fun there _ => .ite ?_ (.pure trivial)
  exact .bind reads_pass fun _ _ => .pure trivial

theorem reads_expect (kind : TokenKind) (what : String) :
    Reads around (expect kind what) fun _ => True :=
  .bind (reads_accept kind) fun _ _ => .ite (.pure trivial) (reads_fail_here _)

theorem reads_span_from (start : Nat) : Reads around (spanFrom start) fun _ => True :=
  .bind .get fun _ _ => .pure trivial

theorem reads_source_from (start : Nat) : Reads around (sourceFrom start) fun _ => True := by
  refine .bind .get fun s _ => ?_
  split
  · exact .pure trivial
  · exact .broken

theorem reads_end_statement : Reads around endStatement fun _ => True := by
  refine .bind (reads_accept _) fun _ _ => .ite (.pure trivial) ?_
  exact .bind .get fun s _ => .ite (.pure trivial) (.fail _ _)

theorem reads_is_strict : Reads around isStrict fun _ => True :=
  .bind .get fun _ _ => .pure trivial

/-! ## Bodies -/

/-- The innermost function may change, as long as no block of it declares a name twice and all functions
noted in it stay sound. -/
theorem reached_body {s : ReadingState} (f : BodyState → BodyState) (reached : s.Reached around)
    (distinct : ∀ names ∈ (f s.body).blocks, DistinctNames names)
    (functions : ∀ code ∈ (f s.body).functions, code ∈ s.body.functions ∨ (Node.code code).Sound) :
    ({ s with body := f s.body } : ReadingState).Reached ((f s.body).outline :: around.tail) where
  outline := by
    rw [← reached.outline]
    rfl
  distinct known mem := by
    cases mem with
    | head => exact distinct
    | tail _ mem => exact reached.distinct known (List.mem_of_mem_tail mem)
  functions b mem code noted := by
    cases mem with
    | head =>
      rcases functions code noted with old | sound
      · exact reached.functions s.body (.head _) code old
      · exact sound
    | tail _ mem => exact reached.functions b (.tail _ mem) code noted

/-- What the innermost function knows. -/
theorem body_outline {known : BodyOutline} {s : ReadingState} (reached : s.Reached (known :: around)) :
    s.body.outline = known :=
  (List.cons.inj reached.outline).1

/-- A change of what is known in the innermost function. -/
theorem leads_modify_body {known : BodyOutline} (changed : BodyOutline) {f : BodyState → BodyState}
    (outline : ∀ b, b.outline = known → (f b).outline = changed)
    (distinct : (∀ names ∈ known.blocks, DistinctNames names) →
      ∀ names ∈ changed.blocks, DistinctNames names)
    (functions : ∀ b, (f b).functions = b.functions) :
    Leads (ReadingState.Reached (known :: around)) (fun _ => ReadingState.Reached (changed :: around))
      (modifyBody f) fun _ => True := by
  refine .modify fun s reached => ?_
  have same : (f s.body).outline = changed := outline s.body (body_outline reached)
  have blocks : (f s.body).blocks = changed.blocks := congrArg BodyOutline.blocks same
  have kept := reached_body f reached (blocks ▸ distinct (reached.distinct known (.head _)))
    fun code noted => .inl (functions s.body ▸ noted)
  rwa [same] at kept

theorem reads_modify_body (f : BodyState → BodyState) (outline : ∀ b, (f b).outline = b.outline)
    (functions : ∀ b, (f b).functions = b.functions) :
    Reads around (modifyBody f) fun _ => True := by
  cases around with
  | nil => exact fun s _ _ _ reached => absurd reached.outline (List.cons_ne_nil _ _)
  | cons known around =>
    exact leads_modify_body known (fun b same => (outline b).trans same) id functions

theorem reads_add_function {code : FunctionCode} (sound : (Node.code code).Sound) :
    Reads around (modifyBody (·.addFunction code)) fun _ => True := by
  cases around with
  | nil => exact fun s _ _ _ reached => absurd reached.outline (List.cons_ne_nil _ _)
  | cons known around =>
    refine .modify fun s reached => ?_
    have same : s.body.outline = known := body_outline reached
    have blocks : s.body.blocks = known.blocks := congrArg BodyOutline.blocks same
    rw [← same]
    refine reached_body (·.addFunction code) (same.symm ▸ reached) ?_ fun noted mem => ?_
    · exact blocks.symm ▸ reached.distinct known (.head _)
    · rcases List.mem_append.mp mem with old | new
      · exact .inl old
      · exact .inr (List.mem_singleton.mp new ▸ sound)

theorem add_var_keeps (name : String) (b : BodyState) :
    (b.addVar name).outline = b.outline ∧ (b.addVar name).functions = b.functions := by
  unfold BodyState.addVar
  split <;> exact ⟨rfl, rfl⟩

/-- Behind a body the functions around it are as they were. -/
theorem reached_outside {here : BodyOutline} {s : ReadingState} (inner : BodyOutline)
    (reached : s.Reached (inner :: here :: around)) :
    ReadingState.Reached (here :: around)
      (match s.outerBodies with
        | [] => s
        | body :: outer => { s with body := body, outerBodies := outer }) := by
  obtain ⟨source, previous, current, upcoming, body, outerBodies⟩ := s
  cases outerBodies with
  | nil => cases reached.outline
  | cons outer rest =>
    have outline := reached.outline
    exact ⟨(List.cons.inj outline).2, fun known mem => reached.distinct known (.tail _ mem),
      fun b mem => reached.functions b (.tail _ mem)⟩

/-- A new body begins with a block that declares nothing. What it noted in the end is sound, and its names
are the ones that this block has declared by then. -/
theorem reads_with_body {names : α → List LexicalName} {good : α → Prop} {read : Reader α}
    (isArrow strict : Bool)
    (reads : Leads (ReadingState.Reached (BodyOutline.start.inBlock [] :: around))
      (fun a => ReadingState.Reached (BodyOutline.start.inBlock (names a) :: around)) read good) :
    Reads around (withBody isArrow strict read) fun result =>
      good result.1 ∧ (∀ code ∈ result.2.functions, (Node.code code).Sound) ∧
        result.2.names.lexical = names result.1 ∧ DistinctNames (names result.1) := by
  have enters : Leads (ReadingState.Reached around)
      (fun _ => ReadingState.Reached (BodyOutline.start.inBlock [] :: around))
      (modify fun s => { s with
        body := .start isArrow strict, outerBodies := s.body :: s.outerBodies }) fun _ => True := by
    refine .modify fun s reached => ⟨congrArg (_ :: ·) reached.outline, ?_, fun b mem code noted => ?_⟩
    · refine List.forall_mem_cons.mpr ⟨?_, reached.distinct⟩
      exact List.forall_mem_singleton.mpr List.nodup_nil
    · cases mem with
      | head => cases noted
      | tail _ mem => exact reached.functions b mem code noted
  cases around with
  | nil => exact fun s _ _ _ reached => absurd reached.outline (List.cons_ne_nil _ _)
  | cons here around =>
    refine enters.bind fun _ _ => reads.bind fun a holds => .bind .get fun s reached => ?_
    refine .bind (.modify fun _ => reached_outside _) fun _ _ => ?_
    have blocks : s.body.blocks = [names a] := congrArg BodyOutline.blocks (body_outline reached)
    have lexical : s.body.names.lexical = names a := by
      rw [BodyState.names, blocks]
      rfl
    have distinct : DistinctNames (names a) := reached.distinct _ (.head _) _ (.head _)
    exact .pure ⟨holds, reached.functions s.body (.head _), lexical, distinct⟩

/-- A new block begins without names, and gives those that it has declared in the end. -/
theorem reads_with_block {known : BodyOutline} {names : α → List LexicalName} {good : α → Prop}
    {read : Reader α}
    (reads : Leads (ReadingState.Reached (known.inBlock [] :: around))
      (fun a => ReadingState.Reached (known.inBlock (names a) :: around)) read good) :
    Reads (known :: around) (withBlock read) fun result =>
      good result.1 ∧ result.2 = names result.1 ∧ DistinctNames result.2 := by
  refine .bind (leads_modify_body (known.inBlock []) ?_ ?_ fun _ => rfl) fun _ _ => ?_
  · rintro b rfl
    rfl
  · exact fun distinct => List.forall_mem_cons.mpr ⟨List.nodup_nil, distinct⟩
  refine .bind reads fun a holds => .bind .get fun s reached => ?_
  have blocks : s.body.blocks = names a :: known.blocks :=
    congrArg BodyOutline.blocks (body_outline reached)
  have inner : s.body.innerBlock = names a := by
    rw [BodyState.innerBlock, blocks]
    rfl
  have distinct : DistinctNames (names a) := reached.distinct _ (.head _) _ (.head _)
  refine .bind (leads_modify_body known (fun b same => ?_) ?_ fun _ => rfl) fun _ _ => ?_
  · exact congrArg (fun k : BodyOutline => { k with blocks := k.blocks.tail }) same
  · exact fun distinct names mem => distinct names (.tail _ mem)
  · exact .pure ⟨holds, inner, inner.symm ▸ distinct⟩

/-- The innermost block declares a name that it does not have yet. -/
theorem leads_add_lexical {known : BodyOutline} {names : List LexicalName} {name : LexicalName}
    (new : ∀ other ∈ names, other.name ≠ name.name) :
    Leads (ReadingState.Reached (known.inBlock names :: around))
      (fun _ => ReadingState.Reached (known.inBlock (names ++ [name]) :: around))
      (modifyBody (·.addLexical name)) fun _ => True := by
  have added (b : BodyState) (same : b.outline = known.inBlock names) :
      (b.addLexical name).outline = known.inBlock (names ++ [name]) ∧
        (b.addLexical name).functions = b.functions := by
    obtain ⟨isArrow, strict, vars, functions, blocks, usesArguments, labels, iterations, switches⟩ := b
    cases same
    exact ⟨rfl, rfl⟩
  refine .modify fun s reached => ?_
  have same := body_outline reached
  have blocks : (s.body.addLexical name).blocks = (names ++ [name]) :: known.blocks :=
    congrArg BodyOutline.blocks (added s.body same).1
  have distinct := List.forall_mem_cons.mp (reached.distinct _ (.head _))
  have kept := reached_body (·.addLexical name) reached ?_ fun code noted => .inl ?_
  · rwa [(added s.body same).1] at kept
  · rw [blocks]
    refine List.forall_mem_cons.mpr ⟨?_, distinct.2⟩
    rw [DistinctNames, List.map_append, List.nodup_append]
    refine ⟨distinct.1, by simp, fun text mem other last => ?_⟩
    obtain ⟨old, among, rfl⟩ := List.mem_map.mp mem
    exact List.mem_singleton.mp last ▸ new old among
  · rwa [(added s.body same).2] at noted

theorem outline_note_arguments (bodies : List BodyState) :
    (noteArguments bodies).map BodyState.outline = bodies.map BodyState.outline := by
  induction bodies with
  | nil => rfl
  | cons b outer ih =>
    unfold noteArguments
    split
    · exact congrArg (_ :: ·) ih
    · rfl

theorem functions_note_arguments (bodies : List BodyState) :
    (noteArguments bodies).map BodyState.functions = bodies.map BodyState.functions := by
  induction bodies with
  | nil => rfl
  | cons b outer ih =>
    unfold noteArguments
    split
    · exact congrArg (_ :: ·) ih
    · rfl

theorem reads_mention_arguments : Reads around mentionArguments fun _ => True := by
  refine .modify fun s reached => ?_
  have outline := outline_note_arguments (s.body :: s.outerBodies)
  have functions := functions_note_arguments (s.body :: s.outerBodies)
  cases noted : noteArguments (s.body :: s.outerBodies) with
  | nil => exact reached
  | cons body outer =>
    rw [noted] at outline functions
    refine ⟨outline.trans reached.outline, reached.distinct, fun b mem code known => ?_⟩
    have kept : b.functions ∈ (s.body :: s.outerBodies).map BodyState.functions :=
      functions ▸ List.mem_map_of_mem mem
    obtain ⟨old, around, same⟩ := List.mem_map.mp kept
    exact reached.functions old around code (same ▸ known)

/-! ## Repetition -/

/-- What is known may grow with each item that is read; `known` tells it from the items in order. -/
theorem leads_while (known : List α → List BodyOutline) {good : α → Prop} {item : Reader α}
    (reads : ∀ done, Leads (ReadingState.Reached (known done))
      (fun a => ReadingState.Reached (known (done ++ [a]))) item good)
    (fuel : Nat) (more : ReadingState → Bool) {done : List α} (before : ∀ a ∈ done, good a) :
    Leads (ReadingState.Reached (known done.reverse)) (fun items => ReadingState.Reached (known items))
      (readWhile fuel more item done) fun items => ∀ a ∈ items, good a := by
  have ended : ∀ a ∈ done.reverse, good a := fun a mem => before a (List.mem_reverse.mp mem)
  induction fuel generalizing done with
  | zero => exact .broken
  | succ fuel ih =>
    refine .bind .get fun s _ => .ite ?_ (.give (fun _ => id) ended)
    refine .bind (reads _) fun a holds => ?_
    have before : ∀ b ∈ a :: done, good b := List.forall_mem_cons.mpr ⟨holds, before⟩
    rw [← List.reverse_cons]
    exact ih before fun b mem => before b (List.mem_reverse.mp mem)

theorem leads_separated (known : List α → List BodyOutline) {good : α → Prop} {item : Reader α}
    (reads : ∀ done, Leads (ReadingState.Reached (known done))
      (fun a => ReadingState.Reached (known (done ++ [a]))) item good)
    (fuel : Nat) {done : List α} (before : ∀ a ∈ done, good a) :
    Leads (ReadingState.Reached (known done.reverse)) (fun items => ReadingState.Reached (known items))
      (readSeparated fuel item done) fun items => ∀ a ∈ items, good a := by
  have ended : ∀ a ∈ done.reverse, good a := fun a mem => before a (List.mem_reverse.mp mem)
  induction fuel generalizing done with
  | zero => exact .broken
  | succ fuel ih =>
    refine .bind (reads _) fun a holds => ?_
    have before : ∀ b ∈ a :: done, good b := List.forall_mem_cons.mpr ⟨holds, before⟩
    have ended : ∀ b ∈ (a :: done).reverse, good b := fun b mem => before b (List.mem_reverse.mp mem)
    rw [← List.reverse_cons]
    exact .bind (reads_accept _) fun comma _ => .ite (ih before ended) (.give (fun _ => id) ended)

theorem reads_separated {good : α → Prop} {item : Reader α} (reads : Reads around item good)
    (fuel : Nat) {done : List α} (before : ∀ a ∈ done, good a) :
    Reads around (readSeparated fuel item done) fun items => ∀ a ∈ items, good a :=
  leads_separated (fun _ => around) (fun _ => reads) fuel before

/-! ## Names -/

theorem reads_binding_name (what : String) : Reads around (bindingName what) fun _ => True := by
  refine .bind reads_peek fun token _ => ?_
  extract_lets finish accepted
  have finished : Reads around (finish ()) fun _ => True := .pure trivial
  have named : Reads around (accepted ()) fun _ => True := by
    refine .bind reads_pass fun _ _ => ?_
    exact .bind reads_is_strict fun _ _ => .ite (.fail_then _ _ _) finished
  exact .ite named (.fail_then _ _ _)

end ScriptEngine.Grammar
