import ScriptEngine.Proofs.Scanning.Layout
import ScriptEngine.Syntax.Grammar.State

/-!
Where a reader stands in its script. The tokens of a script are numbered, and a reader stands at one of them. A
step from there goes on to a later token or reports a fault for a part of the script; it never breaks. The steps
that pass single tokens are here, with the rule that composes steps; those of the grammar follow.
-/

namespace ScriptEngine.Grammar

open Scanning

/-- The loops and choices that are around, in the functions under way from the innermost outward. -/
def ReadingState.depths (s : ReadingState) : List (Nat × Nat) :=
  (s.body :: s.outerBodies).map fun b => (b.iterationDepth, b.switchDepth)

/-- A script with the tokens that were scanned from it. -/
structure Script where
  source : List Char
  tokens : List Token
  lossless : Lossless 0 source tokens

namespace Script

variable (script : Script)

/-- The number of tokens, with the end of the input. -/
def size : Nat :=
  script.tokens.length

/-- The byte at which a token begins. -/
def startAt (i : Nat) : Nat :=
  script.tokens[i]?.elim 0 (·.span.start)

/-- The byte behind a token. -/
def stopAt (i : Nat) : Nat :=
  script.tokens[i]?.elim 0 (·.span.stop)

/-- The kind of a token. -/
def kindAt (i : Nat) : Option TokenKind :=
  script.tokens[i]?.map (·.kind)

/-- A reader stands at a token, with some loops and choices around. -/
structure At (depths : List (Nat × Nat)) (i : Nat) (s : ReadingState) : Prop where
  source : s.source = script.source
  left : script.tokens.drop i = s.current :: s.upcoming
  previous : script.tokens[i - 1]? = some s.previous
  depths : s.depths = depths

/-- A byte begins a part of the script between two tokens, the second of which is not reached. -/
structure Begins (i j start : Nat) : Prop where
  bound : isBoundary start script.source
  behind : script.startAt i ≤ start
  before : start ≤ script.stopAt (j - 1)

/-- A span lies between two tokens, the second of which is not reached. -/
structure Lies (i j : Nat) (span : Span) : Prop where
  fits : span.Fits script.source
  behind : script.startAt i ≤ span.start
  before : span.stop ≤ script.stopAt (j - 1)

/-- A fault is reported for a part of the script. -/
def Reports (d : Diagnostic) : Prop :=
  d.fault ≠ .brokenReader ∧ d.span.Fits script.source

/-- From states of one kind a reader reaches states of another kind, or it reports a fault. -/
def Safe {α : Type} (before : ReadingState → Prop) (read : Reader α) (after : α → ReadingState → Prop) : Prop :=
  ∀ s, before s → (∀ a next, read s = .ok (a, next) → after a next) ∧ ∀ d, read s = .error d → script.Reports d

/-- From a token a reader goes on to another one, with the same loops and choices around. -/
def Steps {α : Type} (depths : List (Nat × Nat)) (i : Nat) (read : Reader α) (goal : α → Nat → Prop) : Prop :=
  script.Safe (script.At depths i) read fun a s => ∃ j, script.At depths j s ∧ goal a j

variable {script}

/-! ## Tokens of a script -/

section

variable {i j : Nat} {t : Token}

theorem start_at (found : script.tokens[i]? = some t) : script.startAt i = t.span.start := by
  simp [startAt, found]

theorem stop_at (found : script.tokens[i]? = some t) : script.stopAt i = t.span.stop := by
  simp [stopAt, found]

theorem kind_at (found : script.tokens[i]? = some t) : script.kindAt i = some t.kind := by
  simp [kindAt, found]

theorem token_fits (found : script.tokens[i]? = some t) : t.span.Fits script.source :=
  script.lossless.fits t (List.mem_of_getElem? found)

theorem exists_token (inside : i < script.size) : ∃ t, script.tokens[i]? = some t :=
  ⟨_, List.getElem?_eq_getElem inside⟩

theorem start_le_stop (inside : i < script.size) : script.startAt i ≤ script.stopAt i := by
  obtain ⟨t, found⟩ := exists_token inside
  rw [start_at found, stop_at found]
  exact (token_fits found).ordered

theorem stop_le_start (order : i < j) (inside : j < script.size) : script.stopAt i ≤ script.startAt j := by
  have ordered := List.pairwise_iff_getElem.mp script.lossless.ordered i j (Nat.lt_trans order inside) inside order
  rwa [stop_at (List.getElem?_eq_getElem (Nat.lt_trans order inside)), start_at (List.getElem?_eq_getElem inside)]

theorem start_mono (order : i ≤ j) (inside : j < script.size) : script.startAt i ≤ script.startAt j := by
  rcases Nat.eq_or_lt_of_le order with rfl | before
  · exact Nat.le_refl _
  · exact Nat.le_trans (start_le_stop (Nat.lt_trans before inside)) (stop_le_start before inside)

theorem stop_mono (order : i ≤ j) (inside : j < script.size) : script.stopAt i ≤ script.stopAt j := by
  rcases Nat.eq_or_lt_of_le order with rfl | before
  · exact Nat.le_refl _
  · exact Nat.le_trans (stop_le_start before inside) (start_le_stop inside)

/-- The end of the input is the last token and no other. -/
theorem end_of_input_iff (inside : i < script.size) :
    script.kindAt i = some .endOfInput ↔ i + 1 = script.size := by
  obtain ⟨front, stop, same, others, last, -⟩ := script.lossless.ends
  have size : script.size = front.length + 1 := by simp [Script.size, same]
  rw [kindAt, same, size]
  by_cases inner : i < front.length
  · have kind := others front[i] (List.getElem_mem inner)
    rw [List.getElem?_append_left inner, List.getElem?_eq_getElem inner]
    simp only [Option.map_some, Option.some.injEq, kind, false_iff]
    omega
  · obtain rfl : i = front.length := by omega
    simp [last]

end

variable {depths : List (Nat × Nat)} {i j k : Nat} {s : ReadingState} {span : Span} {start : Nat}

/-! ## Standing at a token -/

theorem At.current (here : script.At depths i s) : script.tokens[i]? = some s.current := by
  have head := congrArg (·[0]?) here.left
  simpa using head

theorem At.inside (here : script.At depths i s) : i < script.size :=
  (List.getElem?_eq_some_iff.mp here.current).1

theorem At.kind (here : script.At depths i s) : script.kindAt i = some s.current.kind :=
  kind_at here.current

theorem At.fits (here : script.At depths i s) : s.current.span.Fits script.source :=
  token_fits here.current

/-- The token that comes next is passed unless it is the end of the input. -/
theorem At.pass (here : script.At depths i s) (goesOn : script.kindAt i ≠ some .endOfInput) :
    script.At depths (i + 1) s.pass := by
  have inside := here.inside
  have next : i + 1 < script.size := by
    have last := mt (end_of_input_iff inside).mpr goesOn
    omega
  have left : s.upcoming = script.tokens.drop (i + 1) := by
    rw [← List.drop_drop, here.left, List.drop_one, List.tail_cons]
  have current := here.current
  obtain ⟨source, previous, token, upcoming, body, outerBodies⟩ := s
  cases upcoming with
  | nil =>
    have short := List.drop_eq_nil_iff.mp left.symm
    rw [Script.size] at next
    omega
  | cons t rest => exact ⟨here.source, left.symm, current, here.depths⟩

/-- The end of the input is never passed. -/
theorem At.stays (here : script.At depths i s) (ended : script.kindAt i = some .endOfInput) : s.pass = s := by
  have last := (end_of_input_iff here.inside).mp ended
  have length := congrArg List.length here.left
  have none : s.upcoming = [] := by
    rw [List.length_drop, List.length_cons] at length
    rw [Script.size] at last
    exact List.eq_nil_of_length_eq_zero (by omega)
  rw [ReadingState.pass, none]

/-! ## Parts between tokens -/

/-- What begins with a token begins behind it. -/
theorem begins_at {t : Token} (found : script.tokens[i]? = some t) (inside : j < script.size) (order : i < j) :
    script.Begins i j t.span.start := by
  refine ⟨(token_fits found).start, Nat.le_of_eq (start_at found), ?_⟩
  rw [← start_at found]
  exact Nat.le_trans (start_le_stop (Nat.lt_trans order inside)) (stop_mono (by omega) (by omega))

theorem Lies.begins (lies : script.Lies i j span) : script.Begins i j span.start :=
  ⟨lies.fits.start, lies.behind, Nat.le_trans lies.fits.ordered lies.before⟩

theorem Begins.later (begins : script.Begins i j start) (order : j ≤ k) (inside : k < script.size) :
    script.Begins i k start :=
  ⟨begins.bound, begins.behind, Nat.le_trans begins.before (stop_mono (by omega) (by omega))⟩

theorem Lies.later (lies : script.Lies i j span) (order : j ≤ k) (inside : k < script.size) :
    script.Lies i k span :=
  ⟨lies.fits, lies.behind, Nat.le_trans lies.before (stop_mono (by omega) (by omega))⟩

theorem Lies.earlier (lies : script.Lies j k span) (order : i ≤ j) (inside : j < script.size) :
    script.Lies i k span :=
  ⟨lies.fits, Nat.le_trans (start_mono order inside) lies.behind, lies.before⟩

/-- Two parts in order are covered by a part. -/
theorem Lies.cover {first last : Span} {m : Nat} (left : script.Lies i j first) (right : script.Lies k m last)
    (apart : 0 < j) (order : j ≤ k) (inside : k < script.size) : script.Lies i m (first.cover last) := by
  refine ⟨⟨?_, left.fits.start, right.fits.stop⟩, left.behind, right.before⟩
  calc first.start ≤ first.stop := left.fits.ordered
    _ ≤ script.stopAt (j - 1) := left.before
    _ ≤ script.startAt k := stop_le_start (by omega) inside
    _ ≤ last.start := right.behind
    _ ≤ last.stop := right.fits.ordered

/-! ## Composing steps -/

section

variable {α β : Type} {before : ReadingState → Prop} {between : α → ReadingState → Prop}
  {after : β → ReadingState → Prop} {goal : α → Nat → Prop} {last : β → Nat → Prop} {rest : α → Reader β}

theorem Safe.bind {first : Reader α} (begins : script.Safe before first between)
    (ends : ∀ a, script.Safe (between a) (rest a) after) : script.Safe before (first >>= rest) after := by
  intro s holds
  obtain ⟨done, failed⟩ := begins s holds
  suffices runs : (∀ b next, (first s >>= fun read => rest read.1 read.2) = .ok (b, next) → after b next) ∧
      ∀ d, (first s >>= fun read => rest read.1 read.2) = .error d → script.Reports d from runs
  cases read : first s with
  | error d =>
    constructor
    · intro b next same
      cases same
    · intro e same
      cases same
      exact failed d read
  | ok middle => exact ends middle.1 middle.2 (done _ _ read)

theorem Safe.of_there {read : Reader β} {goal : Nat → Prop}
    (safe : ∀ j, goal j → script.Safe (script.At depths j) read after) :
    script.Safe (fun s => ∃ j, script.At depths j s ∧ goal j) read after := by
  intro s there
  obtain ⟨j, here, holds⟩ := there
  exact safe j holds s here

/-- A reader that reports no fault. -/
theorem Safe.of_ok {read : Reader β}
    (succeeds : ∀ s, before s → ∃ b next, read s = .ok (b, next) ∧ after b next) :
    script.Safe before read after := by
  intro s holds
  obtain ⟨b, next, read, good⟩ := succeeds s holds
  rw [read]
  constructor
  · intro a other same
    cases same
    exact good
  · intro d same
    cases same

theorem Steps.bind {first : Reader α} (begins : script.Steps depths i first goal)
    (ends : ∀ a j, j < script.size → goal a j → script.Steps depths j (rest a) last) :
    script.Steps depths i (first >>= rest) last := by
  refine Safe.bind begins fun a s there => ?_
  obtain ⟨j, here, holds⟩ := there
  exact ends a j here.inside holds s here

theorem Steps.ite {c : Prop} [Decidable c] {yes no : Reader β} (taken : c → script.Steps depths i yes last)
    (left : ¬ c → script.Steps depths i no last) : script.Steps depths i (if c then yes else no) last := by
  split
  · next holds => exact taken holds
  · next fails => exact left fails

theorem Steps.give {b : β} (holds : last b i) : script.Steps depths i (pure b) last :=
  Safe.of_ok fun s here => ⟨b, s, rfl, i, here, holds⟩

theorem Steps.map {read : Reader α} (f : α → β) (steps : script.Steps depths i read goal)
    (holds : ∀ a j, j < script.size → goal a j → last (f a) j) : script.Steps depths i (f <$> read) last := by
  rw [map_eq_pure_bind]
  exact steps.bind fun a j inside good => .give (holds a j inside good)

theorem Steps.weaken {read : Reader β} {strong : β → Nat → Prop} (steps : script.Steps depths i read strong)
    (holds : ∀ b j, j < script.size → strong b j → last b j) : script.Steps depths i read last := by
  intro s here
  refine ⟨fun b next done => ?_, (steps s here).2⟩
  obtain ⟨j, there, good⟩ := (steps s here).1 b next done
  exact ⟨j, there, holds b j there.inside good⟩

/-- What is told of a state holds wherever a reader stands at the token. -/
theorem Steps.of_at {read : Reader β} (steps : ∀ s, script.At depths i s → script.Steps depths i read last) :
    script.Steps depths i read last :=
  fun s here => steps s here s here

theorem Steps.get : script.Steps depths i get fun s j => j = i ∧ script.At depths i s :=
  Safe.of_ok fun s here => ⟨s, s, rfl, i, here, rfl, here⟩

/-- A change of a state that leaves its place alone. -/
theorem Steps.modify {f : ReadingState → ReadingState} (kept : ∀ s, script.At depths i s → script.At depths i (f s)) :
    script.Steps depths i (modify f : Reader Unit) fun _ j => j = i :=
  Safe.of_ok fun s here => ⟨(), f s, rfl, i, kept s here, rfl⟩

theorem Steps.fail {fault : SyntaxFault} (known : fault ≠ .brokenReader) (fits : span.Fits script.source) :
    script.Steps depths i (failAt span fault) last := by
  intro s _
  constructor
  · intro b next done
    cases done
  · intro d failed
    cases failed
    exact ⟨known, fits⟩

theorem Steps.fail_then {fault : SyntaxFault} (known : fault ≠ .brokenReader) (fits : span.Fits script.source) :
    script.Steps depths i (failAt span fault >>= rest) last := by
  have nothing : script.Steps depths i (failAt span fault) fun (_ : α) _ => False := .fail known fits
  exact nothing.bind fun _ _ _ => False.elim

end

/-! ## Tokens -/

section

variable {α : Type} {goal : α → Nat → Prop}

theorem steps_fail_here {fault : SyntaxFault} (known : fault ≠ .brokenReader) :
    script.Steps depths i (failHere fault) goal :=
  .bind .get fun _ _ _ here => .fail known here.2.fits

theorem steps_peek : script.Steps depths i peek fun t j => j = i ∧ script.tokens[i]? = some t := by
  refine .bind .get fun s j inside here => ?_
  obtain ⟨rfl, here⟩ := here
  exact .give ⟨rfl, here.current⟩

/-- The token that comes next is passed and given. -/
theorem steps_advance (goesOn : script.kindAt i ≠ some .endOfInput) :
    script.Steps depths i advance fun t j => j = i + 1 ∧ script.tokens[i]? = some t :=
  Safe.of_ok fun s here =>
    ⟨s.pass.previous, s.pass, rfl, i + 1, here.pass goesOn, rfl, (here.pass goesOn).previous⟩

/-- At the end of the input the token before it is given. -/
theorem steps_advance_any : script.Steps depths i advance fun t j => i ≤ j ∧ t.span.Fits script.source := by
  by_cases goesOn : script.kindAt i = some .endOfInput
  · refine Safe.of_ok fun s here => ⟨s.pass.previous, s.pass, rfl, ?_⟩
    rw [here.stays goesOn]
    exact ⟨i, here, Nat.le_refl i, token_fits here.previous⟩
  · refine (steps_advance goesOn).weaken fun t j _ found => ?_
    obtain ⟨rfl, found⟩ := found
    exact ⟨Nat.le_succ i, token_fits found⟩

theorem steps_pass (goesOn : script.kindAt i ≠ some .endOfInput) :
    script.Steps depths i (discard advance) fun _ j => j = i + 1 :=
  .map _ (steps_advance goesOn) fun _ _ _ there => there.1

theorem steps_check (kind : TokenKind) :
    script.Steps depths i (check kind) fun found j => j = i ∧ (found = true ↔ script.kindAt i = some kind) := by
  refine .bind .get fun s j _ here => ?_
  obtain ⟨rfl, here⟩ := here
  exact .give ⟨rfl, by simp [here.kind]⟩

/-- A token is accepted if it is there. -/
theorem steps_accept {kind : TokenKind} (proper : kind ≠ .endOfInput) :
    script.Steps depths i (accept kind) fun found j =>
      (found = true → j = i + 1 ∧ script.kindAt i = some kind) ∧ (found = false → j = i) := by
  refine .bind (steps_check kind) fun found j _ there => ?_
  obtain ⟨rfl, found⟩ := there
  refine .ite (fun holds => ?_) fun _ => .give (by simp)
  have kind := found.mp holds
  refine .bind (steps_pass (by simp [kind, proper])) fun _ k _ there => .give ?_
  exact ⟨fun _ => ⟨there, kind⟩, nofun⟩

theorem steps_expect {kind : TokenKind} (proper : kind ≠ .endOfInput) (what : String) :
    script.Steps depths i (expect kind what) fun _ j => j = i + 1 := by
  refine .bind (steps_accept proper) fun found j _ there => ?_
  refine .ite (fun holds => .give (there.1 holds).1) fun _ => ?_
  exact steps_fail_here (by simp)

theorem steps_accept_mark (m : Mark) :
    script.Steps depths i (acceptMark m) fun found j =>
      (found = true → j = i + 1 ∧ script.kindAt i = some (.mark m)) ∧ (found = false → j = i) :=
  steps_accept (by simp)

theorem steps_accept_keyword (k : Keyword) :
    script.Steps depths i (acceptKeyword k) fun found j =>
      (found = true → j = i + 1 ∧ script.kindAt i = some (.keyword k)) ∧ (found = false → j = i) :=
  steps_accept (by simp)

theorem steps_expect_mark (m : Mark) (what : String) :
    script.Steps depths i (expectMark m what) fun _ j => j = i + 1 :=
  steps_expect (by simp) what

theorem steps_expect_keyword (k : Keyword) (what : String) :
    script.Steps depths i (expectKeyword k what) fun _ j => j = i + 1 :=
  steps_expect (by simp) what

/-- What is read from a byte on lies between the tokens. -/
theorem steps_span_from (begins : script.Begins i j start) :
    script.Steps depths j (spanFrom start) fun span k => k = j ∧ script.Lies i j span := by
  refine .bind .get fun s k _ here => ?_
  obtain ⟨rfl, here⟩ := here
  have previous := here.previous
  have before := begins.before
  rw [stop_at previous] at before
  rw [Nat.max_eq_left before]
  refine .give ⟨rfl, ⟨before, begins.bound, (token_fits previous).stop⟩, begins.behind, ?_⟩
  exact Nat.le_of_eq (stop_at previous).symm

theorem steps_any_span (start : Nat) : script.Steps depths i (spanFrom start) fun _ j => j = i :=
  .bind .get fun _ _ _ here => .give here.1

theorem steps_source_from (begins : script.Begins i j start) :
    script.Steps depths j (sourceFrom start) fun _ k => k = j := by
  refine .bind .get fun s k _ here => ?_
  obtain ⟨rfl, here⟩ := here
  have previous := here.previous
  have before := begins.before
  rw [stop_at previous] at before
  have fits : Span.Fits s.source ⟨start, s.previous.span.stop⟩ := by
    rw [here.source]
    exact ⟨before, begins.bound, (token_fits previous).stop⟩
  obtain ⟨part, found⟩ := Option.isSome_iff_exists.mp (slice_is_some.mpr fits)
  rw [found]
  exact .give rfl

theorem steps_end_statement : script.Steps depths i endStatement fun _ j => i ≤ j := by
  refine .bind (steps_accept_mark _) fun found j _ there => ?_
  refine .ite (fun holds => .give (by have := (there.1 holds).1; omega)) fun none => ?_
  obtain rfl := there.2 (Bool.eq_false_iff.mpr none)
  refine .bind .get fun s k _ here => ?_
  obtain ⟨rfl, here⟩ := here
  exact .ite (fun _ => .give (Nat.le_refl k)) fun _ => .fail (by simp) here.fits

theorem steps_is_strict : script.Steps depths i isStrict fun _ j => j = i :=
  .bind .get fun _ _ _ here => .give here.1

/-! ## Bodies -/

/-- A change of a body that leaves the loops and choices around alone. -/
theorem steps_modify_body {f : BodyState → BodyState}
    (kept : ∀ b, (f b).iterationDepth = b.iterationDepth ∧ (f b).switchDepth = b.switchDepth) :
    script.Steps depths i (modifyBody f) fun _ j => j = i := by
  refine .modify fun s here => ⟨here.source, here.left, here.previous, ?_⟩
  rw [← here.depths]
  simp [ReadingState.depths, kept]

/-- Behind a body the loops and choices around the function are the ones around. -/
theorem At.outside {inner outer : Nat × Nat} (here : script.At (inner :: outer :: depths) i s) :
    script.At (outer :: depths) i
      (match s.outerBodies with
        | [] => s
        | body :: outer => { s with body := body, outerBodies := outer }) := by
  obtain ⟨source, previous, current, upcoming, body, outerBodies⟩ := s
  obtain ⟨source, left, previous, around⟩ := here
  cases outerBodies with
  | nil => cases around
  | cons outer rest => exact ⟨source, left, previous, (List.cons.inj around).2⟩

/-- A new body begins with no loops and choices around. -/
theorem steps_with_body {read : Reader α} (isArrow strict : Bool)
    (steps : script.Steps ((0, 0) :: depths) i read goal) :
    script.Steps depths i (withBody isArrow strict read) fun result => goal result.1 := by
  have enters : script.Safe (script.At depths i)
      (modify fun s => { s with body := .start isArrow strict, outerBodies := s.body :: s.outerBodies })
      fun _ => script.At ((0, 0) :: depths) i :=
    Safe.of_ok fun s here =>
      ⟨_, _, rfl, here.source, here.left, here.previous, congrArg ((0, 0) :: ·) here.depths⟩
  cases depths with
  | nil => exact .of_at fun s here => absurd here.depths (List.cons_ne_nil _ _)
  | cons outer depths =>
    refine enters.bind fun _ => Safe.bind steps fun a => Safe.of_ok fun s there => ?_
    obtain ⟨j, here, holds⟩ := there
    exact ⟨_, _, rfl, j, here.outside, holds⟩

/-- A new block keeps the loops and choices around. -/
theorem steps_with_block {read : Reader α} (steps : script.Steps depths i read goal) :
    script.Steps depths i (withBlock read) fun result => goal result.1 := by
  refine .bind (steps_modify_body (by simp)) fun _ j _ same => ?_
  subst same
  refine .bind steps fun a k _ holds => .bind .get fun s l _ here => ?_
  obtain ⟨rfl, -⟩ := here
  refine .bind (steps_modify_body (by simp)) fun _ m _ same => ?_
  subst same
  exact .give holds

theorem depths_note_arguments (bodies : List BodyState) :
    (noteArguments bodies).map (fun b => (b.iterationDepth, b.switchDepth)) =
      bodies.map fun b => (b.iterationDepth, b.switchDepth) := by
  induction bodies with
  | nil => rfl
  | cons b outer ih =>
    unfold noteArguments
    split
    · exact congrArg (_ :: ·) ih
    · rfl

theorem steps_mention_arguments : script.Steps depths i mentionArguments fun _ j => j = i := by
  refine .modify fun s here => ?_
  have kept := depths_note_arguments (s.body :: s.outerBodies)
  cases noted : noteArguments (s.body :: s.outerBodies) with
  | nil => exact here
  | cons body outer =>
    rw [noted] at kept
    exact ⟨here.source, here.left, here.previous, kept.trans here.depths⟩

/-! ## Repetition -/

/-- A list is read in as many rounds as tokens are left at most, because each item takes one. -/
theorem steps_while {item : Reader α} (more : ReadingState → Bool) (fuel : Nat) {done : List α}
    (steps : ∀ k, i ≤ k → script.Steps depths k item fun _ l => k < l) (lasts : script.size ≤ i + fuel) :
    script.Steps depths i (readWhile fuel more item done) fun _ j => i ≤ j := by
  induction fuel generalizing i done with
  | zero => exact .of_at fun s here => absurd here.inside (by omega)
  | succ fuel ih =>
    refine .bind .get fun s j _ here => ?_
    obtain ⟨rfl, -⟩ := here
    refine .ite (fun _ => ?_) fun _ => .give (Nat.le_refl j)
    refine .bind (steps j (Nat.le_refl j)) fun a k _ forward => ?_
    refine (ih (fun l later => steps l (by omega)) (by omega)).weaken fun items l _ later => ?_
    omega

/-- What holds of each item of a list that commas separate, at the place where it is read, holds of all. -/
theorem steps_separated {item : Reader α} {good : α → Prop} (fuel : Nat) {done : List α}
    (steps : ∀ k, i ≤ k → script.Steps depths k item fun a l => k < l ∧ good a)
    (before : ∀ a ∈ done, good a) (lasts : script.size ≤ i + fuel) :
    script.Steps depths i (readSeparated fuel item done) fun items j => i < j ∧ ∀ a ∈ items, good a := by
  induction fuel generalizing i done with
  | zero => exact .of_at fun s here => absurd here.inside (by omega)
  | succ fuel ih =>
    refine .bind (steps i (Nat.le_refl i)) fun a j _ there => ?_
    obtain ⟨forward, holds⟩ := there
    have before : ∀ b ∈ a :: done, good b := List.forall_mem_cons.mpr ⟨holds, before⟩
    refine .bind (steps_accept_mark _) fun comma k _ there => ?_
    refine .ite (fun found => ?_) fun none => ?_
    · obtain ⟨rfl, -⟩ := there.1 found
      refine (ih (fun l later => steps l (by omega)) before (by omega)).weaken fun items l _ there => ?_
      exact ⟨by omega, there.2⟩
    · obtain rfl := there.2 (Bool.eq_false_iff.mpr none)
      exact .give ⟨forward, fun b mem => before b (List.mem_reverse.mp mem)⟩

/-! ## Names -/

theorem steps_binding_name (what : String) : script.Steps depths i (bindingName what) fun _ j => j = i + 1 := by
  refine .bind steps_peek fun token j _ there => ?_
  obtain ⟨rfl, found⟩ := there
  have fits := token_fits found
  extract_lets finish accepted
  refine .ite (fun name => ?_) fun _ => .fail_then (by simp) fits
  have goesOn : script.kindAt j ≠ some .endOfInput := by
    rw [kind_at found, beq_iff_eq.mp name]
    simp
  refine .bind (steps_pass goesOn) fun _ k _ there => .bind steps_is_strict fun _ l _ same => ?_
  subst there same
  exact .ite (fun _ => .fail_then (by simp) fits) fun _ => .give rfl

end

end Script
end ScriptEngine.Grammar
