import ScriptEngine.Proofs.Jumps.Reading
import ScriptEngine.Proofs.Strictness.Lawful

/-!
What readers find between two tokens of a script. A reader that stands at a token, inside functions of which it is
known whether they are strict, comes to a later token inside the same functions. The parts of the program that it has
read are what they may be in the innermost of these, and each octal token that it has passed has a place in one of
them. The rules for tokens and names are here; those of the grammar follow.
-/

namespace ScriptEngine.Grammar

/-- Whether the functions under way are strict, from the innermost outward. -/
def ReadingState.codes (s : ReadingState) : List Bool :=
  (s.body :: s.outerBodies).map (·.strict)

namespace Script

variable (script : Script)

/-- A reader stands at a token, inside functions that are strict or not. -/
structure Stands (codes : List Bool) (i : Nat) (s : ReadingState) : Prop where
  place : ∃ depths, script.At depths i s
  codes : s.codes = codes

/-- A reader that does read comes to another token, inside the same functions. -/
def Covers {α : Type} (codes : List Bool) (i : Nat) (read : Reader α) (goal : α → Nat → Prop) : Prop :=
  Leads (script.Stands codes i) (fun a s => ∃ j, script.Stands codes j s ∧ goal a j) read fun _ => True

/-- Each token of an octal form between two others has a place. -/
structure Between (i j : Nat) (place : Token → Prop) : Prop where
  forward : i ≤ j
  octal : ∀ k t, i ≤ k → k < j → script.tokens[k]? = some t → t.IsOctal → place t

/-- No token between two others is of an octal form. -/
abbrev Plain (i j : Nat) : Prop :=
  script.Between i j fun _ => False

/-- Parts of a program were read between two tokens, in code that is strict or not. -/
structure Found (strict : Bool) (i j : Nat) (nodes : List Node) : Prop where
  between : script.Between i j fun t => ∃ n ∈ nodes, script.Places t strict n
  lawful : ∀ n ∈ nodes, script.Lawful strict n

variable {script}

/-! ## Tokens passed -/

section

variable {i j k : Nat} {t : Token} {place other : Token → Prop} {strict : Bool} {nodes others : List Node}

theorem between_here : script.Between i i place :=
  ⟨Nat.le_refl i, fun _ _ lower upper => absurd upper (Nat.not_lt.mpr lower)⟩

theorem between_next (found : script.tokens[i]? = some t) (placed : t.IsOctal → place t) :
    script.Between i (i + 1) place := by
  refine ⟨Nat.le_succ i, fun k u lower upper there octal => ?_⟩
  obtain rfl : k = i := by omega
  obtain rfl := Option.some.inj (found.symm.trans there)
  exact placed octal

theorem Between.weaken (between : script.Between i j place)
    (placed : ∀ t ∈ script.tokens, t.IsOctal → place t → other t) : script.Between i j other where
  forward := between.forward
  octal k t lower upper found octal :=
    placed t (List.mem_of_getElem? found) octal (between.octal k t lower upper found octal)

theorem Between.and (first : script.Between i j place) (second : script.Between j k other) :
    script.Between i k fun t => place t ∨ other t := by
  refine ⟨Nat.le_trans first.forward second.forward, fun l t lower upper found octal => ?_⟩
  by_cases before : l < j
  · exact .inl (first.octal l t lower before found octal)
  · exact .inr (second.octal l t (Nat.not_lt.mp before) upper found octal)

theorem Between.behind (between : script.Between j k place) (plain : script.Plain i j) : script.Between i k place :=
  (plain.and between).weaken fun _ _ _ => Or.rec False.elim id

theorem Between.before (between : script.Between i j place) (plain : script.Plain j k) : script.Between i k place :=
  (between.and plain).weaken fun _ _ _ => Or.rec id False.elim

theorem Plain.found (plain : script.Plain i j) : script.Found strict i j [] :=
  ⟨plain.weaken fun _ _ _ => False.elim, List.forall_mem_nil _⟩

theorem found_nothing : script.Found strict i i [] :=
  Plain.found between_here

theorem Found.and (first : script.Found strict i j nodes) (second : script.Found strict j k others) :
    script.Found strict i k (nodes ++ others) where
  between := (first.between.and second.between).weaken fun t _ _ places => by
    simpa only [List.mem_append, or_and_right, exists_or] using places
  lawful n mem := (List.mem_append.mp mem).elim (first.lawful n) (second.lawful n)

/-- Parts are found as well if plain tokens come before them. -/
theorem Found.behind (found : script.Found strict j k nodes) (plain : script.Plain i j) :
    script.Found strict i k nodes :=
  ⟨found.between.behind plain, found.lawful⟩

/-- Parts are found as well if plain tokens follow them. -/
theorem Found.before (found : script.Found strict i j nodes) (plain : script.Plain j k) :
    script.Found strict i k nodes :=
  ⟨found.between.before plain, found.lawful⟩

/-- The order in which parts are told does not matter. -/
theorem Found.of_mem_iff (found : script.Found strict i j nodes) (same : ∀ n, n ∈ others ↔ n ∈ nodes) :
    script.Found strict i j others where
  between := found.between.weaken fun _ _ _ ⟨n, mem, places⟩ => ⟨n, (same n).mpr mem, places⟩
  lawful n mem := found.lawful n ((same n).mp mem)

/-- An octal token in the text between two others is one of the tokens between them. -/
theorem index_of_lies_in {first : Token} (begins : script.tokens[i]? = some first) (order : i < j)
    (found : script.tokens[k]? = some t) (octal : t.IsOctal) (behind : first.span.start ≤ t.span.start)
    (before : t.span.stop ≤ max (script.stopAt (j - 1)) first.span.start) : i ≤ k ∧ k < j := by
  have inScript : i < script.size := (List.getElem?_eq_some_iff.mp begins).1
  have inScript' : k < script.size := (List.getElem?_eq_some_iff.mp found).1
  have taken := script.lossless.nonempty t (List.mem_of_getElem? found) octal.goes_on
  rw [← start_at begins, ← start_at found] at behind
  rw [← start_at begins, ← stop_at found] at before
  rw [← start_at found, ← stop_at found] at taken
  constructor
  · by_contra earlier
    have apart : script.stopAt k ≤ script.startAt i := stop_le_start (Nat.not_le.mp earlier) inScript
    omega
  · by_contra later
    have apart : script.stopAt (j - 1) ≤ script.startAt k := stop_le_start (by omega) inScript'
    omega

end

/-! ## Composing readers -/

section

variable {α β : Type} {codes : List Bool} {i : Nat} {goal : α → Nat → Prop} {last : β → Nat → Prop} {rest : α → Reader β}

/-- What is told of a state is told wherever a reader stands. -/
theorem leads_of_there {read : Reader β} {reached : Nat → Prop} {after : β → ReadingState → Prop}
    (leads : ∀ j, reached j → Leads (script.Stands codes j) after read fun _ => True) :
    Leads (fun s => ∃ j, script.Stands codes j s ∧ reached j) after read fun _ => True := by
  intro s b next done there
  obtain ⟨j, here, holds⟩ := there
  exact leads j holds s b next done here

theorem Covers.leads {first : Reader α} {after : β → ReadingState → Prop} (begins : script.Covers codes i first goal)
    (ends : ∀ a j, goal a j → Leads (script.Stands codes j) after (rest a) fun _ => True) :
    Leads (script.Stands codes i) after (first >>= rest) fun _ => True :=
  Leads.bind begins fun a _ => leads_of_there (ends a)

theorem Covers.bind {first : Reader α} (begins : script.Covers codes i first goal)
    (ends : ∀ a j, goal a j → script.Covers codes j (rest a) last) : script.Covers codes i (first >>= rest) last :=
  begins.leads ends

theorem Covers.ite {c : Prop} [Decidable c] {yes no : Reader β} (taken : c → script.Covers codes i yes last)
    (left : ¬ c → script.Covers codes i no last) : script.Covers codes i (if c then yes else no) last := by
  split
  · next holds => exact taken holds
  · next fails => exact left fails

theorem Covers.give {b : β} (holds : last b i) : script.Covers codes i (pure b) last :=
  Leads.give (fun _ here => ⟨i, here, holds⟩) trivial

theorem Covers.map {read : Reader α} (f : α → β) (covers : script.Covers codes i read goal)
    (holds : ∀ a j, goal a j → last (f a) j) : script.Covers codes i (f <$> read) last := by
  rw [map_eq_pure_bind]
  exact covers.bind fun a j good => .give (holds a j good)

theorem Covers.weaken {read : Reader β} {strong : β → Nat → Prop} (covers : script.Covers codes i read strong)
    (holds : ∀ b j, strong b j → last b j) : script.Covers codes i read last := by
  intro s b next done here
  obtain ⟨⟨j, there, good⟩, -⟩ := covers s b next done here
  exact ⟨⟨j, there, holds b j good⟩, trivial⟩

theorem Covers.fail (span : Span) (fault : SyntaxFault) : script.Covers codes i (failAt span fault) last :=
  Leads.fail span fault

theorem Covers.fail_then (span : Span) (fault : SyntaxFault) :
    script.Covers codes i (failAt span fault >>= rest) last :=
  Leads.fail_then span fault rest

theorem Covers.broken : script.Covers codes i Grammar.broken last :=
  Leads.broken

theorem Covers.get : script.Covers codes i get fun s j => j = i ∧ script.Stands codes i s := by
  intro s a next done here
  cases done
  exact ⟨⟨i, here, rfl, here⟩, trivial⟩

/-- A change of a state that leaves its place alone. -/
theorem Covers.modify {f : ReadingState → ReadingState}
    (kept : ∀ s, script.Stands codes i s → script.Stands codes i (f s)) :
    script.Covers codes i (modify f : Reader Unit) fun _ j => j = i := by
  intro s a next done here
  cases done
  exact ⟨⟨i, kept s here, rfl⟩, trivial⟩

end

/-! ## Tokens -/

section

variable {α : Type} {goal : α → Nat → Prop} {codes : List Bool} {i : Nat} {s : ReadingState} {t : Token}

theorem Stands.current (here : script.Stands codes i s) : script.tokens[i]? = some s.current := by
  obtain ⟨depths, place⟩ := here.place
  exact place.current

theorem Stands.previous (here : script.Stands codes i s) : script.tokens[i - 1]? = some s.previous := by
  obtain ⟨depths, place⟩ := here.place
  exact place.previous

/-- The token behind the one that comes next, if that is not the end of the input. -/
theorem Stands.behind (here : script.Stands codes i s) (goesOn : s.current.kind ≠ .endOfInput) :
    script.tokens[i + 1]? = some (s.tokenAt 1) := by
  obtain ⟨depths, place⟩ := here.place
  have passed := place.pass (by rw [place.kind]; simpa using goesOn)
  have next := passed.current
  obtain ⟨source, previous, current, upcoming, body, outerBodies⟩ := s
  cases upcoming with
  | nil =>
    have one := congrArg List.length place.left
    have other := congrArg List.length passed.left
    simp only [ReadingState.pass, List.length_drop, List.length_cons, List.length_nil] at one other
    omega
  | cons later rest => exact next

theorem codes_pass (s : ReadingState) : s.pass.codes = s.codes := by
  obtain ⟨source, previous, current, upcoming, body, outerBodies⟩ := s
  cases upcoming <;> rfl

theorem Stands.pass (here : script.Stands codes i s) (goesOn : s.current.kind ≠ .endOfInput) :
    script.Stands codes (i + 1) s.pass := by
  obtain ⟨depths, place⟩ := here.place
  refine ⟨⟨depths, place.pass ?_⟩, (codes_pass s).trans here.codes⟩
  rw [place.kind]
  simpa using goesOn

/-- The end of the input is never passed. -/
theorem Stands.stays (here : script.Stands codes i s) (ended : s.current.kind = .endOfInput) : s.pass = s := by
  obtain ⟨depths, place⟩ := here.place
  exact place.stays (by rw [place.kind, ended])

theorem covers_fail_here (fault : SyntaxFault) : script.Covers codes i (failHere fault) goal :=
  .bind .get fun s _ _ => .fail s.current.span fault

theorem covers_peek : script.Covers codes i peek fun t j => j = i ∧ script.tokens[i]? = some t := by
  refine .bind .get fun s j here => ?_
  obtain ⟨rfl, here⟩ := here
  exact .give ⟨rfl, here.current⟩

/-- The token that comes next is passed and given, unless it is the end of the input. -/
theorem covers_advance :
    script.Covers codes i advance fun t j => (j = i + 1 ∧ script.tokens[i]? = some t) ∨
      j = i ∧ script.kindAt i = some .endOfInput := by
  intro s t next done here
  cases done
  by_cases goesOn : s.current.kind = .endOfInput
  · have stays : script.Stands codes i s.pass := by rwa [here.stays goesOn]
    exact ⟨⟨i, stays, .inr ⟨rfl, by rw [kind_at here.current, goesOn]⟩⟩, trivial⟩
  · have passed := here.pass goesOn
    exact ⟨⟨i + 1, passed, .inl ⟨rfl, passed.previous⟩⟩, trivial⟩

/-- A known token is passed and given. -/
theorem covers_take (found : script.tokens[i]? = some t) (goesOn : t.kind ≠ .endOfInput) :
    script.Covers codes i advance fun u j => j = i + 1 ∧ u = t := by
  refine covers_advance.weaken fun u j there => ?_
  rcases there with ⟨rfl, same⟩ | ⟨-, ended⟩
  · exact ⟨rfl, Option.some.inj (same.symm.trans found)⟩
  · rw [kind_at found] at ended
    exact absurd (Option.some.inj ended) goesOn

theorem covers_pass (found : script.tokens[i]? = some t) (goesOn : t.kind ≠ .endOfInput) :
    script.Covers codes i (discard advance) fun _ j => j = i + 1 :=
  .map _ (covers_take found goesOn) fun _ _ there => there.1

/-- A token that is neither a number nor a string is not of an octal form. -/
theorem plain_of_kind (number : t.kind ≠ .number) (string : t.kind ≠ .string) : ¬ t.IsOctal := by
  rintro ⟨kind | kind, -⟩
  · exact number kind
  · exact string kind

theorem covers_check (kind : TokenKind) :
    script.Covers codes i (check kind) fun found j => j = i ∧ (found = true ↔ script.kindAt i = some kind) := by
  refine .bind .get fun s j here => ?_
  obtain ⟨rfl, here⟩ := here
  exact .give ⟨rfl, by simp [kind_at here.current]⟩

/-- A known token is passed that is of no octal form. -/
theorem covers_advance_plain (found : script.tokens[i]? = some t) (plain : ¬ t.IsOctal) :
    script.Covers codes i advance fun _ j => script.Plain i j := by
  refine covers_advance.weaken fun u j there => ?_
  rcases there with ⟨rfl, -⟩ | ⟨rfl, -⟩
  · exact between_next found plain
  · exact between_here

theorem covers_skip (found : script.tokens[i]? = some t) (plain : ¬ t.IsOctal) :
    script.Covers codes i (discard advance) fun _ j => script.Plain i j :=
  .map _ (covers_advance_plain found plain) fun _ _ passed => passed

/-- A token is passed that turns out to be of no octal form. -/
theorem covers_advance_word :
    script.Covers codes i advance fun u j => u.kind ≠ .number → u.kind ≠ .string → script.Plain i j := by
  refine covers_advance.weaken fun u j there number string => ?_
  rcases there with ⟨rfl, found⟩ | ⟨rfl, -⟩
  · exact between_next found (plain_of_kind number string)
  · exact between_here

theorem covers_skip_kind {kind : TokenKind} (there : script.kindAt i = some kind) (number : kind ≠ .number)
    (string : kind ≠ .string) : script.Covers codes i (discard advance) fun _ j => script.Plain i j := by
  obtain ⟨t, found, rfl⟩ := Option.map_eq_some_iff.mp there
  exact covers_skip found (plain_of_kind number string)

/-- A token is passed if it is there. -/
theorem covers_accept {kind : TokenKind} (number : kind ≠ .number) (string : kind ≠ .string)
    (proper : kind ≠ .endOfInput) :
    script.Covers codes i (accept kind) fun found j => script.Plain i j ∧ (found = true → i < j) := by
  refine .bind (covers_check kind) fun found j there => ?_
  obtain ⟨rfl, found⟩ := there
  refine .ite (fun holds => ?_) fun fails => .give ⟨between_here, nofun⟩
  obtain ⟨t, there, rfl⟩ := Option.map_eq_some_iff.mp (found.mp holds)
  refine .bind (covers_pass there proper) fun _ k passed => .give ?_
  subst passed
  exact ⟨between_next there (plain_of_kind number string), fun _ => Nat.lt_succ_self j⟩

theorem covers_accept_mark (m : Mark) : script.Covers codes i (acceptMark m) fun _ j => script.Plain i j :=
  (covers_accept (by simp) (by simp) (by simp)).weaken fun _ _ there => there.1

theorem covers_accept_keyword (k : Keyword) : script.Covers codes i (acceptKeyword k) fun _ j => script.Plain i j :=
  (covers_accept (by simp) (by simp) (by simp)).weaken fun _ _ there => there.1

theorem covers_expect {kind : TokenKind} (number : kind ≠ .number) (string : kind ≠ .string)
    (proper : kind ≠ .endOfInput) (what : String) :
    script.Covers codes i (expect kind what) fun _ j => script.Plain i j ∧ i < j := by
  refine .bind (covers_accept number string proper) fun found j there => ?_
  exact .ite (fun holds => .give ⟨there.1, there.2 holds⟩) fun _ => covers_fail_here _

theorem covers_expect_mark (m : Mark) (what : String) :
    script.Covers codes i (expectMark m what) fun _ j => script.Plain i j :=
  (covers_expect (by simp) (by simp) (by simp) what).weaken fun _ _ there => there.1

theorem covers_expect_keyword (k : Keyword) (what : String) :
    script.Covers codes i (expectKeyword k what) fun _ j => script.Plain i j :=
  (covers_expect (by simp) (by simp) (by simp) what).weaken fun _ _ there => there.1

theorem covers_span_from (start : Nat) :
    script.Covers codes i (spanFrom start) fun span j => j = i ∧ span = ⟨start, max (script.stopAt (i - 1)) start⟩ := by
  refine .bind .get fun s j here => ?_
  obtain ⟨rfl, here⟩ := here
  exact .give ⟨rfl, by rw [stop_at here.previous]⟩

theorem covers_source_from (start : Nat) : script.Covers codes i (sourceFrom start) fun _ j => j = i := by
  refine .bind .get fun s j here => ?_
  obtain ⟨rfl, here⟩ := here
  split
  · exact .give rfl
  · exact .broken

theorem covers_end_statement : script.Covers codes i endStatement fun _ j => script.Plain i j := by
  refine .bind (covers_accept_mark _) fun found j plain => .ite (fun _ => .give plain) fun _ => ?_
  refine .bind .get fun s k here => ?_
  obtain ⟨rfl, here⟩ := here
  exact .ite (fun _ => .give plain) fun _ => .fail _ _

theorem covers_is_strict {strict : Bool} {outer : List Bool} :
    script.Covers (strict :: outer) i isStrict fun answer j => j = i ∧ answer = strict := by
  refine .bind .get fun s j here => ?_
  obtain ⟨rfl, here⟩ := here
  exact .give ⟨rfl, (List.cons.inj here.codes).1⟩

/-! ## Bodies -/

/-- The innermost function may change without becoming strict. -/
theorem Stands.with_body {f : BodyState → BodyState} (here : script.Stands codes i s)
    (kept : (f s.body).strict = s.body.strict) : script.Stands codes i { s with body := f s.body } := by
  obtain ⟨depths, place⟩ := here.place
  refine ⟨⟨_, place.source, place.left, place.previous, rfl⟩, ?_⟩
  rw [← here.codes]
  exact congrArg (· :: s.outerBodies.map (·.strict)) kept

theorem covers_modify_body {f : BodyState → BodyState} (kept : ∀ b, (f b).strict = b.strict) :
    script.Covers codes i (modifyBody f) fun _ j => j = i :=
  .modify fun s here => here.with_body (kept s.body)

theorem codes_note_arguments (bodies : List BodyState) :
    (noteArguments bodies).map (·.strict) = bodies.map (·.strict) := by
  induction bodies with
  | nil => rfl
  | cons b outer ih =>
    unfold noteArguments
    split
    · exact congrArg (_ :: ·) ih
    · rfl

theorem covers_mention_arguments : script.Covers codes i mentionArguments fun _ j => j = i := by
  refine .modify fun s here => ?_
  obtain ⟨depths, place⟩ := here.place
  have kept := codes_note_arguments (s.body :: s.outerBodies)
  cases noted : noteArguments (s.body :: s.outerBodies) with
  | nil => exact here
  | cons body outer =>
    rw [noted] at kept
    exact ⟨⟨_, place.source, place.left, place.previous, rfl⟩, kept.trans here.codes⟩

/-- Behind a body the functions around it are as they were. -/
theorem Stands.outside {inner around : Bool} {outer : List Bool}
    (here : script.Stands (inner :: around :: outer) i s) :
    script.Stands (around :: outer) i
      (match s.outerBodies with
        | [] => s
        | body :: outer => { s with body := body, outerBodies := outer }) := by
  obtain ⟨depths, place⟩ := here.place
  obtain ⟨source, previous, current, upcoming, body, outerBodies⟩ := s
  cases outerBodies with
  | nil => cases here.codes
  | cons outer rest => exact ⟨⟨_, place.source, place.left, place.previous, rfl⟩, (List.cons.inj here.codes).2⟩

/-- A new body is entered, and what it is in the end comes with the result. -/
theorem covers_with_body {around : Bool} {outer : List Bool} {read : Reader α} (goal : α → Bool → Nat → Prop)
    (isArrow strict : Bool)
    (leads : Leads (script.Stands (strict :: around :: outer) i)
      (fun a s => ∃ ended j, script.Stands (ended :: around :: outer) j s ∧ goal a ended j) read fun _ => True) :
    script.Covers (around :: outer) i (withBody isArrow strict read) fun result j =>
      goal result.1 result.2.strict j := by
  have enters : Leads (script.Stands (around :: outer) i) (fun _ => script.Stands (strict :: around :: outer) i)
      (modify fun s => { s with body := .start isArrow strict, outerBodies := s.body :: s.outerBodies })
      fun _ => True := by
    refine .modify fun s here => ?_
    obtain ⟨depths, place⟩ := here.place
    exact ⟨⟨_, place.source, place.left, place.previous, rfl⟩, congrArg (strict :: ·) here.codes⟩
  refine enters.bind fun _ _ => leads.bind fun a _ => ?_
  intro s result next done there
  obtain ⟨ended, j, here, holds⟩ := there
  cases done
  obtain rfl : s.body.strict = ended := (List.cons.inj here.codes).1
  exact ⟨⟨j, here.outside, holds⟩, trivial⟩

/-- A block lies in the functions around it. -/
theorem covers_with_block {read : Reader α} (covers : script.Covers codes i read goal) :
    script.Covers codes i (withBlock read) fun result j => goal result.1 j := by
  refine .bind (covers_modify_body fun _ => rfl) fun _ j same => ?_
  subst same
  refine .bind covers fun a k holds => .bind .get fun s l here => ?_
  obtain ⟨rfl, -⟩ := here
  refine .bind (covers_modify_body fun _ => rfl) fun _ m same => .give ?_
  subst same
  exact holds

/-! ## Repetition -/

section

variable {item : Reader α} {one : Nat → α → Nat → Prop} (all : Nat → List α → Nat → Prop)

/-- What is found with each item of a list, one behind the other, is found with all. -/
theorem covers_while (each : ∀ i, script.Covers codes i item (one i)) (nothing : ∀ i, all i [] i)
    (more : ∀ i j k a items, one i a j → all j items k → all i (a :: items) k) (fuel : Nat)
    (wanted : ReadingState → Bool) (done : List α) :
    script.Covers codes i (readWhile fuel wanted item done) fun items j =>
      ∃ later, items = done.reverse ++ later ∧ all i later j := by
  induction fuel generalizing i done with
  | zero => exact .broken
  | succ fuel ih =>
    refine .bind .get fun s j here => ?_
    obtain ⟨rfl, -⟩ := here
    refine .ite (fun _ => .bind (each j) fun a k first => ?_) fun _ => .give ⟨[], by simp, nothing j⟩
    refine (ih (a :: done)).weaken fun items l there => ?_
    obtain ⟨later, rfl, others⟩ := there
    exact ⟨a :: later, by simp, more j k l a later first others⟩

/-- So it is if commas come between the items. -/
theorem covers_separated (each : ∀ i, script.Covers codes i item (one i)) (nothing : ∀ i, all i [] i)
    (more : ∀ i j k l a items, one i a j → script.Plain j k → all k items l → all i (a :: items) l) (fuel : Nat)
    (done : List α) :
    script.Covers codes i (readSeparated fuel item done) fun items j =>
      ∃ later, items = done.reverse ++ later ∧ all i later j := by
  induction fuel generalizing i done with
  | zero => exact .broken
  | succ fuel ih =>
    refine .bind (each i) fun a j first => .bind (covers_accept_mark _) fun comma k plain => ?_
    refine .ite (fun _ => ?_) fun _ => .give ⟨[a], by simp, more i j k k a [] first plain (nothing k)⟩
    refine (ih (a :: done)).weaken fun items l there => ?_
    obtain ⟨later, rfl, others⟩ := there
    exact ⟨a :: later, by simp, more i j k l a later first plain others⟩

end

/-! ## Names -/

/-- Strict code declares none of the names that are ruled out. -/
theorem covers_binding_name {strict : Bool} {outer : List Bool} (what : String) :
    script.Covers (strict :: outer) i (bindingName what) fun name j =>
      script.Plain i j ∧ (strict = true → isStrictForbidden name = false) := by
  refine .bind covers_peek fun token j there => ?_
  obtain ⟨rfl, found⟩ := there
  extract_lets finish accepted
  refine .ite (fun kind => ?_) fun _ => .fail_then _ _
  have plain : ¬ token.IsOctal := plain_of_kind (by simp [beq_iff_eq.mp kind]) (by simp [beq_iff_eq.mp kind])
  refine .bind (covers_skip found plain) fun _ k passed => .bind covers_is_strict fun answer l there => ?_
  obtain ⟨rfl, rfl⟩ := there
  refine .ite (fun _ => .fail_then _ _) fun allowed => .give ⟨passed, fun strict => ?_⟩
  simpa [strict] using allowed

end

end Script
end ScriptEngine.Grammar
