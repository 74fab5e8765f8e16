import ScriptEngine.Proofs.Spans.Parentheses
import ScriptEngine.Proofs.Spans.Parts
import ScriptEngine.Proofs.Strictness.Standing
import ScriptEngine.Syntax.Program

/-!
Parts of a program that are read in a row. The parts read between two tokens stand one behind the other between them,
each with all of its own parts nested in it, and the parentheses between the tokens are closed. A function is known by
the run of the reader that gave it, since it depends on nothing else of the script than this run has seen.
-/

namespace ScriptEngine.Grammar.Script

variable (script : Script)

/-- A function was read from code that is strict or not: behind the keyword with which it begins, or from the
parameters of an arrow function on. -/
inductive Traced (strict : Bool) (code : FunctionCode) : Prop where
  | keyword {levels i : Nat} {outer : List Bool} {kind : FunctionKind} {s t : ReadingState}
      (begins : script.kindAt i = some (.keyword .function)) (proper : kind ≠ .arrow)
      (here : script.Stands (strict :: outer) (i + 1) s)
      (read : functionRest (rulesFor levels) kind (script.startAt i) s = .ok (code, t))
  | arrow {levels i : Nat} {outer : List Bool} {noIn : Bool} {span : Span} {s t : ReadingState}
      (here : script.Stands (strict :: outer) i s)
      (begins : s.atSingleParameter = true ∨ atParameterList s = .ok (true, s))
      (read : assignment (rulesFor levels) noIn s = .ok (⟨.function code, span⟩, t))

/-- A part is nested in the script with all that is in it, and so are the functions among this traced. -/
inductive Placed : Bool → Part → Prop where
  | intro {strict : Bool} {part : Part} (nested : part.Nested script.source)
      (traced : ∀ code ∈ part.function?, script.Traced strict code)
      (inner : ∀ child ∈ part.children, Placed (part.strictInside strict) child) : Placed strict part

/-- Parts of a program were read between two tokens, in code that is strict or not. -/
structure Row (strict : Bool) (i j : Nat) (parts : List Part) : Prop where
  balanced : script.Balanced i j
  placed : ∀ part ∈ parts, script.Placed strict part
  lies : ∀ part ∈ parts, i < j ∧ script.Lies i j part.span
  ordered : Part.Ordered parts

variable {script} {strict : Bool} {i j k l : Nat} {t : Token} {parts others : List Part} {part : Part}

theorem Placed.nested (placed : script.Placed strict part) : part.Nested script.source := by
  cases placed with
  | intro nested traced inner => exact nested

/-! ## Rows -/

theorem Balanced.row (balanced : script.Balanced i j) : script.Row strict i j [] :=
  ⟨balanced, List.forall_mem_nil _, List.forall_mem_nil _, List.Pairwise.nil⟩

/-- Parts are in a row as well between tokens that are farther apart. -/
theorem Row.widen (row : script.Row strict j k parts) (balanced : script.Balanced i l) (first : i ≤ j) (last : k ≤ l) :
    script.Row strict i l parts where
  balanced := balanced
  placed := row.placed
  lies part mem := by
    obtain ⟨order, lies⟩ := row.lies part mem
    have inside : k < script.size := Nat.lt_of_le_of_lt last balanced.inside
    exact ⟨by omega, (lies.earlier first (Nat.lt_trans order inside)).later last balanced.inside⟩
  ordered := row.ordered

theorem Row.behind (row : script.Row strict j k parts) (before : script.Balanced i j) : script.Row strict i k parts :=
  row.widen (before.and row.balanced) before.forward (Nat.le_refl k)

theorem Row.before (row : script.Row strict i j parts) (behind : script.Balanced j k) : script.Row strict i k parts :=
  row.widen (row.balanced.and behind) (Nat.le_refl i) behind.forward

theorem Row.enclosed (row : script.Row strict (i + 1) j parts) (opens : script.kindAt i = some (.mark .openParen))
    (closes : script.kindAt j = some (.mark .closeParen)) : script.Row strict i (j + 1) parts :=
  row.widen (row.balanced.enclosed opens closes) (Nat.le_succ i) (Nat.le_succ j)

theorem Row.and (first : script.Row strict i j parts) (second : script.Row strict j k others) :
    script.Row strict i k (parts ++ others) where
  balanced := first.balanced.and second.balanced
  placed := List.forall_mem_append.mpr ⟨first.placed, second.placed⟩
  lies := List.forall_mem_append.mpr ⟨(first.before second.balanced).lies, (second.behind first.balanced).lies⟩
  ordered := by
    refine List.pairwise_append.mpr ⟨first.ordered, second.ordered, fun one left two right => ?_⟩
    obtain ⟨order, earlier⟩ := first.lies one left
    obtain ⟨-, later⟩ := second.lies two right
    calc one.span.stop ≤ script.stopAt (j - 1) := earlier.before
      _ ≤ script.startAt j := stop_le_start (by omega) first.balanced.inside
      _ ≤ two.span.start := later.behind

theorem Row.cons (first : script.Row strict i j [part]) (second : script.Row strict j k others) :
    script.Row strict i k (part :: others) :=
  first.and second

/-! ## Whole parts -/

/-- A part is in a row if the parts inside of it are. -/
theorem Row.whole (row : script.Row (part.strictInside strict) i j part.children) (order : i < j)
    (lies : script.Lies i j part.span) (inside : ∀ child ∈ part.children, child.Inside part.span)
    (traced : ∀ code ∈ part.function?, script.Traced strict code)
    (text : ∀ c, part = .code c → part.span.slice? script.source = some c.source.toList) :
    script.Row strict i j [part] where
  balanced := row.balanced
  placed := List.forall_mem_singleton.mpr (.intro ⟨lies.fits, inside, row.ordered, text⟩ traced row.placed)
  lies := List.forall_mem_singleton.mpr ⟨order, lies⟩
  ordered := List.pairwise_singleton _ _

/-- A part goes to the end of the tokens that are read, and it begins before the parts inside of it. -/
theorem Row.spanning {start : Nat} (row : script.Row (part.strictInside strict) i j part.children) (order : i < j)
    (begins : script.Begins i j start) (front : ∀ child ∈ part.children, start ≤ child.span.start)
    (span : part.span = ⟨start, max (script.stopAt (j - 1)) start⟩)
    (traced : ∀ code ∈ part.function?, script.Traced strict code)
    (text : ∀ c, part = .code c → part.span.slice? script.source = some c.source.toList) :
    script.Row strict i j [part] := by
  rw [Nat.max_eq_left begins.before] at span
  have before : j - 1 < script.size := Nat.lt_of_le_of_lt (Nat.sub_le j 1) row.balanced.inside
  obtain ⟨last, found⟩ := exists_token before
  have bound : isBoundary (script.stopAt (j - 1)) script.source := by
    rw [stop_at found]
    exact (token_fits found).stop
  refine row.whole order ⟨?_, ?_, ?_⟩ ?_ traced text
  · rw [span]
    exact ⟨begins.before, begins.bound, bound⟩
  · rw [span]
    exact begins.behind
  · exact Nat.le_of_eq (congrArg Span.stop span)
  · intro child mem
    rw [span]
    exact ⟨front child mem, (row.lies child mem).2.before⟩

/-- A part that begins with a token. -/
theorem Row.from_token (row : script.Row (part.strictInside strict) i j part.children) (order : i < j)
    (found : script.tokens[i]? = some t) (span : part.span = ⟨t.span.start, max (script.stopAt (j - 1)) t.span.start⟩)
    (traced : ∀ code ∈ part.function?, script.Traced strict code)
    (text : ∀ c, part = .code c → part.span.slice? script.source = some c.source.toList) :
    script.Row strict i j [part] := by
  refine row.spanning order (begins_at found row.balanced.inside order) (fun child mem => ?_) span traced text
  rw [← start_at found]
  exact (row.lies child mem).2.behind

/-- Parts behind the first one of a row begin behind it. -/
theorem Row.first_start (row : script.Row strict i j (part :: others)) :
    ∀ child ∈ part :: others, part.span.start ≤ child.span.start := by
  have first := (row.lies part (.head _)).2.fits.ordered
  intro child mem
  cases mem with
  | head => exact Nat.le_refl _
  | tail _ mem => exact Nat.le_trans first ((List.pairwise_cons.mp row.ordered).1 child mem)

/-- A part that begins with the first part inside of it. -/
theorem Row.from_part {first : Part} (row : script.Row (part.strictInside strict) i j (first :: others))
    (same : part.children = first :: others)
    (span : part.span = ⟨first.span.start, max (script.stopAt (j - 1)) first.span.start⟩)
    (traced : ∀ code ∈ part.function?, script.Traced strict code)
    (text : ∀ c, part = .code c → part.span.slice? script.source = some c.source.toList) :
    script.Row strict i j [part] := by
  obtain ⟨order, lies⟩ := row.lies first (.head _)
  have front := row.first_start
  rw [← same] at row front
  exact row.spanning order lies.begins front span traced text

/-! ## Tokens -/

section

variable {α : Type} {codes : List Bool} {goal : α → Nat → Prop} {kind : TokenKind}

/-- A reader stands at one of the tokens. -/
theorem Covers.within {read : Reader α} (covers : i < script.size → script.Covers codes i read goal) :
    script.Covers codes i read goal := by
  intro s a next done here
  obtain ⟨depths, place⟩ := here.place
  exact covers place.inside s a next done here

/-- Where nothing is read no parentheses are left open. -/
theorem nests_nothing (a : α) : script.Covers codes i (pure a) fun b j => b = a ∧ script.Balanced i j :=
  .within fun inside => .give ⟨rfl, balanced_here inside⟩

theorem nests_skip (found : script.tokens[i]? = some t) (flat : t.kind.IsFlat) :
    script.Covers codes i (discard advance) fun _ j => script.Balanced i j := by
  refine (covers_pass found flat.ends).weaken fun _ j same => ?_
  rw [same]
  exact balanced_next (kind_at found) flat

/-- A token is passed if it is there, and then it is the next one. -/
theorem nests_accept_exact (proper : kind ≠ .endOfInput) :
    script.Covers codes i (accept kind) fun found j =>
      (found = true → j = i + 1 ∧ script.kindAt i = some kind) ∧ (found = false → j = i) := by
  refine .bind (covers_check kind) fun found j there => ?_
  obtain ⟨rfl, found⟩ := there
  refine .ite (fun holds => ?_) fun fails => .give ⟨nofun, fun _ => rfl⟩
  have there := found.mp holds
  obtain ⟨t, at_, rfl⟩ := Option.map_eq_some_iff.mp there
  refine .bind (covers_pass at_ proper) fun _ k passed => .give ⟨fun _ => ⟨passed, there⟩, nofun⟩

theorem nests_accept (flat : kind.IsFlat) :
    script.Covers codes i (accept kind) fun found j => script.Balanced i j ∧ (found = true → i < j) := by
  refine .within fun inside => (nests_accept_exact flat.ends).weaken fun found j there => ?_
  cases found with
  | true =>
    obtain ⟨rfl, known⟩ := there.1 rfl
    exact ⟨balanced_next known flat, fun _ => Nat.lt_succ_self i⟩
  | false =>
    obtain rfl := there.2 rfl
    exact ⟨balanced_here inside, nofun⟩

theorem nests_expect_exact (proper : kind ≠ .endOfInput) (what : String) :
    script.Covers codes i (expect kind what) fun _ j => j = i + 1 ∧ script.kindAt i = some kind :=
  .bind (nests_accept_exact proper) fun _ _ there =>
    .ite (fun holds => .give (there.1 holds)) fun _ => covers_fail_here _

theorem nests_expect (flat : kind.IsFlat) (what : String) :
    script.Covers codes i (expect kind what) fun _ j => script.Balanced i j ∧ i < j := by
  refine (nests_expect_exact flat.ends what).weaken fun _ j there => ?_
  obtain ⟨rfl, known⟩ := there
  exact ⟨balanced_next known flat, Nat.lt_succ_self i⟩

/-- A token is passed that turns out to be no parenthesis. At the end of the input none is. -/
theorem nests_advance_word :
    script.Covers codes i advance fun u j => u.kind.IsFlat → script.Balanced i j := by
  refine .within fun inside => covers_advance.weaken fun u j there flat => ?_
  rcases there with ⟨rfl, found⟩ | ⟨rfl, -⟩
  · exact balanced_next (kind_at found) flat
  · exact balanced_here inside

theorem nests_end_statement : script.Covers codes i endStatement fun _ j => script.Balanced i j := by
  refine .bind (nests_accept (by decide)) fun found j there => .ite (fun _ => .give there.1) fun _ => ?_
  refine .bind .get fun s k here => ?_
  obtain ⟨rfl, -⟩ := here
  exact .ite (fun _ => .give there.1) fun _ => .fail _ _

theorem nests_binding_name {around : Bool} {outer : List Bool} (what : String) :
    script.Covers (around :: outer) i (bindingName what) fun _ j => script.Balanced i j ∧ i < j := by
  refine .bind covers_peek fun token j there => ?_
  obtain ⟨rfl, found⟩ := there
  extract_lets finish accepted
  refine .ite (fun name => ?_) fun _ => .fail_then _ _
  have kind : token.kind = .identifier := beq_iff_eq.mp name
  refine .bind (covers_pass found (by simp [kind])) fun _ k same => .bind covers_is_strict fun answer l there => ?_
  obtain ⟨rfl, -⟩ := there
  have passed : script.Balanced j l := same ▸ balanced_next (kind_at found) (by rw [kind]; decide)
  exact .ite (fun _ => .fail_then _ _) fun _ => .give ⟨passed, by omega⟩

/-- The text of the script that is given is the one up to the token passed last. -/
theorem nests_source_from (start : Nat) :
    script.Covers codes i (sourceFrom start) fun text j => j = i ∧
      Span.slice? ⟨start, script.stopAt (i - 1)⟩ script.source = some text.toList := by
  refine .bind .get fun s j here => ?_
  obtain ⟨rfl, here⟩ := here
  obtain ⟨depths, place⟩ := here.place
  split
  · next part found =>
    rw [place.source, ← stop_at here.previous] at found
    exact .give ⟨rfl, by rw [found, String.toList_ofList]⟩
  · exact .broken

end

/-! ## Repetition -/

section

variable {α : Type} {codes : List Bool} {item : Reader α} {form : α → Part}

/-- Items that are read one behind the other are in a row. -/
theorem nests_while (each : ∀ i, script.Covers codes i item fun a j => script.Row strict i j [form a]) (fuel : Nat)
    (wanted : ReadingState → Bool) :
    script.Covers codes i (readWhile fuel wanted item []) fun items j => script.Row strict i j (items.map form) := by
  refine .within fun inside => ?_
  refine (covers_while (fun i items j => i < script.size → script.Row strict i j (items.map form)) each
    (fun i inside => (balanced_here inside).row)
    (fun i j k a items first rest _ => first.cons (rest first.balanced.inside)) fuel wanted []).weaken
    fun items j there => ?_
  obtain ⟨later, rfl, row⟩ := there
  exact row inside

/-- So are items that commas separate. -/
theorem nests_separated (each : ∀ i, script.Covers codes i item fun a j => script.Row strict i j [form a]) (fuel : Nat)
    (done : List α) :
    script.Covers codes i (readSeparated fuel item done) fun items j =>
      ∃ later, items = done.reverse ++ later ∧ script.Row strict i j (later.map form) := by
  induction fuel generalizing i done with
  | zero => exact .broken
  | succ fuel ih =>
    refine .bind (each i) fun a j first => .bind (nests_accept (by decide)) fun comma k there => ?_
    obtain ⟨comma, -⟩ := there
    refine .ite (fun _ => ?_) fun _ => .give ⟨[a], by simp, first.before comma⟩
    refine (ih (a :: done)).weaken fun items l there => ?_
    obtain ⟨later, rfl, others⟩ := there
    exact ⟨a :: later, by simp, (first.before comma).cons others⟩

end

end ScriptEngine.Grammar.Script
