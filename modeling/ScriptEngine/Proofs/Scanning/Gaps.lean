import ScriptEngine.Syntax.Scanning

/-!
The gaps between the tokens of a script. A gap holds white space, line ends and comments that are complete
and nothing else, and it is noted of it whether a line ends in it. What a gap may hold is told here from its
text alone; the scanner passes such a text and stops in front of what follows.
-/

namespace ScriptEngine.Scanning

open Text

/-- A line ends here, or the script does. -/
def EndsLine (behind : List Char) : Prop :=
  ∀ c ∈ behind.head?, isLineTerminator c

/-- A text may separate tokens where `behind` follows it: it consists of white space, of line ends, and of
comments. A comment of the one kind goes on to the end of its line, and one of the other to the first mark
that closes it. -/
inductive Separates (behind : List Char) : List Char → Prop where
  | nothing : Separates behind []
  | blank {c : Char} {rest : List Char} (blank : isBlank c) (later : Separates behind rest) :
      Separates behind (c :: rest)
  | lineComment {body rest : List Char} (within : ∀ c ∈ body, isLineTerminator c = false)
      (ends : EndsLine (rest ++ behind)) (later : Separates behind rest) :
      Separates behind ('/' :: '/' :: (body ++ rest))
  | blockComment {body rest : List Char} (within : ¬ ['*', '/'] <:+: body)
      (later : Separates behind rest) : Separates behind ('/' :: '*' :: (body ++ '*' :: '/' :: rest))

/-- What may follow inside of a comment that a mark closes. -/
def ClosesBlock (behind passed : List Char) : Prop :=
  ∃ body rest, passed = body ++ '*' :: '/' :: rest ∧ ¬ ['*', '/'] <:+: body ∧ Separates behind rest

namespace Gap

/-- The half of a mark that is still to be read comes next. -/
def Awaits (gap : Gap) (text : List Char) : Prop :=
  match gap with
  | .blockOpening _ => text.head? = some '*'
  | .blockClosing => text.head? = some '/'
  | _ => True

/-- What may follow in the gap from where the scanner stands. -/
def Passes (behind : List Char) (gap : Gap) (passed : List Char) : Prop :=
  match gap with
  | .open => Separates behind passed
  | .lineComment => ∃ body rest, passed = body ++ rest ∧ (∀ c ∈ body, isLineTerminator c = false) ∧
      EndsLine (rest ++ behind) ∧ Separates behind rest
  | .blockOpening _ => ∃ inside, passed = '*' :: inside ∧ ClosesBlock behind inside
  | .blockComment _ => ClosesBlock behind passed
  | .blockClosing => ∃ rest, passed = '/' :: rest ∧ Separates behind rest

end Gap

variable {behind passed : List Char}

/-! ## One character more -/

/-- Behind its first slash a comment in a line has the second one. -/
theorem separates_line_comment (inside : Gap.Passes behind .lineComment passed)
    (mark : (passed ++ behind).head? = some '/') : Separates behind ('/' :: passed) := by
  obtain ⟨body, rest, rfl, within, ends, later⟩ := inside
  cases body with
  | nil =>
    have terminates : isLineTerminator '/' := ends '/' mark
    exact absurd terminates (by decide)
  | cons c body =>
    obtain rfl : c = '/' := by simpa using mark
    exact .lineComment (fun d mem => within d (.tail _ mem)) ends later

theorem separates_block_comment {start : Nat} (inside : Gap.Passes behind (.blockOpening start) passed) :
    Separates behind ('/' :: passed) := by
  obtain ⟨_, rfl, body, rest, rfl, within, later⟩ := inside
  exact .blockComment within later

/-- A character that does not end the line belongs to the comment in it. -/
theorem line_comment_cons {c : Char} (within : isLineTerminator c = false)
    (inside : Gap.Passes behind .lineComment passed) : Gap.Passes behind .lineComment (c :: passed) := by
  obtain ⟨body, rest, rfl, others, ends, later⟩ := inside
  exact ⟨c :: body, rest, rfl, List.forall_mem_cons.mpr ⟨within, others⟩, ends, later⟩

/-- A character belongs to the comment around it unless it begins the mark that closes the comment. -/
theorem closes_block_cons {c : Char} (inside : ClosesBlock behind passed)
    (goesOn : ¬ (c = '*' ∧ (passed ++ behind).head? = some '/')) : ClosesBlock behind (c :: passed) := by
  obtain ⟨body, rest, rfl, within, later⟩ := inside
  refine ⟨c :: body, rest, rfl, fun closed => ?_, later⟩
  rcases List.infix_cons_iff.mp closed with front | inner
  · obtain ⟨star, slash⟩ := List.cons_prefix_cons.mp front
    cases body with
    | nil => simp at slash
    | cons d body =>
      obtain ⟨same, -⟩ := List.cons_prefix_cons.mp slash
      exact goesOn ⟨star.symm, by simp [← same]⟩
  · exact within inner

/-! ## The scanner -/

namespace Gap

/-- The state behind a character with another one behind it. An open gap ends in front of what neither separates tokens
nor begins a comment. -/
def step (offset : Nat) (c : Char) (following : Option Char) : Gap → Option Gap
  | .open =>
    if isBlank c then some .open
    else if c == '/' && following == some '/' then some .lineComment
    else if c == '/' && following == some '*' then some (.blockOpening offset)
    else none
  | .lineComment => some (if isLineTerminator c then .open else .lineComment)
  | .blockOpening start => some (.blockComment start)
  | .blockComment start => some (if c == '*' && following == some '/' then .blockClosing else .blockComment start)
  | .blockClosing => some .open

/-- The character is noted as the end of a line. The second half of a mark is none. -/
def notes (c : Char) : Gap → Bool
  | .blockOpening _ | .blockClosing => false
  | _ => isLineTerminator c

end Gap

section Steps

variable {gap next : Gap} {newline : Bool} {offset : Nat} {c : Char} {text : List Char}

theorem step_none_iff {following : Option Char} : gap.step offset c following = none ↔
    gap = .open ∧ isBlank c = false ∧ (c = '/' → following ≠ some '/' ∧ following ≠ some '*') := by
  cases gap with
  | «open» =>
    unfold Gap.step
    cases isBlank c with
    | true => simp
    | false =>
      by_cases line : c = '/' ∧ following = some '/'
      · simp [line]
      · by_cases block : c = '/' ∧ following = some '*'
        · simp [block]
        · have noMark : c = '/' → ¬following = some '/' ∧ ¬following = some '*' := fun slash =>
            ⟨fun second => line ⟨slash, second⟩, fun second => block ⟨slash, second⟩⟩
          simpa [line, block] using noMark
  | _ => simp [Gap.step]

/-- An open gap goes on behind a blank, and with the first half of a mark that begins a comment. -/
theorem step_open {following : Option Char} (stepped : Gap.open.step offset c following = some next) :
    (next = .open ∧ isBlank c = true) ∨ (next = .lineComment ∧ c = '/' ∧ following = some '/') ∨
      (next = .blockOpening offset ∧ c = '/' ∧ following = some '*') := by
  dsimp only [Gap.step] at stepped
  split at stepped
  · next blank => exact .inl ⟨(Option.some.inj stepped).symm, blank⟩
  · split at stepped
    · next marks =>
      rw [Bool.and_eq_true, beq_iff_eq, beq_iff_eq] at marks
      exact .inr (.inl ⟨(Option.some.inj stepped).symm, marks⟩)
    · split at stepped
      · next marks =>
        rw [Bool.and_eq_true, beq_iff_eq, beq_iff_eq] at marks
        exact .inr (.inr ⟨(Option.some.inj stepped).symm, marks⟩)
      · cases stepped

/-- A comment that a mark closes goes on with the first half of this mark, or with another character. -/
theorem step_block_comment {following : Option Char} {start : Nat}
    (stepped : (Gap.blockComment start).step offset c following = some next) :
    (next = .blockClosing ∧ c = '*' ∧ following = some '/') ∨
      (next = .blockComment start ∧ ¬(c = '*' ∧ following = some '/')) := by
  obtain rfl := Option.some.inj stepped
  simp only [Bool.and_eq_true, beq_iff_eq]
  split
  · next marks => exact .inl ⟨rfl, marks⟩
  · next goesOn => exact .inr ⟨rfl, goesOn⟩

theorem skip_gap_step (stepped : gap.step offset c text.head? = some next) :
    skipGap gap newline offset (c :: text) = skipGap next (newline || gap.notes c) (offset + c.utf8Size) text := by
  cases gap with
  | «open» =>
    rcases step_open stepped with ⟨rfl, blank⟩ | ⟨rfl, rfl, second⟩ | ⟨rfl, rfl, second⟩
    · cases terminates : isLineTerminator c <;> simp [skipGap, Gap.notes, terminates, blank]
    · simp [skipGap, Gap.notes, isLineTerminator, isBlank, second]
    · simp [skipGap, Gap.notes, isLineTerminator, isBlank, second]
  | lineComment =>
    cases stepped
    cases terminates : isLineTerminator c <;> simp [skipGap, Gap.notes, terminates]
  | blockComment start =>
    rcases step_block_comment stepped with ⟨rfl, rfl, second⟩ | ⟨rfl, goesOn⟩
    · simp [skipGap, Gap.notes, isLineTerminator, second]
    · simp [skipGap, Gap.notes, goesOn]
  | blockOpening start | blockClosing =>
    cases stepped
    simp [skipGap, Gap.notes]

theorem skip_gap_stop (stopped : gap.step offset c text.head? = none) :
    skipGap gap newline offset (c :: text) = .ok (newline, ⟨offset, c :: text⟩) := by
  obtain ⟨rfl, full, single⟩ := step_none_iff.mp stopped
  have within : isLineTerminator c = false :=
    Bool.eq_false_iff.mpr fun ends => Bool.eq_false_iff.mp full (isBlank_of_isLineTerminator ends)
  have noLine : (c == '/' && text.head? == some '/') = false := by
    rw [Bool.and_eq_false_imp]
    exact fun slash => beq_eq_false_iff_ne.mpr (single (beq_iff_eq.mp slash)).1
  have noBlock : (c == '/' && text.head? == some '*') = false := by
    rw [Bool.and_eq_false_imp]
    exact fun slash => beq_eq_false_iff_ne.mpr (single (beq_iff_eq.mp slash)).2
  simp [skipGap, within, full, noLine, noBlock]

/-- Where half of a mark is read, the other half is there. -/
theorem awaits_of_step (stepped : gap.step offset c text.head? = some next) : next.Awaits text := by
  cases gap with
  | «open» =>
    rcases step_open stepped with ⟨rfl, -⟩ | ⟨rfl, -, -⟩ | ⟨rfl, -, second⟩
    · trivial
    · trivial
    · exact second
  | blockComment start =>
    rcases step_block_comment stepped with ⟨rfl, -, second⟩ | ⟨rfl, -⟩
    · exact second
    · trivial
  | lineComment =>
    cases stepped
    split <;> trivial
  | blockOpening start | blockClosing =>
    cases stepped
    trivial

theorem notes_of_awaits (awaits : gap.Awaits (c :: text)) : gap.notes c = isLineTerminator c := by
  cases gap with
  | blockOpening start | blockClosing =>
    cases awaits
    rfl
  | _ => rfl

/-- What may follow in the state behind a character may follow the character. -/
theorem passes_of_step (awaits : gap.Awaits (c :: text))
    (stepped : gap.step offset c (passed ++ behind).head? = some next) (inside : next.Passes behind passed) :
    gap.Passes behind (c :: passed) := by
  cases gap with
  | «open» =>
    rcases step_open stepped with ⟨rfl, blank⟩ | ⟨rfl, rfl, second⟩ | ⟨rfl, rfl, -⟩
    · exact .blank blank inside
    · exact separates_line_comment inside second
    · exact separates_block_comment inside
  | lineComment =>
    cases terminates : isLineTerminator c with
    | true =>
      simp only [Gap.step, terminates, if_true, Option.some.injEq] at stepped
      subst stepped
      refine ⟨[], c :: passed, rfl, by simp, by simp [EndsLine, terminates], ?_⟩
      exact .blank (isBlank_of_isLineTerminator terminates) inside
    | false =>
      simp only [Gap.step, terminates, Bool.false_eq_true, if_false, Option.some.injEq] at stepped
      subst stepped
      exact line_comment_cons terminates inside
  | blockOpening start =>
    cases stepped
    obtain rfl : c = '*' := by simpa [Gap.Awaits] using awaits
    exact ⟨passed, rfl, inside⟩
  | blockComment start =>
    rcases step_block_comment stepped with ⟨rfl, rfl, -⟩ | ⟨rfl, goesOn⟩
    · obtain ⟨rest, rfl, later⟩ := inside
      exact ⟨[], rest, rfl, by simp, later⟩
    · exact closes_block_cons inside goesOn
  | blockClosing =>
    cases stepped
    obtain rfl : c = '/' := by simpa [Gap.Awaits] using awaits
    exact ⟨passed, rfl, inside⟩

end Steps

/-- The scanner passes what may stand in a gap. It counts the bytes, and notes whether a line ends. -/
theorem skip_gap_passes (text : List Char) {gap : Gap} {newline ended : Bool} {offset : Nat} {place : Place}
    (awaits : gap.Awaits text) (skipped : skipGap gap newline offset text = .ok (ended, place)) :
    ∃ passed, text = passed ++ place.rest ∧ place.offset = offset + byteLength passed ∧
      ended = (newline || passed.any isLineTerminator) ∧ gap.Passes place.rest passed := by
  induction text generalizing gap newline offset with
  | nil =>
    cases gap with
    | «open» =>
      cases skipped
      exact ⟨[], rfl, rfl, by simp, .nothing⟩
    | lineComment =>
      cases skipped
      exact ⟨[], rfl, rfl, by simp, [], [], rfl, by simp, by simp [EndsLine], .nothing⟩
    | blockClosing => cases awaits
    | blockOpening start | blockComment start => cases skipped
  | cons c text ih =>
    cases stepped : gap.step offset c text.head? with
    | none =>
      obtain ⟨rfl, -⟩ := step_none_iff.mp stepped
      rw [skip_gap_stop stepped] at skipped
      cases skipped
      exact ⟨[], rfl, rfl, by simp, .nothing⟩
    | some next =>
      rw [skip_gap_step stepped] at skipped
      obtain ⟨passed, same, counted, flag, inside⟩ := ih (awaits_of_step stepped) skipped
      refine ⟨c :: passed, by rw [same]; rfl, ?_, ?_, passes_of_step awaits (same ▸ stepped) inside⟩
      · rw [counted, byteLength_cons, Nat.add_assoc]
      · rw [flag, List.any_cons, notes_of_awaits awaits, Bool.or_assoc]

/-! ## Comments without an end -/

/-- Where the comment that a mark has to close began. -/
def Gap.begun : Gap → Option Nat
  | .blockOpening start | .blockComment start => some start
  | _ => none

/-- The comment that the next state is in goes on from before, or it begins here. -/
theorem begun_of_step {gap next : Gap} {offset start : Nat} {c : Char} {following : Option Char}
    (stepped : gap.step offset c following = some next) (begun : next.begun = some start) :
    gap.begun = some start ∨ start = offset := by
  cases gap with
  | «open» =>
    rcases step_open stepped with ⟨rfl, -⟩ | ⟨rfl, -, -⟩ | ⟨rfl, -, -⟩
    · cases begun
    · cases begun
    · exact .inr (Option.some.inj begun).symm
  | blockComment start =>
    rcases step_block_comment stepped with ⟨rfl, -, -⟩ | ⟨rfl, -⟩
    · cases begun
    · exact .inl begun
  | lineComment =>
    cases stepped
    split at begun <;> cases begun
  | blockOpening start =>
    cases stepped
    exact .inl begun
  | blockClosing =>
    cases stepped
    cases begun

/-- A gap is at fault for a comment that goes on to the end of the script. It began before the text or in
it. -/
theorem skip_gap_fault (text : List Char) {gap : Gap} {newline : Bool} {offset : Nat} {fault : LexicalFault}
    (failed : skipGap gap newline offset text = .error fault) :
    fault.fault = .unterminatedComment ∧ fault.span.stop = offset + byteLength text ∧
      (gap.begun = some fault.span.start ∨
        ∃ before behind, text = before ++ behind ∧ fault.span.start = offset + byteLength before) := by
  induction text generalizing gap newline offset with
  | nil =>
    cases gap with
    | «open» | lineComment | blockClosing => cases failed
    | blockOpening start | blockComment start =>
      cases failed
      exact ⟨rfl, rfl, .inl rfl⟩
  | cons c text ih =>
    cases stepped : gap.step offset c text.head? with
    | none =>
      rw [skip_gap_stop stepped] at failed
      cases failed
    | some next =>
      rw [skip_gap_step stepped] at failed
      obtain ⟨known, stop, start⟩ := ih failed
      refine ⟨known, by rw [stop, byteLength_cons, Nat.add_assoc], ?_⟩
      rcases start with earlier | ⟨before, behind, rfl, within⟩
      · exact (begun_of_step stepped earlier).imp_right fun here => ⟨[], c :: text, rfl, here⟩
      · exact .inr ⟨c :: before, behind, rfl, by rw [within, byteLength_cons, Nat.add_assoc]⟩

end ScriptEngine.Scanning
