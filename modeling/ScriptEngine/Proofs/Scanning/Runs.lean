import ScriptEngine.Proofs.Scanning.Layout
import ScriptEngine.Proofs.Scanning.Surroundings

/-!
The work of the scanner as a relation between a text and its tokens. Tokens that stand one behind the other in one text
can be taken to another place: they are read there again if what follows them may follow them.
-/

namespace ScriptEngine.Scanning

open Text

/-! ## Gaps -/

/-- A text does not begin with anything that separates tokens. -/
def Apart (text : List Char) : Prop :=
  ∀ c rest, text = c :: rest →
    isBlank c = false ∧ (c = '/' → ∀ d, rest.head? = some d → d ≠ '/' ∧ d ≠ '*')

variable {gap text rest other : List Char} {newline : Bool} {offset : Nat}

theorem step_none_iff_apart {c : Char} : Gap.open.step offset c rest.head? = none ↔ Apart (c :: rest) := by
  rw [step_none_iff]
  constructor
  · rintro ⟨-, full, single⟩ _ _ ⟨⟩
    refine ⟨full, fun slash d begins => ?_⟩
    rw [begins] at single
    exact (single slash).imp (mt (congrArg some)) (mt (congrArg some))
  · intro apart
    obtain ⟨full, single⟩ := apart c rest rfl
    exact ⟨rfl, full, fun slash => ⟨fun line => (single slash _ line).1 rfl, fun block => (single slash _ block).2 rfl⟩⟩

theorem skip_gap_apart (apart : Apart text) (newline : Bool) (offset : Nat) :
    skipGap .open newline offset text = .ok (newline, ⟨offset, text⟩) := by
  cases text with
  | nil => rfl
  | cons c rest => exact skip_gap_stop (step_none_iff_apart.mpr apart)

theorem skip_line_comment {body : List Char} (within : ∀ c ∈ body, isLineTerminator c = false)
    (ends : EndsLine rest) (newline : Bool) (offset : Nat) :
    skipGap .lineComment newline offset (body ++ rest) = skipGap .open newline (offset + byteLength body) rest := by
  induction body generalizing offset with
  | nil =>
    cases rest with
    | nil => rfl
    | cons c rest =>
      have terminates : isLineTerminator c = true := ends c rfl
      simp [skipGap, terminates, byteLength_nil]
  | cons c body ih =>
    have inside := within c (List.mem_cons_self ..)
    rw [List.cons_append, skipGap]
    simp only [inside, Bool.false_eq_true, if_false]
    rw [ih (fun d mem => within d (List.mem_cons_of_mem c mem)), byteLength_cons, Nat.add_assoc]

theorem skip_block_comment {body : List Char} (within : ¬ ['*', '/'] <:+: body) (start : Nat) (newline : Bool)
    (offset : Nat) : skipGap (.blockComment start) newline offset (body ++ '*' :: '/' :: rest) =
      skipGap .open (newline || body.any isLineTerminator) (offset + byteLength (body ++ ['*', '/'])) rest := by
  induction body generalizing newline offset with
  | nil =>
    simp only [List.nil_append, skipGap, List.any_nil, Bool.or_false, List.head?_cons, BEq.rfl, Bool.and_self, if_true]
    rfl
  | cons c body ih =>
    have goesOn : (c == '*' && (body ++ '*' :: '/' :: rest).head? == some '/') = false := by
      refine Bool.eq_false_iff.mpr fun closed => within ?_
      simp only [Bool.and_eq_true, beq_iff_eq] at closed
      obtain ⟨rfl, next⟩ := closed
      cases body with
      | nil => cases next
      | cons d body =>
        cases next
        exact ⟨[], body, rfl⟩
    have inner : ¬ ['*', '/'] <:+: body := fun closed => within (closed.trans (List.suffix_cons c body).isInfix)
    rw [List.cons_append, skipGap, goesOn]
    simp only [Bool.false_eq_true, if_false]
    rw [ih inner, List.any_cons, Bool.or_assoc, List.cons_append, byteLength_cons, Nat.add_assoc]

/-- The scanner passes whatever separates tokens. -/
theorem skip_gap_separates (separates : Separates rest gap) (apart : Apart rest) (newline : Bool) (offset : Nat) :
    skipGap .open newline offset (gap ++ rest) =
      .ok (newline || gap.any isLineTerminator, ⟨offset + byteLength gap, rest⟩) := by
  induction separates generalizing newline offset with
  | nothing =>
    rw [List.any_nil, Bool.or_false]
    exact skip_gap_apart apart newline offset
  | @blank c gap blank later ih =>
    have step : skipGap .open newline offset (c :: (gap ++ rest)) =
        skipGap .open (newline || isLineTerminator c) (offset + c.utf8Size) (gap ++ rest) :=
      skip_gap_step (if_pos blank)
    rw [List.cons_append, step, ih, List.any_cons, Bool.or_assoc, byteLength_cons, Nat.add_assoc]
  | @lineComment body gap within ends later ih =>
    have opening : skipGap .open newline offset ('/' :: '/' :: (body ++ (gap ++ rest))) =
        skipGap .lineComment newline (offset + byteLength ['/', '/']) (body ++ (gap ++ rest)) := rfl
    have flat : body.any isLineTerminator = false := by simpa using within
    have parts : '/' :: '/' :: (body ++ gap) ++ rest = '/' :: '/' :: (body ++ (gap ++ rest)) := by simp
    have noted : ('/' :: '/' :: (body ++ gap)).any isLineTerminator = gap.any isLineTerminator := by
      simp [List.any_append, flat, isLineTerminator]
    have bytes : byteLength ('/' :: '/' :: (body ++ gap)) =
        byteLength ['/', '/'] + byteLength body + byteLength gap := by
      simp [byteLength_cons, byteLength_nil, Nat.add_assoc]
    rw [parts, opening, skip_line_comment within ends, ih, noted, bytes]
    simp only [Nat.add_assoc]
  | @blockComment body gap within later ih =>
    have opening : skipGap .open newline offset ('/' :: '*' :: (body ++ '*' :: '/' :: (gap ++ rest))) =
        skipGap (.blockComment offset) newline (offset + byteLength ['/', '*']) (body ++ '*' :: '/' :: (gap ++ rest)) :=
      rfl
    have parts : '/' :: '*' :: (body ++ '*' :: '/' :: gap) ++ rest =
        '/' :: '*' :: (body ++ '*' :: '/' :: (gap ++ rest)) := by simp
    have noted : ('/' :: '*' :: (body ++ '*' :: '/' :: gap)).any isLineTerminator =
        (body.any isLineTerminator || gap.any isLineTerminator) := by
      simp [List.any_append, isLineTerminator]
    have bytes : byteLength ('/' :: '*' :: (body ++ '*' :: '/' :: gap)) =
        byteLength ['/', '*'] + byteLength (body ++ ['*', '/']) + byteLength gap := by
      simp [byteLength_cons, byteLength_nil, Nat.add_assoc]
    rw [parts, opening, skip_block_comment within, ih, noted, bytes, Bool.or_assoc]
    simp only [Nat.add_assoc]

/-- A gap is passed up to what does not separate tokens. -/
theorem skip_gap_stops (text : List Char) {gap : Gap} {newline ended : Bool} {offset : Nat} {place : Place}
    (skipped : skipGap gap newline offset text = .ok (ended, place)) : Apart place.rest := by
  induction text generalizing gap newline offset with
  | nil =>
    have none : place.rest = [] := by
      cases gap with
      | «open» | lineComment | blockClosing =>
        cases skipped
        rfl
      | blockOpening start | blockComment start => cases skipped
    rw [none]
    rintro c rest ⟨⟩
  | cons c text ih =>
    cases stepped : gap.step offset c text.head? with
    | none =>
      obtain ⟨rfl, -⟩ := step_none_iff.mp stepped
      rw [skip_gap_stop stepped] at skipped
      cases skipped
      exact step_none_iff_apart.mp stepped
    | some next =>
      rw [skip_gap_step stepped] at skipped
      exact ih skipped

/-- Whether a gap ends depends on the character behind it. -/
theorem Separates.of_head (separates : Separates rest gap) (same : other.head? = rest.head?) :
    Separates other gap := by
  induction separates with
  | nothing => exact .nothing
  | blank blank later ih => exact .blank blank ih
  | @lineComment body gap within ends later ih =>
    refine .lineComment within ?_ ih
    cases gap with
    | nil =>
      unfold EndsLine
      rw [List.nil_append, same]
      exact ends
    | cons c gap => exact ends
  | blockComment within later ih => exact .blockComment within ih

theorem Apart.of_alike {piece : List Char} (nonempty : piece ≠ []) (apart : Apart (piece ++ rest))
    (alike : Alike rest other) : Apart (piece ++ other) := by
  obtain ⟨c, piece, rfl⟩ := List.exists_cons_of_ne_nil nonempty
  rintro _ _ ⟨⟩
  obtain ⟨full, single⟩ := apart c _ rfl
  refine ⟨full, fun slash d begins => ?_⟩
  rcases (alike.append piece) d begins with same | rfl | rfl
  · exact single slash d same
  · decide
  · decide

/-! ## Tokens -/

/-- The first token of a text is read off a piece of it behind a gap. -/
structure ReadsFirst (offset : Nat) (gap piece rest : List Char) (t : Token) : Prop where
  separates : Separates (piece ++ rest) gap
  apart : Apart (piece ++ rest)
  nonempty : piece ≠ []
  read : scanToken (gap.any isLineTerminator) (offset + byteLength gap) (piece ++ rest) =
    .ok (t, ⟨offset + byteLength gap + byteLength piece, rest⟩)

/-- What is left of a script at an offset is scanned as tokens, piece for piece. -/
inductive Scans : Nat → List Char → List Token → Prop where
  | stop {offset : Nat} {gap : List Char} (separates : Separates [] gap) :
      Scans offset gap [endToken (offset + byteLength gap)]
  | token {offset : Nat} {gap piece rest : List Char} {t : Token} {later : List Token}
      (first : ReadsFirst offset gap piece rest t)
      (behind : Scans (offset + byteLength gap + byteLength piece) rest later) :
      Scans offset (gap ++ (piece ++ rest)) (t :: later)

section

variable {piece : List Char} {t : Token}

theorem ReadsFirst.read_off (first : ReadsFirst offset gap piece rest t) :
    ReadOff (offset + byteLength gap) piece t ∧ t.newlineBefore = gap.any isLineTerminator := by
  have splits := scan_token_splits (List.append_ne_nil_of_left_ne_nil first.nonempty rest) (gap.any isLineTerminator)
    (offset + byteLength gap)
  rw [first.read] at splits
  obtain ⟨front, same, -, readOff, newline⟩ := splits
  obtain rfl : piece = front := List.append_cancel_right same
  exact ⟨readOff, newline⟩

/-- The token is read off its piece behind any gap, and in front of any text that may follow it. -/
theorem ReadsFirst.elsewhere (first : ReadsFirst offset gap piece rest t) (alike : Alike rest other) (offset' : Nat)
    {gap' : List Char} (separates : Separates (piece ++ other) gap') :
    ReadsFirst offset' gap' piece other (readAt t (gap'.any isLineTerminator) (offset' + byteLength gap') piece) :=
  ⟨separates, first.apart.of_alike first.nonempty alike, first.nonempty,
    scan_token_alike first.nonempty first.read alike _ _⟩

end

theorem scans_of_tokens_from (fuel : Nat) {done tokens : List Token} {place : Place}
    (read : tokensFrom fuel done place = .ok tokens) :
    ∃ later, tokens = done.reverse ++ later ∧ Scans place.offset place.rest later := by
  induction fuel generalizing done place with
  | zero => cases read
  | succ fuel ih =>
    obtain ⟨offset, text⟩ := place
    simp only [tokensFrom] at read
    cases skipped : skipGap .open false offset text with
    | error fault =>
      rw [skipped] at read
      cases read
    | ok gapped =>
      obtain ⟨newline, start⟩ := gapped
      have awaits : Gap.open.Awaits text := trivial
      have apart := skip_gap_stops text skipped
      obtain ⟨gap, rfl, counted, flag, separates⟩ := skip_gap_passes text awaits skipped
      obtain ⟨offset', rest⟩ := start
      dsimp only at *
      subst counted
      rw [Bool.false_or] at flag
      subst flag
      rw [skipped] at read
      dsimp only [bind, Except.bind] at read
      by_cases none : rest = []
      · subst none
        cases read
        rw [List.append_nil]
        exact ⟨_, List.reverse_cons, .stop separates⟩
      · have splits := scan_token_splits none (gap.any isLineTerminator) (offset + byteLength gap)
        cases scanned : scanToken (gap.any isLineTerminator) (offset + byteLength gap) rest with
        | error fault =>
          rw [scanned] at read
          cases read
        | ok result =>
          obtain ⟨t, stop, behind⟩ := result
          rw [scanned] at splits read
          obtain ⟨piece, rfl, counted, readOff, -⟩ := splits
          dsimp only at counted read
          subst counted
          rw [if_neg (by simpa using readOff.kind)] at read
          obtain ⟨later, rfl, scans⟩ := ih read
          exact ⟨t :: later, by simp, .token ⟨separates, apart, readOff.nonempty, scanned⟩ scans⟩

theorem Scans.tokens_from {tokens : List Token} (scans : Scans offset text tokens) (fuel : Nat)
    (lasts : text.length < fuel) (done : List Token) :
    tokensFrom fuel done ⟨offset, text⟩ = .ok (done.reverse ++ tokens) := by
  induction scans generalizing fuel done with
  | @stop offset gap separates =>
    obtain ⟨fuel, rfl⟩ : ∃ n, fuel = n + 1 := ⟨fuel - 1, by omega⟩
    have passed := skip_gap_separates separates (fun _ _ same => by cases same) false offset
    rw [List.append_nil] at passed
    simp only [tokensFrom, passed, bind, Except.bind]
    exact congrArg Except.ok List.reverse_cons
  | @token offset gap piece rest t later first behind ih =>
    obtain ⟨fuel, rfl⟩ : ∃ n, fuel = n + 1 := ⟨fuel - 1, by omega⟩
    have positive := List.length_pos_iff.mpr first.nonempty
    rw [List.length_append, List.length_append] at lasts
    have goesOn : ¬ (t.kind == .endOfInput) = true := by simpa using first.read_off.1.kind
    simp only [tokensFrom, skip_gap_separates first.separates first.apart, bind, Except.bind, Bool.false_or, first.read]
    rw [if_neg goesOn, ih fuel (by omega) (t :: done)]
    simp

/-- The tokens of a script are those that it is scanned as. -/
theorem tokens_of_iff {source : String} {tokens : List Token} :
    tokensOf source = .ok tokens ↔ Scans 0 source.toList tokens := by
  constructor
  · intro read
    unfold tokensOf at read
    dsimp only at read
    cases scanned : tokensFrom (source.toList.length + 1) [] ⟨0, source.toList⟩ with
    | error fault =>
      rw [scanned] at read
      cases read
    | ok found =>
      rw [scanned] at read
      cases read
      obtain ⟨later, rfl, scans⟩ := scans_of_tokens_from _ scanned
      exact scans
  · intro scans
    unfold tokensOf
    dsimp only
    rw [scans.tokens_from _ (Nat.lt_succ_self _)]
    rfl

/-! ## Other places -/

/-- A token where what began at one offset begins at another one. -/
def moved (offset offset' : Nat) (t : Token) : Token :=
  { t with span := ⟨offset' + (t.span.start - offset), offset' + (t.span.stop - offset)⟩ }

theorem ReadsFirst.moves {piece : List Char} {t : Token} (first : ReadsFirst offset gap piece rest t)
    (alike : Alike rest other) (separates : Separates (piece ++ other) gap) (offset' : Nat) :
    ReadsFirst offset' gap piece other (moved offset offset' t) := by
  obtain ⟨readOff, newline⟩ := first.read_off
  have same : readAt t (gap.any isLineTerminator) (offset' + byteLength gap) piece = moved offset offset' t := by
    rw [← newline, readAt, moved, readOff.span]
    simp only [Token.mk.injEq, Span.mk.injEq, true_and, and_true]
    omega
  exact same ▸ first.elsewhere alike offset' separates

theorem moved_behind {t : Token} (count offset offset' : Nat) (start : offset + count ≤ t.span.start)
    (stop : t.span.start ≤ t.span.stop) : moved (offset + count) (offset' + count) t = moved offset offset' t := by
  simp only [moved, Token.mk.injEq, Span.mk.injEq, true_and, and_true]
  omega

/-- The first tokens are read off a front of the text. They are read off it elsewhere if other tokens follow that may
follow them. -/
structure Cuts (offset : Nat) (text : List Char) (tokens later : List Token) (passed behind : List Char) : Prop where
  parts : text = passed ++ behind
  inside : ∀ t ∈ tokens, offset ≤ t.span.start ∧ t.span.start ≤ t.span.stop ∧
    t.span.stop ≤ offset + byteLength passed
  last : gapStart offset tokens = offset + byteLength passed
  rest : Scans (offset + byteLength passed) behind later
  elsewhere : ∀ offset' other later', Alike behind other → Scans (offset' + byteLength passed) other later' →
    Scans offset' (passed ++ other) (tokens.map (moved offset offset') ++ later')

theorem Cuts.nothing {later : List Token} (scans : Scans offset text later) : Cuts offset text [] later [] text where
  parts := rfl
  inside := by simp
  last := rfl
  rest := scans
  elsewhere _ _ _ _ inner := inner

/-- One token more is read off the front. -/
theorem Cuts.cons {piece passed behind : List Char} {t : Token} {tokens later : List Token}
    (first : ReadsFirst offset gap piece rest t)
    (cuts : Cuts (offset + byteLength gap + byteLength piece) rest tokens later passed behind) :
    Cuts offset (gap ++ (piece ++ rest)) (t :: tokens) later (gap ++ (piece ++ passed)) behind := by
  have span := first.read_off.1.span
  have count : byteLength (gap ++ (piece ++ passed)) = byteLength gap + byteLength piece + byteLength passed := by
    rw [byteLength_append, byteLength_append, Nat.add_assoc]
  refine {
    parts := by rw [cuts.parts]; simp
    inside := List.forall_mem_cons.mpr ⟨?_, fun u mem => ?_⟩
    last := ?_
    rest := ?_
    elsewhere := fun offset' other later' alike inner => ?_ }
  · rw [span, count]
    dsimp only
    omega
  · obtain ⟨start, ordered, stop⟩ := cuts.inside u mem
    rw [count]
    omega
  · have stop : t.span.stop = offset + byteLength gap + byteLength piece := by rw [span]
    have ends := cuts.last
    rw [gapStart] at ends ⊢
    rw [List.getLast?_cons, count]
    cases last : tokens.getLast? with
    | none =>
      rw [last] at ends
      simp only [Option.elim_none] at ends
      simp only [Option.getD_none, Option.elim_some]
      omega
    | some u =>
      rw [last] at ends
      simp only [Option.elim_some, Option.getD_some] at ends ⊢
      omega
  · rw [count, ← Nat.add_assoc, ← Nat.add_assoc]
    exact cuts.rest
  · rw [count, ← Nat.add_assoc, ← Nat.add_assoc] at inner
    have later := cuts.elsewhere _ other later' alike inner
    have follows : Alike rest (passed ++ other) := by
      rw [cuts.parts]
      exact alike.append passed
    have begins : (piece ++ (passed ++ other)).head? = (piece ++ rest).head? := by
      obtain ⟨c, tail, rfl⟩ := List.exists_cons_of_ne_nil first.nonempty
      rfl
    have shifted : tokens.map (moved (offset + byteLength gap + byteLength piece)
        (offset' + byteLength gap + byteLength piece)) = tokens.map (moved offset offset') := by
      refine List.map_congr_left fun u mem => ?_
      obtain ⟨start, ordered, -⟩ := cuts.inside u mem
      rw [Nat.add_assoc] at start
      rw [Nat.add_assoc, Nat.add_assoc]
      exact moved_behind _ offset offset' start ordered
    rw [shifted] at later
    have token := Scans.token (first.moves follows (first.separates.of_head begins) offset') later
    rwa [List.append_assoc, List.append_assoc]

theorem Scans.cut {tokens later : List Token} (scans : Scans offset text (tokens ++ later)) (more : later ≠ []) :
    ∃ passed behind, Cuts offset text tokens later passed behind := by
  induction tokens generalizing offset text with
  | nil => exact ⟨[], text, .nothing scans⟩
  | cons t tokens ih =>
    rw [List.cons_append] at scans
    generalize listed : t :: (tokens ++ later) = all at scans
    cases scans with
    | stop separates =>
      have none := (List.cons.inj listed).2
      exact absurd (List.append_eq_nil_iff.mp none).2 more
    | token first behind =>
      obtain ⟨rfl, rfl⟩ := List.cons.inj listed
      obtain ⟨passed, rest, cuts⟩ := ih behind
      exact ⟨_, rest, .cons first cuts⟩

end ScriptEngine.Scanning
