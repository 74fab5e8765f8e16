import ScriptEngine.Proofs.Scanning.NumberTokens
import ScriptEngine.Proofs.Scanning.Runs

/-!
Two texts with a line break between them. If each of them is scanned on its own, the whole is scanned as the tokens of
the one and those of the other. If the whole is scanned, so are both texts, since no token goes on behind the line
break, unless a comment that the first one opens is closed in the second one, or a string goes on there.
-/

namespace ScriptEngine.Scanning

open Text

variable {front back gap piece rest other : List Char} {offset offset' stop : Nat} {t : Token}
  {tokens first later : List Token}

/-! ## Tokens in place -/

/-- A token is read off its piece behind another gap that ends where this one does. -/
theorem ReadsFirst.stays {gap' : List Char} (first : ReadsFirst offset gap piece rest t) (alike : Alike rest other)
    (separates : Separates (piece ++ other) gap') (place : offset' + byteLength gap' = offset + byteLength gap)
    (line : gap'.any isLineTerminator = gap.any isLineTerminator) : ReadsFirst offset' gap' piece other t := by
  obtain ⟨readOff, newline⟩ := first.read_off
  have same : readAt t (gap'.any isLineTerminator) (offset' + byteLength gap') piece = t := by
    rw [line, ← newline, place, readAt, ← readOff.span]
  exact same ▸ first.elsewhere alike offset' separates

/-- Other text may follow behind a text, if it begins with a line break. -/
theorem alike_line (rest back : List Char) : Alike rest (rest ++ '\n' :: back) := by
  intro c begins
  cases rest with
  | nil =>
    cases begins
    exact .inr (.inr rfl)
  | cons d rest => exact .inl begins

/-- A text may end where a line of it does. -/
theorem alike_of_line (rest back : List Char) : Alike (rest ++ '\n' :: back) rest := by
  intro c begins
  cases rest with
  | nil => cases begins
  | cons d rest => exact .inl begins

/-- The tokens lie in the text. -/
theorem Scans.within {text : List Char} (scans : Scans offset text tokens) :
    ∀ u ∈ tokens, offset ≤ u.span.start ∧ u.span.start ≤ u.span.stop ∧ u.span.stop ≤ offset + byteLength text := by
  induction scans with
  | stop separates => simp [endToken]
  | @token offset gap piece rest t later first behind ih =>
    have span := first.read_off.1.span
    have length : byteLength (gap ++ (piece ++ rest)) = byteLength gap + byteLength piece + byteLength rest := by
      rw [byteLength_append, byteLength_append, Nat.add_assoc]
    rw [length]
    refine List.forall_mem_cons.mpr ⟨?_, fun u mem => ?_⟩
    · rw [span]
      dsimp only
      omega
    · obtain ⟨start, ordered, stop⟩ := ih u mem
      omega

/-- What is scanned can be scanned from another offset on. -/
theorem Scans.moves {text : List Char} (scans : Scans offset text tokens) (offset' : Nat) :
    Scans offset' text (tokens.map (moved offset offset')) := by
  induction scans generalizing offset' with
  | @stop offset gap separates =>
    have same : moved offset offset' (endToken (offset + byteLength gap)) = endToken (offset' + byteLength gap) := by
      simp [moved, endToken]
    rw [List.map_singleton, same]
    exact .stop separates
  | @token offset gap piece rest t later first behind ih =>
    have inner := ih (offset' + byteLength gap + byteLength piece)
    have shifted : later.map (moved (offset + byteLength gap + byteLength piece)
        (offset' + byteLength gap + byteLength piece)) = later.map (moved offset offset') := by
      refine List.map_congr_left fun u mem => ?_
      obtain ⟨start, ordered, -⟩ := behind.within u mem
      rw [Nat.add_assoc] at start
      rw [Nat.add_assoc, Nat.add_assoc]
      exact moved_behind _ offset offset' start ordered
    rw [shifted] at inner
    exact .token (first.moves (fun _ => .inl) first.separates offset') inner

/-- The last token is the end of the input. -/
theorem Scans.ends {text : List Char} (scans : Scans offset text tokens) :
    ∃ first stop, tokens = first ++ [endToken stop] := by
  induction scans with
  | stop separates => exact ⟨[], _, rfl⟩
  | @token _ _ _ _ t _ _ _ ih =>
    obtain ⟨first, stop, rfl⟩ := ih
    exact ⟨t :: first, stop, rfl⟩

/-! ## Joining -/

/-- A gap at the end of a text goes on with the one that begins the next line. -/
theorem Separates.append {behind next : List Char} (separates : Separates [] gap)
    (later : Separates behind ('\n' :: next)) : Separates behind (gap ++ '\n' :: next) := by
  induction separates with
  | nothing => exact later
  | blank blank _ ih => exact .blank blank ih
  | @lineComment body rest within ends _ ih =>
    have goesOn : EndsLine ((rest ++ '\n' :: next) ++ behind) := by
      cases rest with
      | nil =>
        rintro c ⟨⟩
        rfl
      | cons c rest => exact ends
    have comment := Separates.lineComment within goesOn ih
    rwa [← List.append_assoc] at comment
  | @blockComment body rest within _ ih =>
    have comment := Separates.blockComment within ih
    simpa using comment

/-- The first line break belongs to the gap before the first token. -/
theorem Scans.from_line (scans : Scans offset ('\n' :: back) tokens) :
    (Separates [] ('\n' :: back) ∧ tokens = [endToken (offset + byteLength ('\n' :: back))]) ∨
      ∃ gap piece rest t later, back = gap ++ (piece ++ rest) ∧ tokens = t :: later ∧
        ReadsFirst offset ('\n' :: gap) piece rest t ∧
        Scans (offset + byteLength ('\n' :: gap) + byteLength piece) rest later := by
  generalize whole : '\n' :: back = text at scans
  cases scans with
  | stop separates => exact .inl ⟨separates, rfl⟩
  | @token _ gap piece rest t later first behind =>
    cases gap with
    | nil =>
      -- No token begins with the line break.
      have blank := (first.apart '\n' back whole.symm).1
      cases blank
    | cons c gap =>
      obtain ⟨rfl, rfl⟩ := List.cons.inj whole
      exact .inr ⟨gap, piece, rest, t, later, rfl, rfl, first, behind⟩

theorem Scans.behind_gap (separates : Separates [] gap)
    (later : Scans (offset + byteLength gap) ('\n' :: back) tokens) : Scans offset (gap ++ '\n' :: back) tokens := by
  rcases later.from_line with ⟨blank, rfl⟩ | ⟨next, piece, rest, t, further, rfl, rfl, first, behind⟩
  · have stop : Scans offset _ _ := .stop (separates.append blank)
    rwa [byteLength_append, ← Nat.add_assoc] at stop
  · have line : (gap ++ '\n' :: next).any isLineTerminator = ('\n' :: next).any isLineTerminator := by
      simp [isLineTerminator]
    have place : offset + byteLength (gap ++ '\n' :: next) = offset + byteLength gap + byteLength ('\n' :: next) := by
      rw [byteLength_append, Nat.add_assoc]
    have token := Scans.token (first.stays (fun _ => .inl) (separates.append first.separates) place line)
      (by rwa [place])
    rwa [List.append_assoc, List.cons_append] at token

/-- The tokens of a text and those of the lines behind it are the tokens of the whole. -/
theorem Scans.join (scans : Scans offset front (first ++ [endToken stop]))
    (later : Scans (offset + byteLength front) ('\n' :: back) tokens) :
    Scans offset (front ++ '\n' :: back) (first ++ tokens) := by
  generalize listed : first ++ [endToken stop] = all at scans
  induction scans generalizing first with
  | stop separates =>
    cases first with
    | nil => exact later.behind_gap separates
    | cons t first => simp at listed
  | @token offset gap piece rest t further read behind ih =>
    cases first with
    | nil =>
      obtain ⟨rfl, -⟩ := List.cons.inj listed
      exact absurd rfl read.read_off.1.kind
    | cons u first =>
      obtain ⟨rfl, others⟩ := List.cons.inj listed
      have place : offset + byteLength (gap ++ (piece ++ rest)) =
          offset + byteLength gap + byteLength piece + byteLength rest := by
        rw [byteLength_append, byteLength_append, Nat.add_assoc, Nat.add_assoc]
      rw [place] at later
      have separates : Separates (piece ++ (rest ++ '\n' :: back)) gap := by
        refine read.separates.of_head ?_
        obtain ⟨c, piece, rfl⟩ := List.exists_cons_of_ne_nil read.nonempty
        rfl
      have token := Scans.token (read.stays (alike_line rest back) separates rfl rfl) (ih later others)
      rwa [← List.append_assoc piece, ← List.append_assoc gap] at token

/-! ## Strings and line breaks -/

/-- No string that is open goes on to its quote. -/
def LeavesStringsOpen (text : List Char) : Prop :=
  ∀ quote units octal offset, quote = '"' ∨ quote = '\'' →
    ∃ fault, scanString quote ⟨.plain, units, octal⟩ offset text = .error fault

/-- Behind a line break a string that goes on is among plain characters. -/
theorem step_line {quote : Char} {s later : StringState} (stepped : s.step quote '\n' = .next later) :
    later = ⟨.plain, later.units, later.octal⟩ := by
  have plain (s : StringState) : s.stepPlain quote '\n' ≠ .next later := by
    unfold StringState.stepPlain
    split
    · simp
    · rw [if_pos (by decide)]
      simp
  unfold StringState.step at stepped
  split at stepped
  · exact absurd stepped (plain _)
  · cases stepped
    rfl
  · cases stepped
    rfl
  · cases stepped
  · exact absurd stepped (plain _)

/-- A string ends in its first line, or in front of the line break if it goes on there without an end. -/
theorem scan_string_line {quote : Char} (quotes : quote = '"' ∨ quote = '\'') (unclosed : LeavesStringsOpen back)
    (inside : List Char) {s ended : StringState} {place : Place}
    (scanned : scanString quote s offset (inside ++ '\n' :: back) = .ok (ended, place)) :
    ∃ later, place.rest = later ++ '\n' :: back := by
  induction inside generalizing s offset with
  | nil =>
    rw [List.nil_append, scanString] at scanned
    cases stepped : s.step quote '\n' with
    | closed =>
      have same := step_closed stepped
      rcases quotes with rfl | rfl <;> cases same
    | fault f =>
      rw [stepped] at scanned
      cases scanned
    | next later =>
      rw [stepped, step_line stepped] at scanned
      obtain ⟨fault, failed⟩ := unclosed quote later.units later.octal (offset + '\n'.utf8Size) quotes
      dsimp only at scanned
      rw [failed] at scanned
      cases scanned
  | cons c inside ih =>
    rw [List.cons_append, scanString] at scanned
    cases stepped : s.step quote c with
    | closed =>
      rw [stepped] at scanned
      cases scanned
      exact ⟨inside, rfl⟩
    | fault f =>
      rw [stepped] at scanned
      cases scanned
    | next later =>
      rw [stepped] at scanned
      exact ih scanned

/-! ## Pieces and line breaks -/

/-- No number goes on in another line. -/
theorem number_within_line {octal : Bool} (spelling : NumberSpelling octal piece) : '\n' ∉ piece := by
  have plain : ∀ c ∈ piece, isBlank c = false := by
    cases spelling with
    | based announced _ valid =>
      rw [List.forall_mem_cons, List.forall_mem_cons]
      exact ⟨by decide, (announced_base announced).1, fun c mem => digit_not_blank (valid c mem)⟩
    | older _ allDigits =>
      rw [List.forall_mem_cons]
      exact ⟨by decide, fun c mem => numeral_character_not_blank (.inl (allDigits c mem))⟩
    | decimal n _ => exact fun c mem => numeral_character_not_blank (n.characters c mem)
  intro mem
  have blank := plain '\n' mem
  cases blank

/-- No mark goes on in another line. -/
theorem mark_within_line {text : List Char} {m : Mark} (found : Mark.atFront? text = some (piece, m)) :
    '\n' ∉ piece := by
  have known : (piece, m) ∈ Mark.spellings := by
    unfold Mark.atFront? at found
    exact List.mem_of_find?_eq_some found
  have flat : Mark.spellings.all (fun spelling => !spelling.1.contains '\n') = true := rfl
  simpa using List.all_eq_true.mp flat _ known

/-- A piece stands in one line, unless a string is read off it. -/
theorem piece_within_line {newline : Bool} (nonempty : piece ≠ [])
    (scanned : scanToken newline offset (piece ++ rest) = .ok (t, ⟨stop, rest⟩)) :
    '\n' ∉ piece ∨ ∃ quote tail ended, (quote = '"' ∨ quote = '\'') ∧ piece = quote :: tail ∧
      scanString quote ⟨.plain, [], false⟩ (offset + quote.utf8Size) (tail ++ rest) = .ok (ended, ⟨stop, rest⟩) := by
  obtain ⟨c, tail, rfl⟩ := List.exists_cons_of_ne_nil nonempty
  rw [List.cons_append] at scanned
  cases scan_token_iff.mp scanned with
  | word word span =>
    obtain ⟨parts, all, -⟩ := span_cut span
    obtain rfl := List.append_cancel_right parts
    refine .inl fun mem => ?_
    rcases List.mem_cons.mp mem with rfl | mem
    · cases word
    · cases all _ mem
  | number noWord starts read =>
    have splits := splits_scan_number starts.begins
    rw [read, ← List.cons_append] at splits
    obtain rfl := List.append_cancel_right splits.1
    exact .inl (number_within_line (number_spelling starts read))
  | string noWord noNumber quoted read => exact .inr ⟨c, tail, _, quoted, rfl, read⟩
  | mark noWord noNumber unquoted found parts =>
    rw [← List.cons_append] at parts
    obtain rfl := List.append_cancel_right parts
    exact .inl (mark_within_line found)

/-- A piece ends in front of a line break, unless a string goes on behind it. -/
theorem ReadsFirst.before_line (first : ReadsFirst offset gap piece rest t) (unclosed : LeavesStringsOpen back)
    (parts : front ++ '\n' :: back = piece ++ rest) (nonempty : front ≠ []) :
    ∃ later, front = piece ++ later ∧ rest = later ++ '\n' :: back := by
  rcases List.append_eq_append_iff.mp parts with ⟨inside, rfl, same⟩ | ⟨later, rfl, rfl⟩
  · cases inside with
    | nil => exact ⟨[], by simp, same.symm⟩
    | cons c inside =>
      obtain ⟨rfl, rfl⟩ := List.cons.inj same
      rcases piece_within_line first.nonempty first.read with flat | ⟨quote, tail, ended, quotes, whole, read⟩
      · simp at flat
      · obtain ⟨d, front, rfl⟩ := List.exists_cons_of_ne_nil nonempty
        rw [List.cons_append] at whole
        obtain ⟨rfl, rfl⟩ := List.cons.inj whole
        rw [List.append_assoc, List.cons_append] at read
        obtain ⟨later, behind⟩ := scan_string_line quotes unclosed front read
        have lengths := congrArg List.length behind
        simp at lengths
        omega
  · exact ⟨later, rfl, rfl⟩

/-! ## Comments and line breaks -/

/-- A comment is closed by a mark that ends with a slash. -/
theorem slash_of_closed {start : Nat} {newline ended : Bool} {place : Place}
    (skipped : skipGap (.blockComment start) newline offset back = .ok (ended, place)) : '/' ∈ back := by
  have awaits : (Gap.blockComment start).Awaits back := trivial
  obtain ⟨passed, rfl, -, -, body, rest, rfl, -, -⟩ := skip_gap_passes back awaits skipped
  simp

/-- What becomes of a gap at a line break: it ends before, or it goes on in the next line as if it began there, or a
comment that is open is closed behind it. -/
inductive LineGap (front back : List Char) (gap : Gap) (newline : Bool) (offset : Nat) (ended : Bool) (place : Place) :
    Prop where
  | ends {later : List Char} (nonempty : later ≠ []) (rest : place.rest = later ++ '\n' :: back)
      (skipped : skipGap gap newline offset front = .ok (ended, ⟨place.offset, later⟩))
  | goesOn {flag : Bool} {stop : Nat} (skipped : skipGap gap newline offset front = .ok (flag, ⟨stop, []⟩))
      (further : skipGap .open flag stop ('\n' :: back) = .ok (ended, place))
  | comment {fault : LexicalFault} (failed : skipGap gap newline offset front = .error fault) (closed : '/' ∈ back)

/-- The gap goes on behind one character. -/
theorem LineGap.step {c : Char} {gap next : Gap} {newline seen ended : Bool} {place : Place}
    (same : skipGap gap newline offset (c :: front) = skipGap next seen offset' front)
    (line : LineGap front back next seen offset' ended place) : LineGap (c :: front) back gap newline offset ended place := by
  cases line with
  | ends nonempty rest skipped => exact .ends nonempty rest (same.trans skipped)
  | goesOn skipped further => exact .goesOn (same.trans skipped) further
  | comment failed closed => exact .comment (same.trans failed) closed

theorem line_gap (front : List Char) {gap : Gap} {newline ended : Bool} {place : Place}
    (skipped : skipGap gap newline offset (front ++ '\n' :: back) = .ok (ended, place))
    (awaits : gap.Awaits (front ++ '\n' :: back)) :
    LineGap front back gap newline offset ended place := by
  induction front generalizing gap newline offset with
  | nil =>
    cases gap with
    | «open» => exact .goesOn rfl skipped
    | lineComment => exact .goesOn rfl skipped
    | blockOpening start => cases awaits
    | blockComment start => exact .comment rfl (slash_of_closed skipped)
    | blockClosing => cases awaits
  | cons c front ih =>
    -- The character behind is the same, or it is the line break, which belongs to no mark.
    have same : gap.step offset c (front ++ '\n' :: back).head? = gap.step offset c front.head? := by
      cases front with
      | nil => cases gap <;> simp [Gap.step]
      | cons d front => rfl
    rw [List.cons_append] at skipped
    cases stepped : gap.step offset c (front ++ '\n' :: back).head? with
    | none =>
      rw [skip_gap_stop stepped] at skipped
      cases skipped
      exact .ends (List.cons_ne_nil c front) rfl (skip_gap_stop (same.symm.trans stepped))
    | some next =>
      rw [skip_gap_step stepped] at skipped
      exact .step (skip_gap_step (same.symm.trans stepped)) (ih skipped (awaits_of_step stepped))

/-- A comment is open at the end of a text. -/
inductive LeavesComment : List Char → Prop where
  | here {text : List Char} {newline : Bool} {offset : Nat} {fault : LexicalFault}
      (failed : skipGap .open newline offset text = .error fault) : LeavesComment text
  | behind {offset : Nat} {gap piece rest : List Char} {t : Token} (first : ReadsFirst offset gap piece rest t)
      (later : LeavesComment rest) : LeavesComment (gap ++ (piece ++ rest))

/-- A gap that is at fault is so at any offset. -/
theorem gap_fails {text : List Char} {newline : Bool} {fault : LexicalFault}
    (failed : skipGap .open newline offset text = .error fault) (newline' : Bool) (offset' : Nat) :
    ∃ fault, skipGap .open newline' offset' text = .error fault := by
  cases skipped : skipGap .open newline' offset' text with
  | error fault => exact ⟨fault, rfl⟩
  | ok result =>
    obtain ⟨ended, place⟩ := result
    have awaits : Gap.open.Awaits text := trivial
    have apart := skip_gap_stops text skipped
    obtain ⟨passed, rfl, -, -, separates⟩ := skip_gap_passes text awaits skipped
    rw [skip_gap_separates separates apart] at failed
    cases failed

/-- The scanner goes on behind the first token. -/
theorem ReadsFirst.tokens_from (first : ReadsFirst offset gap piece rest t) (fuel : Nat) (done : List Token) :
    tokensFrom (fuel + 1) done ⟨offset, gap ++ (piece ++ rest)⟩ =
      tokensFrom fuel (t :: done) ⟨offset + byteLength gap + byteLength piece, rest⟩ := by
  have goesOn : ¬ (t.kind == .endOfInput) = true := by simpa using first.read_off.1.kind
  simp only [tokensFrom, skip_gap_separates first.separates first.apart, bind, Except.bind, Bool.false_or, first.read]
  rw [if_neg goesOn]

theorem LeavesComment.fault {text : List Char} (leaves : LeavesComment text) (fuel : Nat) (lasts : text.length < fuel)
    (offset : Nat) (done : List Token) :
    ∃ fault, tokensFrom fuel done ⟨offset, text⟩ = .error fault ∧ fault.fault = .unterminatedComment := by
  induction leaves generalizing fuel offset done with
  | @here text _ _ _ failed =>
    obtain ⟨fuel, rfl⟩ : ∃ n, fuel = n + 1 := ⟨fuel - 1, by omega⟩
    obtain ⟨fault, known⟩ := gap_fails failed false offset
    refine ⟨fault, ?_, (skip_gap_fault text known).1⟩
    simp only [tokensFrom, known, bind, Except.bind]
  | @behind _ gap piece rest t first _ ih =>
    obtain ⟨fuel, rfl⟩ : ∃ n, fuel = n + 1 := ⟨fuel - 1, by omega⟩
    have positive := List.length_pos_iff.mpr first.nonempty
    rw [List.length_append, List.length_append] at lasts
    rw [(first.elsewhere (fun _ => .inl) offset first.separates).tokens_from]
    exact ih fuel (by omega) _ _

/-- A text in which a comment is left open has no tokens. -/
theorem LeavesComment.tokens_of {source : String} (leaves : LeavesComment source.toList) :
    ∃ d, tokensOf source = .error d ∧ d.fault = .unterminatedComment := by
  obtain ⟨fault, failed, known⟩ := leaves.fault (source.toList.length + 1) (Nat.lt_succ_self _) 0 []
  refine ⟨⟨.lexing, fault.fault, fault.span, []⟩, ?_, known⟩
  unfold tokensOf
  dsimp only
  rw [failed]

/-! ## Splitting -/

/-- A gap that goes on in the next line separates tokens in both. -/
theorem separates_of_line {front back : List Char} {newline flag ended : Bool} {stop : Nat} {place : Place}
    (skipped : skipGap .open newline offset front = .ok (flag, ⟨stop, []⟩))
    (further : skipGap .open flag stop ('\n' :: back) = .ok (ended, place)) :
    Separates [] front ∧ ∃ passed, '\n' :: back = passed ++ place.rest ∧ Separates place.rest passed := by
  have awaits (text : List Char) : Gap.open.Awaits text := trivial
  obtain ⟨passed, same, -, -, separates⟩ := skip_gap_passes front (awaits _) skipped
  rw [List.append_nil] at same
  obtain ⟨passed', same', -, -, separates'⟩ := skip_gap_passes ('\n' :: back) (awaits _) further
  exact ⟨same ▸ separates, passed', same', separates'⟩

/-- The tokens of lines are those of the first ones and those of the others, unless a comment goes on from the former to
the latter. -/
theorem Scans.split {text : List Char} (scans : Scans offset text tokens) (parts : text = front ++ '\n' :: back)
    (unclosed : LeavesStringsOpen back) :
    (∃ first stop later, tokens = first ++ later ∧ Scans offset front (first ++ [endToken stop]) ∧
      Scans (offset + byteLength front) ('\n' :: back) later) ∨ LeavesComment front ∧ '/' ∈ back := by
  induction scans generalizing front with
  | @stop offset gap separates =>
    subst parts
    have skipped := skip_gap_separates separates (fun _ _ same => by cases same) false offset
    rw [List.append_nil] at skipped
    cases line_gap front skipped trivial with
    | ends nonempty rest _ => simp at rest
    | goesOn skipped further =>
      obtain ⟨blank, passed, same, blank'⟩ := separates_of_line skipped further
      rw [List.append_nil] at same
      subst same
      have place : offset + byteLength (front ++ '\n' :: back) =
          offset + byteLength front + byteLength ('\n' :: back) := by
        rw [byteLength_append, Nat.add_assoc]
      exact .inl ⟨[], _, _, rfl, .stop blank, place ▸ .stop blank'⟩
    | comment failed closed => exact .inr ⟨.here failed, closed⟩
  | @token offset gap piece rest t later first behind ih =>
    have skipped := skip_gap_separates first.separates first.apart false offset
    rw [parts] at skipped
    cases line_gap front skipped trivial with
    | @ends inside nonempty same skipped =>
      have awaits : Gap.open.Awaits front := trivial
      obtain ⟨passed, rfl, -, -, -⟩ := skip_gap_passes front awaits skipped
      dsimp only at same parts
      rw [same, List.append_assoc] at parts
      obtain rfl : gap = passed := List.append_cancel_right parts
      obtain ⟨inside, rfl, rfl⟩ := first.before_line unclosed same.symm nonempty
      have begins : (piece ++ inside).head? = (piece ++ (inside ++ '\n' :: back)).head? := by
        obtain ⟨c, piece, rfl⟩ := List.exists_cons_of_ne_nil first.nonempty
        rfl
      have first' := first.stays (alike_of_line inside back) (first.separates.of_head begins) rfl rfl
      rcases ih rfl with ⟨front, stop, others, rfl, inner, last⟩ | ⟨leaves, closed⟩
      · refine .inl ⟨t :: front, stop, others, rfl, .token first' inner, ?_⟩
        have place : offset + byteLength (gap ++ (piece ++ inside)) =
            offset + byteLength gap + byteLength piece + byteLength inside := by
          rw [byteLength_append, byteLength_append, Nat.add_assoc, Nat.add_assoc]
        rwa [place]
      · exact .inr ⟨.behind first' leaves, closed⟩
    | goesOn skipped further =>
      obtain ⟨blank, passed, same, blank'⟩ := separates_of_line skipped further
      dsimp only at same blank'
      have joined : gap ++ (piece ++ rest) = (front ++ passed) ++ (piece ++ rest) := by
        rw [parts, same, List.append_assoc]
      obtain rfl : gap = front ++ passed := List.append_cancel_right joined
      cases passed with
      | nil => cases (first.apart '\n' back same.symm).1
      | cons c passed =>
        obtain ⟨rfl, rfl⟩ := List.cons.inj same
        have place : offset + byteLength front + byteLength ('\n' :: passed) =
            offset + byteLength (front ++ '\n' :: passed) := by
          rw [byteLength_append, Nat.add_assoc]
        have line : ('\n' :: passed).any isLineTerminator = (front ++ '\n' :: passed).any isLineTerminator := by
          simp [isLineTerminator]
        have token := Scans.token (first.stays (fun _ => .inl) blank' place line) (by rwa [place])
        exact .inl ⟨[], _, _, rfl, .stop blank, token⟩
    | comment failed closed => exact .inr ⟨.here failed, closed⟩

end ScriptEngine.Scanning
