import ScriptEngine.Proofs.Scanning.Gaps
import ScriptEngine.Proofs.Scanning.Pieces

/-!
The tokens of a script leave nothing of it out. A script is a row of gaps and of pieces that tokens are read
off, in turn, and it ends with a gap: so tokens stand in order and apart from each other, what is between them
only separates them, and the text of each can be found again from its span.
-/

namespace ScriptEngine.Scanning

open Text

/-- The token at the end of a script. -/
def endToken (offset : Nat) : Token :=
  ⟨.endOfInput, "", ⟨offset, offset⟩, true, false⟩

/-- What is left of a script at an offset is laid out in gaps and pieces, and these are the tokens read off the
pieces. -/
inductive Layout : Nat → List Char → List Token → Prop where
  | stop {offset : Nat} {gap : List Char} (separates : Separates [] gap) :
      Layout offset gap [endToken (offset + byteLength gap)]
  | token {offset : Nat} {gap piece rest : List Char} {t : Token} {later : List Token}
      (separates : Separates (piece ++ rest) gap)
      (newline : t.newlineBefore = gap.any isLineTerminator)
      (readOff : ReadOff (offset + byteLength gap) piece t)
      (layout : Layout (offset + byteLength gap + byteLength piece) rest later) :
      Layout offset (gap ++ (piece ++ rest)) (t :: later)

/-! ## Scanning -/

/-- The scanner lays out what is left of the script behind the tokens it has, or reports a part of the script. -/
def TokensScan (source : List Char) (place : Place) (done : List Token) :
    Except LexicalFault (List Token) → Prop
  | .ok tokens => ∃ later, tokens = done.reverse ++ later ∧ Layout place.offset place.rest later
  | .error fault => fault.fault ≠ .brokenReader ∧ fault.span.Fits source

/-- The fault of a gap is reported for a part of the script. -/
theorem gap_fault_fits {passed rest : List Char} {fault : LexicalFault}
    (failed : skipGap .open false (byteLength passed) rest = .error fault) :
    fault.fault ≠ .brokenReader ∧ fault.span.Fits (passed ++ rest) := by
  obtain ⟨known, stop, start⟩ := skip_gap_fault rest failed
  refine ⟨by simp [known], fits_iff.mpr ?_⟩
  obtain ⟨before, behind, rfl, begun⟩ := start.resolve_left (by simp [Gap.begun])
  refine ⟨passed ++ before, behind, [], by simp, ?_⟩
  rw [byteLength_append] at stop ⊢
  cases h : fault.span
  simp_all [Nat.add_assoc]

theorem tokens_from_splits (source : List Char) (fuel : Nat) (done : List Token) (place : Place)
    (passed : List Char) (same : source = passed ++ place.rest) (counted : place.offset = byteLength passed)
    (lasts : place.rest.length < fuel) : TokensScan source place done (tokensFrom fuel done place) := by
  induction fuel generalizing done place passed with
  | zero => omega
  | succ fuel ih =>
    obtain ⟨offset, rest⟩ := place
    dsimp only at same counted lasts
    subst counted
    simp only [tokensFrom]
    cases skipped : skipGap .open false (byteLength passed) rest with
    | error fault => exact same ▸ gap_fault_fits skipped
    | ok gapped =>
      obtain ⟨newline, start⟩ := gapped
      have awaits : Gap.open.Awaits rest := trivial
      obtain ⟨gap, rfl, counted, flag, separates⟩ := skip_gap_passes rest awaits skipped
      obtain ⟨offset, rest⟩ := start
      dsimp only at *
      subst counted
      rw [Bool.false_or] at flag
      subst flag
      by_cases none : rest = []
      · subst none
        rw [List.append_nil] at *
        exact ⟨[endToken (byteLength passed + byteLength gap)], List.reverse_cons, .stop separates⟩
      · have splits := scan_token_splits none (gap.any isLineTerminator) (byteLength passed + byteLength gap)
        dsimp only [bind, Except.bind]
        cases scanned : scanToken (gap.any isLineTerminator) (byteLength passed + byteLength gap) rest with
        | error fault =>
          rw [scanned] at splits
          obtain ⟨known, front, ⟨behind, rfl⟩, place⟩ := splits
          refine ⟨known, ?_⟩
          rw [place, same, ← byteLength_append, ← List.append_assoc]
          exact fits_between _ _ _
        | ok read =>
          obtain ⟨t, next⟩ := read
          rw [scanned] at splits
          obtain ⟨piece, rfl, counted, readOff, newline⟩ := splits
          have goesOn : (t.kind == .endOfInput) = false := beq_eq_false_iff_ne.mpr readOff.kind
          have taken := List.length_pos_iff.mpr readOff.nonempty
          rw [List.length_append, List.length_append] at lasts
          have inner := ih (t :: done) next (passed ++ gap ++ piece) (by simp [same])
            (by simp [counted, Nat.add_assoc]) (by omega)
          dsimp only
          rw [goesOn]
          revert inner
          cases tokensFrom fuel (t :: done) next with
          | error fault => exact id
          | ok tokens =>
            rintro ⟨later, rfl, layout⟩
            rw [counted] at layout
            exact ⟨t :: later, by simp, .token separates newline readOff layout⟩

/-- Every script is laid out in tokens, or a part of it is at fault. -/
theorem tokens_of_splits (source : String) :
    match tokensOf source with
    | .ok tokens => Layout 0 source.toList tokens
    | .error d => d.fault ≠ .brokenReader ∧ d.span.Fits source.toList := by
  have splits := tokens_from_splits source.toList (source.toList.length + 1) [] ⟨0, source.toList⟩ [] rfl rfl
    (Nat.lt_succ_self _)
  unfold tokensOf
  revert splits
  dsimp only
  cases tokensFrom (source.toList.length + 1) [] ⟨0, source.toList⟩ with
  | ok tokens =>
    rintro ⟨later, rfl, layout⟩
    exact layout
  | error fault => exact id

/-! ## What a layout shows -/

/-- Where the gap before a token begins: at the end of the token before it, or with the script. -/
def gapStart (offset : Nat) (before : List Token) : Nat :=
  before.getLast?.elim offset (·.span.stop)

/-- Tokens can be found in a text, and nothing else is in it but what separates them. -/
structure Lossless (offset : Nat) (text : List Char) (tokens : List Token) : Prop where
  /-- Tokens stand one behind the other. -/
  ordered : tokens.Pairwise fun first second => first.span.stop ≤ second.span.start
  /-- No token cuts a character. -/
  fits : ∀ t ∈ tokens, t.span.Fits text
  /-- A token takes text, unless it is the end of the input. -/
  nonempty : ∀ t ∈ tokens, t.kind ≠ .endOfInput → t.span.start < t.span.stop
  /-- The last token, and no other, is the end of the input, and it stands at the end of the text. -/
  ends : ∃ front stop, tokens = front ++ [stop] ∧ (∀ t ∈ front, t.kind ≠ .endOfInput) ∧
    stop.kind = .endOfInput ∧ stop.span = ⟨byteLength text, byteLength text⟩
  /-- Before each token there is a gap that may separate it from the one before, and the token is marked if a
  line ends in the gap. -/
  gaps : ∀ before t later, tokens = before ++ t :: later →
    ∃ gap, Span.slice? ⟨gapStart offset before, t.span.start⟩ text = some gap ∧
      Separates (dropBytes t.span.start text) gap ∧
      (t.kind ≠ .endOfInput → (t.newlineBefore = true ↔ ∃ c ∈ gap, isLineTerminator c = true))
  /-- A token that is no string holds its own text. -/
  lexemes : ∀ t ∈ tokens, t.kind ≠ .string → t.kind ≠ .endOfInput →
    t.span.slice? text = some t.lexeme.toList
  /-- A string stands between quotes of one kind. -/
  strings : ∀ t ∈ tokens, t.kind = .string → ∃ quote inside, (quote = '"' ∨ quote = '\'') ∧
    t.span.slice? text = some (quote :: (inside ++ [quote]))

/-- Tokens that stand behind one keep their order behind it. -/
theorem Layout.behind {offset : Nat} {text : List Char} {tokens : List Token}
    (layout : Layout offset text tokens) : ∀ t ∈ tokens, offset ≤ t.span.start := by
  induction layout with
  | stop => simp [endToken]
  | token separates newline readOff layout ih =>
    intro t mem
    cases mem with
    | head => simp [readOff.span]
    | tail _ mem =>
      have later := ih t mem
      omega

/-- Of a script that is left as a gap only the end of the input is found. -/
theorem lossless_end (passed : List Char) {gap : List Char} (separates : Separates [] gap) :
    Lossless (byteLength passed) (passed ++ gap) [endToken (byteLength passed + byteLength gap)] := by
  have whole : byteLength (passed ++ gap) = byteLength passed + byteLength gap := byteLength_append _ _
  have fits := fits_between (passed ++ gap) [] []
  have between := slice_of_parts passed gap []
  simp only [List.append_nil, byteLength_nil, Nat.add_zero] at fits between
  refine {
    ordered := List.pairwise_singleton _ _
    fits := ?_
    nonempty := by simp [endToken]
    ends := ⟨[], _, rfl, by simp, rfl, by rw [whole]; rfl⟩
    gaps := ?_
    lexemes := by simp [endToken]
    strings := by simp [endToken] }
  · intro t mem
    rw [List.mem_singleton.mp mem, endToken, ← whole]
    exact fits
  · intro before t later same
    cases before with
    | nil =>
      obtain ⟨rfl, rfl⟩ := List.cons.inj same
      refine ⟨gap, between, ?_, by simp [endToken]⟩
      have behind := dropBytes_byteLength (passed ++ gap) []
      rw [List.append_nil, whole] at behind
      rw [endToken, behind]
      exact separates
    | cons first before => simp at same

/-- A token in front of others is found, too, if it is read off the piece behind a gap. -/
theorem lossless_cons {passed gap piece rest : List Char} {t : Token} {later : List Token}
    (separates : Separates (piece ++ rest) gap) (newline : t.newlineBefore = gap.any isLineTerminator)
    (readOff : ReadOff (byteLength passed + byteLength gap) piece t)
    (behind : ∀ next ∈ later, t.span.stop ≤ next.span.start)
    (inner : Lossless t.span.stop (passed ++ (gap ++ (piece ++ rest))) later) :
    Lossless (byteLength passed) (passed ++ (gap ++ (piece ++ rest))) (t :: later) := by
  have fits := fits_between (passed ++ gap) piece rest
  have slice := slice_of_parts (passed ++ gap) piece rest
  rw [byteLength_append, ← readOff.span, List.append_assoc] at fits slice
  have start : t.span.start = byteLength passed + byteLength gap := by rw [readOff.span]
  refine {
    ordered := List.pairwise_cons.mpr ⟨behind, inner.ordered⟩
    fits := List.forall_mem_cons.mpr ⟨fits, inner.fits⟩
    nonempty := List.forall_mem_cons.mpr ⟨fun _ => ?_, inner.nonempty⟩
    ends := ?_
    gaps := ?_
    lexemes := List.forall_mem_cons.mpr ⟨fun plain _ => ?_, inner.lexemes⟩
    strings := List.forall_mem_cons.mpr ⟨fun string => ?_, inner.strings⟩ }
  · obtain ⟨c, tail, same⟩ := List.exists_cons_of_ne_nil readOff.nonempty
    have positive := c.utf8Size_pos
    rw [readOff.span, same, byteLength_cons]
    dsimp only
    omega
  · obtain ⟨front, stop, same, others, last, place⟩ := inner.ends
    exact ⟨t :: front, stop, by rw [same]; rfl, List.forall_mem_cons.mpr ⟨readOff.kind, others⟩, last, place⟩
  · intro before next behind same
    cases before with
    | nil =>
      obtain ⟨rfl, rfl⟩ := List.cons.inj same
      refine ⟨gap, ?_, ?_, fun _ => by rw [newline, List.any_eq_true]⟩
      · have between := slice_of_parts passed gap (piece ++ rest)
        rwa [← start] at between
      · have rest := dropBytes_byteLength (passed ++ gap) (piece ++ rest)
        rw [byteLength_append, ← start, List.append_assoc] at rest
        rwa [rest]
    | cons first before =>
      obtain ⟨rfl, others⟩ := List.cons.inj same
      obtain ⟨space, found, apart, flag⟩ := inner.gaps before next behind others
      refine ⟨space, ?_, apart, flag⟩
      rw [← found, gapStart, gapStart, List.getLast?_cons]
      cases before.getLast? <;> simp
  · rw [slice, readOff.lexeme plain, String.toList_ofList]
  · obtain ⟨quote, inside, quotes, rfl⟩ := readOff.quoted string
    exact ⟨quote, inside, quotes, slice⟩

theorem lossless_of_layout {offset : Nat} {text : List Char} {tokens : List Token}
    (layout : Layout offset text tokens) (passed : List Char) (counted : offset = byteLength passed) :
    Lossless offset (passed ++ text) tokens := by
  induction layout generalizing passed with
  | @stop offset gap separates =>
    subst counted
    exact lossless_end passed separates
  | @token offset gap piece rest t later separates newline readOff layout ih =>
    subst counted
    have stop : t.span.stop = byteLength passed + byteLength gap + byteLength piece := by rw [readOff.span]
    have inner := ih (passed ++ gap ++ piece) (by simp [Nat.add_assoc])
    have parts : passed ++ gap ++ piece ++ rest = passed ++ (gap ++ (piece ++ rest)) := by simp
    rw [parts, ← stop] at inner
    exact lossless_cons separates newline readOff (fun next mem => stop ▸ layout.behind next mem) inner

/-- The tokens of a script stand in order, apart from each other and on whole characters; only white space,
line ends and complete comments are between them, a token knows whether a line ends before it, and the text of a
token that is no string is what the script has in its span. -/
theorem tokens_lossless (source : String) (tokens : List Token) (read : tokensOf source = .ok tokens) :
    Lossless 0 source.toList tokens := by
  have layout := tokens_of_splits source
  rw [read] at layout
  exact lossless_of_layout layout [] rfl

/-- Between a name and a string of a letter of two bytes there is a comment in which a line ends, and another
comment ends the script. -/
theorem tokens_lossless_comments :
    tokensOf "a /*\n*/ \"é\" // b" = .ok [
      ⟨.identifier, "a", ⟨0, 1⟩, false, false⟩, ⟨.string, "é", ⟨8, 12⟩, true, false⟩, endToken 17] ∧
    Lossless 0 "a /*\n*/ \"é\" // b".toList [
      ⟨.identifier, "a", ⟨0, 1⟩, false, false⟩, ⟨.string, "é", ⟨8, 12⟩, true, false⟩, endToken 17] :=
  have read : tokensOf "a /*\n*/ \"é\" // b" = .ok [
      ⟨.identifier, "a", ⟨0, 1⟩, false, false⟩, ⟨.string, "é", ⟨8, 12⟩, true, false⟩, endToken 17] := by
    decide +kernel
  ⟨read, tokens_lossless _ _ read⟩

end ScriptEngine.Scanning
