import Mathlib.Data.List.TakeDrop
import ScriptEngine.Proofs.Scanning.Boundaries
import ScriptEngine.Syntax.Scanning

/-!
The pieces of a script that its tokens are read off. A token takes a front of the text that is left, one
character at least, and its span and its lexeme are those of this piece. A piece that cannot be read is reported
for a front of the text, too.
-/

namespace ScriptEngine.Scanning

open Text

/-! ## Numbers -/

theorem span_append (p : Char → Bool) (text : List Char) : (text.span p).1 ++ (text.span p).2 = text := by
  rw [List.span_eq_takeWhile_dropWhile, List.takeWhile_append_dropWhile]

theorem span_digits_append (text : List Char) : (spanDigits text).1 ++ (spanDigits text).2 = text :=
  span_append _ text

/-- What is scanned as a number stands at the front of the text, and so do the characters up to a fault. -/
def NumberScan.Splits (text : List Char) : NumberScan → Prop
  | .ok (lexeme, rest) => text = lexeme ++ rest ∧ lexeme ≠ []
  | .error (fault, passed) => fault ≠ .brokenReader ∧ passed <+: text

theorem splits_end_number {lexeme : List Char} (begun : lexeme ≠ []) (rest : List Char) :
    (endNumber lexeme rest).Splits (lexeme ++ rest) := by
  unfold endNumber
  split
  · next c rest =>
    split
    · exact ⟨by simp, rest, by simp⟩
    · exact ⟨rfl, begun⟩
  · exact ⟨rfl, begun⟩

theorem splits_scan_exponent {lexeme : List Char} (begun : lexeme ≠ []) (rest : List Char) :
    (scanExponent lexeme rest).Splits (lexeme ++ rest) := by
  unfold scanExponent
  split
  · next mark afterMark =>
    split
    · have read (sign unsigned : List Char) (same : sign ++ unsigned = afterMark) :
          NumberScan.Splits (lexeme ++ mark :: afterMark)
            (if (spanDigits unsigned).1.isEmpty then
              .error (.missingExponentDigits, lexeme ++ mark :: sign ++ (spanDigits unsigned).1)
            else endNumber (lexeme ++ mark :: sign ++ (spanDigits unsigned).1) (spanDigits unsigned).2) := by
        have parts : lexeme ++ mark :: afterMark =
            (lexeme ++ mark :: sign ++ (spanDigits unsigned).1) ++ (spanDigits unsigned).2 := by
          rw [List.append_assoc, span_digits_append, List.append_assoc, List.cons_append, same]
        rw [parts]
        split
        · exact ⟨by simp, List.prefix_append _ _⟩
        · exact splits_end_number (by simp) _
      split
      next sign unsigned signed =>
      split at signed
      · cases signed
        exact read ['+'] _ rfl
      · cases signed
        exact read ['-'] _ rfl
      · cases signed
        exact read [] _ rfl
    · exact splits_end_number begun _
  · exact splits_end_number begun _

/-- A number begins with a digit or with a point. -/
def BeginsNumber (text : List Char) : Prop :=
  ∃ c rest, text = c :: rest ∧ (c.isDigit ∨ c = '.')

/-- A number begins with a digit, or with a point and a digit. -/
def StartsNumber (text : List Char) : Prop :=
  ∃ c tail, text = c :: tail ∧ (c.isDigit || (c == '.' && tail.head?.any (·.isDigit))) = true

theorem starts_number_cons {c : Char} {tail : List Char} :
    StartsNumber (c :: tail) ↔ (c.isDigit || (c == '.' && tail.head?.any (·.isDigit))) = true := by
  refine ⟨?_, fun starts => ⟨c, tail, rfl, starts⟩⟩
  rintro ⟨c, tail, same, starts⟩
  cases same
  exact starts

theorem StartsNumber.begins {text : List Char} (starts : StartsNumber text) : BeginsNumber text := by
  obtain ⟨c, tail, rfl, starts⟩ := starts
  refine ⟨c, tail, rfl, ?_⟩
  simp only [Bool.or_eq_true, Bool.and_eq_true, beq_iff_eq] at starts
  exact starts.imp_right And.left

theorem splits_scan_decimal {text : List Char} (begins : BeginsNumber text) :
    (scanDecimal text).Splits text := by
  have whole := span_digits_append text
  unfold scanDecimal
  split
  next digits afterDigits read =>
  rw [read] at whole
  dsimp only at whole
  subst whole
  split
  · next rest =>
    have parts : digits ++ '.' :: rest = (digits ++ '.' :: (spanDigits rest).1) ++ (spanDigits rest).2 := by
      rw [List.append_assoc, List.cons_append, span_digits_append]
    rw [parts]
    exact splits_scan_exponent (by simp) _
  · next noPoint =>
    refine splits_scan_exponent (fun none => ?_) _
    subst none
    obtain ⟨c, rest, same, digit | point⟩ := begins
    · rw [List.nil_append] at same read
      simp [spanDigits, same, digit] at read
    · exact noPoint rest (point ▸ same)

theorem splits_scan_based (base : Nat) (mark : Char) (text : List Char) :
    (scanBased base mark text).Splits ('0' :: mark :: text) := by
  have parts := span_append (fun c => (digitValue? base c).isSome) text
  unfold scanBased
  split
  next digits rest read =>
  rw [read] at parts
  dsimp only at parts
  subst parts
  dsimp only
  split
  · exact ⟨by simp, rest, rfl⟩
  · have begun : '0' :: mark :: digits ≠ [] := List.cons_ne_nil _ _
    exact splits_end_number begun rest

theorem splits_scan_number {text : List Char} (begins : BeginsNumber text) :
    (scanNumber text).2.Splits text := by
  unfold scanNumber
  split
  · next mark rest =>
    split
    · exact splits_scan_based _ mark rest
    · split
      · have parts := span_digits_append (mark :: rest)
        have read := splits_end_number (List.cons_ne_nil '0' (spanDigits (mark :: rest)).1)
          (spanDigits (mark :: rest)).2
        rwa [List.cons_append, parts] at read
      · exact splits_scan_decimal begins
  · exact splits_scan_decimal begins

/-! ## Strings -/

theorem step_plain_closed {quote c : Char} {s : StringState} (closed : s.stepPlain quote c = .closed) :
    c = quote := by
  unfold StringState.stepPlain at closed
  split at closed
  · next same => exact beq_iff_eq.mp same
  · split at closed
    · cases closed
    · split at closed <;> cases closed

/-- Only its quote closes a string. -/
theorem step_closed {quote c : Char} {s : StringState} (closed : s.step quote c = .closed) : c = quote := by
  unfold StringState.step at closed
  split at closed
  · exact step_plain_closed closed
  · cases closed
  · split at closed
    · cases closed
    · exact step_plain_closed closed
  · dsimp only at closed
    split at closed <;> cases closed
  · split at closed
    · cases closed
    · exact step_plain_closed closed

theorem step_plain_fault {quote c : Char} {s : StringState} {f : SyntaxFault}
    (fault : s.stepPlain quote c = .fault f) : f ≠ .brokenReader := by
  unfold StringState.stepPlain at fault
  split at fault
  · cases fault
  · split at fault
    · cases fault
      simp
    · split at fault <;> cases fault

theorem step_fault {quote c : Char} {s : StringState} {f : SyntaxFault} (fault : s.step quote c = .fault f) :
    f ≠ .brokenReader := by
  unfold StringState.step at fault
  split at fault
  · exact step_plain_fault fault
  · cases fault
  · split at fault
    · cases fault
    · exact step_plain_fault fault
  · dsimp only at fault
    split at fault
    · cases fault
      simp
    · cases fault
  · split at fault
    · cases fault
    · exact step_plain_fault fault

theorem fault_at_end (s : StringState) : s.faultAtEnd ≠ .brokenReader := by
  unfold StringState.faultAtEnd
  split <;> simp

/-- A string that is scanned is cut off the front of a text, and its quote with it; a fault in it shows at
the end of a front. -/
def StringScan (quote : Char) (offset : Nat) (text : List Char) :
    Except (SyntaxFault × Nat) (StringState × Place) → Prop
  | .ok (_, place) => ∃ inside, text = inside ++ quote :: place.rest ∧
      place.offset = offset + byteLength inside + quote.utf8Size
  | .error (fault, stop) => fault ≠ .brokenReader ∧ ∃ passed, passed <+: text ∧ stop = offset + byteLength passed

theorem scan_string_splits (quote : Char) (text : List Char) (s : StringState) (offset : Nat) :
    StringScan quote offset text (scanString quote s offset text) := by
  induction text generalizing s offset with
  | nil => exact ⟨fault_at_end s, [], List.prefix_rfl, rfl⟩
  | cons c text ih =>
    unfold scanString
    cases stepped : s.step quote c with
    | closed =>
      rw [step_closed stepped]
      exact ⟨[], rfl, rfl⟩
    | fault f => exact ⟨step_fault stepped, [c], ⟨text, rfl⟩, rfl⟩
    | next later =>
      have inner := ih later (offset + c.utf8Size)
      dsimp only
      revert inner
      cases scanString quote later (offset + c.utf8Size) text with
      | ok scanned =>
        rintro ⟨inside, rfl, counted⟩
        refine ⟨c :: inside, rfl, ?_⟩
        rw [counted, byteLength_cons]
        omega
      | error fault =>
        rintro ⟨known, passed, front, counted⟩
        refine ⟨known, c :: passed, List.cons_prefix_cons.mpr ⟨rfl, front⟩, ?_⟩
        rw [counted, byteLength_cons]
        omega

/-! ## Tokens -/

/-- A mark is found at the front of a text, and it has a spelling. -/
theorem mark_at_front {text lexeme : List Char} {m : Mark} (found : Mark.atFront? text = some (lexeme, m)) :
    ∃ rest, text = lexeme ++ rest ∧ lexeme ≠ [] := by
  unfold Mark.atFront? at found
  have front := List.find?_some found
  have spelled := List.mem_of_find?_eq_some found
  have full : ∀ spelling ∈ Mark.spellings, spelling.1 ≠ [] := by decide
  obtain ⟨rest, same⟩ := List.isPrefixOf_iff_prefix.mp front
  exact ⟨rest, same.symm, full _ spelled⟩

/-- A token is read off a piece of the script that begins at an offset. Only a string differs from its
piece, which stands between quotes. -/
structure ReadOff (offset : Nat) (piece : List Char) (token : Token) : Prop where
  nonempty : piece ≠ []
  span : token.span = ⟨offset, offset + byteLength piece⟩
  kind : token.kind ≠ .endOfInput
  lexeme : token.kind ≠ .string → token.lexeme = String.ofList piece
  quoted : token.kind = .string → ∃ quote inside, (quote = '"' ∨ quote = '\'') ∧
    piece = quote :: (inside ++ [quote])

/-- A token is read off the front of a text; if there is none, a front of the text is at fault. -/
def TokenScan (newlineBefore : Bool) (offset : Nat) (text : List Char) :
    Except LexicalFault (Token × Place) → Prop
  | .ok (token, next) => ∃ piece, text = piece ++ next.rest ∧ next.offset = offset + byteLength piece ∧
      ReadOff offset piece token ∧ token.newlineBefore = newlineBefore
  | .error fault => fault.fault ≠ .brokenReader ∧
      ∃ passed, passed <+: text ∧ fault.span = ⟨offset, offset + byteLength passed⟩

theorem plain_token_scan {kind : TokenKind} {lexeme rest : List Char} {newlineBefore octal : Bool}
    {offset : Nat} (nonempty : lexeme ≠ []) (known : kind ≠ .endOfInput) (plain : kind ≠ .string) :
    TokenScan newlineBefore offset (lexeme ++ rest)
      (.ok (plainToken kind lexeme newlineBefore octal offset rest)) :=
  ⟨lexeme, rfl, rfl, ⟨nonempty, rfl, known, fun _ => rfl, fun string => absurd string plain⟩, rfl⟩

theorem word_kind (word : String) : wordKind word ≠ .endOfInput ∧ wordKind word ≠ .string := by
  unfold wordKind
  split <;> simp

theorem scan_token_splits {text : List Char} (nonempty : text ≠ []) (newlineBefore : Bool) (offset : Nat) :
    TokenScan newlineBefore offset text (scanToken newlineBefore offset text) := by
  obtain ⟨c, text, rfl⟩ := List.exists_cons_of_ne_nil nonempty
  unfold scanToken
  dsimp only
  split
  · -- A word.
    have parts := span_append isNamePart text
    have kinds := word_kind (String.ofList (c :: (text.span isNamePart).1))
    have full : c :: (text.span isNamePart).1 ≠ [] := List.cons_ne_nil _ _
    have scan (octal : Bool) (rest : List Char) :
        TokenScan newlineBefore offset _ (.ok (plainToken _ _ _ octal _ rest)) :=
      plain_token_scan full kinds.1 kinds.2
    have word := scan false (text.span isNamePart).2
    rwa [List.cons_append, parts] at word
  · split
    · -- A number.
      next number =>
      have splits := splits_scan_number (starts_number_cons.mpr number).begins
      split
      · next octal lexeme rest scanned =>
        rw [scanned] at splits
        obtain ⟨same, full⟩ := splits
        rw [same]
        exact plain_token_scan full (by simp) (by simp)
      · next octal fault passed scanned =>
        rw [scanned] at splits
        exact ⟨splits.1, passed, splits.2, rfl⟩
    · split
      · -- A string.
        next quoted =>
        simp only [Bool.or_eq_true, beq_iff_eq] at quoted
        have splits := scan_string_splits c text ⟨.plain, [], false⟩ (offset + c.utf8Size)
        split
        · next s place scanned =>
          rw [scanned] at splits
          obtain ⟨inside, same, counted⟩ := splits
          have bytes : byteLength (c :: (inside ++ [c])) =
              c.utf8Size + byteLength inside + c.utf8Size := by
            rw [byteLength_cons, byteLength_append, byteLength_cons, byteLength_nil]
            omega
          refine ⟨c :: (inside ++ [c]), by simp [same], by omega, ?_, rfl⟩
          refine ⟨by simp, ?_, by simp, fun plain => absurd rfl plain, fun _ => ⟨c, inside, quoted, rfl⟩⟩
          simp only [Span.mk.injEq, true_and]
          omega
        · next fault stop scanned =>
          rw [scanned] at splits
          obtain ⟨known, passed, front, counted⟩ := splits
          refine ⟨known, c :: passed, List.cons_prefix_cons.mpr ⟨rfl, front⟩, ?_⟩
          simp only [Span.mk.injEq, true_and, byteLength_cons]
          omega
      · -- A mark.
        split
        · next lexeme m found =>
          obtain ⟨rest, same, full⟩ := mark_at_front found
          rw [same, List.drop_left]
          exact plain_token_scan full (by simp) (by simp)
        · exact ⟨by simp, [c], ⟨text, rfl⟩, rfl⟩

/-- What is read at the front of a text that begins with a character: a word, else a number, else a string, else a
mark. -/
inductive ReadsToken (newlineBefore : Bool) (offset : Nat) (c : Char) (text : List Char) : Token × Place → Prop where
  | word {tail rest : List Char} (word : isNameStart c = true) (span : text.span isNamePart = (tail, rest)) :
      ReadsToken newlineBefore offset c text
        (plainToken (wordKind (String.ofList (c :: tail))) (c :: tail) newlineBefore false offset rest)
  | number {octal : Bool} {lexeme rest : List Char} (noWord : isNameStart c = false)
      (starts : StartsNumber (c :: text)) (read : scanNumber (c :: text) = (octal, .ok (lexeme, rest))) :
      ReadsToken newlineBefore offset c text (plainToken .number lexeme newlineBefore octal offset rest)
  | string {s : StringState} {place : Place} (noWord : isNameStart c = false) (noNumber : ¬StartsNumber (c :: text))
      (quoted : c = '"' ∨ c = '\'')
      (read : scanString c ⟨.plain, [], false⟩ (offset + c.utf8Size) text = .ok (s, place)) :
      ReadsToken newlineBefore offset c text
        (⟨.string, ofUnits s.units.reverse, ⟨offset, place.offset⟩, newlineBefore, s.octal⟩, place)
  | mark {lexeme rest : List Char} {m : Mark} (noWord : isNameStart c = false) (noNumber : ¬StartsNumber (c :: text))
      (unquoted : ¬(c = '"' ∨ c = '\'')) (found : Mark.atFront? (c :: text) = some (lexeme, m))
      (parts : c :: text = lexeme ++ rest) :
      ReadsToken newlineBefore offset c text (plainToken (.mark m) lexeme newlineBefore false offset rest)

theorem scan_token_iff {newlineBefore : Bool} {offset : Nat} {c : Char} {text : List Char} {found : Token × Place} :
    scanToken newlineBefore offset (c :: text) = .ok found ↔ ReadsToken newlineBefore offset c text found := by
  have quotes : (c == '"' || c == '\'') = true ↔ c = '"' ∨ c = '\'' := by
    rw [Bool.or_eq_true, beq_iff_eq, beq_iff_eq]
  constructor
  · intro scanned
    unfold scanToken at scanned
    dsimp only at scanned
    split at scanned
    · next word =>
      cases scanned
      exact .word word rfl
    · next noWord =>
      have noWord := Bool.eq_false_iff.mpr noWord
      split at scanned
      · next number =>
        split at scanned
        · next read =>
          cases scanned
          exact .number noWord (starts_number_cons.mpr number) read
        · cases scanned
      · next noNumber =>
        have noNumber := mt starts_number_cons.mp noNumber
        split at scanned
        · next quoted =>
          split at scanned
          · next read =>
            cases scanned
            exact .string noWord noNumber (quotes.mp quoted) read
          · cases scanned
        · next unquoted =>
          split at scanned
          · next lexeme m found =>
            obtain ⟨rest, parts, -⟩ := mark_at_front found
            cases scanned
            rw [parts, List.drop_left]
            exact .mark noWord noNumber (mt quotes.mpr unquoted) found parts
          · cases scanned
  · intro reads
    unfold scanToken
    dsimp only
    cases reads with
    | word word span => rw [if_pos word, span]
    | number noWord starts read =>
      rw [if_neg (Bool.eq_false_iff.mp noWord), if_pos (starts_number_cons.mp starts), read]
    | string noWord noNumber quoted read =>
      rw [if_neg (Bool.eq_false_iff.mp noWord), if_neg (mt starts_number_cons.mpr noNumber),
        if_pos (quotes.mpr quoted), read]
    | mark noWord noNumber unquoted found parts =>
      rw [if_neg (Bool.eq_false_iff.mp noWord), if_neg (mt starts_number_cons.mpr noNumber),
        if_neg (mt quotes.mp unquoted), found]
      dsimp only
      rw [parts, List.drop_left]

end ScriptEngine.Scanning
