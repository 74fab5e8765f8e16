import Mathlib.Data.List.TakeWhile
import ScriptEngine.Proofs.Scanning.Pieces

/-!
A token does not depend on what stands before it, and of what stands behind it only a little counts: whether the token
may go on with it. A piece of a script is read off as the same token in front of other text if this begins like the text
that was there, or with a character that no token goes on with.
-/

namespace ScriptEngine.Scanning

open Text

/-- A text begins like another one, or with a character that ends tokens, or it is empty. -/
def Alike (rest other : List Char) : Prop :=
  ∀ c, other.head? = some c → rest.head? = some c ∨ c = ')' ∨ c = '\n'

variable {front rest other : List Char} {p : Char → Bool}

theorem Alike.append (alike : Alike rest other) (front : List Char) : Alike (front ++ rest) (front ++ other) := by
  cases front with
  | nil => exact alike
  | cons c front => exact fun _ => .inl

/-- What a text does not begin with, the other one does not begin with either. -/
theorem Alike.ends (alike : Alike rest other) (ends : ∀ c, rest.head? = some c → p c = false) (paren : p ')' = false)
    (line : p '\n' = false) : ∀ c, other.head? = some c → p c = false := by
  intro c begins
  rcases alike c begins with same | rfl | rfl
  · exact ends c same
  · exact paren
  · exact line

/-! ## Characters of a kind -/

theorem span_cut {text : List Char} (read : text.span p = (front, rest)) :
    text = front ++ rest ∧ (∀ c ∈ front, p c = true) ∧ ∀ c, rest.head? = some c → p c = false := by
  have parts := span_append p text
  rw [read] at parts
  rw [List.span_eq_takeWhile_dropWhile] at read
  obtain ⟨rfl, rfl⟩ := Prod.mk.inj read
  refine ⟨parts.symm, fun c mem => List.mem_takeWhile_imp mem, fun c begins => ?_⟩
  have stops := List.head?_dropWhile_not p text
  rw [begins] at stops
  exact stops

theorem span_of_ends (all : ∀ c ∈ front, p c = true) (ends : ∀ c, rest.head? = some c → p c = false) :
    (front ++ rest).span p = (front, rest) := by
  rw [List.span_eq_takeWhile_dropWhile, List.takeWhile_append_of_pos all, List.dropWhile_append_of_pos all]
  cases rest with
  | nil => simp
  | cons c rest =>
    have stops := ends c rfl
    simp [stops]

/-- A run of characters ends before the other text as well. -/
theorem span_alike {text : List Char} (read : text.span p = (front, rest)) (alike : Alike rest other)
    (paren : p ')' = false) (line : p '\n' = false) : (front ++ other).span p = (front, other) := by
  obtain ⟨-, all, ends⟩ := span_cut read
  exact span_of_ends all (alike.ends ends paren line)

/-! ## Numbers -/

/-- A text does not go on with a number that ends before it. -/
def EndsNumber (rest : List Char) : Prop :=
  ∀ c, rest.head? = some c → (isNameStart c || c.isDigit) = false

theorem end_number_eq (lexeme rest : List Char) : endNumber lexeme rest =
    if rest.head?.any fun c => isNameStart c || c.isDigit then .error (.nameAfterNumber, lexeme ++ rest.take 1)
    else .ok (lexeme, rest) := by
  cases rest <;> rfl

theorem end_number_cut {lexeme read text : List Char} (ended : endNumber lexeme text = .ok (read, rest)) :
    read = lexeme ∧ rest = text ∧ EndsNumber text := by
  rw [end_number_eq] at ended
  split at ended
  · cases ended
  · next proper =>
    cases ended
    refine ⟨rfl, rfl, fun c begins => ?_⟩
    rw [begins] at proper
    simpa using proper

theorem end_number_alike {lexeme : List Char} (ends : EndsNumber rest) (alike : Alike rest other) :
    endNumber lexeme other = .ok (lexeme, other) := by
  have stops := alike.ends ends (by decide) (by decide)
  rw [end_number_eq]
  cases begins : other.head? with
  | none => rfl
  | some c =>
    rw [Option.any_some, stops c begins]
    rfl

/-- The digits of an exponent. -/
def exponentDigits (lexeme text : List Char) : NumberScan :=
  let (digits, rest) := spanDigits text
  if digits.isEmpty then .error (.missingExponentDigits, lexeme ++ digits) else endNumber (lexeme ++ digits) rest

theorem exponent_digits_alike {lexeme text read : List Char} (scanned : exponentDigits lexeme text = .ok (read, rest)) :
    ∃ digits, text = digits ++ rest ∧ read = lexeme ++ digits ∧
      ∀ other, Alike rest other → exponentDigits lexeme (digits ++ other) = .ok (read, other) := by
  unfold exponentDigits at scanned
  cases span : spanDigits text with
  | mk digits later =>
    rw [span] at scanned
    dsimp only at scanned
    split at scanned
    · cases scanned
    · next nonempty =>
      obtain ⟨rfl, rfl, ends⟩ := end_number_cut scanned
      refine ⟨digits, (span_cut span).1, rfl, fun other alike => ?_⟩
      have run : spanDigits (digits ++ other) = (digits, other) := span_alike span alike (by decide) (by decide)
      unfold exponentDigits
      rw [run]
      dsimp only
      rw [if_neg nonempty]
      exact end_number_alike ends alike

/-- The letter of an exponent. -/
def isExponentMark (c : Char) : Bool :=
  c == 'e' || c == 'E'

theorem scan_exponent_plain {lexeme text : List Char} (plain : ∀ c, text.head? = some c → isExponentMark c = false) :
    scanExponent lexeme text = endNumber lexeme text := by
  cases text with
  | nil => rfl
  | cons c text =>
    have other : ¬ (c == 'e' || c == 'E') = true := Bool.eq_false_iff.mp (plain c rfl)
    unfold scanExponent
    exact if_neg other

theorem scan_exponent_signed {lexeme text : List Char} {mark sign : Char} (marks : isExponentMark mark = true)
    (signs : sign = '+' ∨ sign = '-') :
    scanExponent lexeme (mark :: sign :: text) = exponentDigits (lexeme ++ [mark, sign]) text := by
  unfold scanExponent
  rcases signs with rfl | rfl
  · exact if_pos marks
  · exact if_pos marks

theorem scan_exponent_unsigned {lexeme text : List Char} {mark : Char} (marks : isExponentMark mark = true)
    (unsigned : ∀ c, text.head? = some c → (c == '+' || c == '-') = false) :
    scanExponent lexeme (mark :: text) = exponentDigits (lexeme ++ [mark]) text := by
  unfold scanExponent
  refine (if_pos marks).trans ?_
  split
  next sign digits signed =>
  split at signed
  · cases unsigned '+' rfl
  · cases unsigned '-' rfl
  · cases signed
    rfl

theorem scan_exponent_alike {lexeme text read : List Char} (scanned : scanExponent lexeme text = .ok (read, rest)) :
    ∃ tail, text = tail ++ rest ∧ read = lexeme ++ tail ∧
      ∀ other, Alike rest other → scanExponent lexeme (tail ++ other) = .ok (read, other) := by
  cases text with
  | nil =>
    rw [scan_exponent_plain (by simp)] at scanned
    obtain ⟨rfl, rfl, ends⟩ := end_number_cut scanned
    refine ⟨[], rfl, (List.append_nil _).symm, fun other alike => ?_⟩
    rw [List.nil_append, scan_exponent_plain (alike.ends (by simp) (by decide) (by decide))]
    exact end_number_alike ends alike
  | cons mark text =>
    cases marks : isExponentMark mark with
    | false =>
      have plain : ∀ c, (mark :: text).head? = some c → isExponentMark c = false := by
        rintro c ⟨⟩
        exact marks
      rw [scan_exponent_plain plain] at scanned
      obtain ⟨rfl, rfl, ends⟩ := end_number_cut scanned
      refine ⟨[], rfl, (List.append_nil _).symm, fun other alike => ?_⟩
      rw [List.nil_append, scan_exponent_plain (alike.ends plain (by decide) (by decide))]
      exact end_number_alike ends alike
    | true =>
      by_cases signs : ∃ sign later, text = sign :: later ∧ (sign = '+' ∨ sign = '-')
      · obtain ⟨sign, later, rfl, signs⟩ := signs
        rw [scan_exponent_signed marks signs] at scanned
        obtain ⟨digits, rfl, rfl, alikes⟩ := exponent_digits_alike scanned
        refine ⟨mark :: sign :: digits, rfl, by simp, fun other alike => ?_⟩
        rw [List.cons_append, List.cons_append, scan_exponent_signed marks signs, alikes other alike]
      · have unsigned : ∀ c, text.head? = some c → (c == '+' || c == '-') = false := by
          intro c begins
          obtain ⟨later, rfl⟩ := List.head?_eq_some_iff.mp begins
          refine Bool.eq_false_iff.mpr fun sign => signs ⟨c, later, rfl, ?_⟩
          simpa using sign
        rw [scan_exponent_unsigned marks unsigned] at scanned
        obtain ⟨digits, rfl, rfl, alikes⟩ := exponent_digits_alike scanned
        refine ⟨mark :: digits, rfl, by simp, fun other alike => ?_⟩
        have unsigned' := (alike.append digits).ends unsigned (by decide) (by decide)
        rw [List.cons_append, scan_exponent_unsigned marks unsigned', alikes other alike]

theorem scan_decimal_point {text whole after : List Char} (span : spanDigits text = (whole, '.' :: after)) :
    scanDecimal text = scanExponent (whole ++ '.' :: (spanDigits after).1) (spanDigits after).2 := by
  unfold scanDecimal
  rw [span]
  rfl

theorem scan_decimal_whole {text whole after : List Char} (span : spanDigits text = (whole, after))
    (noPoint : ∀ c, after.head? = some c → (c == '.') = false) : scanDecimal text = scanExponent whole after := by
  unfold scanDecimal
  rw [span]
  dsimp only
  split
  · cases noPoint '.' rfl
  · rfl

theorem scan_decimal_alike {text read : List Char} (scanned : scanDecimal text = .ok (read, rest)) :
    text = read ++ rest ∧ ∀ other, Alike rest other → scanDecimal (read ++ other) = .ok (read, other) := by
  cases span : spanDigits text with
  | mk whole after =>
    have parts := (span_cut span).1
    by_cases point : after.head? = some '.'
    · obtain ⟨later, rfl⟩ := List.head?_eq_some_iff.mp point
      rw [scan_decimal_point span] at scanned
      cases span' : spanDigits later with
      | mk fraction last =>
        rw [span'] at scanned
        obtain ⟨tail, rfl, rfl, alikes⟩ := scan_exponent_alike scanned
        have parts' := (span_cut span').1
        refine ⟨by simp [parts, parts'], fun other alike => ?_⟩
        have run : spanDigits (fraction ++ (tail ++ other)) = (fraction, tail ++ other) :=
          span_alike span' (alike.append tail) (by decide) (by decide)
        have front : spanDigits (whole ++ '.' :: (fraction ++ (tail ++ other))) =
            (whole, '.' :: (fraction ++ (tail ++ other))) :=
          span_of_ends (span_cut span).2.1 (by rintro c ⟨⟩; decide)
        have text' : whole ++ '.' :: fraction ++ tail ++ other = whole ++ '.' :: (fraction ++ (tail ++ other)) := by
          simp
        rw [text', scan_decimal_point front, run]
        exact alikes other alike
    · have noPoint : ∀ c, after.head? = some c → (c == '.') = false := by
        intro c begins
        refine beq_eq_false_iff_ne.mpr ?_
        rintro rfl
        exact point begins
      rw [scan_decimal_whole span noPoint] at scanned
      obtain ⟨tail, rfl, rfl, alikes⟩ := scan_exponent_alike scanned
      refine ⟨by simp [parts], fun other alike => ?_⟩
      have run : spanDigits (whole ++ (tail ++ other)) = (whole, tail ++ other) :=
        span_alike span (alike.append tail) (by decide) (by decide)
      rw [List.append_assoc, scan_decimal_whole run ((alike.append tail).ends noPoint (by decide) (by decide))]
      exact alikes other alike

theorem scan_based_alike {base : Nat} {mark : Char} {text read : List Char}
    (scanned : scanBased base mark text = .ok (read, rest)) : ∃ digits, text = digits ++ rest ∧
      read = '0' :: mark :: digits ∧
      ∀ other, Alike rest other → scanBased base mark (digits ++ other) = .ok (read, other) := by
  unfold scanBased at scanned
  cases span : text.span fun c => (digitValue? base c).isSome with
  | mk digits later =>
    rw [span] at scanned
    dsimp only at scanned
    split at scanned
    · cases scanned
    · next nonempty =>
      obtain ⟨rfl, rfl, ends⟩ := end_number_cut scanned
      refine ⟨digits, (span_cut span).1, rfl, fun other alike => ?_⟩
      have run := span_alike span alike (by simp [digitValue?]) (by simp [digitValue?])
      unfold scanBased
      rw [run]
      dsimp only
      rw [if_neg nonempty]
      exact end_number_alike ends alike

/-- Behind a zero a number goes on with the mark of a base or with a digit. -/
def goesOnBehindZero (c : Char) : Bool :=
  (Number.announcedBase? c).isSome || c.isDigit

theorem scan_number_based {mark : Char} {base : Nat} (announced : Number.announcedBase? mark = some base)
    (text : List Char) : scanNumber ('0' :: mark :: text) = (false, scanBased base mark text) := by
  simp only [scanNumber, announced]

theorem scan_number_older {mark : Char} (digit : mark.isDigit = true) (plain : Number.announcedBase? mark = none)
    (text : List Char) : scanNumber ('0' :: mark :: text) =
      (true, endNumber ('0' :: (spanDigits (mark :: text)).1) (spanDigits (mark :: text)).2) := by
  simp only [scanNumber, plain, if_pos digit]

theorem scan_number_decimal {text : List Char}
    (decimal : ∀ mark tail, text = '0' :: mark :: tail → goesOnBehindZero mark = false) :
    scanNumber text = (false, scanDecimal text) := by
  unfold scanNumber
  split
  · next mark tail =>
    obtain ⟨plain, digit⟩ := Bool.or_eq_false_iff.mp (decimal mark tail rfl)
    rw [Option.isSome_eq_false_iff, Option.isNone_iff_eq_none] at plain
    rw [plain]
    dsimp only
    rw [if_neg (Bool.eq_false_iff.mp digit)]
  · rfl

/-- A number is read off the same in front of another text. -/
theorem scan_number_alike {octal : Bool} {text read : List Char} (scanned : scanNumber text = (octal, .ok (read, rest)))
    (nonempty : read ≠ []) :
    text = read ++ rest ∧ ∀ other, Alike rest other → scanNumber (read ++ other) = (octal, .ok (read, other)) := by
  by_cases older : ∃ mark tail, text = '0' :: mark :: tail ∧ goesOnBehindZero mark = true
  · obtain ⟨mark, tail, rfl, goesOn⟩ := older
    cases announced : Number.announcedBase? mark with
    | some base =>
      rw [scan_number_based announced] at scanned
      obtain ⟨rfl, read_⟩ := Prod.mk.inj scanned
      obtain ⟨digits, rfl, rfl, alikes⟩ := scan_based_alike read_
      refine ⟨rfl, fun other alike => ?_⟩
      rw [List.cons_append, List.cons_append, scan_number_based announced, alikes other alike]
    | none =>
      have digit : mark.isDigit = true := by simpa [goesOnBehindZero, announced] using goesOn
      rw [scan_number_older digit announced] at scanned
      obtain ⟨rfl, read_⟩ := Prod.mk.inj scanned
      cases span : spanDigits (mark :: tail) with
      | mk digits later =>
        rw [span] at read_
        obtain ⟨rfl, rfl, ends⟩ := end_number_cut read_
        obtain ⟨parts, all, stops⟩ := span_cut span
        refine ⟨by rw [parts]; rfl, fun other alike => ?_⟩
        have first : ∃ more, digits = mark :: more := by
          cases digits with
          | nil =>
            rw [List.nil_append] at parts
            rw [← parts] at stops
            exact absurd (stops mark rfl) (by simp [digit])
          | cons c more => exact ⟨more, by rw [(List.cons.inj parts).1]⟩
        obtain ⟨more, rfl⟩ := first
        have run : spanDigits (mark :: (more ++ other)) = (mark :: more, other) :=
          span_alike span alike (by decide) (by decide)
        rw [List.cons_append, List.cons_append, scan_number_older digit announced, run]
        exact congrArg (true, ·) (end_number_alike ends alike)
  · have decimal : ∀ mark tail, text = '0' :: mark :: tail → goesOnBehindZero mark = false :=
      fun mark tail same => Bool.eq_false_iff.mpr fun goesOn => older ⟨mark, tail, same, goesOn⟩
    rw [scan_number_decimal decimal] at scanned
    obtain ⟨rfl, read_⟩ := Prod.mk.inj scanned
    obtain ⟨rfl, alikes⟩ := scan_decimal_alike read_
    refine ⟨rfl, fun other alike => ?_⟩
    have decimal' : ∀ mark tail, read ++ other = '0' :: mark :: tail → goesOnBehindZero mark = false := by
      intro mark tail same
      obtain ⟨c, read, rfl⟩ := List.exists_cons_of_ne_nil nonempty
      obtain ⟨rfl, same_⟩ : c = '0' ∧ read ++ other = mark :: tail := List.cons.inj same
      have zero : ∀ c, (read ++ rest).head? = some c → goesOnBehindZero c = false := by
        intro c begins
        obtain ⟨later, known⟩ := List.head?_eq_some_iff.mp begins
        exact decimal c later (by rw [List.cons_append, known])
      exact (alike.append read).ends zero (by decide) (by decide) mark (by rw [same_]; rfl)
    rw [scan_number_decimal decimal', alikes other alike]

/-- A point that begins a number does not make one alone. -/
theorem scan_number_point {d : Char} {text read : List Char} {octal : Bool} (digit : d.isDigit = true)
    (scanned : scanNumber ('.' :: d :: text) = (octal, .ok (read, rest))) : ∃ more, read = '.' :: d :: more := by
  rw [scan_number_decimal (by simp)] at scanned
  have none : spanDigits ([] ++ '.' :: d :: text) = ([], '.' :: d :: text) :=
    span_of_ends (by simp) (by rintro c ⟨⟩; decide)
  rw [List.nil_append] at none
  rw [scan_decimal_point none] at scanned
  obtain ⟨tail, -, rfl, -⟩ := scan_exponent_alike (Prod.mk.inj scanned).2
  cases span : spanDigits (d :: text) with
  | mk fraction later =>
    obtain ⟨parts, -, stops⟩ := span_cut span
    cases fraction with
    | nil =>
      rw [List.nil_append] at parts
      rw [← parts] at stops
      exact absurd (stops d rfl) (by simp [digit])
    | cons c fraction =>
      rw [(List.cons.inj parts).1]
      exact ⟨fraction ++ tail, rfl⟩

/-! ## Strings -/

/-- A string is read off the same in front of another text. -/
theorem scan_string_alike {quote : Char} {inside : List Char} {s ended : StringState} {offset stop : Nat}
    (scanned : scanString quote s offset (inside ++ quote :: rest) = .ok (ended, ⟨stop, rest⟩)) (offset' : Nat)
    (other : List Char) : scanString quote s offset' (inside ++ quote :: other) =
      .ok (ended, ⟨offset' + byteLength inside + quote.utf8Size, other⟩) := by
  induction inside generalizing s offset offset' with
  | nil =>
    rw [List.nil_append, scanString] at scanned ⊢
    cases stepped : s.step quote quote with
    | closed =>
      rw [stepped] at scanned
      cases scanned
      rfl
    | fault f =>
      rw [stepped] at scanned
      cases scanned
    | next later =>
      rw [stepped] at scanned
      have splits := scan_string_splits quote rest later (offset + quote.utf8Size)
      dsimp only at scanned
      rw [scanned] at splits
      obtain ⟨further, same, -⟩ := splits
      have lengths := congrArg List.length same
      simp only [List.length_append, List.length_cons] at lengths
      omega
  | cons c inside ih =>
    rw [List.cons_append, scanString] at scanned ⊢
    cases stepped : s.step quote c with
    | closed =>
      rw [stepped] at scanned
      obtain ⟨-, place⟩ := Prod.mk.inj (Except.ok.inj scanned)
      have lengths := congrArg (fun place => place.rest.length) place
      simp only [List.length_append, List.length_cons] at lengths
      omega
    | fault f =>
      rw [stepped] at scanned
      cases scanned
    | next later =>
      rw [stepped] at scanned
      dsimp only
      rw [ih scanned, byteLength_cons]
      simp only [Nat.add_assoc]

/-! ## Marks -/

/-- A mark begins with shorter ones, whose length is any number. -/
theorem spellings_closed : ∀ spelling ∈ Mark.spellings, ∀ n ≤ spelling.1.length, 0 < n →
    spelling.1.take n ∈ Mark.spellings.map Prod.fst := by
  decide +kernel

theorem spellings_ordered :
    Mark.spellings.Pairwise fun longer shorter => shorter.1.length ≤ longer.1.length := by
  decide +kernel

/-- No mark goes on with what ends tokens. -/
theorem spellings_go_on : ∀ spelling ∈ Mark.spellings, ')' ∉ spelling.1.tail ∧ '\n' ∉ spelling.1.tail := by
  decide +kernel

/-- The longest mark at the front is the same one in front of another text. -/
theorem mark_alike {lexeme : List Char} {m : Mark} (found : Mark.atFront? (lexeme ++ rest) = some (lexeme, m))
    (alike : Alike rest other) : Mark.atFront? (lexeme ++ other) = some (lexeme, m) := by
  obtain ⟨-, -, nonempty⟩ := mark_at_front found
  unfold Mark.atFront? at found ⊢
  obtain ⟨-, longer, later, parts, none⟩ := List.find?_eq_some_iff_append.mp found
  refine List.find?_eq_some_iff_append.mpr ⟨?_, longer, later, parts, fun spelling mem => ?_⟩
  · exact List.isPrefixOf_iff_prefix.mpr (List.prefix_append lexeme other)
  have fails := none spelling mem
  simp only [Bool.not_eq_true', Bool.eq_false_iff, ne_eq, List.isPrefixOf_iff_prefix] at fails ⊢
  intro front
  have known : spelling ∈ Mark.spellings := by
    rw [parts]
    exact List.mem_append_left _ mem
  by_cases short : spelling.1.length ≤ lexeme.length
  · have within := List.prefix_of_prefix_length_le front (List.prefix_append lexeme other) short
    exact fails (within.trans (List.prefix_append lexeme rest))
  have within := List.prefix_of_prefix_length_le (List.prefix_append lexeme other) front (by omega)
  obtain ⟨more, same⟩ := within
  cases more with
  | nil =>
    rw [List.append_nil] at same
    exact short (by rw [same])
  | cons c more =>
    rw [← same, List.prefix_append_right_inj] at front
    obtain ⟨further, begins⟩ := front
    have goesOn := spellings_go_on spelling known
    have inTail : c ∈ spelling.1.tail := by
      obtain ⟨first, tail, whole⟩ := List.exists_cons_of_ne_nil nonempty
      rw [← same, whole]
      simp
    have head : other.head? = some c := by rw [← begins]; rfl
    rcases alike c head with first | rfl | rfl
    · -- A longer mark is found.
      obtain ⟨further', rfl⟩ := List.head?_eq_some_iff.mp first
      have closed := spellings_closed spelling known (lexeme.length + 1) (by rw [← same]; simp) (Nat.succ_pos _)
      obtain ⟨between, mem', cut⟩ := List.mem_map.mp closed
      have front' : between.1 = lexeme ++ [c] := by
        rw [cut, ← same]
        simp [List.take_append]
      have ordered := spellings_ordered
      rw [parts] at mem' ordered
      rcases List.mem_append.mp mem' with earlier | last
      · refine absurd (none between earlier) ?_
        rw [front']
        simp
      · have shorter : between.1.length ≤ lexeme.length := by
          rcases List.mem_cons.mp last with rfl | last
          · exact Nat.le_refl _
          · exact (List.pairwise_cons.mp (List.pairwise_append.mp ordered).2.1).1 between last
        rw [front', List.length_append, List.length_singleton] at shorter
        omega
    · exact goesOn.1 inTail
    · exact goesOn.2 inTail

/-! ## Tokens -/

/-- A token that is read off a piece, as it is read off at another place. -/
def readAt (t : Token) (newlineBefore : Bool) (offset : Nat) (piece : List Char) : Token :=
  { t with span := ⟨offset, offset + byteLength piece⟩, newlineBefore := newlineBefore }

theorem word_alike {front tail : List Char} (span : (tail ++ rest).span isNamePart = (front, rest))
    (alike : Alike rest other) : front = tail ∧ (tail ++ other).span isNamePart = (tail, other) := by
  obtain rfl : tail = front := List.append_cancel_right (span_cut span).1
  exact ⟨rfl, span_alike span alike (by decide) (by decide)⟩

/-- What begins a number in front of one text begins one in front of the other. -/
theorem starts_number_alike {c : Char} {tail : List Char} (alike : Alike rest other)
    (alone : tail = [] → c = '.' → rest.head?.any (·.isDigit) = false) :
    StartsNumber (c :: (tail ++ other)) ↔ StartsNumber (c :: (tail ++ rest)) := by
  rw [starts_number_cons, starts_number_cons]
  cases tail with
  | cons d tail => rfl
  | nil =>
    by_cases point : c = '.'
    · have none := alone rfl point
      have none' : other.head?.any (·.isDigit) = false := by
        cases begins : other.head? with
        | none => rfl
        | some d =>
          refine alike.ends (p := (·.isDigit)) (fun e first => ?_) (by decide) (by decide) d begins
          simpa [first] using none
      rw [List.nil_append, List.nil_append, none, none']
    · rw [beq_eq_false_iff_ne.mpr point, Bool.false_and, Bool.false_and]

theorem no_number_alike {c : Char} {tail : List Char} (noNumber : ¬StartsNumber (c :: (tail ++ rest)))
    (alike : Alike rest other) : ¬StartsNumber (c :: (tail ++ other)) := by
  rw [starts_number_alike alike]
  · exact noNumber
  · rintro rfl rfl
    exact Bool.eq_false_iff.mpr fun digit => noNumber (starts_number_cons.mpr digit)

theorem number_alike {c : Char} {tail lexeme : List Char} {octal : Bool} (starts : StartsNumber (c :: (tail ++ rest)))
    (read : scanNumber (c :: (tail ++ rest)) = (octal, .ok (lexeme, rest))) (alike : Alike rest other) :
    lexeme = c :: tail ∧ StartsNumber (c :: (tail ++ other)) ∧
      scanNumber (c :: (tail ++ other)) = (octal, .ok (c :: tail, other)) := by
  have splits := splits_scan_number starts.begins
  rw [read] at splits
  obtain ⟨parts, full⟩ := splits
  obtain rfl : c :: tail = lexeme := List.append_cancel_right parts
  refine ⟨rfl, ?_, (scan_number_alike read full).2 other alike⟩
  rw [starts_number_alike alike]
  · exact starts
  · -- A point alone is no number, so no digit stands behind it.
    rintro rfl rfl
    refine Bool.eq_false_iff.mpr fun digit => ?_
    cases rest with
    | nil => cases digit
    | cons d later =>
      obtain ⟨more, same⟩ := scan_number_point digit read
      cases same

theorem string_alike {quote : Char} {tail : List Char} {s ended : StringState} {offset stop : Nat}
    (read : scanString quote s offset (tail ++ rest) = .ok (ended, ⟨stop, rest⟩)) (offset' : Nat) (other : List Char) :
    scanString quote s offset' (tail ++ other) = .ok (ended, ⟨offset' + byteLength tail, other⟩) := by
  have splits := scan_string_splits quote (tail ++ rest) s offset
  rw [read] at splits
  obtain ⟨inside, parts, -⟩ := splits
  obtain rfl : tail = inside ++ [quote] := List.append_cancel_right (by rw [parts]; simp)
  rw [List.append_assoc, List.singleton_append] at read ⊢
  rw [scan_string_alike read, byteLength_append, byteLength_cons, byteLength_nil, Nat.add_zero, Nat.add_assoc]

/-- A token is read off the same piece in front of another text, wherever it stands. -/
theorem scan_token_alike {piece : List Char} {newline : Bool} {offset stop : Nat} {t : Token} (nonempty : piece ≠ [])
    (scanned : scanToken newline offset (piece ++ rest) = .ok (t, ⟨stop, rest⟩)) (alike : Alike rest other)
    (newline' : Bool) (offset' : Nat) : scanToken newline' offset' (piece ++ other) =
      .ok (readAt t newline' offset' piece, ⟨offset' + byteLength piece, other⟩) := by
  obtain ⟨c, tail, rfl⟩ := List.exists_cons_of_ne_nil nonempty
  rw [List.cons_append, scan_token_iff] at scanned ⊢
  cases scanned with
  | word word span =>
    obtain ⟨rfl, span⟩ := word_alike span alike
    exact .word word span
  | number noWord starts read =>
    obtain ⟨rfl, starts, read⟩ := number_alike starts read alike
    exact .number noWord starts read
  | string noWord noNumber quoted read =>
    have read := string_alike read (offset' + c.utf8Size) other
    rw [Nat.add_assoc, ← byteLength_cons] at read
    exact .string noWord (no_number_alike noNumber alike) quoted read
  | mark noWord noNumber unquoted found parts =>
    rw [← List.cons_append] at parts
    obtain rfl := List.append_cancel_right parts
    have found : Mark.atFront? (c :: tail ++ other) = some (c :: tail, _) := mark_alike found alike
    exact .mark noWord (no_number_alike noNumber alike) unquoted found rfl

end ScriptEngine.Scanning
