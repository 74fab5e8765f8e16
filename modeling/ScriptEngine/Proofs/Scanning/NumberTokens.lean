import ScriptEngine.Proofs.Number.LongestNumeral
import ScriptEngine.Proofs.Number.Natural
import ScriptEngine.Proofs.Scanning.Escapes
import ScriptEngine.Proofs.Scanning.StringLiterals

/-!
The numbers of a script. A token that is a number is spelled with a base, with a zero and digits, or as a decimal
literal. Each spelling has a value, and apart from the octal ones this is the number that the spelling is converted to
as a text.
-/

namespace ScriptEngine.Scanning

open Number

variable {text lexeme read rest : List Char}

/-! ## Spellings -/

/-- The spellings of numbers, and whether they are of the older form. -/
inductive NumberSpelling : Bool → List Char → Prop where
  | based {mark : Char} {base : Nat} {digits : List Char} (announced : announcedBase? mark = some base)
      (nonempty : digits ≠ []) (valid : ∀ c ∈ digits, (digitValue? base c).isSome) :
      NumberSpelling false ('0' :: mark :: digits)
  | older {digits : List Char} (nonempty : digits ≠ []) (allDigits : AllDigits digits) :
      NumberSpelling true ('0' :: digits)
  | decimal (n : Numeral) (plain : ∀ mark tail, n.text = '0' :: mark :: tail → mark.isDigit = false) :
      NumberSpelling false n.text

theorem exists_of_scan_exponent (scanned : scanExponent lexeme text = .ok (read, rest)) :
    ∃ exponent, read = lexeme ++ Numeral.exponentText exponent := by
  unfold scanExponent at scanned
  split at scanned
  · next mark afterMark =>
    split at scanned
    · next marked =>
      simp only [Bool.or_eq_true, beq_iff_eq] at marked
      split at scanned
      next sign unsigned split =>
      have signed : OptionalSign sign := by
        split at split <;> cases split <;> simp [OptionalSign]
      dsimp only at scanned
      split at scanned
      · cases scanned
      · next some =>
        rw [List.isEmpty_iff] at some
        obtain ⟨rfl, -, -⟩ := end_number_cut scanned
        refine ⟨Option.some ⟨mark, sign, (spanDigits unsigned).1, marked, signed, all_digits_span _, some⟩, ?_⟩
        rw [List.append_assoc, List.cons_append]
        rfl
    · obtain ⟨rfl, -, -⟩ := end_number_cut scanned
      exact ⟨none, (List.append_nil _).symm⟩
  · obtain ⟨rfl, -, -⟩ := end_number_cut scanned
    exact ⟨none, (List.append_nil _).symm⟩

/-- There are no digits at the front of a text that begins with something else. -/
theorem no_digit_first (none : (spanDigits text).1 = []) : (spanDigits text).2 = text ∧
    ∀ c, text.head? = some c → c.isDigit = false := by
  have parts := span_digits_append text
  have ends := span_digits_ends text
  rw [none, List.nil_append] at parts
  rw [parts] at ends
  exact ⟨parts, ends⟩

/-- What is scanned as a decimal number is a decimal literal. -/
theorem exists_of_scan_decimal (starts : StartsNumber text) (scanned : scanDecimal text = .ok (read, rest)) :
    ∃ n : Numeral, n.text = read := by
  obtain ⟨c, tail, rfl, first⟩ := starts
  have span : spanDigits (c :: tail) = ((spanDigits (c :: tail)).1, (spanDigits (c :: tail)).2) := rfl
  -- Without digits before it, the point is the first character.
  have noWhole (none : (spanDigits (c :: tail)).1 = []) :
      (spanDigits (c :: tail)).2 = '.' :: tail ∧ tail.head?.any (·.isDigit) = true := by
    obtain ⟨same, other⟩ := no_digit_first none
    rw [other c rfl, Bool.false_or, Bool.and_eq_true, beq_iff_eq] at first
    rw [same, first.1]
    exact ⟨rfl, first.2⟩
  by_cases point : (spanDigits (c :: tail)).2.head? = some '.'
  · obtain ⟨later, after⟩ := List.head?_eq_some_iff.mp point
    rw [scan_decimal_point (span.trans (by rw [after]))] at scanned
    obtain ⟨exponent, rfl⟩ := exists_of_scan_exponent scanned
    have nonempty : (spanDigits (c :: tail)).1 ++ (spanDigits later).1 ≠ [] := by
      intro none
      obtain ⟨noDigits, noFraction⟩ := List.append_eq_nil_iff.1 none
      obtain ⟨same, digit⟩ := noWhole noDigits
      obtain rfl : later = tail := (List.cons.inj (after.symm.trans same)).2
      obtain ⟨-, other⟩ := no_digit_first noFraction
      cases begins : later.head? with
      | none => simp [begins] at digit
      | some d => simp [begins, other d begins] at digit
    refine ⟨⟨(spanDigits (c :: tail)).1, some (spanDigits later).1, exponent, all_digits_span _, all_digits_span _,
      nonempty⟩, ?_⟩
    simp [Numeral.text, Numeral.pointText]
  · have noPoint : ∀ d, (spanDigits (c :: tail)).2.head? = some d → (d == '.') = false := by
      intro d begins
      rw [beq_eq_false_iff_ne]
      rintro rfl
      exact point begins
    rw [scan_decimal_whole span noPoint] at scanned
    obtain ⟨exponent, rfl⟩ := exists_of_scan_exponent scanned
    have nonempty : (spanDigits (c :: tail)).1 ++ [] ≠ [] := by
      rw [List.append_nil]
      intro none
      exact point (by rw [(noWhole none).1]; rfl)
    exact ⟨⟨(spanDigits (c :: tail)).1, none, exponent, all_digits_span _, List.forall_mem_nil _, nonempty⟩, rfl⟩

/-- What is scanned as a number is spelled as one. -/
theorem number_spelling {octal : Bool} (starts : StartsNumber text)
    (scanned : scanNumber text = (octal, .ok (read, rest))) : NumberSpelling octal read := by
  by_cases older : ∃ mark tail, text = '0' :: mark :: tail ∧ goesOnBehindZero mark = true
  · obtain ⟨mark, tail, rfl, goesOn⟩ := older
    cases announced : announcedBase? mark with
    | some base =>
      rw [scan_number_based announced] at scanned
      obtain ⟨rfl, based⟩ := Prod.mk.inj scanned
      unfold scanBased at based
      cases span : tail.span fun c => (digitValue? base c).isSome with
      | mk digits later =>
        rw [span] at based
        dsimp only at based
        split at based
        · cases based
        · next nonempty =>
          obtain ⟨rfl, -, -⟩ := end_number_cut based
          exact .based announced (mt List.isEmpty_iff.2 nonempty) (span_cut span).2.1
    | none =>
      have digit : mark.isDigit = true := by simpa [goesOnBehindZero, announced] using goesOn
      rw [scan_number_older digit announced] at scanned
      obtain ⟨rfl, ended⟩ := Prod.mk.inj scanned
      obtain ⟨rfl, -, -⟩ := end_number_cut ended
      refine .older (fun none => ?_) (all_digits_span _)
      rw [(no_digit_first none).2 mark rfl] at digit
      cases digit
  · have decimal : ∀ mark tail, text = '0' :: mark :: tail → goesOnBehindZero mark = false :=
      fun mark tail same => Bool.eq_false_iff.2 fun goesOn => older ⟨mark, tail, same, goesOn⟩
    rw [scan_number_decimal decimal] at scanned
    obtain ⟨rfl, read⟩ := Prod.mk.inj scanned
    obtain ⟨n, rfl⟩ := exists_of_scan_decimal starts read
    refine .decimal n fun mark tail same => ?_
    have whole := (scan_decimal_alike read).1
    rw [same] at whole
    exact (Bool.or_eq_false_iff.1 (decimal mark (tail ++ rest) whole)).2

theorem word_not_number (word : String) : wordKind word ≠ .number := by
  unfold wordKind
  split <;> nofun

/-- A token that is a number is spelled as one. -/
theorem spelling_of_scanned {source : List Char} {t : Token} (scanned : ScannedIn source t) (kind : t.kind = .number) :
    NumberSpelling t.legacyOctal t.lexeme.toList := by
  obtain ⟨passed, text, newline, next, rfl, read⟩ := scanned
  cases text with
  | nil =>
    cases read
    cases kind
  | cons c tail =>
    cases scan_token_iff.mp read with
    | word => exact absurd kind (word_not_number _)
    | string => cases kind
    | mark => cases kind
    | @number octal lexeme rest noWord starts scanned =>
      change NumberSpelling octal (String.ofList lexeme).toList
      rw [String.toList_ofList]
      exact number_spelling starts scanned

/-! ## Values -/

theorem digit_not_blank {base : Nat} {c : Char} (digit : (digitValue? base c).isSome) : Text.isBlank c = false := by
  have kind : c.isDigit = true ∨ c.isLower = true ∨ c.isUpper = true := by
    by_contra other
    simp only [not_or, Bool.not_eq_true] at other
    simp [digitValue?, other] at digit
  have letters {low high : UInt32} (within : low ≤ c.val ∧ c.val ≤ high) :
      low.toNat ≤ c.toNat ∧ c.toNat ≤ high.toNat :=
    within.imp UInt32.le_iff_toNat_le.1 UInt32.le_iff_toNat_le.1
  have range : 48 ≤ c.toNat ∧ c.toNat ≤ 122 := by
    rcases kind with digit | lower | upper
    · have bounds := digit_range digit
      omega
    · have within := Bool.and_eq_true_iff.1 lower
      have bounds : 97 ≤ c.toNat ∧ c.toNat ≤ 122 := letters (within.imp of_decide_eq_true of_decide_eq_true)
      omega
    · have bounds : 65 ≤ c.toNat ∧ c.toNat ≤ 90 := letters (of_decide_eq_true upper)
      omega
  simp [Text.isBlank]
  omega

theorem announced_base {mark : Char} {base : Nat} (announced : announcedBase? mark = some base) :
    Text.isBlank mark = false ∧ ∃ bits ≤ 5, base = 2 ^ bits := by
  unfold announcedBase? at announced
  split at announced
  · next hex =>
    cases announced
    simp only [Bool.or_eq_true, beq_iff_eq] at hex
    exact ⟨by obtain rfl | rfl := hex <;> decide, 4, by decide, rfl⟩
  · split at announced
    · next octal =>
      cases announced
      simp only [Bool.or_eq_true, beq_iff_eq] at octal
      exact ⟨by obtain rfl | rfl := octal <;> decide, 3, by decide, rfl⟩
    · split at announced
      · next binary =>
        cases announced
        simp only [Bool.or_eq_true, beq_iff_eq] at binary
        exact ⟨by obtain rfl | rfl := binary <;> decide, 1, by decide, rfl⟩
      · cases announced

/-- Digits in a base that is a power of two have a value. -/
theorem of_digits {base bits : Nat} (short : bits ≤ 5) (power : base = 2 ^ bits) {digits : List Char}
    (nonempty : digits ≠ []) (valid : ∀ c ∈ digits, (digitValue? base c).isSome) :
    ofDigits? base digits = some (ofNat (keptAfter base 0 digits)) := by
  subst power
  rw [ofDigits?, if_neg (mt List.isEmpty_iff.1 nonempty)]
  exact of_digits_after short valid 0

theorem based_values {mark : Char} {base : Nat} {digits : List Char} (announced : announcedBase? mark = some base)
    (nonempty : digits ≠ []) (valid : ∀ c ∈ digits, (digitValue? base c).isSome) :
    ofLiteral (String.ofList ('0' :: mark :: digits)) = ofNat (keptAfter base 0 digits) ∧
      ofText (String.ofList ('0' :: mark :: digits)) = ofNat (keptAfter base 0 digits) := by
  obtain ⟨markPlain, bits, short, power⟩ := announced_base announced
  have value := of_digits short power nonempty valid
  have plain : ∀ c ∈ '0' :: mark :: digits, Text.isBlank c = false := by
    rw [List.forall_mem_cons, List.forall_mem_cons]
    exact ⟨by decide, markPlain, fun c mem => digit_not_blank (valid c mem)⟩
  constructor
  · simp only [ofLiteral, String.toList_ofList, announced, value, Option.getD_some]
  · obtain ⟨digit, tail, rfl⟩ := List.exists_cons_of_ne_nil nonempty
    simp only [ofText, String.toList_ofList, trim_plain plain, announced, Option.map_some, value, Option.getD_some]

/-- The number of a decimal literal is that of its text. -/
theorem decimal_values (n : Numeral) (decimal : ∀ mark tail, n.text = '0' :: mark :: tail →
    announcedBase? mark = none ∧ n.text.all isOctalDigit = false) :
    ofLiteral (String.ofList n.text) = n.decimal.toNumber false ∧
      ofText (String.ofList n.text) = n.decimal.toNumber false := by
  have value := parse_numeral n (.inl rfl)
  have whole := ofText_numeral n (.inl rfl)
  rw [List.nil_append] at value whole
  refine ⟨?_, whole⟩
  unfold ofLiteral
  rw [String.toList_ofList]
  dsimp only
  split
  · next mark tail same =>
    obtain ⟨noBase, notOctal⟩ := decimal mark tail same
    rw [noBase]
    dsimp only
    rw [notOctal, value]
    rfl
  · rw [value]
    rfl

theorem digit_of_octal {c : Char} (octal : isOctalDigit c = true) : c.isDigit = true := by
  have digits : ['0', '1', '2', '3', '4', '5', '6', '7'].all Char.isDigit = true := rfl
  exact List.all_eq_true.1 digits c (mem_of_octal_digit octal)

/-- Octal digits behind a zero have the value of all of them in base eight, rounded as they are taken. -/
theorem octal_value {digits : List Char} (nonempty : digits ≠ [])
    (octal : ∀ c ∈ '0' :: digits, isOctalDigit c = true) :
    ofLiteral (String.ofList ('0' :: digits)) = ofNat (keptAfter 8 0 ('0' :: digits)) := by
  obtain ⟨mark, tail, rfl⟩ := List.exists_cons_of_ne_nil nonempty
  have digit : mark.isDigit = true := digit_of_octal (octal mark (.tail _ (.head _)))
  have valid : ∀ c ∈ '0' :: mark :: tail, (digitValue? 8 c).isSome := fun c mem => by
    rw [(digit_value_of_octal (octal c mem)).1]
    rfl
  have value : ofDigits? 8 ('0' :: mark :: tail) = some (ofNat (keptAfter 8 0 ('0' :: mark :: tail))) :=
    of_digits (by decide : 3 ≤ 5) rfl (List.cons_ne_nil '0' (mark :: tail)) valid
  have all : ('0' :: mark :: tail).all isOctalDigit = true := List.all_eq_true.2 octal
  simp only [ofLiteral, String.toList_ofList, numeral_character_not_base (.inl digit), all, if_true, value,
    Option.getD_some]

/-- What the spelling of a number gives. Of an octal one all digits count, but behind fifty-three bits a digit only
moves those before it. -/
structure NumberReads (older : Bool) (lexeme : String) : Prop where
  number : ofLiteral lexeme ≠ .nan
  plain : older = false → ofLiteral lexeme = ofText lexeme
  decimal : older = true → ¬ (∀ c ∈ lexeme.toList, isOctalDigit c = true) → ofLiteral lexeme = ofText lexeme
  octal : older = true → (∀ c ∈ lexeme.toList, isOctalDigit c = true) →
    ofLiteral lexeme = ofNat (keptAfter 8 0 lexeme.toList)
  exact : older = true → (∀ c ∈ lexeme.toList, isOctalDigit c = true) →
    valueAfter 8 0 lexeme.toList < mantissaLimit → ofLiteral lexeme = ofNat (valueAfter 8 0 lexeme.toList)

theorem ofNat_ne_nan (n : Nat) : ofNat n ≠ .nan := by
  rw [ofNat_eq_nearest]
  exact nearest_ne_nan _ _ _

theorem reads_octal {digits : List Char} (nonempty : digits ≠ [])
    (octal : ∀ c ∈ '0' :: digits, isOctalDigit c = true) : NumberReads true (String.ofList ('0' :: digits)) := by
  have value := octal_value nonempty octal
  refine ⟨value ▸ ofNat_ne_nan _, nofun, fun _ other => ?_, fun _ _ => ?_, fun _ _ small => ?_⟩
  · rw [String.toList_ofList] at other
    exact absurd octal other
  · rw [String.toList_ofList, value]
  · rw [String.toList_ofList] at small ⊢
    rw [value, kept_after_small (by decide) small]

/-- Digits behind a zero that are not all octal are a decimal literal. -/
theorem reads_older {digits : List Char} (nonempty : digits ≠ []) (allDigits : AllDigits digits) :
    NumberReads true (String.ofList ('0' :: digits)) := by
  by_cases octal : ∀ c ∈ '0' :: digits, isOctalDigit c = true
  · exact reads_octal nonempty octal
  · have whole : AllDigits ('0' :: digits) := List.forall_mem_cons.2 ⟨by decide, allDigits⟩
    let n : Numeral := ⟨'0' :: digits, none, none, whole, List.forall_mem_nil _, by simp⟩
    have text : n.text = '0' :: digits := List.append_nil _
    have values := decimal_values n fun mark tail same => by
      refine ⟨numeral_character_not_base (n.characters mark (same ▸ .tail _ (.head _))), ?_⟩
      rwa [text, Bool.eq_false_iff, ne_eq, List.all_eq_true]
    rw [text] at values
    refine ⟨values.1 ▸ Decimal.toNumber_ne_nan _ _, nofun, fun _ _ => values.1.trans values.2.symm,
      fun _ every => ?_, fun _ every => ?_⟩
    all_goals
      rw [String.toList_ofList] at every
      exact absurd every octal

theorem number_reads {older : Bool} {lexeme : List Char} (spelling : NumberSpelling older lexeme) :
    NumberReads older (String.ofList lexeme) := by
  cases spelling with
  | based announced nonempty valid =>
    obtain ⟨literal, text⟩ := based_values announced nonempty valid
    exact ⟨literal ▸ ofNat_ne_nan _, fun _ => literal.trans text.symm, nofun, nofun, nofun⟩
  | older nonempty allDigits => exact reads_older nonempty allDigits
  | decimal n plain =>
    obtain ⟨literal, text⟩ := decimal_values n fun mark tail same => by
      have here : mark ∈ n.text := same ▸ .tail _ (.head _)
      refine ⟨numeral_character_not_base (n.characters mark here), Bool.eq_false_iff.2 fun all => ?_⟩
      have digit := digit_of_octal (List.all_eq_true.1 all mark here)
      rw [plain mark tail same] at digit
      cases digit
    exact ⟨literal ▸ Decimal.toNumber_ne_nan _ _, fun _ => literal.trans text.symm, nofun, nofun, nofun⟩

/-- Every number of an accepted script has a value. It is the number that its spelling gives as a text, unless it is
octal: then it is the value in base eight, in which a digit counts as zero behind more than fifty-three bits. -/
theorem number_tokens_read {source : String} {tokens : List Token} (accepted : tokensOf source = .ok tokens) :
    ∀ t ∈ tokens, t.kind = .number → NumberReads t.legacyOctal t.lexeme := by
  intro t mem kind
  have reads := number_reads (spelling_of_scanned (scanned_of_tokens_of accepted t mem) kind)
  rwa [String.ofList_toList] at reads

/-- Of `2 ^ 56 + 9` in octal digits the nine is lost, although the next number above `2 ^ 56` is nearer. -/
theorem number_tokens_read_rounded :
    tokensOf "04000000000000000011" =
        .ok [⟨.number, "04000000000000000011", ⟨0, 20⟩, false, true⟩, endToken 20] ∧
      ofLiteral "04000000000000000011" = ofNat (2 ^ 56) ∧
      valueAfter 8 0 "04000000000000000011".toList = 2 ^ 56 + 9 ∧ ofNat (2 ^ 56 + 9) = ofNat (2 ^ 56 + 16) ∧
      ofNat (2 ^ 56 + 16) ≠ ofNat (2 ^ 56) := by
  have accepted : tokensOf "04000000000000000011" =
      .ok [⟨.number, "04000000000000000011", ⟨0, 20⟩, false, true⟩, endToken 20] := by decide +kernel
  have octal : "04000000000000000011".toList.all isOctalDigit = true := by decide
  have value := (number_tokens_read accepted _ (.head _) rfl).octal rfl (List.all_eq_true.1 octal)
  exact ⟨accepted, value, by decide, by decide +kernel, by decide +kernel⟩

end ScriptEngine.Scanning
