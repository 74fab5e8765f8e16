import ScriptEngine.Proofs.Number.Decimals
import ScriptEngine.Proofs.Number.Numerals

/-!
Numbers at the front of a text. The longest part at the front that is a numeral, with a sign or without one, gives
the number that it gives as a whole text.
-/

namespace ScriptEngine

open Number Scanning

variable {text rest sign unsigned p q : List Char}

/-! ## Characters of numerals -/

/-- The characters that decimal literals are made of. -/
def NumeralCharacter (c : Char) : Prop :=
  c.isDigit = true ∨ c ∈ ['.', 'e', 'E', '+', '-']

theorem numeral_character_sign (signed : OptionalSign sign) : ∀ c ∈ sign, NumeralCharacter c := by
  obtain rfl | rfl | rfl := signed <;> simp [NumeralCharacter]

theorem Exponent.characters (e : Exponent) : ∀ c ∈ e.text, NumeralCharacter c := by
  intro c mem
  rw [Exponent.text, List.mem_cons, List.mem_append] at mem
  rcases mem with rfl | mem | mem
  · obtain marked | marked := e.marked <;> simp [NumeralCharacter, marked]
  · exact numeral_character_sign e.signed c mem
  · exact .inl (e.allDigits c mem)

theorem Numeral.characters (n : Numeral) : ∀ c ∈ n.text, NumeralCharacter c := by
  intro c mem
  rw [Numeral.text, List.mem_append, List.mem_append] at mem
  rcases mem with mem | mem | mem
  · exact .inl (n.wholeDigits c mem)
  · have digits := n.fractionDigits
    cases point : n.fraction with
    | none =>
      rw [point] at mem
      cases mem
    | some fraction =>
      rw [point] at mem digits
      rcases List.mem_cons.1 mem with rfl | mem
      · simp [NumeralCharacter]
      · exact .inl (digits c mem)
  · cases ends : n.exponent with
    | none =>
      rw [ends] at mem
      cases mem
    | some e =>
      rw [ends] at mem
      exact e.characters c mem

/-- A decimal literal begins with a digit or with its point. -/
theorem Numeral.begins (n : Numeral) : BeginsNumber n.text := by
  have digits := n.wholeDigits
  cases whole : n.whole with
  | cons d more =>
    rw [whole] at digits
    exact ⟨d, more ++ (pointText n.fraction ++ exponentText n.exponent), by simp [Numeral.text, whole],
      .inl (digits d (.head _))⟩
  | nil =>
    cases point : n.fraction with
    | none =>
      have nonempty := n.nonempty
      rw [whole, point] at nonempty
      exact absurd rfl nonempty
    | some fraction =>
      exact ⟨'.', fraction ++ exponentText n.exponent, by simp [Numeral.text, whole, point, pointText], .inr rfl⟩

theorem digit_range {c : Char} (digit : c.isDigit = true) : 48 ≤ c.toNat ∧ c.toNat ≤ 57 := by
  simpa [Char.isDigit, UInt32.le_iff_toNat_le] using digit

theorem numeral_character_not_blank {c : Char} (character : NumeralCharacter c) : Text.isBlank c = false := by
  rcases character with digit | mark
  · obtain ⟨low, high⟩ := digit_range digit
    simp [Text.isBlank]
    omega
  · simp only [List.mem_cons, List.not_mem_nil, or_false] at mark
    obtain rfl | rfl | rfl | rfl | rfl := mark <;> rfl

theorem numeral_character_not_base {c : Char} (character : NumeralCharacter c) : announcedBase? c = none := by
  rcases character with digit | mark
  · have apart (d : Char) (letter : d.isDigit = false) : (c == d) = false := by
      rw [beq_eq_false_iff_ne]
      rintro rfl
      rw [digit] at letter
      cases letter
    simp [announcedBase?, apart 'x' rfl, apart 'X' rfl, apart 'o' rfl, apart 'O' rfl, apart 'b' rfl, apart 'B' rfl]
  · simp only [List.mem_cons, List.not_mem_nil, or_false] at mark
    obtain rfl | rfl | rfl | rfl | rfl := mark <;> rfl

/-! ## Numerals with a sign -/

/-- What may follow the sign of a number. -/
def UnsignedNumeral (text : List Char) : Prop :=
  text = infinityName ∨ isDecimalLiteral text = true

/-- A decimal literal or the name of infinity, with a sign or without one. -/
def SignedNumeral (text : List Char) : Prop :=
  ∃ sign unsigned, OptionalSign sign ∧ UnsignedNumeral unsigned ∧ text = sign ++ unsigned

/-- The name of infinity is no beginning of a decimal literal. -/
theorem infinity_apart (n : Numeral) (rest later : List Char) : infinityName ++ rest ≠ n.text ++ later := by
  obtain ⟨c, tail, parts, digit | rfl⟩ := n.begins <;> rw [parts] <;> intro same <;>
    have first : some 'I' = some _ := congrArg List.head? same
  · cases first
    exact absurd digit (by decide)
  · exact absurd first (by decide)

theorem numeral_not_infinity (n : Numeral) : n.text ≠ infinityName := by
  have apart := infinity_apart n [] []
  rw [List.append_nil, List.append_nil] at apart
  exact apart.symm

/-- A numeral does not begin with a sign, whatever follows it. -/
theorem UnsignedNumeral.no_sign (numeral : UnsignedNumeral unsigned) (rest : List Char) :
    ∀ c ∈ (unsigned ++ rest).head?, c ≠ '+' ∧ c ≠ '-' := by
  rintro c begins
  obtain rfl | literal := numeral
  · cases begins
    decide
  · obtain ⟨n, rfl⟩ := is_decimal_literal_iff.1 literal
    obtain ⟨d, tail, parts, digit | rfl⟩ := n.begins <;> rw [parts] at begins <;> cases begins
    · exact digit_no_sign digit
    · decide

theorem UnsignedNumeral.characters (numeral : UnsignedNumeral unsigned) :
    ∀ c ∈ unsigned, Text.isBlank c = false ∧ announcedBase? c = none := by
  obtain rfl | literal := numeral
  · have plain : infinityName.all (fun c => !Text.isBlank c && (announcedBase? c).isNone) = true := rfl
    intro c mem
    have both := List.all_eq_true.1 plain c mem
    rwa [Bool.and_eq_true, Bool.not_eq_true', Option.isNone_iff_eq_none] at both
  · obtain ⟨n, rfl⟩ := is_decimal_literal_iff.1 literal
    exact fun c mem => ⟨numeral_character_not_blank (n.characters c mem),
      numeral_character_not_base (n.characters c mem)⟩

theorem SignedNumeral.characters (numeral : SignedNumeral text) :
    ∀ c ∈ text, Text.isBlank c = false ∧ announcedBase? c = none := by
  obtain ⟨sign, unsigned, signed, numeral, rfl⟩ := numeral
  intro c mem
  rcases List.mem_append.1 mem with mem | mem
  · have character := numeral_character_sign signed c mem
    exact ⟨numeral_character_not_blank character, numeral_character_not_base character⟩
  · exact numeral.characters c mem

/-! ## Whole texts -/

theorem split_sign_eq (text : List Char) : splitSign text = ((spanSign text).1 == ['-'], (spanSign text).2) := by
  unfold splitSign spanSign
  split <;> rfl

theorem trim_plain (plain : ∀ c ∈ text, Text.isBlank c = false) : Text.trimBlanks text = text := by
  have kept (l : List Char) (plain : ∀ c ∈ l, Text.isBlank c = false) : l.dropWhile Text.isBlank = l := by
    cases l with
    | nil => rfl
    | cons c rest => simp [plain c (.head _)]
  rw [Text.trimBlanks, kept text plain, kept _ (by simpa using plain), List.reverse_reverse]

/-- A text without blanks and without the mark of a base is read behind its sign. -/
theorem ofText_plain (plain : ∀ c ∈ text, Text.isBlank c = false ∧ announcedBase? c = none) (nonempty : text ≠ []) :
    ofText (String.ofList text) = ofUnsignedText ((spanSign text).1 == ['-']) (spanSign text).2 := by
  unfold ofText
  rw [String.toList_ofList, trim_plain fun c mem => (plain c mem).1]
  split
  · exact absurd rfl nonempty
  · dsimp only
    split
    · next base digits based =>
      split at based
      · rw [(plain _ (.tail _ (.head _))).2] at based
        cases based
      · cases based
    · rw [split_sign_eq]

theorem lower_digit {c : Char} (digit : c.isDigit = true) : c.toLower = c := by
  obtain ⟨low, high⟩ := digit_range digit
  have short : ¬ (c.val ≥ 'A'.val ∧ c.val ≤ 'Z'.val) := by
    rintro ⟨letter, -⟩
    have large : 65 ≤ c.toNat := UInt32.le_iff_toNat_le.1 letter
    omega
  exact dif_neg short

/-- A decimal literal is none of the names of numbers. -/
theorem numeral_not_name (n : Numeral) (name : String)
    (letter : name.toList.head? = some 'i' ∨ name.toList.head? = some 'n') :
    (String.ofList (n.text.map Char.toLower) == name) = false := by
  rw [beq_eq_false_iff_ne]
  rintro rfl
  rw [String.toList_ofList] at letter
  obtain ⟨c, tail, parts, first⟩ := n.begins
  rw [parts, List.map_cons, List.head?_cons, Option.some_inj, Option.some_inj] at letter
  rcases first with digit | rfl
  · rw [lower_digit digit] at letter
    obtain rfl | rfl := letter <;> exact absurd digit (by decide)
  · exact absurd letter (by decide)

/-- A decimal literal is read as its value, with the sign before it. -/
theorem parse_numeral (n : Numeral) (signed : OptionalSign sign) :
    parse? (sign ++ n.text) = some (n.decimal.toNumber (sign == ['-'])) := by
  have literal : UnsignedNumeral n.text := .inr (is_decimal_literal_iff.2 ⟨n, rfl⟩)
  have front := span_sign_front signed (literal.no_sign [])
  rw [List.append_nil] at front
  have short := numeral_not_name n "inf" (.inl rfl)
  have long := numeral_not_name n "infinity" (.inl rfl)
  have other := numeral_not_name n "nan" (.inr rfl)
  simp only [parse?, split_sign_eq, front, short, long, other, Bool.or_self, Bool.false_eq_true, if_false,
    read_decimal_text, Option.map_some]

theorem ofText_infinity (signed : OptionalSign sign) :
    ofText (String.ofList (sign ++ infinityName)) = .infinite (sign == ['-']) := by
  have numeral : UnsignedNumeral infinityName := .inl rfl
  have front := span_sign_front signed (numeral.no_sign [])
  rw [List.append_nil] at front
  have nonempty : sign ++ infinityName ≠ [] := List.append_ne_nil_of_right_ne_nil _ (by decide)
  rw [ofText_plain (SignedNumeral.characters ⟨sign, _, signed, numeral, rfl⟩) nonempty, front]
  rfl

theorem ofText_numeral (n : Numeral) (signed : OptionalSign sign) :
    ofText (String.ofList (sign ++ n.text)) = n.decimal.toNumber (sign == ['-']) := by
  have literal : isDecimalLiteral n.text = true := is_decimal_literal_iff.2 ⟨n, rfl⟩
  have numeral : UnsignedNumeral n.text := .inr literal
  have front := span_sign_front signed (numeral.no_sign [])
  rw [List.append_nil] at front
  have nonempty : sign ++ n.text ≠ [] := by
    obtain ⟨c, tail, parts, -⟩ := n.begins
    exact List.append_ne_nil_of_right_ne_nil _ (parts ▸ List.cons_ne_nil c tail)
  have value := parse_numeral n (.inl rfl)
  have name : (n.text == infinityName) = false := beq_eq_false_iff_ne.2 (numeral_not_infinity n)
  rw [ofText_plain (SignedNumeral.characters ⟨sign, _, signed, numeral, rfl⟩) nonempty, front]
  rw [List.nil_append] at value
  simp only [ofUnsignedText, name, literal, value, Bool.not_true, Bool.false_eq_true, if_false]
  split
  · next minus => rw [minus, Decimal.toNumber_neg]; rfl
  · next plus => rw [Bool.not_eq_true] at plus; rw [plus]; rfl

/-! ## The longest numeral at the front -/

/-- A numeral that the text begins with. -/
def NumeralAtFront (text p : List Char) : Prop :=
  p <+: text ∧ SignedNumeral p

/-- The longest numeral that the text begins with. -/
def LongestAtFront (text p : List Char) : Prop :=
  NumeralAtFront text p ∧ ∀ q, NumeralAtFront text q → q.length ≤ p.length

/-- A numeral at the front of a text has the sign of the text. -/
theorem NumeralAtFront.parts (front : NumeralAtFront text p) :
    ∃ unsigned rest, UnsignedNumeral unsigned ∧ p = (spanSign text).1 ++ unsigned ∧
      (spanSign text).2 = unsigned ++ rest := by
  obtain ⟨⟨rest, rfl⟩, sign, unsigned, signed, numeral, rfl⟩ := front
  have read := span_sign_front signed (numeral.no_sign rest)
  rw [List.append_assoc, read]
  exact ⟨unsigned, rest, numeral, rfl, rfl⟩

theorem head_minus (text : List Char) : (text.head? == some '-') = ((spanSign text).1 == ['-']) := by
  unfold spanSign
  split
  · rfl
  · rfl
  · next noMinus =>
    cases text with
    | nil => rfl
    | cons c rest =>
      have other : c ≠ '-' := by
        rintro rfl
        exact noMinus rest rfl
      simp [other]

theorem longest_infinity {later : List Char} (parts : (spanSign text).2 = infinityName ++ later) :
    LongestAtFront text ((spanSign text).1 ++ infinityName) := by
  refine ⟨⟨⟨later, ?_⟩, _, _, span_sign_signed text, .inl rfl, rfl⟩, fun q front => ?_⟩
  · rw [List.append_assoc, ← parts, span_sign_append]
  · obtain ⟨unsigned, rest, rfl | literal, rfl, same⟩ := front.parts
    · exact Nat.le_refl _
    · obtain ⟨n, rfl⟩ := is_decimal_literal_iff.1 literal
      exact absurd (parts.symm.trans same) (infinity_apart n later rest)

theorem longest_decimal (named : ¬ infinityName <+: (spanSign text).2) (n : Numeral)
    (passed : skipDecimal? (spanSign text).2 = some rest) (parts : n.text ++ rest = (spanSign text).2) :
    LongestAtFront text ((spanSign text).1 ++ n.text) := by
  have literal : isDecimalLiteral n.text = true := is_decimal_literal_iff.2 ⟨n, rfl⟩
  refine ⟨⟨⟨rest, ?_⟩, _, _, span_sign_signed text, .inr literal, rfl⟩, fun q front => ?_⟩
  · rw [List.append_assoc, parts, span_sign_append]
  · obtain ⟨unsigned, later, rfl | literal, rfl, same⟩ := front.parts
    · exact absurd ⟨later, same.symm⟩ named
    · obtain ⟨other, rfl⟩ := is_decimal_literal_iff.1 literal
      obtain ⟨left, skipped, less⟩ := skip_decimal_text other later
      rw [← same, passed, Option.some_inj] at skipped
      have lengths := congrArg List.length (parts.trans same)
      rw [List.length_append, List.length_append] at lengths ⊢
      rw [← skipped] at less
      omega

/-- What the reading of a front gives: the value of the longest numeral, or no number if there is none. -/
theorem prefix_cases (text : List Char) :
    (ofPrefix text = .nan ∧ ∀ p, ¬ NumeralAtFront text p) ∨
      ∃ p, LongestAtFront text p ∧ ofPrefix text = ofText (String.ofList p) ∧ ofPrefix text ≠ .nan := by
  have signed := span_sign_signed text
  have whole := span_sign_append text
  unfold ofPrefix
  dsimp only
  by_cases named : infinityName <+: (spanSign text).2
  · obtain ⟨later, parts⟩ := named
    rw [if_pos (List.isPrefixOf_iff_prefix.2 ⟨later, parts⟩), head_minus]
    exact .inr ⟨_, longest_infinity parts.symm, (ofText_infinity signed).symm, nofun⟩
  · rw [if_neg (mt List.isPrefixOf_iff_prefix.1 named)]
    cases passed : skipDecimal? (spanSign text).2 with
    | none =>
      refine .inl ⟨rfl, fun p front => ?_⟩
      obtain ⟨unsigned, later, rfl | literal, rfl, same⟩ := front.parts
      · exact named ⟨later, same.symm⟩
      · obtain ⟨n, rfl⟩ := is_decimal_literal_iff.1 literal
        obtain ⟨left, skipped, -⟩ := skip_decimal_text n later
        rw [← same, passed] at skipped
        cases skipped
    | some rest =>
      obtain ⟨n, parts⟩ := exists_of_skip_decimal passed
      have front : text.take (text.length - rest.length) = (spanSign text).1 ++ n.text := by
        rw [← parts, ← List.append_assoc] at whole
        have lengths := congrArg List.length whole
        rw [List.length_append] at lengths
        calc text.take (text.length - rest.length)
            = ((spanSign text).1 ++ n.text ++ rest).take (text.length - rest.length) := by rw [whole]
          _ = (spanSign text).1 ++ n.text := List.take_left' (by omega)
      dsimp only
      rw [front, parse_numeral n signed, Option.getD_some]
      exact .inr ⟨_, longest_decimal named n passed parts, (ofText_numeral n signed).symm,
        Decimal.toNumber_ne_nan _ _⟩

/-- There is only one longest numeral. -/
theorem LongestAtFront.unique (first : LongestAtFront text p) (second : LongestAtFront text q) : p = q := by
  have lengths := Nat.le_antisymm (second.2 p first.1) (first.2 q second.1)
  exact (List.prefix_of_prefix_length_le first.1.1 second.1.1 lengths.le).eq_of_length lengths

/-- Reading a number at the front of a text gives no number exactly if the text begins with no numeral. Else the
text begins with a longest one, and this gives the same number as a whole text; so does a text that is a numeral. -/
theorem longest_numeral_read (text : List Char) :
    (ofPrefix text = .nan ↔ ∀ p, ¬ NumeralAtFront text p) ∧
      (ofPrefix text ≠ .nan → ∃ p, LongestAtFront text p) ∧
      (∀ p, LongestAtFront text p → ofPrefix text = ofText (String.ofList p)) ∧
      (SignedNumeral text → ofPrefix text = ofText (String.ofList text)) := by
  rcases prefix_cases text with ⟨none, nowhere⟩ | ⟨p, longest, value, number⟩
  · exact ⟨⟨fun _ => nowhere, fun _ => none⟩, fun number => absurd none number,
      fun p longest => absurd longest.1 (nowhere p),
      fun numeral => absurd ⟨List.prefix_rfl, numeral⟩ (nowhere text)⟩
  · refine ⟨⟨fun none => absurd none number, fun nowhere => absurd longest.1 (nowhere p)⟩,
      fun _ => ⟨p, longest⟩, fun q other => ?_, fun numeral => ?_⟩
    · rw [value, longest.unique other]
    · have all : LongestAtFront text text :=
        ⟨⟨List.prefix_rfl, numeral⟩, fun q front => front.1.length_le⟩
      rw [value, longest.unique all]

end ScriptEngine
