import ScriptEngine.Proofs.Text.Occurrence
import ScriptEngine.Text.Units

/-!
Texts inside of others. A text that is not empty occurs among the code units of another one only where it stands in
that text: no occurrence begins or ends between the halves of a surrogate pair, since the first half of a pair is
never the second one of another.
-/

namespace ScriptEngine.Text

variable {text more : List Char} {c d : Char} {us vs : List UInt16}

@[simp] theorem encode_nil : encode [] = [] :=
  rfl

@[simp] theorem encode_cons (c : Char) (text : List Char) : encode (c :: text) = encodeChar c ++ encode text :=
  List.flatMap_cons

@[simp] theorem units_append (text more : String) : units (text ++ more) = units text ++ units more := by
  rw [units, String.toList_append, encode_append]
  rfl

theorem encode_inj : encode text = encode more ↔ text = more := by
  constructor
  · intro same
    rw [← decode_encode text, same, decode_encode]
  · exact congrArg encode

/-! ## The units of one character -/

/-- A character is one unit that is no half of a pair, or a pair. -/
theorem encode_char_cases (c : Char) :
    (∃ u, encodeChar c = [u] ∧ isHighSurrogate u = false ∧ isLowSurrogate u = false) ∨
      ∃ u v, encodeChar c = [u, v] ∧ isHighSurrogate u = true ∧ isLowSurrogate v = true := by
  have valid := toNat_valid c
  by_cases small : c.toNat < 0x10000
  · left
    have exact : c.toNat.toUInt16.toNat = c.toNat := by
      rw [UInt16.toNat_ofNat']; omega
    refine ⟨c.toNat.toUInt16, if_pos small, ?_, ?_⟩
    all_goals
      simp only [isHighSurrogate, isLowSurrogate, Bool.and_eq_false_iff, decide_eq_false_iff_not,
        UInt16.le_iff_toNat_le, UInt16.lt_iff_toNat_lt, exact]
      simp
      omega
  · right
    refine ⟨_, _, if_neg small, ?_, ?_⟩
    all_goals
      simp only [isHighSurrogate, isLowSurrogate, Bool.and_eq_true, decide_eq_true_eq, UInt16.le_iff_toNat_le,
        UInt16.lt_iff_toNat_lt, UInt16.toNat_ofNat']
      simp
      omega

theorem not_low_of_high {u : UInt16} (high : isHighSurrogate u = true) : isLowSurrogate u = false := by
  simp only [isHighSurrogate, isLowSurrogate, Bool.and_eq_true, Bool.and_eq_false_iff, decide_eq_true_eq,
    decide_eq_false_iff_not] at high ⊢
  exact .inl (UInt16.not_le.2 high.2)

/-- No character begins with the second half of a pair. -/
theorem encode_char_begins (c : Char) : ∃ u rest, encodeChar c = u :: rest ∧ isLowSurrogate u = false := by
  rcases encode_char_cases c with ⟨u, same, -, low⟩ | ⟨u, v, same, high, -⟩
  · exact ⟨u, [], same, low⟩
  · exact ⟨u, [v], same, not_low_of_high high⟩

theorem encode_char_inj : encodeChar c = encodeChar d ↔ c = d := by
  rw [← List.append_nil (encodeChar c), ← List.append_nil (encodeChar d), ← encode_nil, ← encode_cons,
    ← encode_cons, encode_inj, List.cons.injEq, and_iff_left rfl]

/-- Where units begin, it is seen which character they begin with. -/
theorem encode_char_append (same : encodeChar c ++ us = encodeChar d ++ vs) : c = d ∧ us = vs := by
  have lengths : (encodeChar c).length = (encodeChar d).length := by
    rcases encode_char_cases c with ⟨u, first, plain, -⟩ | ⟨u, v, first, high, -⟩
    · rcases encode_char_cases d with ⟨u', second, -, -⟩ | ⟨u', v', second, high', -⟩
      · rw [first, second]
        rfl
      · rw [first, second] at same
        rw [← List.head_eq_of_cons_eq same, plain] at high'
        cases high'
    · rcases encode_char_cases d with ⟨u', second, plain', -⟩ | ⟨u', v', second, -, -⟩
      · rw [first, second] at same
        rw [List.head_eq_of_cons_eq same, plain'] at high
        cases high
      · rw [first, second]
        rfl
  obtain ⟨first, rest⟩ := List.append_inj same lengths
  exact ⟨encode_char_inj.1 first, rest⟩

/-! ## Texts inside of others -/

/-- Units with which those of a text begin are those of its first characters. -/
theorem exists_of_encode_prefix {after : List UInt16} (same : encode more ++ after = encode text) :
    ∃ rest, text = more ++ rest ∧ after = encode rest := by
  induction more generalizing text with
  | nil => exact ⟨text, rfl, same⟩
  | cons c more ih =>
    rw [encode_cons, List.append_assoc] at same
    cases text with
    | nil =>
      obtain ⟨u, rest, first, -⟩ := encode_char_begins c
      rw [first] at same
      cases same
    | cons d text =>
      rw [encode_cons] at same
      obtain ⟨rfl, behind⟩ := encode_char_append same
      obtain ⟨rest, rfl, last⟩ := ih behind
      exact ⟨rest, rfl, last⟩

/-- Between the halves of a pair no text begins. -/
theorem exists_of_encode_infix {before after : List UInt16} (some : more ≠ [])
    (same : before ++ encode more ++ after = encode text) :
    ∃ first last, text = first ++ more ++ last ∧ before = encode first ∧ after = encode last := by
  induction text generalizing before with
  | nil =>
    cases more with
    | nil => exact absurd rfl some
    | cons c more =>
      obtain ⟨u, rest, begins, -⟩ := encode_char_begins c
      simp [begins] at same
  | cons d text ih =>
    cases before with
    | nil =>
      obtain ⟨last, same, behind⟩ := exists_of_encode_prefix same
      exact ⟨[], last, same, rfl, behind⟩
    | cons u before =>
      rcases encode_char_cases d with ⟨v, unit, -, -⟩ | ⟨v, w, pair, -, low⟩
      · rw [encode_cons, unit] at same
        obtain ⟨rfl, behind⟩ := List.cons_eq_cons.1 same
        obtain ⟨first, last, rfl, rfl, rfl⟩ := ih behind
        exact ⟨d :: first, last, rfl, by rw [encode_cons, unit]; rfl, rfl⟩
      · rw [encode_cons, pair] at same
        obtain ⟨rfl, behind⟩ := List.cons_eq_cons.1 same
        cases before with
        | nil =>
          -- The text would begin with the second half of this pair.
          cases more with
          | nil => exact absurd rfl some
          | cons c more =>
            obtain ⟨x, rest, begins, other⟩ := encode_char_begins c
            rw [encode_cons, begins] at behind
            rw [List.head_eq_of_cons_eq behind, low] at other
            cases other
        | cons w' before =>
          obtain ⟨rfl, further⟩ := List.cons_eq_cons.1 behind
          obtain ⟨first, last, rfl, rfl, rfl⟩ := ih further
          exact ⟨d :: first, last, rfl, by rw [encode_cons, pair]; rfl, rfl⟩

/-! ## Places of strings -/

variable {s t : String} {place : Nat}

/-- The first place of a string in another one is behind whole characters. -/
theorem exists_of_first_place (first : FirstOf {i | Occurs (units t) (units s) i} (some place)) :
    ∃ before after : String, s = before ++ t ++ after ∧ (units before).length = place := by
  by_cases empty : t = ""
  · subst empty
    have start : Occurs (units "") (units s) 0 := occurs_zero_iff.2 List.nil_prefix
    exact ⟨"", s, by simp, (Nat.le_zero.1 (first.2 start)).symm⟩
  · obtain ⟨before, after, same, rfl⟩ := first.1
    obtain ⟨front, back, chars, rfl, rfl⟩ := exists_of_encode_infix (mt String.toList_eq_nil_iff.1 empty) same
    refine ⟨String.ofList front, String.ofList back, ?_, by rw [units, String.toList_ofList]⟩
    rw [← String.toList_inj, chars]
    simp

end ScriptEngine.Text
