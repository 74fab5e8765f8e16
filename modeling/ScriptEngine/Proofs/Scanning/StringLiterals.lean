import ScriptEngine.Proofs.Scanning.Layout

/-!
What stands between the quotes of a string literal. It is a row of items, each of which is a plain character or
begins with a backslash, and it stands for the code units of the items in their order. Halves of surrogate pairs
may come from different items: only the whole row is decoded. A text behind a quote is such a row up to the next
quote of the kind, or it is no script.
-/

namespace ScriptEngine.Scanning

open Text

/-- The number that digits in a base denote. -/
def numeral (base : Nat) (digits : List Char) : Nat :=
  digits.foldl (fun value c => base * value + (digitValue? base c).getD 0) 0

/-- The digits of an octal escape: one to three of them, for a number of one byte. -/
structure OctalDigits (digits : List Char) : Prop where
  nonempty : digits ≠ []
  octal : ∀ c ∈ digits, Number.isOctalDigit c
  short : digits.length ≤ 3
  small : numeral 8 digits ≤ 0o377

/-- One item of a string literal: a plain character, or an escape. -/
inductive LiteralItem where
  | plain (c : Char)
  | letter (c : Char) (unit : UInt16)
  | hex (digits : List Char)
  | unicode (digits : List Char)
  | octal (digits : List Char)
  | identity (c : Char)
  | continuation (lineEnd : List Char)

namespace LiteralItem

/-- The item as it stands in a script. -/
def text : LiteralItem → List Char
  | plain c => [c]
  | letter c _ | identity c => ['\\', c]
  | hex digits => '\\' :: 'x' :: digits
  | unicode digits => '\\' :: 'u' :: digits
  | octal digits | continuation digits => '\\' :: digits

/-- The code units that the item stands for. -/
def units : LiteralItem → List UInt16
  | plain c | identity c => encodeChar c
  | letter _ unit => [unit]
  | hex digits | unicode digits => [(numeral 16 digits).toUInt16]
  | octal digits => [(numeral 8 digits).toUInt16]
  | continuation _ => []

/-- The item may be written between quotes of a kind. -/
def Writable (quote : Char) : LiteralItem → Prop
  | plain c => c ≠ quote ∧ c ≠ '\\' ∧ isLineTerminator c = false
  | letter c unit => letterEscape? c = some unit
  | hex digits => digits.length = 2 ∧ ∀ c ∈ digits, (digitValue? 16 c).isSome
  | unicode digits => digits.length = 4 ∧ ∀ c ∈ digits, (digitValue? 16 c).isSome
  | octal digits => OctalDigits digits
  | identity c => letterEscape? c = none ∧ c ≠ 'x' ∧ c ≠ 'u' ∧ isLineTerminator c = false ∧
      Number.isOctalDigit c = false
  | continuation lineEnd => lineEnd = ['\r', '\n'] ∨ ∃ c, lineEnd = [c] ∧ isLineTerminator c

/-- The item takes all of the text that it can: no digit that goes on with an octal escape, and no line feed behind
an escaped carriage return, is left over. -/
def Maximal (behind : List Char) : LiteralItem → Prop
  | octal digits => ∀ c ∈ behind.head?, ¬ OctalDigits (digits ++ [c])
  | continuation lineEnd => lineEnd = ['\r'] → behind.head? ≠ some '\n'
  | _ => True

/-- The item is an octal escape, other than a single zero that no decimal digit follows. -/
def isOlder (behind : List Char) : LiteralItem → Bool
  | octal digits => digits != ['0'] || behind.head?.any (·.isDigit)
  | _ => false

end LiteralItem

/-- What stands between the quotes of a string literal. -/
abbrev LiteralBody := List LiteralItem

namespace LiteralBody

/-- The items as they stand in a script. -/
def text (body : LiteralBody) : List Char :=
  body.flatMap LiteralItem.text

/-- The code units of all items. -/
def units (body : LiteralBody) : List UInt16 :=
  body.flatMap LiteralItem.units

/-- Each item may be written between quotes of a kind, and takes all that it can of what follows up to the quote. -/
def Wellformed (quote : Char) : LiteralBody → Prop
  | [] => True
  | item :: later => item.Writable quote ∧ item.Maximal (text later ++ [quote]) ∧ Wellformed quote later

/-- One of the items is an escape of the older octal form. -/
def isOlder (quote : Char) : LiteralBody → Bool
  | [] => false
  | item :: later => item.isOlder (text later ++ [quote]) || isOlder quote later

@[simp] theorem text_nil : text [] = [] :=
  rfl

@[simp] theorem text_cons (item : LiteralItem) (later : LiteralBody) :
    text (item :: later) = item.text ++ text later :=
  rfl

@[simp] theorem units_nil : units [] = [] :=
  rfl

@[simp] theorem units_cons (item : LiteralItem) (later : LiteralBody) :
    units (item :: later) = item.units ++ units later :=
  rfl

end LiteralBody

/-! ## Digits -/

/-- An octal digit has its value in base eight. -/
theorem digit_value_of_octal {c : Char} (octal : Number.isOctalDigit c) :
    digitValue? 8 c = some (octalValue c) ∧ octalValue c < 8 := by
  obtain ⟨low, high⟩ : '0' ≤ c ∧ c ≤ '7' := by simpa [Number.isOctalDigit] using octal
  have low : 48 ≤ c.toNat := UInt32.le_iff_toNat_le.mp low
  have high : c.toNat ≤ 55 := UInt32.le_iff_toNat_le.mp high
  have digit : c.isDigit := by
    simp only [Char.isDigit, Bool.and_eq_true, decide_eq_true_eq, UInt32.le_iff_toNat_le]
    exact ⟨low, Nat.le_trans high (by decide)⟩
  have small : octalValue c < 8 := by
    change c.toNat - 48 < 8
    omega
  rw [digitValue?, if_pos digit]
  exact ⟨if_pos small, small⟩

theorem mem_of_octal_digit {c : Char} (octal : Number.isOctalDigit c) :
    c ∈ ['0', '1', '2', '3', '4', '5', '6', '7'] := by
  obtain ⟨low, high⟩ : '0' ≤ c ∧ c ≤ '7' := by simpa [Number.isOctalDigit] using octal
  have low : 48 ≤ c.toNat := UInt32.le_iff_toNat_le.mp low
  have high : c.toNat ≤ 55 := UInt32.le_iff_toNat_le.mp high
  have code : c.toNat = 48 ∨ c.toNat = 49 ∨ c.toNat = 50 ∨ c.toNat = 51 ∨ c.toNat = 52 ∨ c.toNat = 53 ∨
      c.toNat = 54 ∨ c.toNat = 55 := by omega
  rw [← Char.ofNat_toNat c]
  rcases code with code | code | code | code | code | code | code | code <;> rw [code] <;> decide

/-- How many digits may follow the first one of an octal escape. -/
def octalRoom (first : Char) : Nat :=
  if first ≤ '3' then 2 else 1

theorem low_digit_iff {c : Char} : c ≤ '3' ↔ octalValue c ≤ 3 := by
  have codes : c ≤ '3' ↔ c.toNat ≤ 51 := by
    rw [Char.le_def, UInt32.le_iff_toNat_le]
    exact Iff.rfl
  rw [codes]
  change _ ↔ c.toNat - 48 ≤ 3
  omega

/-- The value of the first digit decides how many digits an octal escape may have. -/
theorem octal_digits_iff {first : Char} {later : List Char} : OctalDigits (first :: later) ↔
    (∀ c ∈ first :: later, Number.isOctalDigit c) ∧ later.length ≤ octalRoom first := by
  have room : octalRoom first = if octalValue first ≤ 3 then 2 else 1 := by
    simp only [octalRoom, low_digit_iff]
  have digit (c : Char) (octal : Number.isOctalDigit c) := digit_value_of_octal octal
  constructor
  · rintro ⟨-, octal, short, small⟩
    refine ⟨octal, ?_⟩
    obtain ⟨value, -⟩ := digit first (octal first (.head _))
    match later, short with
    | [], _ | [_], _ =>
      simp only [List.length_nil, List.length_singleton, room]
      split <;> omega
    | [second, third], _ =>
      obtain ⟨next, -⟩ := digit second (octal second (by simp))
      obtain ⟨last, -⟩ := digit third (octal third (by simp))
      simp [numeral, value, next, last] at small
      simp only [List.length_cons, List.length_nil, room]
      split <;> omega
  · rintro ⟨octal, short⟩
    obtain ⟨value, bound⟩ := digit first (octal first (.head _))
    rw [room] at short
    have few : later.length ≤ 2 := by
      split at short <;> omega
    refine ⟨List.cons_ne_nil _ _, octal, Nat.succ_le_succ few, ?_⟩
    match later, few with
    | [], _ =>
      simp [numeral, value]
      omega
    | [second], _ =>
      obtain ⟨next, bounded⟩ := digit second (octal second (by simp))
      simp [numeral, value, next]
      omega
    | [second, third], _ =>
      obtain ⟨next, bounded⟩ := digit second (octal second (by simp))
      obtain ⟨last, limited⟩ := digit third (octal third (by simp))
      simp [numeral, value, next, last]
      simp only [List.length_cons, List.length_nil] at short
      split at short <;> omega

/-! ## From plain characters to plain characters -/

variable {quote : Char} {units : List UInt16} {octal : Bool}

/-- The scanner passes the digits of an escape in base sixteen. -/
theorem scan_hex_digits (offset : Nat) {digits : List Char} {left : Nat} (value : Nat) (counted : digits.length = left)
    (room : 0 < left) (hex : ∀ c ∈ digits, (digitValue? 16 c).isSome) (behind : List Char) :
    scanString quote ⟨.hex left value, units, octal⟩ offset (digits ++ behind) =
      scanString quote
        ⟨.plain, (digits.foldl (fun n c => 16 * n + (digitValue? 16 c).getD 0) value).toUInt16 :: units, octal⟩
        (offset + byteLength digits) behind := by
  subst counted
  induction digits generalizing value offset with
  | nil => cases room
  | cons c later ih =>
    obtain ⟨digit, known⟩ := Option.isSome_iff_exists.mp (hex c (.head _))
    rw [byteLength_cons, ← Nat.add_assoc, List.foldl_cons, known, List.cons_append, scanString]
    cases later with
    | nil => simp [StringState.step, known, StringState.pushUnit, byteLength_nil]
    | cons d later =>
      have rest := ih (offset + c.utf8Size) (16 * value + digit) (fun e mem => hex e (.tail _ mem))
        (Nat.succ_pos _)
      simpa [StringState.step, known] using rest

/-- Behind an octal escape the next character is met as among plain ones. -/
theorem scan_octal_end (offset left value : Nat) (plainZero : Bool) {behind : List Char}
    (ends : ∀ c ∈ behind.head?, Number.isOctalDigit c = false) :
    scanString quote ⟨.octal left value plainZero, units, octal⟩ offset behind =
      scanString quote ⟨.plain, value.toUInt16 :: units,
        octal || !(plainZero && !behind.head?.any fun c => c == '8' || c == '9')⟩ offset behind := by
  cases behind with
  | nil => rfl
  | cons c behind =>
    have other : Number.isOctalDigit c = false := ends c rfl
    simp only [scanString, StringState.step, other, Bool.false_eq_true, ↓reduceIte, StringState.settle,
      StringState.endOctal, List.head?_cons, Option.any_some]
    -- The quote closes the string in either state, with what the octal escape leaves behind.
    cases met : StringState.stepPlain quote _ c with
    | closed =>
      obtain rfl := step_plain_closed met
      rfl
    | fault f => rfl
    | next s => rfl

/-- The scanner passes the digits that follow the first one of an octal escape. -/
theorem scan_octal_digits (offset : Nat) {digits behind : List Char} {left : Nat} (value : Nat) (plainZero : Bool)
    (octals : ∀ c ∈ digits, Number.isOctalDigit c) (room : 0 < left) (short : digits.length ≤ left)
    (ends : digits.length < left → ∀ c ∈ behind.head?, Number.isOctalDigit c = false) :
    scanString quote ⟨.octal left value plainZero, units, octal⟩ offset (digits ++ behind) =
      scanString quote ⟨.plain,
        (digits.foldl (fun n c => 8 * n + (digitValue? 8 c).getD 0) value).toUInt16 :: units,
        octal || !(plainZero && digits.isEmpty && !behind.head?.any fun c => c == '8' || c == '9')⟩
        (offset + byteLength digits) behind := by
  induction digits generalizing left value plainZero offset with
  | nil => simpa [byteLength_nil] using scan_octal_end offset left value plainZero (ends room)
  | cons c later ih =>
    have digit : Number.isOctalDigit c := octals c (.head _)
    have known := (digit_value_of_octal digit).1
    rw [byteLength_cons, ← Nat.add_assoc, List.foldl_cons, known, List.cons_append, scanString]
    simp only [List.length_cons] at short ends
    by_cases last : left ≤ 1
    · obtain rfl : later = [] := List.length_eq_zero_iff.mp (by omega)
      simp [StringState.step, digit, last, StringState.endOctal, byteLength_nil]
    · have rest := ih (offset + c.utf8Size) (8 * value + octalValue c) false
        (fun e mem => octals e (.tail _ mem)) (Nat.sub_pos_of_lt (Nat.lt_of_not_le last)) (by omega)
        (fun fewer => ends (by omega))
      simpa [StringState.step, digit, last] using rest

/-! ## Items -/

/-- A character behind a backslash is met in the state that the backslash leads to. -/
theorem scan_escape (unquoted : quote ≠ '\\') (offset : Nat) (c : Char) (behind : List Char) :
    scanString quote ⟨.plain, units, octal⟩ offset ('\\' :: c :: behind) =
      scanString quote (StringState.stepEscape ⟨.escape, units, octal⟩ c)
        (offset + byteLength ['\\', c]) behind := by
  have within : isLineTerminator '\\' = false := by decide
  simp [scanString, StringState.step, StringState.stepPlain, unquoted.symm, within, byteLength, Nat.add_assoc]

/-- An escape in base sixteen that its mark begins. -/
theorem scan_hex_escape (unquoted : quote ≠ '\\') (offset : Nat) {mark : Char} {left : Nat} {digits : List Char}
    (begins : StringState.stepEscape ⟨.escape, units, octal⟩ mark = ⟨.hex left 0, units, octal⟩)
    (counted : digits.length = left) (room : 0 < left) (hex : ∀ c ∈ digits, (digitValue? 16 c).isSome)
    (behind : List Char) :
    scanString quote ⟨.plain, units, octal⟩ offset ('\\' :: mark :: (digits ++ behind)) =
      scanString quote ⟨.plain, (numeral 16 digits).toUInt16 :: units, octal⟩
        (offset + byteLength ('\\' :: mark :: digits)) behind := by
  have bytes : byteLength ('\\' :: mark :: digits) = byteLength ['\\', mark] + byteLength digits :=
    byteLength_append ['\\', mark] digits
  rw [scan_escape unquoted, begins, scan_hex_digits _ 0 counted room hex, bytes, Nat.add_assoc]
  rfl

theorem step_escape_octal {c : Char} (digit : Number.isOctalDigit c) :
    StringState.stepEscape ⟨.escape, units, octal⟩ c =
      ⟨.octal (octalRoom c) (octalValue c) (c == '0'), units, octal⟩ := by
  have known := mem_of_octal_digit digit
  simp only [List.mem_cons, List.not_mem_nil, or_false] at known
  rcases known with rfl | rfl | rfl | rfl | rfl | rfl | rfl | rfl <;> rfl

/-- No digit that goes on with an octal escape is left over if the escape is not full. -/
theorem ends_of_maximal {first : Char} {later behind : List Char} (octals : OctalDigits (first :: later))
    (maximal : ∀ c ∈ behind.head?, ¬ OctalDigits (first :: later ++ [c])) (room : later.length < octalRoom first) :
    ∀ c ∈ behind.head?, Number.isOctalDigit c = false := by
  intro c next
  by_contra digit
  have longer : OctalDigits (first :: (later ++ [c])) := by
    rw [octal_digits_iff, ← List.cons_append, List.forall_mem_append, List.forall_mem_singleton]
    exact ⟨⟨octals.octal, by simpa using digit⟩, by simpa using Nat.succ_le_of_lt room⟩
  exact maximal c next longer

/-- Two of the digits are not octal. -/
theorem digit_of_not_octal {c : Char} (other : Number.isOctalDigit c = false) :
    (c == '8' || c == '9') = c.isDigit := by
  by_cases nine : c = '9'
  · subst nine
    rfl
  by_cases eight : c = '8'
  · subst eight
    rfl
  have above (high : c.toNat ≤ 57) (low : 48 ≤ c.toNat) : False := by
    have notNine : c.toNat ≠ 57 := fun same => nine (by rw [← Char.ofNat_toNat c, same])
    have notEight : c.toNat ≠ 56 := fun same => eight (by rw [← Char.ofNat_toNat c, same])
    have octal : Number.isOctalDigit c := by
      simp only [Number.isOctalDigit, Bool.and_eq_true, decide_eq_true_eq, Char.le_def, UInt32.le_iff_toNat_le]
      exact ⟨low, (by omega : c.toNat ≤ 55)⟩
    rw [other] at octal
    cases octal
  have none : c.isDigit = false := by
    by_contra digit
    simp only [Bool.not_eq_false, Char.isDigit, Bool.and_eq_true, decide_eq_true_eq, UInt32.le_iff_toNat_le] at digit
    exact above digit.2 digit.1
  simp [none, nine, eight]

/-- An octal escape that takes all digits it can. -/
theorem scan_octal_escape (unquoted : quote ≠ '\\') (offset : Nat) {digits behind : List Char}
    (octals : OctalDigits digits) (maximal : ∀ c ∈ behind.head?, ¬ OctalDigits (digits ++ [c])) :
    scanString quote ⟨.plain, units, octal⟩ offset ('\\' :: (digits ++ behind)) =
      scanString quote ⟨.plain, (numeral 8 digits).toUInt16 :: units,
        octal || (LiteralItem.octal digits).isOlder behind⟩ (offset + byteLength ('\\' :: digits)) behind := by
  obtain ⟨first, later, rfl⟩ := List.exists_cons_of_ne_nil octals.nonempty
  obtain ⟨each, short⟩ := octal_digits_iff.mp octals
  have ends := ends_of_maximal octals maximal
  have digit := each first (.head _)
  have bytes : byteLength ('\\' :: first :: later) = byteLength ['\\', first] + byteLength later :=
    byteLength_append ['\\', first] later
  have room : 0 < octalRoom first := by
    unfold octalRoom
    split <;> decide
  have older : (!((first == '0') && later.isEmpty && !behind.head?.any fun c => c == '8' || c == '9')) =
      (LiteralItem.octal (first :: later)).isOlder behind := by
    cases later with
    | cons second later => simp [LiteralItem.isOlder]
    | nil =>
      have decimal : (behind.head?.any fun c => c == '8' || c == '9') = behind.head?.any (·.isDigit) := by
        cases next : behind.head? with
        | none => rfl
        | some c => exact digit_of_not_octal (ends room c next)
      rw [decimal]
      simp [LiteralItem.isOlder, bne]
  rw [List.cons_append, scan_escape unquoted, step_escape_octal digit,
    scan_octal_digits _ _ _ (fun c mem => each c (.tail _ mem)) room short ends, older, bytes, Nat.add_assoc]
  simp [numeral, (digit_value_of_octal digit).1]

/-- What is kept of a string that is scanned: its units, last first, whether it has an older octal escape, and the
place behind it. -/
def scanUnits (quote : Char) (s : StringState) (offset : Nat) (text : List Char) :
    Except (SyntaxFault × Nat) (List UInt16 × Bool × Place) :=
  (scanString quote s offset text).map fun (ended, place) => (ended.units, ended.octal, place)

/-- Behind an escaped carriage return the next character is met as among plain ones, unless it is a line feed. -/
theorem scan_units_escaped_return (offset : Nat) {behind : List Char} (ends : behind.head? ≠ some '\n') :
    scanUnits quote ⟨.escapedReturn, units, octal⟩ offset behind =
      scanUnits quote ⟨.plain, units, octal⟩ offset behind := by
  cases behind with
  | nil => rfl
  | cons c behind =>
    have other : c ≠ '\n' := by simpa using ends
    simp only [scanUnits, scanString, StringState.step, beq_iff_eq, other, ↓reduceIte]
    cases StringState.stepPlain quote ⟨.plain, units, octal⟩ c <;> rfl

/-- An item is scanned from among plain characters to among plain characters. -/
theorem scan_item (unquoted : quote ≠ '\\') (offset : Nat) {item : LiteralItem} {behind : List Char}
    (writable : item.Writable quote) (maximal : item.Maximal behind) :
    scanUnits quote ⟨.plain, units, octal⟩ offset (item.text ++ behind) =
      scanUnits quote ⟨.plain, item.units.reverse ++ units, octal || item.isOlder behind⟩
        (offset + byteLength item.text) behind := by
  cases item with
  | plain c =>
    obtain ⟨other, unescaped, within⟩ := writable
    simp [LiteralItem.text, LiteralItem.units, LiteralItem.isOlder, scanUnits, scanString, StringState.step,
      StringState.stepPlain, StringState.push, other, unescaped, within, byteLength]
  | letter c unit =>
    simp only [LiteralItem.Writable] at writable
    simp [LiteralItem.text, LiteralItem.units, LiteralItem.isOlder, scanUnits, scan_escape unquoted,
      StringState.stepEscape, writable, StringState.pushUnit]
  | hex digits =>
    obtain ⟨two, hex⟩ := writable
    have begins : StringState.stepEscape ⟨.escape, units, octal⟩ 'x' = ⟨.hex 2 0, units, octal⟩ := rfl
    have scanned := scan_hex_escape unquoted offset begins two Nat.two_pos hex behind
    simpa [LiteralItem.text, LiteralItem.units, LiteralItem.isOlder, scanUnits] using congrArg _ scanned
  | unicode digits =>
    obtain ⟨four, hex⟩ := writable
    have begins : StringState.stepEscape ⟨.escape, units, octal⟩ 'u' = ⟨.hex 4 0, units, octal⟩ := rfl
    have scanned := scan_hex_escape unquoted offset begins four (by decide) hex behind
    simpa [LiteralItem.text, LiteralItem.units, LiteralItem.isOlder, scanUnits] using congrArg _ scanned
  | octal digits => exact congrArg _ (scan_octal_escape unquoted offset writable maximal)
  | identity c =>
    obtain ⟨noLetter, notX, notU, within, notOctal⟩ := writable
    have notReturn : c ≠ '\r' := by
      rintro rfl
      cases within
    simp [LiteralItem.text, LiteralItem.units, LiteralItem.isOlder, scanUnits, scan_escape unquoted,
      StringState.stepEscape, noLetter, notX, notU, within, notOctal, notReturn, StringState.push]
  | continuation lineEnd =>
    simp only [LiteralItem.text, LiteralItem.units, LiteralItem.isOlder, List.reverse_nil, List.nil_append,
      Bool.or_false]
    rcases writable with rfl | ⟨c, rfl, terminates⟩
    · rw [scanUnits, List.cons_append, List.cons_append, scan_escape unquoted]
      rfl
    · rw [scanUnits, List.cons_append, List.cons_append, scan_escape unquoted]
      by_cases lineReturn : c = '\r'
      · subst lineReturn
        exact scan_units_escaped_return _ (maximal rfl)
      · have known := terminates
        simp only [isLineTerminator, Bool.or_eq_true, beq_iff_eq, lineReturn, or_false] at known
        rcases known with (rfl | rfl) | rfl <;> rfl

/-- What follows an item takes part in nothing but its first character. -/
theorem maximal_of_head {item : LiteralItem} {behind other : List Char} (same : behind.head? = other.head?) :
    item.Maximal behind ↔ item.Maximal other := by
  cases item <;> simp [LiteralItem.Maximal, same]

theorem is_older_of_head {item : LiteralItem} {behind other : List Char} (same : behind.head? = other.head?) :
    item.isOlder behind = item.isOlder other := by
  cases item <;> simp [LiteralItem.isOlder, same]

theorem head_append_cons (text rest : List Char) (c : Char) :
    (text ++ c :: rest).head? = (text ++ [c]).head? := by
  cases text <;> rfl

/-- The scanner finds the units of all items, and stops behind the quote. -/
theorem scan_body (unquoted : quote ≠ '\\') (rest : List Char) {body : LiteralBody} (offset : Nat)
    (wellformed : body.Wellformed quote) :
    scanUnits quote ⟨.plain, units, octal⟩ offset (body.text ++ quote :: rest) =
      .ok (body.units.reverse ++ units, octal || body.isOlder quote,
        ⟨offset + byteLength body.text + quote.utf8Size, rest⟩) := by
  induction body generalizing units octal offset with
  | nil =>
    simp [scanUnits, scanString, StringState.step, StringState.stepPlain, StringState.close, LiteralBody.isOlder,
      byteLength_nil, Except.map]
  | cons item later ih =>
    obtain ⟨writable, maximal, others⟩ := wellformed
    have head := head_append_cons (LiteralBody.text later) rest quote
    rw [LiteralBody.text_cons, List.append_assoc,
      scan_item unquoted offset writable ((maximal_of_head head).mpr maximal), ih _ others, is_older_of_head head,
      LiteralBody.units_cons, LiteralBody.isOlder, byteLength_append]
    simp [Bool.or_assoc, Nat.add_assoc]

/-! ## Texts that are no row of items -/

/-- A string is not read to its end. -/
def Unread (scan : Except (SyntaxFault × Nat) (List UInt16 × Bool × Place)) : Prop :=
  ∃ fault stop, scan = .error (fault, stop) ∧ (fault = .unterminatedString ∨ fault = .badHexEscape)

/-- An escape in base sixteen has all its digits, or it is at fault. -/
theorem hex_digits_or_unread (offset left value : Nat) (text : List Char) (room : 0 < left) :
    (∃ digits behind, text = digits ++ behind ∧ digits.length = left ∧ ∀ c ∈ digits, (digitValue? 16 c).isSome) ∨
      Unread (scanUnits quote ⟨.hex left value, units, octal⟩ offset text) := by
  induction left generalizing text offset value with
  | zero => cases room
  | succ left ih =>
    cases text with
    | nil => exact .inr ⟨_, _, rfl, .inr rfl⟩
    | cons c text =>
      cases known : digitValue? 16 c with
      | none => exact .inr ⟨.badHexEscape, _, by simp [scanUnits, scanString, StringState.step, known]; rfl, .inr rfl⟩
      | some digit =>
        have isDigit : (digitValue? 16 c).isSome := by rw [known]; rfl
        by_cases last : left = 0
        · subst last
          exact .inl ⟨[c], text, rfl, rfl, by simpa using isDigit⟩
        · rcases ih (offset + c.utf8Size) (16 * value + digit) text (Nat.pos_of_ne_zero last) with found | unread
          · obtain ⟨digits, behind, rfl, counted, hex⟩ := found
            exact .inl ⟨c :: digits, behind, rfl, congrArg _ counted, List.forall_mem_cons.mpr ⟨isDigit, hex⟩⟩
          · right
            have goesOn : ¬ left + 1 ≤ 1 := by omega
            simpa [scanUnits, scanString, StringState.step, known, goesOn] using unread

/-- As many octal digits as there are, up to a number of them. -/
theorem exists_octal_digits (room : Nat) (text : List Char) : ∃ digits behind, text = digits ++ behind ∧
    digits.length ≤ room ∧ (∀ c ∈ digits, Number.isOctalDigit c) ∧
    (digits.length < room → ∀ c ∈ behind.head?, Number.isOctalDigit c = false) := by
  induction room generalizing text with
  | zero => exact ⟨[], text, rfl, by simp, by simp, by simp⟩
  | succ room ih =>
    cases text with
    | nil => exact ⟨[], [], rfl, by simp, by simp, by simp⟩
    | cons c text =>
      by_cases digit : Number.isOctalDigit c
      · obtain ⟨digits, behind, rfl, short, octals, ends⟩ := ih text
        exact ⟨c :: digits, behind, rfl, Nat.succ_le_succ short, List.forall_mem_cons.mpr ⟨digit, octals⟩,
          fun fewer => ends (Nat.lt_of_succ_lt_succ fewer)⟩
      · exact ⟨[], c :: text, rfl, by simp, by simp, by simpa using digit⟩

/-- The first digit of an octal escape takes those behind it with it. -/
theorem exists_octal_escape {first : Char} (digit : Number.isOctalDigit first) (text : List Char) :
    ∃ digits behind, text = digits ++ behind ∧ OctalDigits (first :: digits) ∧
      ∀ c ∈ behind.head?, ¬ OctalDigits (first :: digits ++ [c]) := by
  obtain ⟨digits, behind, rfl, short, octals, ends⟩ := exists_octal_digits (octalRoom first) text
  refine ⟨digits, behind, rfl, octal_digits_iff.mpr ⟨List.forall_mem_cons.mpr ⟨digit, octals⟩, short⟩, ?_⟩
  intro c next longer
  rw [List.cons_append, octal_digits_iff, List.length_append] at longer
  obtain ⟨each, few⟩ := longer
  have other := ends (Nat.lt_of_succ_le few) c next
  have octal := each c (by simp)
  rw [other] at octal
  cases octal

/-- A text that does not begin with the quote begins with an item, or it cannot be read as a string. -/
theorem item_or_unread (unquoted : quote ≠ '\\') (offset : Nat) (c : Char) (text : List Char) (other : c ≠ quote) :
    (∃ item behind, c :: text = LiteralItem.text item ++ behind ∧ behind.length < (c :: text).length ∧
      item.Writable quote ∧ item.Maximal behind) ∨
      Unread (scanUnits quote ⟨.plain, units, octal⟩ offset (c :: text)) := by
  by_cases ended : isLineTerminator c
  · right
    exact ⟨.unterminatedString, offset + c.utf8Size,
      by simp [scanUnits, scanString, StringState.step, StringState.stepPlain, other, ended, Except.map], .inl rfl⟩
  by_cases escaped : c = '\\'
  swap
  · exact .inl ⟨.plain c, text, rfl, Nat.lt_succ_self _, ⟨other, escaped, by simpa using ended⟩, trivial⟩
  subst escaped
  cases text with
  | nil =>
    right
    exact ⟨.unterminatedString, _, by
      simp [scanUnits, scanString, StringState.step, StringState.stepPlain, other, ended, Except.map,
        StringState.faultAtEnd]; rfl, .inl rfl⟩
  | cons mark text =>
    have shorter (digits behind : List Char) : behind.length < ('\\' :: mark :: (digits ++ behind)).length := by
      simp only [List.length_cons, List.length_append]
      omega
    cases letter : letterEscape? mark with
    | some unit => exact .inl ⟨.letter mark unit, text, rfl, shorter [] text, letter, trivial⟩
    | none =>
      by_cases hex : mark = 'x'
      · subst hex
        rcases hex_digits_or_unread (offset + byteLength ['\\', 'x']) 2 0 text Nat.two_pos with found | unread
        · obtain ⟨digits, behind, rfl, counted, hex⟩ := found
          exact .inl ⟨.hex digits, behind, rfl, shorter digits behind, ⟨counted, hex⟩, trivial⟩
        · right
          rw [scanUnits, scan_escape unquoted]
          exact unread
      by_cases unicode : mark = 'u'
      · subst unicode
        rcases hex_digits_or_unread (offset + byteLength ['\\', 'u']) 4 0 text (by decide) with found | unread
        · obtain ⟨digits, behind, rfl, counted, hex⟩ := found
          exact .inl ⟨.unicode digits, behind, rfl, shorter digits behind, ⟨counted, hex⟩, trivial⟩
        · right
          rw [scanUnits, scan_escape unquoted]
          exact unread
      left
      by_cases terminates : isLineTerminator mark
      · by_cases both : mark = '\r' ∧ text.head? = some '\n'
        · obtain ⟨rfl, feed⟩ := both
          obtain ⟨behind, rfl⟩ := List.head?_eq_some_iff.mp feed
          exact ⟨.continuation ['\r', '\n'], behind, rfl, shorter ['\n'] behind, .inl rfl, by
            simp [LiteralItem.Maximal]⟩
        · exact ⟨.continuation [mark], text, rfl, shorter [] text, .inr ⟨mark, rfl, terminates⟩, by
            simpa [LiteralItem.Maximal] using both⟩
      by_cases digit : Number.isOctalDigit mark
      · obtain ⟨digits, behind, rfl, octals, maximal⟩ := exists_octal_escape digit text
        exact ⟨.octal (mark :: digits), behind, rfl, shorter digits behind, octals, maximal⟩
      · exact ⟨.identity mark, text, rfl, shorter [] text,
          ⟨letter, hex, unicode, by simpa using terminates, by simpa using digit⟩, trivial⟩

/-- A text is a row of items up to a quote, or it cannot be read as a string. -/
theorem body_or_unread (unquoted : quote ≠ '\\') (units : List UInt16) (octal : Bool) (offset : Nat)
    (text : List Char) :
    (∃ body rest, text = LiteralBody.text body ++ quote :: rest ∧ body.Wellformed quote) ∨
      Unread (scanUnits quote ⟨.plain, units, octal⟩ offset text) := by
  match text with
  | [] => exact .inr ⟨.unterminatedString, offset, rfl, .inl rfl⟩
  | c :: text =>
    by_cases closes : c = quote
    · subst closes
      exact .inl ⟨[], text, rfl, trivial⟩
    rcases item_or_unread unquoted offset c text closes with found | unread
    swap
    · exact .inr unread
    obtain ⟨item, behind, same, shorter, writable, maximal⟩ := found
    rw [same, scan_item unquoted offset writable maximal]
    rcases body_or_unread unquoted (item.units.reverse ++ units) (octal || item.isOlder behind)
      (offset + byteLength item.text) behind with ⟨body, rest, rfl, wellformed⟩ | unread
    · left
      have head := head_append_cons (LiteralBody.text body) rest quote
      exact ⟨item :: body, rest, by simp, writable, (maximal_of_head head).mp maximal, wellformed⟩
    · exact .inr unread
termination_by text.length
decreasing_by exact shorter

/-! ## Tokens -/

/-- The token of a string literal that begins at an offset. -/
def literalToken (quote : Char) (body : LiteralBody) (newlineBefore : Bool) (offset : Nat) : Token :=
  ⟨.string, ofUnits body.units, ⟨offset, offset + byteLength (quote :: (body.text ++ [quote]))⟩, newlineBefore,
    body.isOlder quote⟩

/-- Behind a quote the scanner reads a string. -/
theorem scan_token_quote (isQuote : quote = '"' ∨ quote = '\'') (newlineBefore : Bool) (offset : Nat)
    (text : List Char) :
    scanToken newlineBefore offset (quote :: text) =
      match scanUnits quote ⟨.plain, [], false⟩ (offset + quote.utf8Size) text with
      | .ok (units, older, place) =>
        .ok (⟨.string, ofUnits units.reverse, ⟨offset, place.offset⟩, newlineBefore, older⟩, place)
      | .error (fault, stop) => .error ⟨fault, ⟨offset, stop⟩⟩ := by
  have noName : isNameStart quote = false := by
    rcases isQuote with rfl | rfl <;> decide
  have noNumber : (quote.isDigit || (quote == '.' && text.head?.any (·.isDigit))) = false := by
    rcases isQuote with rfl | rfl <;> rfl
  have quotes : (quote == '"' || quote == '\'') = true := by
    rcases isQuote with rfl | rfl <;> rfl
  simp only [scanToken, noName, noNumber, quotes, scanUnits, Bool.false_eq_true, ↓reduceIte]
  cases scanString quote ⟨.plain, [], false⟩ (offset + quote.utf8Size) text <;> rfl

/-- A literal in a script is one token, whatever follows it. -/
theorem scan_token_literal (isQuote : quote = '"' ∨ quote = '\'') {body : LiteralBody}
    (wellformed : body.Wellformed quote) (newlineBefore : Bool) (offset : Nat) (rest : List Char) :
    scanToken newlineBefore offset (quote :: (body.text ++ quote :: rest)) =
      .ok (literalToken quote body newlineBefore offset,
        ⟨offset + byteLength (quote :: (body.text ++ [quote])), rest⟩) := by
  have unquoted : quote ≠ '\\' := by
    rcases isQuote with rfl | rfl <;> decide
  have bytes : byteLength (quote :: (body.text ++ [quote])) =
      quote.utf8Size + byteLength body.text + quote.utf8Size := by
    simp [byteLength_cons, byteLength_nil, Nat.add_assoc]
  rw [scan_token_quote isQuote, scan_body unquoted rest _ wellformed]
  simp [literalToken, bytes, Nat.add_assoc]

/-- Nothing is passed before a quote. -/
theorem skip_gap_quote (isQuote : quote = '"' ∨ quote = '\'') (offset : Nat) (text : List Char) :
    skipGap .open false offset (quote :: text) = .ok (false, ⟨offset, quote :: text⟩) := by
  rcases isQuote with rfl | rfl <;> rfl

/-- The tokens of a script that begins with a literal are the literal and those behind it. -/
theorem tokens_from_literal (isQuote : quote = '"' ∨ quote = '\'') (fuel : Nat) {body : LiteralBody}
    (wellformed : body.Wellformed quote) (rest : List Char) :
    tokensFrom (fuel + 1) [] ⟨0, quote :: (body.text ++ quote :: rest)⟩ =
      tokensFrom fuel [literalToken quote body false 0]
        ⟨byteLength (quote :: (body.text ++ [quote])), rest⟩ := by
  have scanned := scan_token_literal isQuote wellformed false 0 rest
  rw [Nat.zero_add] at scanned
  rw [tokensFrom, skip_gap_quote isQuote, bind, Monad.toBind, Except.instMonad]
  dsimp only [Except.bind]
  rw [scanned]
  rfl

theorem tokens_from_end (fuel : Nat) (done : List Token) (offset : Nat) :
    tokensFrom (fuel + 1) done ⟨offset, []⟩ = .ok (done.reverse ++ [endToken offset]) := by
  rw [← List.reverse_cons]
  rfl

/-- What is read of scripts that begin with a quote. -/
structure ReadsLiterals (quote : Char) : Prop where
  /-- A row of items between two quotes is one string. -/
  decodes : ∀ body : LiteralBody, body.Wellformed quote →
    tokensOf (String.ofList (quote :: (body.text ++ [quote]))) =
      .ok [literalToken quote body false 0, endToken (byteLength (quote :: (body.text ++ [quote])))]
  /-- The string is the first token if more follows. -/
  begins : ∀ (body : LiteralBody) (rest : List Char) (tokens : List Token), body.Wellformed quote →
    tokensOf (String.ofList (quote :: (body.text ++ quote :: rest))) = .ok tokens →
    ∃ later, tokens = literalToken quote body false 0 :: later
  /-- What is no such row up to a quote is a fault of the characters. -/
  refuses : ∀ text : List Char,
    (¬ ∃ (body : LiteralBody) (rest : List Char), text = body.text ++ quote :: rest ∧ body.Wellformed quote) →
    ∃ d, tokensOf (String.ofList (quote :: text)) = .error d ∧ d.stage = .lexing ∧
      (d.fault = .unterminatedString ∨ d.fault = .badHexEscape)

/-- A string literal is decoded as a whole: its items give code units in their order, and these are read as text
together. It is noted if an octal escape of the older form is among the items. A quote that no row of items closes
begins no script. -/
theorem string_literals_decoded (quote : Char) (isQuote : quote = '"' ∨ quote = '\'') : ReadsLiterals quote where
  decodes := by
    intro body wellformed
    simp only [tokensOf, String.toList_ofList]
    rw [tokens_from_literal isQuote _ wellformed [], List.length_cons, tokens_from_end]
    rfl
  begins := by
    intro body rest tokens wellformed read
    simp only [tokensOf, String.toList_ofList] at read
    rw [tokens_from_literal isQuote _ wellformed rest] at read
    have splits := tokens_from_splits (quote :: (body.text ++ quote :: rest))
      (quote :: (body.text ++ quote :: rest)).length [literalToken quote body false 0]
      ⟨byteLength (quote :: (body.text ++ [quote])), rest⟩ (quote :: (body.text ++ [quote])) (by simp) rfl
      (by simp; omega)
    revert read splits
    cases tokensFrom _ [literalToken quote body false 0] _ with
    | error fault =>
      intro read
      cases read
    | ok found =>
      rintro ⟨⟩ ⟨later, rfl, -⟩
      exact ⟨later, rfl⟩
  refuses := by
    intro text none
    have unquoted : quote ≠ '\\' := by
      rcases isQuote with rfl | rfl <;> decide
    obtain ⟨fault, stop, unread, known⟩ :=
      (body_or_unread unquoted [] false (0 + quote.utf8Size) text).resolve_left none
    have scanned := scan_token_quote isQuote false 0 text
    rw [unread] at scanned
    have failed : tokensFrom (text.length + 1 + 1) [] ⟨0, quote :: text⟩ = .error ⟨fault, ⟨0, stop⟩⟩ := by
      rw [tokensFrom, skip_gap_quote isQuote, bind, Monad.toBind, Except.instMonad]
      dsimp only [Except.bind]
      rw [scanned]
    simp only [tokensOf, String.toList_ofList, List.length_cons, failed]
    exact ⟨_, rfl, rfl, known⟩

/-- Two halves of a surrogate pair that are escaped apart are one character, and a zero before an eight is an older
octal escape of one digit. -/
theorem string_literals_decoded_pair :
    LiteralBody.Wellformed '"'
      [.unicode ['d', '8', '3', 'd'], .unicode ['d', 'e', '0', '0'], .octal ['0'], .plain '8'] ∧
    tokensOf (String.ofList ['"', '\\', 'u', 'd', '8', '3', 'd', '\\', 'u', 'd', 'e', '0', '0', '\\', '0', '8', '"']) =
      .ok [⟨.string, String.ofList ['😀', '\x00', '8'], ⟨0, 17⟩, false, true⟩, endToken 17] := by
  have single : OctalDigits ['0'] := ⟨by simp, List.forall_mem_singleton.mpr (by decide), by decide, by decide⟩
  have noDigit : ¬ OctalDigits ['0', '8'] := fun longer => absurd (longer.octal '8' (by simp)) (by decide)
  have high : LiteralItem.Writable '"' (.unicode ['d', '8', '3', 'd']) := by
    simp only [LiteralItem.Writable, List.forall_mem_cons, List.not_mem_nil, false_imp_iff, implies_true]
    decide
  have low : LiteralItem.Writable '"' (.unicode ['d', 'e', '0', '0']) := by
    simp only [LiteralItem.Writable, List.forall_mem_cons, List.not_mem_nil, false_imp_iff, implies_true]
    decide
  have last : LiteralItem.Writable '"' (.plain '8') := by
    simp only [LiteralItem.Writable]
    decide
  have maximal : LiteralItem.Maximal ['8', '"'] (.octal ['0']) := by
    simpa [LiteralItem.Maximal] using noDigit
  have wellformed : LiteralBody.Wellformed '"'
      [.unicode ['d', '8', '3', 'd'], .unicode ['d', 'e', '0', '0'], .octal ['0'], .plain '8'] :=
    ⟨high, trivial, low, trivial, single, maximal, last, trivial, trivial⟩
  refine ⟨wellformed, ((string_literals_decoded '"' (.inl rfl)).decodes _ wellformed).trans ?_⟩
  decide +kernel

end ScriptEngine.Scanning
