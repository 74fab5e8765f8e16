import ScriptEngine.Evaluation.Expression
import ScriptEngine.Library.Arrays
import ScriptEngine.Proofs.Number.NumberText
import ScriptEngine.Proofs.Object.ArrayLength

/-!
Names of indices. A name is an array index exactly if it is the numeral of a small natural number, and a number that
counts an index is written as this numeral too. So the functions that go through the elements of an array meet the same
properties, be it that they count in natural numbers or in numbers.
-/

namespace ScriptEngine

open Number Scanning

variable {key : String} {n : Nat}

/-! ## Numerals -/

/-- The text is the decimal numeral of a natural number: its digits, of which the first is zero only if it is the only
one. -/
structure IsNumeral (key : String) (n : Nat) : Prop where
  digits : AllDigits key.toList
  nonempty : key.toList ≠ []
  leading : key.toList.head? = some '0' → key.toList = ['0']
  value : Decimal.ofDigits key.toList = n

theorem to_list_index_key (n : Nat) : (indexKey n).toList = digitsOf n :=
  Nat.toList_repr

theorem is_numeral_index_key (n : Nat) : IsNumeral (indexKey n) n where
  digits := to_list_index_key n ▸ all_digits_of n
  nonempty := to_list_index_key n ▸ Nat.toDigits_ne_nil
  leading zero := by
    rw [to_list_index_key] at zero ⊢
    rw [zero_of_leading zero]
    rfl
  value := to_list_index_key n ▸ of_digits_of n

/-- A natural number has one numeral. -/
theorem is_numeral_iff : IsNumeral key n ↔ key = indexKey n := by
  constructor
  · rintro ⟨digits, nonempty, leading, rfl⟩
    apply String.toList_injective
    rw [to_list_index_key]
    by_cases zero : key.toList.head? = some '0'
    · rw [leading zero]
      rfl
    · exact (digits_of_of_digits digits nonempty zero).symm
  · rintro rfl
    exact is_numeral_index_key n

theorem array_index_iff : arrayIndex? key = some n ↔ n < arrayIndexLimit ∧ IsNumeral key n := by
  rw [is_numeral_iff]
  constructor
  · intro isIndex
    exact ⟨array_index_lt isIndex, (index_key_of_array_index isIndex).symm⟩
  · rintro ⟨small, rfl⟩
    exact array_index_of_index_key small

/-! ## Words -/

/-- A digit behind a word of sixty-four bits, if there is room for it. -/
def appendDigit? (value : UInt64) (digit : UInt8) : Option UInt64 :=
  if 10 * value.toNat + digit.toNat < 2 ^ 64 then some (10 * value + digit.toUInt64) else none

/-- Goes on reading an index from bytes, with words of fixed sizes. There is no answer at all once a word overflows. -/
def wordIndexAfter? (value : UInt64) : List UInt8 → Option (Option UInt32)
  | [] => some (some value.toUInt32)
  | b :: rest =>
    if 48 ≤ b && b ≤ 57 then do
      let value ← appendDigit? value (b - 48)
      if 4294967295 ≤ value then some none else wordIndexAfter? value rest
    else some none

/-- The array index that the bytes of a name are. -/
def wordIndex? (bytes : List UInt8) : Option (Option UInt32) :=
  match bytes with
  | [] => some none
  | 48 :: _ :: _ => some none
  | bytes => wordIndexAfter? 0 bytes

/-- Below the limit there is room for one digit more. -/
theorem append_digit {value : UInt64} {digit : UInt8} (small : value.toNat < arrayIndexLimit)
    (single : digit.toNat < 10) :
    ∃ next, appendDigit? value digit = some next ∧ next.toNat = 10 * value.toNat + digit.toNat := by
  have limit : arrayIndexLimit = 4294967295 := rfl
  have room : 10 * value.toNat + digit.toNat < 2 ^ 64 := by omega
  refine ⟨_, if_pos room, ?_⟩
  rw [UInt64.toNat_add, UInt64.toNat_mul]
  simp
  omega

theorem digit_byte {c : Char} (digit : c.isDigit) : String.utf8EncodeChar c = [UInt8.ofNat c.toNat] := by
  obtain ⟨low, high⟩ := digit_bounds digit
  have small : c.val.toNat ≤ 127 := Nat.le_trans high (by simp)
  rw [String.utf8EncodeChar, if_pos small]
  rfl

/-- The first byte of any other character is not that of a digit. -/
theorem no_digit_byte {c : Char} (other : c.isDigit = false) :
    ∃ b rest, String.utf8EncodeChar c = b :: rest ∧ (48 ≤ b && b ≤ 57) = false := by
  have value : ¬ (48 ≤ c.val.toNat ∧ c.val.toNat ≤ 57) := by
    rw [Char.isDigit, Bool.and_eq_false_iff, decide_eq_false_iff_not, decide_eq_false_iff_not] at other
    rintro ⟨low, high⟩
    exact other.elim (· low) (· high)
  unfold String.utf8EncodeChar
  generalize c.val.toNat = v at value ⊢
  dsimp only
  split
  case' isFalse => split
  case' isFalse.isFalse => split
  all_goals
    refine ⟨_, _, rfl, ?_⟩
    simp [UInt8.le_iff_toNat_le]
    omega

theorem word_index_after {value : UInt64} (small : value.toNat < arrayIndexLimit) (digits : List Char) :
    wordIndexAfter? value (digits.flatMap String.utf8EncodeChar) =
      some ((arrayIndexAfter value.toNat digits).map UInt32.ofNat) := by
  induction digits generalizing value with
  | nil => simp [wordIndexAfter?, arrayIndexAfter]
  | cons c rest ih =>
    rw [List.flatMap_cons, arrayIndexAfter]
    cases digit : c.isDigit with
    | true =>
      obtain ⟨low, high⟩ := digit_bounds digit
      have byte : (UInt8.ofNat c.toNat).toNat = c.toNat := by simp; omega
      have single : (UInt8.ofNat c.toNat - 48).toNat = c.toNat - '0'.toNat := by
        rw [UInt8.toNat_sub_of_le _ _ (by simp [UInt8.le_iff_toNat_le]; omega), byte]
        rfl
      have isDigit : (48 ≤ UInt8.ofNat c.toNat && UInt8.ofNat c.toNat ≤ 57) = true := by
        simp [UInt8.le_iff_toNat_le]
        omega
      obtain ⟨next, room, value⟩ := append_digit small (single ▸ digit_lt_ten digit)
      rw [single] at value
      rw [digit_byte digit, List.singleton_append, wordIndexAfter?, if_pos isDigit, room, if_pos rfl]
      change (if 4294967295 ≤ next then _ else _) = _
      have limit : (4294967295 ≤ next) ↔ arrayIndexLimit ≤ next.toNat := UInt64.le_iff_toNat_le
      simp only [limit, value]
      split
      · rfl
      · next below => exact value ▸ ih (value ▸ Nat.not_le.1 below)
    | false =>
      obtain ⟨b, more, bytes, other⟩ := no_digit_byte digit
      rw [bytes, List.cons_append, wordIndexAfter?, other]
      rfl

/-- The bytes of a text in their usual encoding. -/
theorem bytes_eq (key : String) : key.toUTF8.data.toList = key.toList.flatMap String.utf8EncodeChar := by
  have encoded : key.toUTF8 = key.toList.utf8Encode := by
    rw [← String.toByteArray_ofList, String.ofList_toList]
    rfl
  rw [encoded, List.utf8Encode, List.data_toByteArray]

theorem zero_of_byte {c : Char} {more : List UInt8} (bytes : String.utf8EncodeChar c = 48 :: more) : c = '0' := by
  cases digit : c.isDigit with
  | true =>
    obtain ⟨low, high⟩ := digit_bounds digit
    have byte := congrArg UInt8.toNat (List.cons.inj ((digit_byte digit).symm.trans bytes)).1
    apply Char.toNat_inj.1
    change c.toNat = 48
    simp at byte
    omega
  | false =>
    obtain ⟨b, rest, other, outside⟩ := no_digit_byte digit
    rw [(List.cons.inj (other.symm.trans bytes)).1] at outside
    cases outside

/-- Reading an index from the bytes of a name never overflows a word, and gives the index that the name is. -/
theorem word_index_of_key (key : String) :
    wordIndex? key.toUTF8.data.toList = some ((arrayIndex? key).map UInt32.ofNat) := by
  rw [bytes_eq, arrayIndex?]
  split
  · next empty => rw [empty]; rfl
  · next c rest leading =>
    obtain ⟨b, more, bytes⟩ := List.exists_cons_of_ne_nil (String.utf8EncodeChar_ne_nil (c := c))
    simp only [leading, List.flatMap_cons, bytes]
    rfl
  · next nonempty leading =>
    have none : (0 : UInt64).toNat < arrayIndexLimit := Nat.lt_of_sub_pos (by simp [arrayIndexLimit])
    have read := word_index_after none key.toList
    obtain ⟨c, rest, chars⟩ := List.exists_cons_of_ne_nil nonempty
    obtain ⟨b, more, bytes⟩ := List.exists_cons_of_ne_nil (String.utf8EncodeChar_ne_nil (c := c))
    rw [chars, List.flatMap_cons, bytes, List.cons_append] at read ⊢
    unfold wordIndex?
    split
    · next empty => cases empty
    · next second others same =>
      -- The first byte is that of a zero, and the second one belongs to another character.
      rw [List.cons.injEq] at same
      obtain ⟨rfl, behind⟩ := same
      obtain rfl := zero_of_byte bytes
      obtain rfl : [] = more := (List.cons.inj bytes).2
      cases rest with
      | nil => cases behind
      | cons d rest => exact absurd chars (leading d rest)
    · exact read

/-! ## Counting in numbers -/

/-- A number that counts an index is written as the name of the index. -/
theorem Number.text_of_counts {x : Number} (counts : Counts x (n * (2 ^ unitsPerOne : Nat)))
    (small : n < mantissaLimit) : toString x = indexKey n := by
  apply String.toList_injective
  change (String.ofList x.toText).toList = _
  rw [String.toList_ofList, toText_of_counts counts small, to_list_index_key]

theorem Number.text_ofNat (small : n < mantissaLimit) : toString (ofNat n) = indexKey n :=
  text_of_counts (counts_ofNat small) small

namespace Library

variable {engine : Engine} {id copy : ObjectId} {length : Nat}

/-- A length is a word, and there are far more natural numbers that are not rounded. -/
theorem length_bind {α : Type} {f g : Nat → Eval α}
    (same : ∀ length < 2 ^ 32, length + 2 ^ 52 < mantissaLimit → f length = g length) :
    lengthOf engine id >>= f = lengthOf engine id >>= g := by
  unfold lengthOf
  simp only [bind_assoc, pure_bind]
  refine bind_congr fun value => bind_congr fun word => same word.toNat word.toNat_lt ?_
  have limit : mantissaLimit = 2 ^ 53 := by decide
  have below := word.toNat_lt
  omega

/-! ### The end of an array -/

/-- Writes values under the names of numbers, and gives the number behind them. -/
def putByNumber (engine : Engine) (id : ObjectId) (counter : Number) : List Value → Eval Number
  | [] => return counter
  | v :: rest => do
    putProperty engine id (toString counter) v true
    putByNumber engine id (counter.add .one) rest

def pushByNumber (engine : Engine) (this : Value) (arguments : List Value) : Eval Value := do
  let id ← toObject this
  let length ← putByNumber engine id (.ofNat (← lengthOf engine id)) arguments
  putProperty engine id Object.lengthKey (.number length) true
  return .number length

def popByNumber (engine : Engine) (this : Value) : Eval Value := do
  let id ← toObject this
  let length ← lengthOf engine id
  if (Number.ofNat length).isZero then
    setLength engine id 0
    return .undefined
  else
    let last := (Number.ofNat length).sub .one
    let value ← getProperty engine id (toString last)
    discard (deleteProperty id (toString last) true)
    putProperty engine id Object.lengthKey (.number last) true
    return value

theorem put_by_number (index : Nat) (values : List Value) (small : index + values.length < mantissaLimit) :
    putByNumber engine id (.ofNat index) values = (do return .ofNat (← putElements engine id index values)) := by
  induction values generalizing index with
  | nil => simp [putByNumber, putElements]
  | cons v rest ih =>
    rw [List.length_cons] at small
    simp only [putByNumber, putElements, text_ofNat (n := index) (by omega), ofNat_add_one (n := index) (by omega),
      ih (index + 1) (by omega), bind_assoc]

theorem push_by_number (this : Value) (arguments : List Value) (few : arguments.length ≤ 2 ^ 52) :
    pushByNumber engine this arguments = push engine this arguments := by
  unfold pushByNumber push setLength
  refine bind_congr fun id => length_bind fun length below small => ?_
  simp only [put_by_number length arguments (by omega), bind_assoc, pure_bind, Value.ofNat]

theorem pop_by_number (this : Value) : popByNumber engine this = pop engine this := by
  unfold popByNumber pop setLength
  refine bind_congr fun id => length_bind fun length below small => ?_
  rw [isZero_of_counts (counts_ofNat (n := length) (by omega))]
  cases length with
  | zero => rfl
  | succ last =>
    simp only [ofNat_sub_one (n := last) (by omega), text_ofNat (n := last) (by omega), Value.ofNat]
    exact if_neg (by simp)

/-! ### Text -/

def joinElementsByNumber (engine : Engine) (id : ObjectId) (separator : String) (counter : Number) (text : String) :
    (count : Nat) → Eval String
  | 0 => return text
  | count + 1 => do
    let text := if counter.isZero then text else text ++ separator
    let value ← getProperty engine id (toString counter)
    joinElementsByNumber engine id separator (counter.add .one) (text ++ (← elementText engine value)) count

def joinByNumber (engine : Engine) (this : Value) (arguments : List Value) : Eval Value := do
  let id ← toObject this
  let length ← lengthOf engine id
  let separator ← match argument arguments 0 with
    | .undefined => pure ","
    | value => toText engine value
  return .string (← joinElementsByNumber engine id separator (.ofNat 0) "" length)

theorem join_elements_by_number {separator : String} (index : Nat) (text : String) (count : Nat)
    (small : index + count < mantissaLimit) :
    joinElementsByNumber engine id separator (.ofNat index) text count =
      joinElements engine id separator index text count := by
  induction count generalizing index text with
  | zero => rfl
  | succ count ih =>
    have counts := counts_ofNat (n := index) (by omega)
    simp only [joinElementsByNumber, joinElements, text_ofNat (n := index) (by omega), isZero_of_counts counts,
      ofNat_add_one (n := index) (by omega), ih (index + 1) _ (by omega)]

theorem join_by_number (this : Value) (arguments : List Value) :
    joinByNumber engine this arguments = join engine this arguments := by
  unfold joinByNumber join
  refine bind_congr fun id => length_bind fun length below small => ?_
  have joined (separator : String) : joinElementsByNumber engine id separator (.ofNat 0) "" length =
      joinElements engine id separator 0 "" length := join_elements_by_number 0 "" length (by omega)
  cases argument arguments 0 <;> simp only [joined]

/-! ### Parts -/

/-- The number that an argument stands for, counted from the end if it is negative, and moved to the length and zero. -/
def relativeByNumber (engine : Engine) (length : Number) (value : Value) (absent : Number) : Eval Number := do
  let position ← match value with
    | .undefined => pure absent
    | _ => toInteger engine value
  return if position.lt .zero then (length.add position).max .zero else position.min length

/-- Copies elements as long as the number of the next one is below the last, and gives the number behind the copies. -/
def copyByNumber (engine : Engine) (id copy : ObjectId) (last : Number) : (rounds : Nat) → (source target : Number) →
    Eval Number
  | 0, _, _ => throw .exhausted
  | rounds + 1, source, target => do
    if source.lt last then
      if ← askHeap (·.has id (toString source)) then
        let value ← getProperty engine id (toString source)
        discard (defineProperty engine copy (toString target) (.data value .all) true)
      copyByNumber engine id copy last rounds (source.add .one) (target.add .one)
    else return target

def sliceByNumber (engine : Engine) (rounds : Nat) (this : Value) (arguments : List Value) : Eval Value := do
  let id ← toObject this
  let length ← lengthOf engine id
  let first ← relativeByNumber engine (.ofNat length) (argument arguments 0) (.ofNat 0)
  let last ← relativeByNumber engine (.ofNat length) (argument arguments 1) (.ofNat length)
  let copy ← createArray []
  let count ← copyByNumber engine id copy last rounds first (.ofNat 0)
  putProperty engine copy Object.lengthKey (.number count) true
  return .object copy

/-- The number that an argument stands for counts the place that it stands for. -/
theorem relative_by_number {α : Type} {absent : Nat} {value : Value} {f : Number → Eval α} {g : Nat → Eval α}
    (small : length < mantissaLimit) (inside : absent ≤ length)
    (same : ∀ x place, place ≤ length → Counts x (place * (2 ^ unitsPerOne : Nat)) → f x = g place) :
    relativeByNumber engine (.ofNat length) value (.ofNat absent) >>= f =
      relativePlace engine length value absent >>= g := by
  unfold relativeByNumber relativePlace toInteger
  cases value
  case undefined =>
    have counts := counts_ofNat (n := absent) (by omega)
    have least : ¬(ofNat absent).lt .zero = true :=
      mt (lt_of_counts (k := 0) counts (counts_ofNat (by decide))).1 (Nat.not_lt_zero absent)
    have moved := counts_min counts (counts_ofNat small)
    rw [← Int.natCast_mul, ← Int.natCast_mul, Int.min_eq_left (by gcongr), Int.natCast_mul] at moved
    simp only [pure_bind]
    rw [if_neg least]
    exact same _ _ inside moved
  all_goals
    simp only [bind_assoc, pure_bind]
    exact bind_congr fun x => same _ _ (relativeTo_le length x.toInteger) (counts_relative small x)

/-- Also the negative zero may be the number that the copies begin with. -/
theorem copy_by_number {source target stop count rounds : Nat} {counter last : Number}
    (begins : Counts counter (source * (2 ^ unitsPerOne : Nat))) (ends : Counts last (stop * (2 ^ unitsPerOne : Nat)))
    (left : stop - source = count) (enough : count < rounds) (small : stop < mantissaLimit)
    (room : target + count < mantissaLimit) :
    copyByNumber engine id copy last rounds counter (.ofNat target) = (do
      copyElements engine id copy source target count
      return .ofNat (target + count)) := by
  induction count generalizing source target counter rounds with
  | zero =>
    obtain ⟨rounds, rfl⟩ := Nat.exists_eq_add_of_lt enough
    have past : ¬counter.lt last = true := mt (lt_of_counts begins ends).1 (by omega)
    simp [copyByNumber, past, copyElements]
  | succ count ih =>
    obtain ⟨rounds, rfl⟩ := Nat.exists_eq_add_of_lt enough
    have goesOn := (lt_of_counts begins ends).2 (by omega)
    have later : copyByNumber engine id copy last (count + 1 + rounds) (.ofNat (source + 1)) (.ofNat (target + 1)) = (do
        copyElements engine id copy (source + 1) (target + 1) count
        return .ofNat (target + 1 + count)) := ih (counts_ofNat (by omega)) (by omega) (by omega) (by omega)
    rw [Nat.add_right_comm target 1 count, Nat.add_assoc target] at later
    rw [copyByNumber, if_pos goesOn, copyElements, text_of_counts begins (by omega),
      text_ofNat (n := target) (by omega), add_one begins (by omega), ofNat_add_one (n := target) (by omega), later]
    simp only [bind_assoc, defineElement]
    refine bind_congr fun there => ?_
    split <;> simp only [bind_assoc]

theorem slice_by_number (rounds : Nat) (enough : 2 ^ 32 ≤ rounds) (this : Value) (arguments : List Value) :
    sliceByNumber engine rounds this arguments = slice engine this arguments := by
  unfold sliceByNumber slice
  refine bind_congr fun id => length_bind fun length below small => ?_
  refine relative_by_number (by omega) (Nat.zero_le _) fun first place inside begins => ?_
  refine relative_by_number (by omega) (Nat.le_refl _) fun last stop within ends => bind_congr fun copy => ?_
  rw [copy_by_number begins ends rfl (by omega) (by omega) (by omega), Nat.zero_add]
  simp only [setLength, bind_assoc, pure_bind, Value.ofNat]

/-! ### Search -/

/-- The number at which a search begins; it may lie behind the list. -/
def searchStart (length start : Number) : Number :=
  if start.lt .zero then (length.add start).max .zero else start

/-- The first number below the last one at which a value stands. -/
def searchByNumber (engine : Engine) (id : ObjectId) (search : Value) (last : Number) : (rounds : Nat) →
    (counter : Number) → Eval (Option Number)
  | 0, _ => throw .exhausted
  | rounds + 1, counter => do
    if counter.lt last then
      if ← askHeap (·.has id (toString counter)) then
        let value ← getProperty engine id (toString counter)
        if value.strictEquals search then return some counter
      searchByNumber engine id search last rounds (counter.add .one)
    else return none

def indexOfByNumber (engine : Engine) (rounds : Nat) (this : Value) (arguments : List Value) : Eval Value := do
  let id ← toObject this
  let length ← lengthOf engine id
  if (Number.ofNat length).isZero then return .number (.ofInt (-1))
  let start ← match argument arguments 1 with
    | .undefined => pure .zero
    | value => toInteger engine value
  match ← searchByNumber engine id (argument arguments 0) (.ofNat length) rounds
      (searchStart (.ofNat length) start) with
  | some index => return .number index
  | none => return .number (.ofInt (-1))

theorem counts_found (start : Number) (small : n < mantissaLimit) :
    Counts (foundIndex start n) (n * (2 ^ unitsPerOne : Nat)) := by
  unfold foundIndex
  split
  · next first =>
    obtain ⟨rfl, none⟩ : n = 0 ∧ start.isZero = true := by simpa using first
    rw [Int.natCast_zero, Int.zero_mul]
    exact counts_of_isZero none
  · exact counts_ofNat small

theorem found_of_counts {x : Number} (counts : Counts x (n * (2 ^ unitsPerOne : Nat))) : foundIndex x n = x := by
  unfold foundIndex
  rw [isZero_of_counts counts, Bool.and_self]
  split
  · rfl
  · next later => exact (ofNat_of_counts counts (by simpa using later)).symm

/-- A search begins at the index of its start, or at no index of the list. -/
theorem start_of_search (small : length < mantissaLimit) (x : Number) :
    searchStart (.ofNat length) x.toInteger = foundIndex x.toInteger (x.toInteger.relativeTo length) ∨
      (searchStart (.ofNat length) x.toInteger).lt (.ofNat length) = false ∧
        x.toInteger.relativeTo length = length := by
  unfold searchStart
  rcases relative_cases small x with ⟨negative, place⟩ | ⟨natural, ⟨k, counts, place⟩ | ⟨beyond, place⟩⟩
  · left
    simp only [negative, if_true, place, foundIndex, isZero_of_negative negative, Bool.and_false, Bool.false_eq_true,
      if_false]
  · have inside := lt_of_counts counts (counts_ofNat small)
    rw [if_neg (ne_true_of_eq_false natural), place]
    rcases Nat.lt_or_ge k length with within | behind
    · rw [Nat.min_eq_left within.le, found_of_counts counts]
      exact .inl rfl
    · rw [Nat.min_eq_right behind]
      exact .inr ⟨eq_false_of_ne_true (mt inside.1 (Nat.not_lt.2 behind)), rfl⟩
  · right
    obtain ⟨s, m, e, canonical, same, -⟩ := (counts_ofNat small).finite_form
    rw [if_neg (ne_true_of_eq_false natural), place, beyond, same]
    exact ⟨rfl, rfl⟩

theorem search_by_number {search : Value} {start last : Number} {index stop count rounds : Nat}
    (ends : Counts last (stop * (2 ^ unitsPerOne : Nat))) (left : stop - index = count) (enough : count < rounds)
    (small : stop < mantissaLimit) (begins : index ≤ stop) :
    searchByNumber engine id search last rounds (foundIndex start index) = (do
      return (← searchElements engine id search index count).map (foundIndex start)) := by
  induction count generalizing index rounds with
  | zero =>
    obtain ⟨rounds, rfl⟩ := Nat.exists_eq_add_of_lt enough
    have past : ¬(foundIndex start index).lt last = true :=
      mt (lt_of_counts (counts_found start (by omega)) ends).1 (by omega)
    simp [searchByNumber, past, searchElements]
  | succ count ih =>
    obtain ⟨rounds, rfl⟩ := Nat.exists_eq_add_of_lt enough
    have counts := counts_found start (n := index) (by omega)
    have goesOn := (lt_of_counts counts ends).2 (by omega)
    have next : (foundIndex start index).add one = foundIndex start (index + 1) := add_one counts (by omega)
    rw [searchByNumber, if_pos goesOn, searchElements, text_of_counts counts (by omega), next,
      ih (by omega) (by omega) (by omega)]
    simp only [bind_assoc]
    refine bind_congr fun there => ?_
    split
    · simp only [bind_assoc]
      refine bind_congr fun value => ?_
      split <;> rfl
    · rfl

theorem find_by_number {search : Value} {rounds : Nat} (enough : length < rounds)
    (small : length < mantissaLimit) (x : Number) :
    searchByNumber engine id search (.ofNat length) rounds (searchStart (.ofNat length) x.toInteger) = (do
      let first := x.toInteger.relativeTo length
      return (← searchElements engine id search first (length - first)).map (foundIndex x.toInteger)) := by
  have inside := relativeTo_le length x.toInteger
  rcases start_of_search small x with begins | ⟨past, place⟩
  · rw [begins]
    exact search_by_number (counts_ofNat small) rfl (by omega) small inside
  · obtain ⟨rounds, rfl⟩ := Nat.exists_eq_add_of_lt enough
    simp only [place, Nat.sub_self, searchByNumber, if_neg (ne_true_of_eq_false past)]
    rfl

theorem index_of_by_number (rounds : Nat) (enough : 2 ^ 32 ≤ rounds) (this : Value) (arguments : List Value) :
    indexOfByNumber engine rounds this arguments = indexOfElement engine this arguments := by
  unfold indexOfByNumber indexOfElement
  refine bind_congr fun id => length_bind fun length below small => ?_
  rw [isZero_of_counts (counts_ofNat (n := length) (by omega))]
  split
  · rfl
  · have found (x : Number) : searchByNumber engine id (argument arguments 0) (.ofNat length) rounds
        (searchStart (.ofNat length) x.toInteger) = _ := find_by_number (by omega) (by omega) x
    cases argument arguments 1
    case undefined =>
      have found := found .nan
      rw [show Number.nan.toInteger = .zero from rfl] at found
      simp only [found, bind_assoc, pure_bind]
      exact bind_congr fun index => by cases index <;> rfl
    all_goals
      simp only [toInteger, found, bind_assoc, pure_bind]
      exact bind_congr fun x => bind_congr fun index => by cases index <;> rfl

/-! ### Callbacks -/

/-- Calls the callback for elements, with the number of each. -/
def visitByNumber (engine : Engine) (v : Visit) (use : Number → Value → Eval Unit) (counter : Number) :
    (count : Nat) → Eval Unit
  | 0 => return
  | count + 1 => do
    if ← askHeap (·.has v.object (toString counter)) then
      let value ← getProperty engine v.object (toString counter)
      use counter (← engine.call v.callback v.this [value, .number counter, .object v.object])
    visitByNumber engine v use (counter.add .one) count

def forEachByNumber (engine : Engine) (this : Value) (arguments : List Value) : Eval Value := do
  let (length, visit) ← beginVisit engine this arguments
  visitByNumber engine visit (fun _ _ => return) (.ofNat 0) length
  return .undefined

def defineByNumber (engine : Engine) (id : ObjectId) (counter : Number) (value : Value) : Eval Unit :=
  discard (defineProperty engine id (toString counter) (.data value .all) true)

def mapByNumber (engine : Engine) (this : Value) (arguments : List Value) : Eval Value := do
  let (length, visit) ← beginVisit engine this arguments
  let result ← createArray []
  setLength engine result length
  visitByNumber engine visit (defineByNumber engine result) (.ofNat 0) length
  return .object result

theorem visit_by_number {v : Visit} {useNumber : Number → Value → Eval Unit} {use : Nat → Value → Eval Unit}
    (same : ∀ i < mantissaLimit, useNumber (.ofNat i) = use i) (index count : Nat)
    (small : index + count < mantissaLimit) :
    visitByNumber engine v useNumber (.ofNat index) count = visitElements engine v use index count := by
  induction count generalizing index with
  | zero => rfl
  | succ count ih =>
    simp only [visitByNumber, visitElements, Visit.call, Value.ofNat, text_ofNat (n := index) (by omega),
      same index (by omega), ofNat_add_one (n := index) (by omega), ih (index + 1) (by omega)]

theorem for_each_by_number (this : Value) (arguments : List Value) :
    forEachByNumber engine this arguments = forEach engine this arguments := by
  unfold forEachByNumber forEach beginVisit
  simp only [bind_assoc, pure_bind]
  refine bind_congr fun id => length_bind fun length below small => bind_congr fun _ => ?_
  rw [visit_by_number (fun _ _ => rfl) 0 length (by omega)]

theorem map_by_number (this : Value) (arguments : List Value) :
    mapByNumber engine this arguments = map engine this arguments := by
  unfold mapByNumber map beginVisit
  simp only [bind_assoc, pure_bind]
  refine bind_congr fun id => length_bind fun length below small => ?_
  refine bind_congr fun _ => bind_congr fun result => bind_congr fun _ => ?_
  have defines (i : Nat) (small : i < mantissaLimit) :
      defineByNumber engine result (.ofNat i) = defineElement engine result i := by
    funext value
    rw [defineByNumber, text_ofNat small, defineElement]
  rw [visit_by_number defines 0 length (by omega)]

/-! ### New arrays -/

/-- Defines the elements of an array under the names of numbers; those left out are skipped. -/
def fillByNumber (engine : Engine) (id : ObjectId) (counter : Number) : List (Option Expr) → Eval Unit
  | [] => return
  | none :: rest => fillByNumber engine id (counter.add .one) rest
  | some e :: rest => do
    let value ← engine.evaluate e
    discard (defineUnchecked id (toString counter) (.data value .all))
    fillByNumber engine id (counter.add .one) rest

def arrayByNumber (engine : Engine) (elements : List (Option Expr)) : Eval Value := do
  let id ← createArray []
  fillByNumber engine id (.ofNat 0) elements
  discard (defineUnchecked id Object.lengthKey (.ofValue (.ofNat elements.length)))
  return .object id

/-- Values under the names of numbers. -/
def elementsByNumber (counter : Number) : List Value → List (String × Property)
  | [] => []
  | v :: rest => (toString counter, .data v .all) :: elementsByNumber (counter.add .one) rest

theorem fill_by_number (index : Nat) (elements : List (Option Expr)) (small : index + elements.length < mantissaLimit) :
    fillByNumber engine id (.ofNat index) elements = fillArray engine id index elements := by
  induction elements generalizing index with
  | nil => rfl
  | cons element rest ih =>
    rw [List.length_cons] at small
    have later := ih (index + 1) (by omega)
    cases element with
    | none => rw [fillByNumber, fillArray, ofNat_add_one (by omega), later]
    | some e => simp only [fillByNumber, fillArray, text_ofNat (n := index) (by omega),
        ofNat_add_one (n := index) (by omega), later]

theorem array_by_number (elements : List (Option Expr)) (few : elements.length < mantissaLimit) :
    arrayByNumber engine elements = evaluateArray engine elements := by
  unfold arrayByNumber evaluateArray
  refine bind_congr fun id => ?_
  rw [fill_by_number 0 elements (by omega)]

theorem elements_by_number (index : Nat) (items : List Value) (small : index + items.length < mantissaLimit) :
    elementsByNumber (.ofNat index) items =
      (items.zipIdx index).map fun (v, i) => (indexKey i, Property.data v .all) := by
  induction items generalizing index with
  | nil => rfl
  | cons v rest ih =>
    rw [List.length_cons] at small
    rw [elementsByNumber, List.zipIdx_cons, List.map_cons, text_ofNat (by omega), ofNat_add_one (by omega),
      ih (index + 1) (by omega)]

theorem new_by_number (proto : ObjectId) (items : List Value) (few : items.length < mantissaLimit) :
    (Object.ofElements proto items).properties.entries =
      (Object.lengthKey, .data (.ofNat items.length) Object.arrayLengthAttributes) ::
        elementsByNumber (.ofNat 0) items := by
  rw [elements_by_number 0 items (by omega)]
  rfl

/-- Whatever goes through the elements of an array does the same when it counts in numbers, under the names that these
are written as. -/
structure CountsInNumbers (engine : Engine) : Prop where
  push : ∀ this arguments, arguments.length ≤ 2 ^ 52 → pushByNumber engine this arguments = push engine this arguments
  pop : ∀ this, popByNumber engine this = pop engine this
  join : ∀ this arguments, joinByNumber engine this arguments = join engine this arguments
  slice : ∀ rounds this arguments, 2 ^ 32 ≤ rounds →
    sliceByNumber engine rounds this arguments = slice engine this arguments
  indexOf : ∀ rounds this arguments, 2 ^ 32 ≤ rounds →
    indexOfByNumber engine rounds this arguments = indexOfElement engine this arguments
  forEach : ∀ this arguments, forEachByNumber engine this arguments = forEach engine this arguments
  map : ∀ this arguments, mapByNumber engine this arguments = map engine this arguments
  literal : ∀ elements, elements.length < mantissaLimit →
    arrayByNumber engine elements = evaluateArray engine elements
  created : ∀ proto items, items.length < mantissaLimit →
    (Object.ofElements proto items).properties.entries =
      (Object.lengthKey, .data (.ofNat items.length) Object.arrayLengthAttributes) ::
        elementsByNumber (.ofNat 0) items

theorem counts_in_numbers (engine : Engine) : CountsInNumbers engine where
  push := push_by_number
  pop := pop_by_number
  join := join_by_number
  slice rounds this arguments enough := slice_by_number rounds enough this arguments
  indexOf rounds this arguments enough := index_of_by_number rounds enough this arguments
  forEach := for_each_by_number
  map := map_by_number
  literal := array_by_number
  created := new_by_number

end Library

/-- A name is an array index exactly if it is the numeral of a natural number up to `2 ^ 32 - 2`; reading it never
overflows a word, however long the name is. A number that counts an index, or the length behind the last one, is written
as this numeral, in the fewest digits that are read as the number. So all that goes through the elements of an array
does the same in numbers as in natural numbers. -/
theorem index_names_canonical (engine : Engine) :
    (∀ key n, arrayIndex? key = some n ↔ n ≤ 2 ^ 32 - 2 ∧ IsNumeral key n) ∧
    (∀ key : String, wordIndex? key.toUTF8.data.toList = some ((arrayIndex? key).map UInt32.ofNat)) ∧
    (∀ n ≤ 2 ^ 32 - 1,
      IsNumeral (toString (ofNat n)) n ∧ toString (ofNat n) = indexKey n ∧
      (ofNat n).shortest.toNumber false = ofNat n ∧
      ∀ d : Decimal, d.toNumber false = ofNat n →
        (digitsOf (ofNat n).shortest.significand).length ≤ (digitsOf d.significand).length) ∧
    Library.CountsInNumbers engine := by
  refine ⟨fun key n => ?_, word_index_of_key, fun n least => ?_, Library.counts_in_numbers engine⟩
  · have limit : n < arrayIndexLimit ↔ n ≤ 2 ^ 32 - 2 := Nat.lt_succ_iff
    rw [array_index_iff, limit]
  · have small : n < mantissaLimit := Nat.lt_of_le_of_lt least (by decide)
    have name := text_ofNat small
    exact ⟨is_numeral_iff.2 name, name, shortest_ofNat_reads small, fun d reads => fewest_digits small reads⟩

end ScriptEngine
