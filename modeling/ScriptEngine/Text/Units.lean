/-!
The UTF-16 code units of a text, and the way back. A text has an exact encoding, but a list of units
may hold half of a surrogate pair; decoding puts the replacement character in its place.
-/

namespace ScriptEngine.Text

/-- The replacement character, read where half of a surrogate pair stands alone. -/
def replacement : Char := '\ufffd'

/-- The first unit of a surrogate pair. -/
def isHighSurrogate (u : UInt16) : Bool := 0xD800 ≤ u && u < 0xDC00

/-- The second unit of a surrogate pair. -/
def isLowSurrogate (u : UInt16) : Bool := 0xDC00 ≤ u && u < 0xE000

/-- A character is one unit, or two when its code needs more than sixteen bits. -/
def encodeChar (c : Char) : List UInt16 :=
  if c.toNat < 0x10000 then [c.toNat.toUInt16]
  else
    let above := c.toNat - 0x10000
    [(0xD800 + above / 0x400).toUInt16, (0xDC00 + above % 0x400).toUInt16]

/-- The code units of a list of characters. -/
def encode (text : List Char) : List UInt16 :=
  text.flatMap encodeChar

/-- The character that a surrogate pair stands for. -/
def joinPair (high low : UInt16) : Char :=
  Char.ofNat (0x10000 + (high.toNat - 0xD800) * 0x400 + (low.toNat - 0xDC00))

/-- Reads units back as characters, in front of which stand the characters read so far, last first. -/
def decodeAfter (done : List Char) : List UInt16 → List Char
  | [] => done.reverse
  | [u] =>
    if isHighSurrogate u || isLowSurrogate u then (replacement :: done).reverse
    else (Char.ofNat u.toNat :: done).reverse
  | u :: v :: rest =>
    if isHighSurrogate u then
      if isLowSurrogate v then decodeAfter (joinPair u v :: done) rest
      else decodeAfter (replacement :: done) (v :: rest)
    else if isLowSurrogate u then decodeAfter (replacement :: done) (v :: rest)
    else decodeAfter (Char.ofNat u.toNat :: done) (v :: rest)

/-- Reads units back as characters. -/
def decode (us : List UInt16) : List Char :=
  decodeAfter [] us

/-- The code units of a string. -/
def units (text : String) : List UInt16 :=
  encode text.toList

/-- The string that a list of code units stands for. -/
def ofUnits (us : List UInt16) : String :=
  String.ofList (decode us)

/-! ## The way back from the units of a text -/

theorem decodeAfter_unit {u : UInt16} (alone : (isHighSurrogate u || isLowSurrogate u) = false)
    (done : List Char) (rest : List UInt16) :
    decodeAfter done (u :: rest) = decodeAfter (Char.ofNat u.toNat :: done) rest := by
  rw [Bool.or_eq_false_iff] at alone
  cases rest with
  | nil => simp [decodeAfter, alone.1, alone.2]
  | cons v rest => simp [decodeAfter, alone.1, alone.2]

theorem decodeAfter_pair {u v : UInt16} (high : isHighSurrogate u) (low : isLowSurrogate v)
    (done : List Char) (rest : List UInt16) :
    decodeAfter done (u :: v :: rest) = decodeAfter (joinPair u v :: done) rest := by
  simp [decodeAfter, high, low]

/-- A character is no surrogate, and its code is below the end of the range of codes. -/
theorem toNat_valid (c : Char) : c.toNat < 0xD800 ∨ (0xDFFF < c.toNat ∧ c.toNat < 0x110000) :=
  c.valid

theorem decodeAfter_encodeChar (c : Char) (done : List Char) (rest : List UInt16) :
    decodeAfter done (encodeChar c ++ rest) = decodeAfter (c :: done) rest := by
  have valid := toNat_valid c
  by_cases small : c.toNat < 0x10000
  · have exact : c.toNat.toUInt16.toNat = c.toNat := by
      rw [UInt16.toNat_ofNat']; omega
    have alone : (isHighSurrogate c.toNat.toUInt16 || isLowSurrogate c.toNat.toUInt16) = false := by
      simp only [isHighSurrogate, isLowSurrogate, Bool.or_eq_false_iff, Bool.and_eq_false_iff,
        decide_eq_false_iff_not, UInt16.le_iff_toNat_le, UInt16.lt_iff_toNat_lt, exact]
      simp
      omega
    rw [encodeChar, if_pos small, List.singleton_append, decodeAfter_unit alone, exact,
      Char.ofNat_toNat]
  · have first : (0xD800 + (c.toNat - 0x10000) / 0x400).toUInt16.toNat =
        0xD800 + (c.toNat - 0x10000) / 0x400 := by
      rw [UInt16.toNat_ofNat']; omega
    have second : (0xDC00 + (c.toNat - 0x10000) % 0x400).toUInt16.toNat =
        0xDC00 + (c.toNat - 0x10000) % 0x400 := by
      rw [UInt16.toNat_ofNat']; omega
    have high : isHighSurrogate (0xD800 + (c.toNat - 0x10000) / 0x400).toUInt16 := by
      simp only [isHighSurrogate, Bool.and_eq_true, decide_eq_true_eq, UInt16.le_iff_toNat_le,
        UInt16.lt_iff_toNat_lt, first]
      simp
      omega
    have low : isLowSurrogate (0xDC00 + (c.toNat - 0x10000) % 0x400).toUInt16 := by
      simp only [isLowSurrogate, Bool.and_eq_true, decide_eq_true_eq, UInt16.le_iff_toNat_le,
        UInt16.lt_iff_toNat_lt, second]
      simp
      omega
    have joined : 0x10000 + (0xD800 + (c.toNat - 0x10000) / 0x400 - 0xD800) * 0x400 +
        (0xDC00 + (c.toNat - 0x10000) % 0x400 - 0xDC00) = c.toNat := by omega
    rw [encodeChar, if_neg small, List.cons_append, List.singleton_append,
      decodeAfter_pair high low, joinPair, first, second, joined, Char.ofNat_toNat]

theorem decodeAfter_encode (text done : List Char) :
    decodeAfter done (encode text) = done.reverse ++ text := by
  induction text generalizing done with
  | nil => simp [encode, decodeAfter]
  | cons c rest ih =>
    rw [encode, List.flatMap_cons, decodeAfter_encodeChar, ← encode, ih]
    simp

/-- Nothing is lost when a text becomes units. -/
@[simp] theorem decode_encode (text : List Char) : decode (encode text) = text :=
  decodeAfter_encode text []

/-- Nothing is lost when a string becomes units. -/
@[simp] theorem ofUnits_units (text : String) : ofUnits (units text) = text := by
  rw [ofUnits, units, decode_encode, String.ofList_toList]

/-- The units of two texts, one behind the other, are those of both. -/
theorem encode_append (text more : List Char) :
    encode (text ++ more) = encode text ++ encode more :=
  List.flatMap_append

/-- Texts with the same units are the same. -/
theorem units_inj {text other : String} : units text = units other ↔ text = other := by
  constructor
  · intro same
    rw [← ofUnits_units text, same, ofUnits_units]
  · exact congrArg units

/-- The order of lists of units by the first place where they differ. -/
def unitsLt : List UInt16 → List UInt16 → Bool
  | _, [] => false
  | [], _ :: _ => true
  | u :: us, v :: vs => u < v || (u == v && unitsLt us vs)

end ScriptEngine.Text
