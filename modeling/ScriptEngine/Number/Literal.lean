import ScriptEngine.Number.Decimal
import ScriptEngine.Text.CharacterClass

/-!
Numbers read from text: the decimal literals, digits in a given base, the literals of a script, and
the conversion of a whole text or of the longest readable part at its front.
-/

namespace ScriptEngine

/-- The natural number that a list of decimal digits denotes. -/
def Decimal.ofDigits (digits : List Char) : Nat :=
  digits.foldl (fun n c => 10 * n + (c.toNat - '0'.toNat)) 0

/-- The digits at the front of a text, and the rest. -/
def spanDigits (text : List Char) : List Char × List Char :=
  text.span (·.isDigit)

/-- The sign at the front of a text, and the rest. -/
def spanSign : List Char → List Char × List Char
  | '+' :: rest => (['+'], rest)
  | '-' :: rest => (['-'], rest)
  | text => ([], text)

/-- The digits behind a point at the front of a text, and the rest. -/
def spanFraction : List Char → List Char × List Char
  | '.' :: rest => spanDigits rest
  | text => ([], text)

/-! ## The test of a whole text -/

/-- Whether a text is nothing or one exponent. -/
def isExponentOrEmpty : List Char → Bool
  | [] => true
  | mark :: rest =>
    if mark == 'e' || mark == 'E' then
      let (digits, rest) := spanDigits (spanSign rest).2
      !digits.isEmpty && rest.isEmpty
    else false

/-- Whether a text is one decimal literal. A literal has a digit before or after the point. -/
def isDecimalLiteral (text : List Char) : Bool :=
  let (whole, afterWhole) := spanDigits text
  let (fraction, afterFraction) := spanFraction afterWhole
  if whole.length + fraction.length == 0 then false else isExponentOrEmpty afterFraction

/-! ## The longest literal at the front -/

/-- What follows the exponent at the front of a text. A mark that no digits follow is given back. -/
def skipExponent (text : List Char) : List Char :=
  match text with
  | [] => []
  | mark :: rest =>
    if mark == 'e' || mark == 'E' then
      let (digits, rest) := spanDigits (spanSign rest).2
      if digits.isEmpty then text else rest
    else text

/-- What follows the longest decimal literal at the front of a text; none if there is no literal. -/
def skipDecimal? (text : List Char) : Option (List Char) :=
  let (whole, afterWhole) := spanDigits text
  let (fraction, afterFraction) := spanFraction afterWhole
  if whole.isEmpty && fraction.isEmpty then none else some (skipExponent afterFraction)

/-! ## The value of a whole text -/

/-- The value of a text that is nothing or one exponent. -/
def readExponent? : List Char → Option Int
  | [] => some 0
  | mark :: rest =>
    if mark == 'e' || mark == 'E' then
      let (sign, unsigned) := spanSign rest
      match spanDigits unsigned with
      | (c :: digits, []) =>
        let n : Int := Decimal.ofDigits (c :: digits)
        some (if sign == ['-'] then -n else n)
      | _ => none
    else none

/-- The value of a text that is one decimal literal. -/
def readDecimal? (text : List Char) : Option Decimal := do
  let (whole, afterWhole) := spanDigits text
  let (fraction, afterFraction) := spanFraction afterWhole
  if whole.isEmpty && fraction.isEmpty then none
  else
    let exponent ← readExponent? afterFraction
    return ⟨Decimal.ofDigits (whole ++ fraction), exponent - fraction.length⟩

/-! ## Digits in a base -/

/-- The value of a digit in a base of at most thirty-six; letters of either case go on from nine. -/
def digitValue? (base : Nat) (c : Char) : Option Nat :=
  let value :=
    if c.isDigit then c.toNat - '0'.toNat
    else if c.isLower then c.toNat - 'a'.toNat + 10
    else if c.isUpper then c.toNat - 'A'.toNat + 10
    else base
  if value < base then some value else none

namespace Number

/-- Digits in a base, accumulated from the left with a rounding at each step. -/
def ofDigitsAfter (base : Nat) (value : Number) : List Char → Option Number
  | [] => some value
  | c :: rest => do
    let digit ← digitValue? base c
    ofDigitsAfter base (add (mul value (ofNat base)) (ofNat digit)) rest

/-- The value of a text of digits in a base; none if it is empty or holds another character. -/
def ofDigits? (base : Nat) (digits : List Char) : Option Number :=
  if digits.isEmpty then none else ofDigitsAfter base zero digits

/-- The base that the second character of a literal beginning with zero announces. -/
def announcedBase? (mark : Char) : Option Nat :=
  if mark == 'x' || mark == 'X' then some 16
  else if mark == 'o' || mark == 'O' then some 8
  else if mark == 'b' || mark == 'B' then some 2
  else none

/-- The text of positive infinity. -/
def infinityName : List Char := "Infinity".toList

/-- A text without its sign, and whether that is a minus. -/
def splitSign : List Char → Bool × List Char
  | '+' :: rest => (false, rest)
  | '-' :: rest => (true, rest)
  | text => (false, text)

/-- The number that a text stands for in itself: a decimal literal, or a name of infinity or of what is not a
number in letters of either case, with a sign or without one. -/
def parse? (text : List Char) : Option Number :=
  let (negative, unsigned) := splitSign text
  let name := String.ofList (unsigned.map Char.toLower)
  if name == "inf" || name == "infinity" then some (.infinite negative)
  else if name == "nan" then some .nan
  else (readDecimal? unsigned).map (·.toNumber negative)

/-- A decimal literal or the name of infinity, with a sign given apart. -/
def ofUnsignedText (negative : Bool) (text : List Char) : Number :=
  if text == infinityName then .infinite negative
  else if !isDecimalLiteral text then .nan
  else match parse? text with
    | some n => if negative then neg n else n
    | none => .nan

/-- A whole text as a number, blanks at its ends ignored. The empty text is zero, and what is no
numeral is not a number. -/
def ofText (text : String) : Number :=
  match Text.trimBlanks text.toList with
  | [] => zero
  | trimmed =>
    let based := match trimmed with
      | '0' :: mark :: digit :: rest => (announcedBase? mark).map (·, digit :: rest)
      | _ => none
    match based with
    | some (base, digits) => (ofDigits? base digits).getD .nan
    | none =>
      let (negative, unsigned) := splitSign trimmed
      ofUnsignedText negative unsigned

/-- An octal digit. -/
def isOctalDigit (c : Char) : Bool := '0' ≤ c && c ≤ '7'

/-- The value of a numeric literal of a script. A literal that begins with zero and has octal digits
only is octal. -/
def ofLiteral (lexeme : String) : Number :=
  let text := lexeme.toList
  let decimal := (parse? text).getD .nan
  match text with
  | '0' :: mark :: rest =>
    match announcedBase? mark with
    | some base => (ofDigits? base rest).getD .nan
    | none => if text.all isOctalDigit then (ofDigits? 8 text).getD .nan else decimal
  | _ => decimal

/-- The value of the longest numeral at the front of a text. -/
def ofPrefix (text : List Char) : Number :=
  let (_, unsigned) := spanSign text
  if infinityName.isPrefixOf unsigned then .infinite (text.head? == some '-')
  else match skipDecimal? unsigned with
    | some rest => (parse? (text.take (text.length - rest.length))).getD .nan
    | none => .nan

end Number
end ScriptEngine
