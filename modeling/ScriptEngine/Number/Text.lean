import ScriptEngine.Number.Decimal

/-!
Numbers as text: the usual form with the fewest digits, the form with a fixed number of places, and
digits in another base.
-/

namespace ScriptEngine.Number

/-- The decimal digits of a natural number. -/
def digitsOf (n : Nat) : List Char :=
  Nat.toDigits 10 n

/-- Digits with the point after the first `point` of them. From `10 ^ 21` on, and below `10 ^ -6`,
an exponent is written instead of zeros. -/
def layout (digits : List Char) (point : Int) : List Char :=
  let count : Int := digits.length
  if count ≤ point && point ≤ 21 then digits ++ List.replicate (point - count).toNat '0'
  else if 0 < point && point ≤ 21 then
    digits.take point.toNat ++ '.' :: digits.drop point.toNat
  else if -6 < point && point ≤ 0 then
    '0' :: '.' :: List.replicate (-point).toNat '0' ++ digits
  else
    let exponent := point - 1
    let mark := 'e' :: (if exponent < 0 then '-' else '+') :: digitsOf exponent.natAbs
    match digits with
    | [] => mark
    | [d] => d :: mark
    | d :: rest => d :: '.' :: rest ++ mark

/-- The digits of a positive decimal and the place of its point. -/
def layoutDecimal (d : Decimal) : List Char :=
  let digits := digitsOf d.significand
  layout digits (digits.length + d.exponent)

/-- A number as text. The sign of zero is not shown. -/
def toText (x : Number) : List Char :=
  match x with
  | .nan => "NaN".toList
  | .infinite false => "Infinity".toList
  | .infinite true => "-Infinity".toList
  | .finite negative m _ _ =>
    if m == 0 then ['0']
    else
      let text := layoutDecimal x.shortest
      if negative then '-' :: text else text

instance : ToString Number := ⟨fun x => String.ofList x.toText⟩

/-- A natural number of units of `10 ^ -places`, with the point written where it belongs. -/
def fixedText (places n : Nat) : List Char :=
  let digits := digitsOf n
  let padded := List.replicate (places + 1 - digits.length) '0' ++ digits
  let whole := padded.take (padded.length - places)
  if places == 0 then whole else whole ++ '.' :: padded.drop (padded.length - places)

/-- A quotient with a fixed number of places after the point, rounded to the nearest, a half to the
even one. -/
def roundedText (num den places : Nat) : List Char :=
  fixedText places (roundDiv (num * Nat.pow 10 places) den)

/-- How many places more are written out to tell whether a quotient lies halfway. -/
def tiePlaces : Nat := 40

/-- The digits of one half: a five and nothing but zeros. -/
def isHalf : List Char → Bool
  | '5' :: rest => rest.all (· == '0')
  | _ => false

/-- One more in the last place of a numeral, which is given backwards. The carry passes the point and
may need a place of its own. -/
def carryUp : List Char → List Char
  | [] => ['1']
  | '.' :: rest => '.' :: carryUp rest
  | '9' :: rest => '0' :: carryUp rest
  | digit :: rest => Char.ofNat (digit.toNat + 1) :: rest

/-- A quotient with a fixed number of places after the point, rounded to the nearest, a half upward. -/
def fixedDigits (num den places : Nat) : List Char :=
  let wide := roundedText num den (places + tiePlaces)
  match wide.findIdx? (· == '.') with
  | none => roundedText num den places
  | some point =>
    let cut := point + 1 + places
    if isHalf (wide.drop cut) then
      let kept := if places == 0 then (wide.take cut).dropLast else wide.take cut
      (carryUp kept.reverse).reverse
    else roundedText num den places

/-- A finite number with a fixed number of places after the point, a half rounded away from zero. -/
def toFixed (x : Number) (places : Nat) : List Char :=
  match x with
  | .finite _ m e _ =>
    let (num, den) := toRatio m e
    let text := fixedDigits num den places
    if lt x zero then '-' :: text else text
  | _ => x.toText

/-- The digit of a value below thirty-six, in lower case. -/
def digitChar (value : Nat) : Char :=
  if value < 10 then Char.ofNat ('0'.toNat + value) else Char.ofNat ('a'.toNat + (value - 10))

/-- The digits of a whole number in a base, in front of those already written; at most `fuel` of
them. Each division is rounded. -/
def wholeDigits (base : Number) (fuel : Nat) (x : Number) (written : List Char) : List Char :=
  match fuel with
  | 0 => written
  | fuel + 1 =>
    if le one x then
      wholeDigits base fuel (div x base).trunc (digitChar (rem x base).wholePart :: written)
    else written

/-- The digits of a fraction in a base, at most `fuel` of them. -/
def fractionDigits (base : Number) (fuel : Nat) (x : Number) : List Char :=
  match fuel with
  | 0 => []
  | fuel + 1 =>
    if lt zero x then
      let shifted := mul x base
      digitChar shifted.wholePart :: fractionDigits base fuel (sub shifted shifted.trunc)
    else []

/-- More digits than a whole number has in any base. -/
def maxWholeDigits : Nat := 1100

/-- The places of a fraction that are written. -/
def maxFractionDigits : Nat := 52

/-- A number in a base from two to thirty-six. -/
def toRadix (x : Number) (base : Nat) : List Char :=
  match x with
  | .finite .. =>
    if x.isZero then ['0']
    else
      let magnitude := x.abs
      let whole := magnitude.trunc
      let fraction := sub magnitude whole
      let radix := ofNat base
      let wholeText := if whole.isZero then ['0'] else wholeDigits radix maxWholeDigits whole []
      let text :=
        if lt zero fraction then
          wholeText ++ '.' :: fractionDigits radix maxFractionDigits fraction
        else wholeText
      if lt x zero then '-' :: text else text
  | _ => x.toText

end ScriptEngine.Number
