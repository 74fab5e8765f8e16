import ScriptEngine.Number.Basic

/-!
Arithmetic and order of numbers. Each operation on finite numbers is the exact result, rounded once.
-/

namespace ScriptEngine.Number

/-- The number with the other sign. -/
def neg : Number → Number
  | .nan => .nan
  | .infinite s => .infinite !s
  | .finite s m e h => .finite (!s) m e h

/-- The number without its sign. -/
def abs : Number → Number
  | .nan => .nan
  | .infinite _ => .infinite false
  | .finite _ m e h => .finite false m e h

/-- The sum of two signed mantissas that count the same power of two, rounded. An exact zero takes
the sign `zeroSign`. -/
def addScaled (zeroSign : Bool) (a b : Int) (exponent : Nat) : Number :=
  let sum := a + b
  if sum == 0 then signedZero zeroSign else scaled (sum < 0) sum.natAbs exponent

/-- A mantissa with a sign. -/
def signed (negative : Bool) (mantissa : Nat) : Int :=
  if negative then -(mantissa : Int) else mantissa

/-- Addition. A sum of zeros is negative only when both are. -/
def add : Number → Number → Number
  | .nan, _ => .nan
  | _, .nan => .nan
  | .infinite s, .infinite t => if s == t then .infinite s else .nan
  | .infinite s, .finite .. => .infinite s
  | .finite .., .infinite t => .infinite t
  | .finite s m e _, .finite t n f _ =>
    let low := min e f
    addScaled (s && t) (signed s (m <<< (e - low))) (signed t (n <<< (f - low))) low

/-- Subtraction. -/
def sub (x y : Number) : Number :=
  add x (neg y)

/-- Multiplication. -/
def mul : Number → Number → Number
  | .nan, _ => .nan
  | _, .nan => .nan
  | .infinite s, .infinite t => .infinite (s != t)
  | .infinite s, .finite t n _ _ => if n == 0 then .nan else .infinite (s != t)
  | .finite s m _ _, .infinite t => if m == 0 then .nan else .infinite (s != t)
  | .finite s m e _, .finite t n f _ =>
    if m == 0 || n == 0 then signedZero (s != t)
    else if unitsPerOne ≤ e + f then scaled (s != t) (m * n) (e + f - unitsPerOne)
    else nearest (s != t) (m * n) (1 <<< (unitsPerOne - (e + f)))

/-- Division. -/
def div : Number → Number → Number
  | .nan, _ => .nan
  | _, .nan => .nan
  | .infinite _, .infinite _ => .nan
  | .infinite s, .finite t .. => .infinite (s != t)
  | .finite s .., .infinite t => signedZero (s != t)
  | .finite s m e _, .finite t n f _ =>
    if n == 0 then if m == 0 then .nan else .infinite (s != t)
    else if m == 0 then signedZero (s != t)
    else if f ≤ e + unitsPerOne then nearest (s != t) (m <<< (e + unitsPerOne - f)) n
    else nearest (s != t) m (n <<< (f - (e + unitsPerOne)))

/-- The remainder of a division that rounds toward zero; it has the sign of the dividend. -/
def rem : Number → Number → Number
  | .nan, _ => .nan
  | _, .nan => .nan
  | .infinite _, _ => .nan
  | x@(.finite ..), .infinite _ => x
  | .finite s m e _, .finite _ n f _ =>
    if n == 0 then .nan
    else
      let low := min e f
      let r := (m <<< (e - low)) % (n <<< (f - low))
      if r == 0 then signedZero s else scaled s r low

/-- The natural number that is left of a finite magnitude when its fraction is dropped. -/
def wholePart : Number → Nat
  | .finite _ m e _ =>
    if unitsPerOne ≤ e then m <<< (e - unitsPerOne) else m >>> (unitsPerOne - e)
  | _ => 0

/-- The number without its fraction. -/
def trunc : Number → Number
  | .nan => .nan
  | .infinite s => .infinite s
  | x@(.finite s m e _) =>
    if unitsPerOne ≤ e then x
    else
      let whole := m >>> (unitsPerOne - e)
      if whole == 0 then signedZero s else scaled s whole unitsPerOne

/-- A finite number without a fraction. -/
def isWhole : Number → Bool
  | .finite _ m e _ => unitsPerOne ≤ e || m % (1 <<< (unitsPerOne - e)) == 0
  | _ => false

/-- A smaller magnitude has a smaller exponent, or the same and a smaller mantissa. -/
def magnitudeLt (m e n f : Nat) : Bool :=
  e < f || (e == f && m < n)

/-- The order of numbers; nothing is less or greater than what is not a number, and the two zeros
are equal. -/
def lt : Number → Number → Bool
  | .nan, _ => false
  | _, .nan => false
  | .infinite s, .infinite t => s && !t
  | .infinite s, .finite .. => s
  | .finite .., .infinite t => !t
  | .finite s m e _, .finite t n f _ =>
    match s, t with
    | false, false => magnitudeLt m e n f
    | true, true => magnitudeLt n f m e
    | true, false => !(m == 0 && n == 0)
    | false, true => false

/-- Equality of numbers: what is not a number equals nothing, and the two zeros are equal. -/
def eq : Number → Number → Bool
  | .nan, _ => false
  | _, .nan => false
  | .infinite s, .infinite t => s == t
  | .finite s m e _, .finite t n f _ => m == n && e == f && (s == t || m == 0)
  | _, _ => false

/-- The order that includes equality. -/
def le (x y : Number) : Bool :=
  lt x y || eq x y

/-- The larger of two numbers, the first if neither is. -/
def max (x y : Number) : Number :=
  if lt x y then y else x

/-- The smaller of two numbers, the first if neither is. -/
def min (x y : Number) : Number :=
  if lt y x then y else x

/-- A number without its fraction, what is not a number taken as zero. -/
def toInteger : Number → Number
  | .nan => zero
  | x => x.trunc

end ScriptEngine.Number
