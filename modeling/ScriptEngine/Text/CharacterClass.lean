/-!
Classes of characters. Blanks and line ends separate the tokens of a script, and the reading of a number from a text
ignores them at both ends. Larger classes are given as tables of code ranges.
-/

namespace ScriptEngine.Text

/-! ## Blanks -/

/-- The four characters that end a line of a script. -/
def isLineTerminator (c : Char) : Bool :=
  c == '\n' || c == '\r' || c == '\u2028' || c == '\u2029'

/-- White space and line ends alike. -/
def isBlank (c : Char) : Bool :=
  let n := c.toNat
  (0x9 ≤ n && n ≤ 0xD) || n == 0x20 || n == 0xA0 || n == 0x1680 || (0x2000 ≤ n && n ≤ 0x200A) ||
    n == 0x2028 || n == 0x2029 || n == 0x202F || n == 0x205F || n == 0x3000 || n == 0xFEFF

/-- A text without the blanks at its two ends. -/
def trimBlanks (text : List Char) : List Char :=
  ((text.dropWhile isBlank).reverse.dropWhile isBlank).reverse

/-- White space by itself, as it may stand around what a user types: unlike the blanks of a script it
has the next-line control among it, and not the byte order mark. -/
def isSpace (c : Char) : Bool :=
  c == '\u0085' || (isBlank c && c != '\ufeff')

/-- A text without the white space at its two ends. -/
def trimSpace (text : String) : String :=
  String.ofList ((text.toList.dropWhile isSpace).reverse.dropWhile isSpace).reverse

theorem isBlank_of_isLineTerminator {c : Char} (terminates : isLineTerminator c) : isBlank c := by
  simp only [isLineTerminator, Bool.or_eq_true, beq_iff_eq] at terminates
  rcases terminates with ((rfl | rfl) | rfl) | rfl <;> decide

/-! ## Tables -/

/-- The codes from `first` to `last`, both included. -/
structure CodeRange where
  first : Nat
  last : Nat

/-- A code is in the range. -/
def CodeRange.contains (r : CodeRange) (code : Nat) : Bool :=
  r.first ≤ code && code ≤ r.last

/-- A character is in one of the ranges of a table. -/
def inTable (table : Array CodeRange) (c : Char) : Bool :=
  table.any (·.contains c.toNat)

end ScriptEngine.Text
