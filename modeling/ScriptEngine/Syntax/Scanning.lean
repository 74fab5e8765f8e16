import ScriptEngine.Number.Literal
import ScriptEngine.Syntax.Diagnostic
import ScriptEngine.Syntax.Token
import ScriptEngine.Text.Letter
import ScriptEngine.Text.Units

/-!
The characters of a script as tokens. Blanks and comments separate tokens; of a comment or a gap only
this is kept, whether a line ends in it. Every part of the work goes once through the characters, from
left to right, and counts the bytes it has passed.
-/

namespace ScriptEngine.Scanning

open Text

/-- Where the passing of a gap between two tokens stands: in the open, in a comment to the end of the
line, or in a comment that began at a given byte, of which the opening or the closing mark is read by
half. -/
inductive Gap where
  | open
  | lineComment
  | blockOpening (start : Nat)
  | blockComment (start : Nat)
  | blockClosing

/-- A fault of the characters, and the part of the script that it is reported for. -/
structure LexicalFault where
  fault : SyntaxFault
  span : Span

/-- The place reached in a script: how many bytes were passed, and what is left. -/
structure Place where
  offset : Nat
  rest : List Char

/-- Passes blanks and comments. The flag says whether a line ended on the way. -/
def skipGap (gap : Gap) (newline : Bool) (offset : Nat) :
    List Char → Except LexicalFault (Bool × Place)
  | [] =>
    match gap with
    | .blockOpening start | .blockComment start => .error ⟨.unterminatedComment, ⟨start, offset⟩⟩
    | _ => .ok (newline, ⟨offset, []⟩)
  | c :: rest =>
    let next := offset + c.utf8Size
    match gap with
    | .open =>
      if isLineTerminator c then skipGap .open true next rest
      else if isBlank c then skipGap .open newline next rest
      else if c == '/' && rest.head? == some '/' then skipGap .lineComment newline next rest
      else if c == '/' && rest.head? == some '*' then
        skipGap (.blockOpening offset) newline next rest
      else .ok (newline, ⟨offset, c :: rest⟩)
    | .lineComment =>
      if isLineTerminator c then skipGap .open true next rest
      else skipGap .lineComment newline next rest
    | .blockOpening start => skipGap (.blockComment start) newline next rest
    | .blockComment start =>
      if c == '*' && rest.head? == some '/' then skipGap .blockClosing newline next rest
      else skipGap (.blockComment start) (newline || isLineTerminator c) next rest
    | .blockClosing => skipGap .open newline next rest

/-! ## Numbers -/

/-- The characters of a number and what follows it, or a fault and the characters up to it. -/
abbrev NumberScan := Except (SyntaxFault × List Char) (List Char × List Char)

/-- A number may not run into a name or another digit. -/
def endNumber (lexeme rest : List Char) : NumberScan :=
  match rest with
  | c :: _ =>
    if isNameStart c || c.isDigit then .error (.nameAfterNumber, lexeme ++ [c])
    else .ok (lexeme, rest)
  | [] => .ok (lexeme, rest)

/-- Goes on with the exponent of a number whose digits are read. -/
def scanExponent (lexeme rest : List Char) : NumberScan :=
  match rest with
  | mark :: afterMark =>
    if mark == 'e' || mark == 'E' then
      let (sign, unsigned) := match afterMark with
        | '+' :: r => (['+'], r)
        | '-' :: r => (['-'], r)
        | r => ([], r)
      let (digits, rest) := spanDigits unsigned
      let lexeme := lexeme ++ mark :: sign ++ digits
      if digits.isEmpty then .error (.missingExponentDigits, lexeme) else endNumber lexeme rest
    else endNumber lexeme rest
  | [] => endNumber lexeme rest

/-- A number in decimal notation, which begins with a digit or with a point before one. -/
def scanDecimal (text : List Char) : NumberScan :=
  let (whole, afterWhole) := spanDigits text
  match afterWhole with
  | '.' :: rest =>
    let (fraction, rest) := spanDigits rest
    scanExponent (whole ++ '.' :: fraction) rest
  | rest => scanExponent whole rest

/-- A number in a base that its second character announces. -/
def scanBased (base : Nat) (mark : Char) (text : List Char) : NumberScan :=
  let (digits, rest) := text.span fun c => (digitValue? base c).isSome
  let lexeme := '0' :: mark :: digits
  if digits.isEmpty then .error (.missingRadixDigits, lexeme) else endNumber lexeme rest

/-- A number, and whether it is of the older form that begins with zero and goes on with digits. -/
def scanNumber (text : List Char) : Bool × NumberScan :=
  match text with
  | '0' :: mark :: rest =>
    match Number.announcedBase? mark with
    | some base => (false, scanBased base mark rest)
    | none =>
      if mark.isDigit then
        let (digits, rest) := spanDigits (mark :: rest)
        (true, endNumber ('0' :: digits) rest)
      else (false, scanDecimal text)
  | _ => (false, scanDecimal text)

/-! ## Strings -/

/-- Where the reading of a string stands: among plain characters, behind a backslash, in an escape with
digits of base sixteen of which `left` are to come, in an octal escape that may take `left` more
digits, or behind an escaped carriage return. -/
inductive StringMode where
  | plain
  | escape
  | hex (left value : Nat)
  | octal (left value : Nat) (plainZero : Bool)
  | escapedReturn

/-- A string that is being read: its units so far, last first, and whether an octal escape was read. -/
structure StringState where
  mode : StringMode
  units : List UInt16
  octal : Bool

/-- What a character does to a string that is being read. -/
inductive StringStep where
  | closed
  | fault (f : SyntaxFault)
  | next (state : StringState)

/-- The unit of an escape that consists of one letter. -/
def letterEscape? (c : Char) : Option UInt16 :=
  match c with
  | 'n' => some 0x0A | 'r' => some 0x0D | 't' => some 0x09 | 'b' => some 0x08
  | 'f' => some 0x0C | 'v' => some 0x0B | _ => none

/-- The value of an octal digit. -/
def octalValue (c : Char) : Nat :=
  c.toNat - '0'.toNat

namespace StringState

/-- Adds the units of a character that stands for itself. -/
def push (s : StringState) (c : Char) : StringState :=
  ⟨.plain, (Text.encodeChar c).reverse ++ s.units, s.octal⟩

/-- Adds the unit of an escape. -/
def pushUnit (s : StringState) (unit : UInt16) : StringState :=
  ⟨.plain, unit :: s.units, s.octal⟩

/-- Ends an octal escape. A zero alone is not of the older form unless a decimal digit follows it. -/
def endOctal (s : StringState) (value : Nat) (plainZero : Bool) : StringState :=
  ⟨.plain, value.toUInt16 :: s.units, s.octal || !plainZero⟩

/-- A character among plain ones. -/
def stepPlain (quote : Char) (s : StringState) (c : Char) : StringStep :=
  if c == quote then .closed
  else if isLineTerminator c then .fault .unterminatedString
  else if c == '\\' then .next { s with mode := .escape }
  else .next (s.push c)

/-- A character behind a backslash. -/
def stepEscape (s : StringState) (c : Char) : StringState :=
  match letterEscape? c with
  | some unit => s.pushUnit unit
  | none =>
    if c == 'x' then { s with mode := .hex 2 0 }
    else if c == 'u' then { s with mode := .hex 4 0 }
    else if c == '\r' then { s with mode := .escapedReturn }
    else if isLineTerminator c then { s with mode := .plain }
    else if Number.isOctalDigit c then
      { s with mode := .octal (if c ≤ '3' then 2 else 1) (octalValue c) (c == '0') }
    else s.push c

/-- The state that the next character finds when it does not go on with the escape before it. -/
def settle (s : StringState) (value : Nat) (plainZero : Bool) (c : Char) : StringState :=
  s.endOctal value (plainZero && !(c == '8' || c == '9'))

/-- What the next character does. -/
def step (quote : Char) (s : StringState) (c : Char) : StringStep :=
  match s.mode with
  | .plain => s.stepPlain quote c
  | .escape => .next (s.stepEscape c)
  | .escapedReturn =>
    if c == '\n' then .next { s with mode := .plain }
    else stepPlain quote { s with mode := .plain } c
  | .hex left value =>
    match digitValue? 16 c with
    | none => .fault .badHexEscape
    | some digit =>
      let value := 16 * value + digit
      .next (if left ≤ 1 then s.pushUnit value.toUInt16 else { s with mode := .hex (left - 1) value })
  | .octal left value plainZero =>
    if Number.isOctalDigit c then
      let value := 8 * value + octalValue c
      .next (if left ≤ 1 then s.endOctal value false
        else { s with mode := .octal (left - 1) value false })
    else (s.settle value plainZero c).stepPlain quote c

/-- The fault of a string that ends with the script. -/
def faultAtEnd (s : StringState) : SyntaxFault :=
  match s.mode with
  | .hex .. => .badHexEscape
  | _ => .unterminatedString

/-- The string as it stands before its closing quote. -/
def close (quote : Char) (s : StringState) : StringState :=
  match s.mode with
  | .octal _ value plainZero => s.settle value plainZero quote
  | _ => s

end StringState

/-- Goes on reading a string up to its quote. A fault comes with the byte at which it shows. -/
def scanString (quote : Char) (s : StringState) (offset : Nat) :
    List Char → Except (SyntaxFault × Nat) (StringState × Place)
  | [] => .error (s.faultAtEnd, offset)
  | c :: rest =>
    let next := offset + c.utf8Size
    match s.step quote c with
    | .closed => .ok (s.close quote, ⟨next, rest⟩)
    | .fault f => .error (f, next)
    | .next s => scanString quote s next rest

/-! ## Tokens -/

/-- The kind of a word. -/
def wordKind (word : String) : TokenKind :=
  match Keyword.ofText? word with
  | some k => .keyword k
  | none => .identifier

/-- A token whose lexeme is its text in the script. -/
def plainToken (kind : TokenKind) (lexeme : List Char) (newlineBefore legacyOctal : Bool)
    (offset : Nat) (rest : List Char) : Token × Place :=
  let stop := offset + byteLength lexeme
  (⟨kind, String.ofList lexeme, ⟨offset, stop⟩, newlineBefore, legacyOctal⟩, ⟨stop, rest⟩)

/-- The token at the front of a text that begins with neither a blank nor a comment. -/
def scanToken (newlineBefore : Bool) (offset : Nat) (text : List Char) :
    Except LexicalFault (Token × Place) :=
  match text with
  | [] => .ok (⟨.endOfInput, "", ⟨offset, offset⟩, true, false⟩, ⟨offset, []⟩)
  | c :: rest =>
    let startsNumber := c.isDigit || (c == '.' && rest.head?.any (·.isDigit))
    if isNameStart c then
      let (tail, rest) := rest.span isNamePart
      let word := c :: tail
      .ok (plainToken (wordKind (String.ofList word)) word newlineBefore false offset rest)
    else if startsNumber then
      match scanNumber text with
      | (octal, .ok (lexeme, rest)) => .ok (plainToken .number lexeme newlineBefore octal offset rest)
      | (_, .error (fault, passed)) => .error ⟨fault, ⟨offset, offset + byteLength passed⟩⟩
    else if c == '"' || c == '\'' then
      match scanString c ⟨.plain, [], false⟩ (offset + c.utf8Size) rest with
      | .ok (s, place) =>
        let value := ofUnits s.units.reverse
        .ok (⟨.string, value, ⟨offset, place.offset⟩, newlineBefore, s.octal⟩, place)
      | .error (fault, stop) => .error ⟨fault, ⟨offset, stop⟩⟩
    else match Mark.atFront? text with
      | some (lexeme, m) =>
        .ok (plainToken (.mark m) lexeme newlineBefore false offset (text.drop lexeme.length))
      | none => .error ⟨.unexpectedCharacter c, ⟨offset, offset + c.utf8Size⟩⟩

/-- The tokens of a text from a place on, behind the tokens `done`, last first. A token takes at least
one character, so that `fuel` lasts if it is more than the number of characters. -/
def tokensFrom (fuel : Nat) (done : List Token) (place : Place) :
    Except LexicalFault (List Token) :=
  match fuel with
  | 0 => .error ⟨.brokenReader, ⟨place.offset, place.offset⟩⟩
  | fuel + 1 => do
    let (newline, start) ← skipGap .open false place.offset place.rest
    let (token, next) ← scanToken newline start.offset start.rest
    if token.kind == .endOfInput then return (token :: done).reverse
    tokensFrom fuel (token :: done) next

/-- The tokens of a script. The last one, and no other, is the end of the input. -/
def tokensOf (source : String) : Except Diagnostic (List Token) :=
  let text := source.toList
  match tokensFrom (text.length + 1) [] ⟨0, text⟩ with
  | .ok tokens => .ok tokens
  | .error ⟨fault, span⟩ => .error ⟨.lexing, fault, span, []⟩

end ScriptEngine.Scanning
