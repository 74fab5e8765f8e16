import ScriptEngine.Syntax.Span

/-!
The tokens of a script: names, literals, keywords and marks.
-/

namespace ScriptEngine

/-- The words that are no names. -/
inductive Keyword where
  | «break» | «case» | «catch» | «const» | «continue» | «debugger» | «default» | «delete» | «do»
  | «else» | «finally» | «for» | «function» | «if» | «in» | «instanceof» | «let» | «new»
  | «return» | «switch» | «this» | «throw» | «try» | «typeof» | «var» | «void» | «while» | «with»
  | «true» | «false» | «null»
  /-- A word kept for later use, which no script may hold outside property names. -/
  | reserved
  deriving DecidableEq

namespace Keyword

/-- The spellings of the keywords in use. -/
def spellings : List (String × Keyword) := [
  ("break", «break»), ("case", «case»), ("catch", «catch»), ("const", «const»),
  ("continue", «continue»), ("debugger", «debugger»), ("default", «default»),
  ("delete", «delete»), ("do", «do»), ("else", «else»), ("finally", «finally»), ("for", «for»),
  ("function", «function»), ("if", «if»), ("in", «in»), ("instanceof", «instanceof»),
  ("let", «let»), ("new", «new»), ("return", «return»), ("switch", «switch»), ("this", «this»),
  ("throw", «throw»), ("try", «try»), ("typeof", «typeof»), ("var", «var»), ("void", «void»),
  ("while", «while»), ("with", «with»), ("true", «true»), ("false", «false»), ("null", «null»)]

/-- The words kept for later use. -/
def reservedWords : List String := ["class", "enum", "extends", "super", "export", "import"]

/-- The keyword with a given spelling. -/
def ofText? (text : String) : Option Keyword :=
  match spellings.lookup text with
  | some k => some k
  | none => if reservedWords.contains text then some reserved else none

end Keyword

/-- Brackets, separators and operators. -/
inductive Mark where
  | openParen | closeParen | openBrace | closeBrace | openBracket | closeBracket
  | comma | dot | colon | semicolon | question | arrow
  | assign | plusAssign | minusAssign | timesAssign | divideAssign | moduloAssign
  | leftShiftAssign | rightShiftAssign | unsignedShiftAssign | andAssign | orAssign | xorAssign
  | plus | minus | times | divide | modulo | increment | decrement
  | leftShift | rightShift | unsignedShift | bitAnd | bitOr | bitXor | bitNot
  | and | or | not | unequal | strictUnequal | equal | strictEqual
  | less | lessEqual | greater | greaterEqual
  deriving DecidableEq

/-- The spellings of all marks, longer ones first. -/
def Mark.spellings : List (List Char × Mark) := [
  ([ '>', '>', '>', '=' ], unsignedShiftAssign),
  (['=', '=', '='], strictEqual), (['!', '=', '='], strictUnequal), (['<', '<', '='], leftShiftAssign),
  (['>', '>', '='], rightShiftAssign), (['>', '>', '>'], unsignedShift),
  (['+', '+'], increment), (['-', '-'], decrement), (['+', '='], plusAssign),
  (['-', '='], minusAssign), (['*', '='], timesAssign), (['/', '='], divideAssign),
  (['%', '='], moduloAssign), (['=', '>'], arrow), (['=', '='], equal), (['!', '='], unequal),
  (['&', '&'], and), (['&', '='], andAssign), (['|', '|'], or), (['|', '='], orAssign),
  (['^', '='], xorAssign), (['<', '<'], leftShift), (['<', '='], lessEqual),
  (['>', '>'], rightShift), (['>', '='], greaterEqual),
  (['('], openParen), ([')'], closeParen), (['\x7b'], openBrace), (['\x7d'], closeBrace),
  (['['], openBracket), ([']'], closeBracket), ([','], comma), (['.'], dot), ([';'], semicolon),
  ([':'], colon), (['?'], question), (['~'], bitNot), (['+'], plus), (['-'], minus), (['*'], times),
  (['/'], divide), (['%'], modulo), (['='], assign), (['!'], not), (['&'], bitAnd), (['|'], bitOr),
  (['^'], bitXor), (['<'], less), (['>'], greater)]

/-- The longest mark at the front of a text, with its spelling. -/
def Mark.atFront? (text : List Char) : Option (List Char × Mark) :=
  spellings.find? (·.1.isPrefixOf text)

/-- What kind of token it is. -/
inductive TokenKind where
  | identifier
  | number
  | string
  | keyword (k : Keyword)
  | mark (m : Mark)
  | endOfInput
  deriving DecidableEq

/-- A token. The lexeme is its text in the script, but for a string it is the value. -/
structure Token where
  kind : TokenKind
  lexeme : String
  span : Span
  /-- A line of the script ends between the token and the one before it. -/
  newlineBefore : Bool
  /-- The token is an octal number or a string with an octal escape, both of an older form. -/
  legacyOctal : Bool
  deriving DecidableEq

end ScriptEngine
