import ScriptEngine.Syntax.Span

/-!
What can be wrong with a script before it runs, how that is worded, and where it is reported.
-/

namespace ScriptEngine

/-- The cause for which a script is refused. The first group concerns characters, the second the
order of tokens, and the third what the language forbids although it could be read. The last one stands
for a reader that goes wrong itself. -/
inductive SyntaxFault where
  | unterminatedComment
  | missingRadixDigits
  | missingExponentDigits
  | nameAfterNumber
  | badHexEscape
  | unterminatedString
  | unexpectedCharacter (c : Char)
  | expected (what : String)
  | unexpectedToken (lexeme : String)
  | unexpectedEnd
  | declarationAsStatement
  | returnOutsideFunction
  | withInStrictCode
  | newlineAfterThrow
  | badForInBinding
  | labelNotIteration (label : String)
  | undefinedLabel (label : String)
  | duplicateLabel (label : String)
  | strayContinue
  | strayBreak
  | duplicateDefault
  | tryAlone
  | letAsName
  | constWithoutValue
  | duplicateDeclaration (name : String)
  | functionWithoutName
  | strictName (name : String)
  | duplicateParameter
  | badAssignmentTarget
  | deleteOfName
  | octalNumber
  | octalEscape
  | getterParameters
  | setterParameters
  /-- The reader has no level of nesting left, cuts the script where no character ends, or counts below
  zero. No script brings it about. -/
  | brokenReader
  deriving DecidableEq

/-- The wording of a fault. -/
def SyntaxFault.message : SyntaxFault → String
  | unterminatedComment => "unterminated comment"
  | missingRadixDigits => "missing digits after numeric prefix"
  | missingExponentDigits => "missing exponent digits"
  | nameAfterNumber => "identifier starts immediately after numeric literal"
  | badHexEscape => "invalid hexadecimal escape sequence"
  | unterminatedString => "unterminated string literal"
  | unexpectedCharacter c => s!"unexpected character `{c}`"
  | expected what => s!"expected {what}"
  | unexpectedToken lexeme => s!"unexpected token `{lexeme}`"
  | unexpectedEnd => "unexpected end of input"
  | declarationAsStatement => "lexical declaration cannot appear in a single-statement context"
  | returnOutsideFunction => "illegal return statement outside of a function"
  | withInStrictCode => "strict mode code may not include a with statement"
  | newlineAfterThrow => "illegal newline after throw"
  | badForInBinding => "for-in loop requires a single binding without initializer"
  | labelNotIteration label => s!"label '{label}' does not denote an iteration statement"
  | undefinedLabel label => s!"undefined label '{label}'"
  | duplicateLabel label => s!"label '{label}' has already been declared"
  | strayContinue => "illegal continue statement: no surrounding iteration statement"
  | strayBreak => "illegal break statement"
  | duplicateDefault => "more than one default clause in switch statement"
  | tryAlone => "missing catch or finally after try"
  | letAsName => "let is disallowed as a lexically bound name"
  | constWithoutValue => "missing initializer in const declaration"
  | duplicateDeclaration name => s!"identifier '{name}' has already been declared"
  | functionWithoutName => "function statement requires a name"
  | strictName name => s!"unexpected '{name}' in strict mode"
  | duplicateParameter => "duplicate parameter name not allowed in strict mode"
  | badAssignmentTarget => "invalid assignment target"
  | deleteOfName => "delete of an unqualified identifier in strict mode"
  | octalNumber => "octal literals are not allowed in strict mode"
  | octalEscape => "octal escape sequences are not allowed in strict mode"
  | getterParameters => "getter must not have parameters"
  | setterParameters => "setter must have exactly one parameter"
  | brokenReader => "internal error of the reader"

/-- The reading of characters into tokens, or of tokens into a program. -/
inductive ReadingStage where
  | lexing
  | parsing
  deriving DecidableEq

/-- A fault found at a stage of reading, with its place and notes for the user. -/
structure Diagnostic where
  stage : ReadingStage
  fault : SyntaxFault
  span : Span
  notes : List String
  deriving DecidableEq

namespace Diagnostic

/-- The wording of the fault. -/
def message (d : Diagnostic) : String :=
  d.fault.message

/-- Adds a note behind those already there. -/
def withNote (d : Diagnostic) (note : String) : Diagnostic :=
  { d with notes := d.notes ++ [note] }

/-- The line and the column of the character at a byte offset, both counted from one. Lines end at
line feeds only, and columns count characters. -/
def locate (line column : Nat) (offset : Nat) : List Char → Nat × Nat
  | [] => (line, column)
  | c :: rest =>
    if offset == 0 then (line, column)
    else if c == '\n' then locate (line + 1) 1 (offset - c.utf8Size) rest
    else locate line (column + 1) (offset - c.utf8Size) rest

/-- The line and the column at which the fault begins. -/
def location (d : Diagnostic) (source : String) : Nat × Nat :=
  locate 1 1 d.span.start source.toList

/-- The fault in one line, then a line for each note. -/
def display (d : Diagnostic) : String :=
  d.notes.foldl (fun text note => s!"{text}\n  note: {note}")
    s!"SyntaxError: {d.message} ({d.span.start}..{d.span.stop})"

end Diagnostic
end ScriptEngine
