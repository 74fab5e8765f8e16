import ScriptEngine.Session

/-!
The command line: what its arguments ask for, and what is written for it. A script is run from a file,
evaluated as it stands, or typed line by line.
-/

namespace ScriptEngine

/-- What is to be done. -/
inductive Command where
  | run (path : String)
  | eval (source : String)
  | interact
  deriving DecidableEq

/-- Options as far as they are given. -/
structure GivenOptions where
  strict : Bool := false
  maxCallDepth : Option Nat := none
  deriving DecidableEq

namespace GivenOptions

/-- Adds the option that makes every script strict; it is given once. -/
def addStrict? (o : GivenOptions) : Option GivenOptions :=
  if o.strict then none else some { o with strict := true }

/-- One more than the greatest number of nested calls that can be asked for. -/
def depthLimit : Nat := 1 <<< 64

/-- A number of nested calls: decimal digits, perhaps behind a plus sign. -/
def readDepth? (text : String) : Option Nat :=
  let digits := match text.toList with
    | '+' :: rest => rest
    | all => all
  if digits.isEmpty || !digits.all (·.isDigit) then none
  else
    let depth := Decimal.ofDigits digits
    if depth < depthLimit then some depth else none

/-- Adds the option that limits nested calls; it is given once. -/
def addDepth? (o : GivenOptions) (text : String) : Option GivenOptions :=
  if o.maxCallDepth.isSome then none
  else (readDepth? text).map fun depth => { o with maxCallDepth := some depth }

/-- What the options of the program and those of its command come to. The latter win. -/
def settle (outer inner : GivenOptions) : EngineOptions :=
  let defaults : EngineOptions := {}
  { strict := outer.strict || inner.strict
    maxCallDepth := (inner.maxCallDepth <|> outer.maxCallDepth).getD defaults.maxCallDepth }

end GivenOptions

/-! ## Arguments -/

/-- The option that makes every script strict. -/
def strictOption : String := "--strict"

/-- The option that limits nested calls. -/
def depthOption : String := "--max-call-depth"

/-- The value that is written in one argument with the option that limits nested calls. -/
def joinedDepth? (argument : String) : Option String :=
  let mark := (depthOption ++ "=").toList
  if mark.isPrefixOf argument.toList then some (String.ofList (argument.toList.drop mark.length))
  else none

/-- An argument that can only be an option. -/
def looksLikeOption (argument : String) : Bool :=
  match argument.toList with
  | '-' :: _ :: _ => true
  | _ => false

/-- Takes the options that stand before a command, and gives what follows them. -/
def readLeading (o : GivenOptions) : List String → Option (GivenOptions × List String)
  | [] => some (o, [])
  | [a] =>
    if a == strictOption then o.addStrict?.map (·, [])
    else match joinedDepth? a with
      | some value => (o.addDepth? value).map (·, [])
      | none => some (o, [a])
  | a :: b :: rest =>
    if a == strictOption then o.addStrict?.bind (readLeading · (b :: rest))
    else if a == depthOption then (o.addDepth? b).bind (readLeading · rest)
    else match joinedDepth? a with
      | some value => (o.addDepth? value).bind (readLeading · (b :: rest))
      | none => some (o, a :: b :: rest)

/-- Takes the options and the operands of a command, in any order. Behind two dashes all are
operands. -/
def readMixed (o : GivenOptions) (operands : List String) :
    List String → Option (GivenOptions × List String)
  | [] => some (o, operands.reverse)
  | a :: rest =>
    if a == "--" then some (o, operands.reverse ++ rest)
    else if a == strictOption then o.addStrict?.bind (readMixed · operands rest)
    else if a == depthOption then
      match rest with
      | value :: rest => (o.addDepth? value).bind (readMixed · operands rest)
      | [] => none
    else match joinedDepth? a with
      | some value => (o.addDepth? value).bind (readMixed · operands rest)
      | none => if looksLikeOption a then none else readMixed o (a :: operands) rest

/-- A command by its name and its operands. -/
def Command.ofName? (name : String) (operands : List String) : Option Command :=
  match name, operands with
  | "run", [path] => some (.run path)
  | "eval", [source] => some (.eval source)
  | "repl", [] => some .interact
  | _, _ => none

/-- What a whole command line asks for. -/
structure Invocation where
  options : EngineOptions
  command : Command
  deriving DecidableEq

/-- What the arguments ask for, if they can be understood. Without a command the user types. -/
def Invocation.ofArguments? (arguments : List String) : Option Invocation := do
  let (outer, rest) ← readLeading {} arguments
  match rest with
  | [] => return ⟨outer.settle {}, .interact⟩
  | name :: rest => do
    let (inner, operands) ← readMixed {} [] rest
    return ⟨outer.settle inner, ← Command.ofName? name operands⟩

/-! ## Answers -/

/-- What is written, to the output and as errors, and the code with which the program ends. -/
structure Transcript where
  output : String := ""
  errors : String := ""
  exitCode : Nat := 0
  deriving DecidableEq

namespace Transcript

/-- Writes to the output. -/
def write (t : Transcript) (text : String) : Transcript :=
  { t with output := t.output ++ text }

/-- Writes a line to the output. -/
def writeLine (t : Transcript) (line : String) : Transcript :=
  t.write (line ++ "\n")

/-- Writes a line as an error. -/
def writeError (t : Transcript) (line : String) : Transcript :=
  { t with errors := t.errors ++ line ++ "\n" }

/-- The program ends because of an error. -/
def fail (t : Transcript) (line : String) : Transcript :=
  { t.writeError line with exitCode := 1 }

end Transcript

/-- Why a file cannot be read. -/
inductive FileFault where
  | missing
  | directory
  | notText
  | other (message : String)
  deriving DecidableEq

namespace FileFault

/-- The wording of what the system says of a file. -/
def reason : FileFault → String
  | missing => "No such file or directory (os error 2)"
  | directory => "Is a directory (os error 21)"
  | notText => "stream did not contain valid UTF-8"
  | other message => message

/-- The wording of the fault. -/
def message (fault : FileFault) : String :=
  s!"I/O error: {fault.reason}"

end FileFault

/-- Evaluates a script and writes its value. -/
def evalCommand (options : EngineOptions) (source : String) : Transcript :=
  let (outcome, m) := (Machine.new options).evalText source
  let t : Transcript := { output := m.output }
  match outcome with
  | .ok value => t.writeLine (m.heap.display value)
  | .error e => t.fail e.display

/-- A fault of a script in a file, with a note that says where it is. -/
def ScriptError.inFile (e : ScriptError) (path source : String) : ScriptError :=
  match e with
  | .unreadable d =>
    let (line, column) := d.location source
    .unreadable (d.withNote s!"{path}:{line}:{column}")
  | other => other

/-- Runs a script from a file, and writes only what it prints. -/
def runCommand (options : EngineOptions) (path : String) (contents : Except FileFault String) :
    Transcript :=
  match contents with
  | .error fault => ({} : Transcript).fail fault.message
  | .ok source =>
    let (outcome, m) := (Machine.new options).evalText source
    let t : Transcript := { output := m.output }
    match outcome with
    | .ok _ => t
    | .error e => t.fail (e.inFile path source).display

/-! ## Typed lines -/

/-- What a typed line is: nothing, the wish to stop, or a script. -/
inductive TypedLine where
  | blank
  | quit
  | script (source : String)
  deriving DecidableEq

/-- What a typed line is, white space around it aside. -/
def TypedLine.ofText (line : String) : TypedLine :=
  let text := Text.trimSpace line
  if text == ":quit" || text == ":exit" then .quit
  else if text.isEmpty then .blank
  else .script text

/-- What asks the user for a line. -/
def prompt : String := "> "

/-- Runs a typed script and writes what is shown for it. -/
def answerLine (m : Machine) (t : Transcript) (source : String) : Transcript × Machine :=
  let (answer, m) := m.evalLine source
  let (printed, m) := m.takeOutput
  let t := t.write printed
  match answer with
  | .ok text => (t.writeLine text, m)
  | .error text => (t.writeError text, m)

/-- Answers typed lines, each after a prompt, until there are no more or the user stops. -/
def answerLines (m : Machine) (t : Transcript) : List String → Transcript
  | [] => t.write prompt
  | line :: rest =>
    let t := t.write prompt
    match TypedLine.ofText line with
    | .quit => t
    | .blank => answerLines m t rest
    | .script source =>
      let (t, m) := answerLine m t source
      answerLines m t rest

/-- The lines of an input; behind its last line feed there is one more only if something stands
there. -/
def inputLines (input : String) : List String :=
  let lines := input.splitOn "\n"
  if lines.getLast? == some "" then lines.dropLast else lines

/-- What is written for a command line, when a file has some contents and some input is typed. -/
def Invocation.respond (i : Invocation) (contents : String → Except FileFault String)
    (input : String) : Transcript :=
  match i.command with
  | .run path => runCommand i.options path (contents path)
  | .eval source => evalCommand i.options source
  | .interact => answerLines (.new i.options) {} (inputLines input)

/-- What a user is told whose arguments are not understood. -/
def usage : String :=
  "usage: [--strict] [--max-call-depth <number>] [run <file> | eval <script> | repl]"

/-- The code with which the program ends when its arguments are not understood. -/
def usageCode : Nat := 2

end ScriptEngine
