import ScriptEngine.CommandLine

/-!
The program itself: it reads what the command line needs and writes what the library answers.
-/

namespace ScriptEngine

/-- The text of a file, or why there is none. -/
def readScript (path : String) : IO (Except FileFault String) := do
  try
    match String.fromUTF8? (← IO.FS.readBinFile path) with
    | some text => return .ok text
    | none => return .error .notText
  catch
    | .noFileOrDirectory .. => return .error .missing
    | e => return .error (.other (toString e))

/-- Answers the lines of the standard input as they come. -/
partial def answerInput (m : Machine) : IO Unit := do
  let output ← IO.getStdout
  output.putStr prompt
  output.flush
  let line ← (← IO.getStdin).getLine
  if line.isEmpty then return
  match TypedLine.ofText line with
  | .quit => return
  | .blank => answerInput m
  | .script source =>
    let (t, m) := answerLine m {} source
    output.putStr t.output
    output.flush
    IO.eprint t.errors
    answerInput m

/-- Does what the arguments ask for. -/
def runProgramWith (i : Invocation) : IO UInt32 := do
  match i.command with
  | .interact =>
    answerInput (.new i.options)
    return 0
  | command =>
    let contents ← match command with
      | .run path => readScript path
      | _ => pure (.error .missing)
    let t := i.respond (fun _ => contents) ""
    IO.print t.output
    IO.eprint t.errors
    return t.exitCode.toUInt32

end ScriptEngine

open ScriptEngine in
/-- The program. -/
def main (arguments : List String) : IO UInt32 := do
  match Invocation.ofArguments? arguments with
  | some i => runProgramWith i
  | none =>
    IO.eprintln usage
    return usageCode.toUInt32
