import ScriptEngine.Realm

/-!
A session with an engine: scripts run one after the other, each sees what those before it left, and what
a script prints is collected until it is taken.
-/

namespace ScriptEngine

/-- The steps that an engine is given for one action of its host: more than any host waits for. -/
def sessionSteps : Nat := 1 <<< 40

/-- The engine of a session. -/
def sessionEngine : Engine := engineAt sessionSteps

namespace Machine

/-- Runs an action and says how it ended. -/
def run {α : Type} (m : Machine) (action : Eval α) : Except Abrupt α × Machine :=
  match action m with
  | .ok a m => (.ok a, m)
  | .error e m => (.error e, m)

/-- What was printed since it was asked for last. -/
def takeOutput (m : Machine) : String × Machine :=
  (m.output, { m with output := "" })

/-- Why a script has no value, if it was cut short. -/
def scriptError : Abrupt → ScriptError
  | .thrown value => .uncaught value value.primitiveToText
  | .overflow depth => .overflow depth
  | .exhausted => .exhausted

/-- Runs an action that itself says how a script ended. -/
def runScript (m : Machine) (action : Eval (Except ScriptError Value)) :
    Except ScriptError Value × Machine :=
  match m.run action with
  | (.ok outcome, m) => (outcome, m)
  | (.error e, m) => (.error (scriptError e), m)

/-- Reads and runs a script. -/
def evalText (m : Machine) (source : String) : Except ScriptError Value × Machine :=
  m.runScript (evalSource sessionEngine source)

/-- Runs a program that was read before. -/
def evalParsed (m : Machine) (p : Program) : Except ScriptError Value × Machine :=
  m.runScript (evalProgram sessionEngine p)

/-- A fault of a script with the place where it is. -/
def locatedMessage (d : Diagnostic) (source : String) : String :=
  let (line, column) := d.location source
  s!"SyntaxError: {d.message} at {line}:{column}"

/-- Runs a line of a session and gives what is shown for it: the value, or what went wrong. -/
def evalLine (m : Machine) (line : String) : Except String String × Machine :=
  match m.evalText line with
  | (.ok value, m) => (.ok (m.heap.inspect value), m)
  | (.error (.unreadable d), m) => (.error (locatedMessage d line), m)
  | (.error e, m) => (.error e.display, m)

end Machine
end ScriptEngine
