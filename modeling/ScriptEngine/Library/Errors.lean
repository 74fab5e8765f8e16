import ScriptEngine.Library.Argument

/-!
Making error objects, and showing them as text.
-/

namespace ScriptEngine.Library

/-- The message that is given to an error; it is optional. -/
def errorMessage? (engine : Engine) (arguments : List Value) : Eval (Option String) := do
  match argument arguments 0 with
  | .undefined => return none
  | value => return some (← toText engine value)

/-- Gives an error its own message. -/
def withMessage (o : Object) (message : Option String) : Object :=
  match message with
  | some text => o.setData "message" (.string text) .hidden
  | none => o

/-- A new error of a kind. -/
def errorOf (engine : Engine) (kind : ErrorKind) (arguments : List Value) : Eval Value := do
  let message ← errorMessage? engine arguments
  let o := Object.ofError (← getIntrinsics) kind ""
  return .object (← newObject (withMessage o message))

/-- Makes the object that is being constructed an error. -/
def constructError (engine : Engine) (this : Value) (arguments : List Value) : Eval Value := do
  let id ← requireObject "Error" this
  modifyObject id (·.withKind .error)
  let message ← errorMessage? engine arguments
  modifyObject id (withMessage · message)
  return this

/-- A property of an error as text. -/
def errorPart (engine : Engine) (id : ObjectId) (key absent : String) : Eval String := do
  match ← getProperty engine id key with
  | .undefined => return absent
  | value => toText engine value

/-- The name and the message of an error, with a colon if it has both. -/
def errorText (engine : Engine) (this : Value) : Eval Value := do
  let id ← requireObject "Error.prototype.toString" this
  let name ← errorPart engine id "name" "Error"
  let message ← errorPart engine id "message" ""
  if name.isEmpty then return .string message
  else if message.isEmpty then return .string name
  else return .string s!"{name}: {message}"

end ScriptEngine.Library
