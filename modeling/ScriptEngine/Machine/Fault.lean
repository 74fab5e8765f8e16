import ScriptEngine.Object.Function

/-!
The errors that the engine itself throws into a script: their causes, their kinds and their wording. A
value that the wording shows is given as text.
-/

namespace ScriptEngine

/-- Why the engine throws an error. -/
inductive Fault where
  | notDefined (name : String)
  | uninitialized (name : String)
  | badAssignment
  | constantAssignment
  | alreadyDeclared (name : String)
  | globalFunctionRefused (name : String)
  | noPrimitiveValue
  | noObject (value : String)
  | readOfNothing (key base : String)
  | writeOfNothing (key base : String)
  | readOnly (key : String)
  | redefinition (key : String)
  | undeletable (key : String)
  | descriptorNotObject (value : String)
  | mixedDescriptor
  | accessorNotFunction (part value : String)
  | notFunction (what : String)
  | notConstructor (what : String)
  | instanceOfNotCallable
  | prototypeNotObject (value : String)
  | inNotObject (key value : String)
  | calledOnNonObject (function value : String)
  | badPrototype (value : String)
  | textMethodMissing
  | wrongReceiver (method kind : String)
  | callOnNonFunction (method : String)
  | bindOnNonFunction
  | listOfNonObject (value : String)
  | arrayLength
  | tooManyArguments (count : Nat)
  | radix
  | fixedPlaces
  | notFunctionBody
  | unreadable (message : String)
  deriving DecidableEq

namespace Fault

/-- The kind of error object that is thrown. -/
def kind : Fault → ErrorKind
  | notDefined _ | uninitialized _ | badAssignment => .reference
  | alreadyDeclared _ | notFunctionBody | unreadable _ => .syntactic
  | arrayLength | tooManyArguments _ | radix | fixedPlaces => .range
  | _ => .type

/-- What the error object says. -/
def message : Fault → String
  | notDefined name => s!"{name} is not defined"
  | uninitialized name => s!"Cannot access '{name}' before initialization"
  | badAssignment => "Invalid left-hand side in assignment"
  | constantAssignment => "Assignment to constant variable."
  | alreadyDeclared name => s!"Identifier '{name}' has already been declared"
  | globalFunctionRefused name => s!"Cannot redefine global function '{name}'"
  | noPrimitiveValue => "Cannot convert object to primitive value"
  | noObject value => s!"Cannot convert {value} to object"
  | readOfNothing key base => s!"Cannot read property '{key}' of {base}"
  | writeOfNothing key base => s!"Cannot set property '{key}' of {base}"
  | readOnly key => s!"Cannot assign to read only property '{key}'"
  | redefinition key => s!"Cannot redefine property: {key}"
  | undeletable key => s!"Cannot delete property '{key}'"
  | descriptorNotObject value => s!"Property description must be an object: {value}"
  | mixedDescriptor =>
    "Invalid property descriptor. Cannot both specify accessors and a value or writable attribute"
  | accessorNotFunction part value => s!"Accessor '{part}' must be a function: {value}"
  | notFunction what => s!"{what} is not a function"
  | notConstructor what => s!"{what} is not a constructor"
  | instanceOfNotCallable => "Right-hand side of 'instanceof' is not callable"
  | prototypeNotObject value =>
    s!"Function has non-object prototype '{value}' in instanceof check"
  | inNotObject key value => s!"Cannot use 'in' operator to search for '{key}' in {value}"
  | calledOnNonObject function value => s!"{function} called on non-object {value}"
  | badPrototype value => s!"Object prototype may only be an Object or null: {value}"
  | textMethodMissing => "toString is not a function"
  | wrongReceiver method kind => s!"{method} requires that 'this' be a {kind}"
  | callOnNonFunction method => s!"{method} called on non-function"
  | bindOnNonFunction => "Bind must be called on a function"
  | listOfNonObject value => s!"CreateListFromArrayLike called on non-object {value}"
  | arrayLength => "Invalid array length"
  | tooManyArguments count => s!"too many arguments in function call ({count})"
  | radix => "toString() radix must be between 2 and 36"
  | fixedPlaces => "toFixed() digits argument must be between 0 and 100"
  | notFunctionBody => "Invalid function body"
  | unreadable message => message

end Fault
end ScriptEngine
