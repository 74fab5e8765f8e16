import ScriptEngine.Library.Arrays
import ScriptEngine.Library.Errors
import ScriptEngine.Library.Functions
import ScriptEngine.Library.Host
import ScriptEngine.Library.Reflection
import ScriptEngine.Library.Strings

/-!
What each function of the standard library does, and how functions of the engine and the host construct objects.
-/

namespace ScriptEngine.Library

/-- Prints the arguments as strings with spaces between them. -/
def print (engine : Engine) (arguments : List Value) : Eval Value := do
  let texts ← arguments.mapM (toText engine)
  printLine (" ".intercalate texts)
  return .undefined

/-- Calls a function of the library on a value. -/
def run (engine : Engine) (f : Builtin) (this : Value) (arguments : List Value) :
    Eval Value := do
  match f with
  | .nothing => return .undefined
  | .object => objectOf arguments
  | .getPrototypeOf => getPrototypeOf arguments
  | .getOwnPropertyDescriptor => getOwnPropertyDescriptor engine arguments
  | .getOwnPropertyNames => getOwnPropertyNames arguments
  | .objectKeys => keys arguments
  | .objectCreate => create engine arguments
  | .defineProperty => defineOne engine arguments
  | .defineProperties => defineAll engine arguments
  | .preventExtensions => preventExtensions arguments
  | .isExtensible => isExtensible arguments
  | .seal => restrictObject engine "Object.seal" false arguments
  | .isSealed => testRestricted "Object.isSealed" false arguments
  | .freeze => restrictObject engine "Object.freeze" true arguments
  | .isFrozen => testRestricted "Object.isFrozen" true arguments
  | .objectToString => describeKind this
  | .objectToLocaleString => localeText engine this
  | .objectValueOf => objectValue this
  | .hasOwnProperty => hasOwnProperty engine this arguments
  | .isPrototypeOf => isPrototypeOf this arguments
  | .propertyIsEnumerable => propertyIsEnumerable engine this arguments
  | .function => functionOf engine arguments
  | .functionCall => callOn engine this arguments
  | .functionApply => applyOn engine this arguments
  | .functionBind => bind engine this arguments
  | .functionToString => functionText this
  | .error kind => errorOf engine kind arguments
  | .errorToString => errorText engine this
  | .boolean => return .boolean (argument arguments 0).toBoolean
  | .booleanConstruct => wrapBoolean arguments
  | .booleanToString => booleanText this
  | .booleanValueOf => booleanValue this
  | .number => return .number (← numberOf engine arguments)
  | .numberConstruct => wrapNumber engine arguments
  | .numberToString => numberText engine this arguments
  | .numberToLocaleString => numberLocaleText this
  | .numberValueOf => numberValue this
  | .numberToFixed => numberFixed engine this arguments
  | .string => return .string (← textOf engine arguments)
  | .stringConstruct => wrapText engine arguments
  | .fromCharCode => fromCodeUnits engine arguments
  | .stringValueOf => stringValue this
  | .charAt => charAt engine this arguments
  | .charCodeAt => charCodeAt engine this arguments
  | .stringConcat => concat engine this arguments
  | .stringIndexOf => indexOf engine this arguments
  | .stringLastIndexOf => lastIndexOf engine this arguments
  | .localeCompare => localeCompare engine this arguments
  | .stringSlice => sliceText engine this arguments
  | .substring => substring engine this arguments
  | .split => split engine this arguments
  | .replace => replace engine this arguments
  | .toLowerCase => changeText engine this Text.toLowerCase
  | .toUpperCase => changeText engine this Text.toUpperCase
  | .trim => changeText engine this trimText
  | .array => arrayOf engine arguments
  | .isArray => isArray arguments
  | .arrayPush => push engine this arguments
  | .arrayPop => pop engine this
  | .arrayJoin => join engine this arguments
  | .arrayToString => arrayText engine this
  | .arraySlice => slice engine this arguments
  | .arrayIndexOf => indexOfElement engine this arguments
  | .arrayForEach => forEach engine this arguments
  | .arrayMap => map engine this arguments
  | .isNaN => isNotNumber engine arguments
  | .isFinite => isFiniteNumber engine arguments
  | .parseInt => parseInteger engine arguments
  | .parseFloat => parseNumber engine arguments
  | .print => print engine arguments
  | .host f => runHost engine f this arguments

/-- Does to a new object what the function does that constructs it. -/
def construct (engine : Engine) (c : Construction) (instanceId : ObjectId) (arguments : List Value) :
    Eval Value :=
  match c with
  | .call f => run engine f (.object instanceId) arguments
  | .error => constructError engine (.object instanceId) arguments

end ScriptEngine.Library
