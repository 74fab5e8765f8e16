import ScriptEngine.Object.Property
import ScriptEngine.Syntax.Tree

/-!
What a function object runs when it is called: code of a script, something built into the engine or
offered by its host, or another function with arguments given beforehand.
-/

namespace ScriptEngine

/-- The address of an environment. -/
@[ext]
structure EnvironmentId where
  index : Nat
  deriving DecidableEq, Inhabited

/-- The kinds of error object. -/
inductive ErrorKind where
  | error | eval | range | reference | syntactic | type | uri
  deriving DecidableEq

namespace ErrorKind

/-- The name of a kind, which its error objects show. -/
def name : ErrorKind → String
  | error => "Error"
  | eval => "EvalError"
  | range => "RangeError"
  | reference => "ReferenceError"
  | syntactic => "SyntaxError"
  | type => "TypeError"
  | uri => "URIError"

/-- All kinds; the others derive from the first. -/
def all : List ErrorKind := [error, eval, range, reference, syntactic, type, uri]

end ErrorKind

/-! ## Functions of a host -/

/-- A value as a function of the host has it. For an object it has a number: in which place it came by it. -/
inductive HostValue where
  | undefined
  | null
  | boolean (b : Bool)
  | number (n : Number)
  | string (s : String)
  | object (place : Nat)
  deriving DecidableEq

/-- What cuts short a request of a function of the host, or the function itself. -/
inductive HostError where
  | thrown (value : HostValue)
  /-- Too many calls are nested; the number says how many. -/
  | overflow (depth : Nat)
  deriving DecidableEq

/-- Why a script has no value that a function of the host had run: the wording, and what the script threw or how
many calls were nested. -/
structure HostFailure where
  display : String
  thrown : Option HostValue := none
  depth : Option Nat := none

/-- A description of some of the parts of a property, as a function of the host gives it. -/
structure HostPatch where
  value : Option HostValue := none
  writable : Option Bool := none
  get : Option (Option HostValue) := none
  set : Option (Option HostValue) := none
  enumerable : Option Bool := none
  configurable : Option Bool := none

/-- What a function of the host may ask the engine for. -/
inductive HostRequest where
  | globalObject
  /-- Evaluates an expression where the function is called. -/
  | evaluate (e : Expr)
  | call (function this : HostValue) (arguments : List HostValue)
  | construct (constructor : HostValue) (arguments : List HostValue)
  | get (base : HostValue) (key : String)
  | put (base : HostValue) (key : String) (value : HostValue) (strict : Bool)
  | define (object : HostValue) (key : String) (patch : HostPatch) (throws : Bool)
  | delete (object : HostValue) (key : String) (throws : Bool)
  | has (object : HostValue) (key : String)
  /-- An object that describes a property of an object itself. -/
  | describeOwn (object : HostValue) (key : String)
  | ownKeys (object : HostValue)
  | elements (object : HostValue)
  | toPrimitive (value : HostValue) (hint : Hint)
  | toNumber (value : HostValue)
  | toText (value : HostValue)
  | toObject (value : HostValue)
  | combine (op : BinaryOp) (x y : HostValue)
  | typeOf (value : HostValue)
  | createObject (proto : Option HostValue)
  | createArray (items : List HostValue)
  | createError (kind : ErrorKind) (message : String)
  | print (line : String)

/-- What a function of the host does. Its own computations are of no account to the engine, so it is a program that
makes one request after the other and goes on with what the engine answers. It comes to an end whatever that is. -/
inductive HostProgram where
  | done (outcome : Except HostError HostValue)
  /-- Makes a request, and goes on with the values that answer it or with what cut it short. -/
  | ask (request : HostRequest) (next : Except HostError (List HostValue) → HostProgram)
  /-- Makes a function object for another function of the host. -/
  | offer (name : String) (length : Nat) (run : (this : HostValue) → (arguments : List HostValue) → HostProgram)
      (next : HostValue → HostProgram)
  /-- Runs a script inside the one that is running. -/
  | enter (source : String) (next : Except HostFailure HostValue → HostProgram)
  /-- Has a value described as one that was thrown. -/
  | describe (value : HostValue) (next : String → HostProgram)

/-- A function that a host offers to scripts. It has no memory from one call to the next. -/
structure HostFunction where
  run : (this : HostValue) → (arguments : List HostValue) → HostProgram

/-! ## Functions -/

/-- What the engine's own functions do. -/
inductive Builtin where
  | nothing
  | object | getPrototypeOf | getOwnPropertyDescriptor | getOwnPropertyNames | objectKeys
  | objectCreate | defineProperty | defineProperties | preventExtensions | isExtensible
  | seal | isSealed | freeze | isFrozen
  | objectToString | objectToLocaleString | objectValueOf | hasOwnProperty | isPrototypeOf
  | propertyIsEnumerable
  | function | functionCall | functionApply | functionBind | functionToString
  | error (kind : ErrorKind) | errorToString
  | boolean | booleanConstruct | booleanToString | booleanValueOf
  | number | numberConstruct | numberToString | numberToLocaleString | numberValueOf | numberToFixed
  | string | stringConstruct | fromCharCode | stringValueOf
  | charAt | charCodeAt | stringConcat | stringIndexOf | stringLastIndexOf | localeCompare
  | stringSlice | substring | split | replace | toLowerCase | toUpperCase | trim
  | array | isArray | arrayPush | arrayPop | arrayJoin | arrayToString | arraySlice | arrayIndexOf
  | arrayForEach | arrayMap
  | isNaN | isFinite | parseInt | parseFloat | print
  | host (f : HostFunction)

/-- How a function of the engine or the host constructs: what it calls on the new object, or that it makes
the new object an error. Nothing else changes an object so, and no script can call it on another. -/
inductive Construction where
  | call (f : Builtin)
  | error

instance : Coe Builtin Construction := ⟨.call⟩

/-- A function of a script: its code, the environment around it, and for an arrow function the value
of `this` there. -/
structure ScriptFunction where
  code : FunctionCode
  environment : EnvironmentId
  lexicalThis : Option Value

/-- A function of the engine or the host. It can construct objects only if it says how. -/
structure NativeFunction where
  name : String
  call : Builtin
  construct : Option Construction

/-- A function to be called on a given value and with given arguments before its own. -/
structure BoundFunction where
  target : ObjectId
  this : Value
  arguments : List Value
  deriving DecidableEq

inductive Callable where
  | script (f : ScriptFunction)
  | native (f : NativeFunction)
  | bound (f : BoundFunction)

end ScriptEngine
