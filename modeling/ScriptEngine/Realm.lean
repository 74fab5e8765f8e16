import ScriptEngine.Interpreter

/-!
A new engine: the prototypes of its objects, the global object, and the standard library under the names
that scripts know it by.
-/

namespace ScriptEngine

/-! ## Prototypes -/

/-- The place of a kind of error among all of them. -/
def ErrorKind.index (kind : ErrorKind) : Nat :=
  ErrorKind.all.idxOf kind

/-- The prototypes of a new engine, at the first addresses. -/
def Intrinsics.first : Intrinsics := {
  objectPrototype := ⟨0⟩
  functionPrototype := ⟨1⟩
  arrayPrototype := ⟨2⟩
  booleanPrototype := ⟨3⟩
  numberPrototype := ⟨4⟩
  stringPrototype := ⟨5⟩
  errorPrototype := fun kind => ⟨6 + kind.index⟩ }

/-- The prototype of a kind of error. All kinds derive from the first. -/
def Object.errorPrototype (kind : ErrorKind) : Object :=
  let above := match kind with
    | .error => Intrinsics.first.objectPrototype
    | _ => Intrinsics.first.errorPrototype .error
  ((Object.new .error (some above)).setData "name" (.string kind.name) .hidden).setData
    "message" (.string "") .hidden

/-- The objects of an engine before its library is installed: the prototypes at their addresses, and
the global object behind them. -/
def firstObjects : List Object :=
  let derived (kind : ObjectKind) : Object := .new kind (some Intrinsics.first.objectPrototype)
  [ .new .ordinary none,
    derived (.function (.native ⟨"", .nothing, none⟩)),
    (derived .array).setData Object.lengthKey (.ofNat 0) Object.arrayLengthAttributes,
    derived (.boolean false),
    derived (.number .zero),
    (derived (.string "")).setData Object.lengthKey (.ofNat 0) .none ] ++
  ErrorKind.all.map Object.errorPrototype ++
  [derived .ordinary]

/-- The realm of a new engine. -/
def Realm.first : Realm := {
  intrinsics := .first
  globalObject := ⟨6 + ErrorKind.all.length⟩
  globalEnvironment := ⟨0⟩
  scriptEnvironment := ⟨1⟩ }

/-- An engine without its library. -/
def Machine.bare (options : EngineOptions) : Machine := {
  heap := ⟨firstObjects.toArray⟩
  environments :=
    ⟨#[.ofObject Realm.first.globalObject false none,
      .declarative (some Realm.first.globalEnvironment)]⟩
  context :=
    ⟨Realm.first.scriptEnvironment, Realm.first.globalEnvironment,
      .object Realm.first.globalObject, options.strict⟩
  callers := []
  callDepth := 0
  output := ""
  realm := .first
  options }

/-! ## The library -/

/-- A method under a name, and how many arguments it expects. -/
structure MethodEntry where
  name : String
  length : Nat
  call : Builtin

/-- A constructor: what it does when it is called and when it constructs, the prototype of what it
constructs, its constants, and the methods of itself and of that prototype. -/
structure ConstructorEntry where
  name : String
  call : Builtin
  construct : Construction
  proto : ObjectId
  constants : List (String × Number) := []
  own : List MethodEntry := []
  inherited : List MethodEntry := []

/-- The largest finite number. -/
def Number.largest : Number := .ofBits 0x7FEFFFFFFFFFFFFF

/-- The smallest positive number. -/
def Number.smallest : Number := .ofBits 1

def objectEntry : ConstructorEntry := {
  name := "Object"
  call := .object
  construct := .call .object
  proto := Intrinsics.first.objectPrototype
  own := [
    ⟨"getPrototypeOf", 1, .getPrototypeOf⟩,
    ⟨"getOwnPropertyDescriptor", 2, .getOwnPropertyDescriptor⟩,
    ⟨"getOwnPropertyNames", 1, .getOwnPropertyNames⟩,
    ⟨"keys", 1, .objectKeys⟩,
    ⟨"create", 2, .objectCreate⟩,
    ⟨"defineProperty", 3, .defineProperty⟩,
    ⟨"defineProperties", 2, .defineProperties⟩,
    ⟨"preventExtensions", 1, .preventExtensions⟩,
    ⟨"isExtensible", 1, .isExtensible⟩,
    ⟨"seal", 1, .seal⟩,
    ⟨"isSealed", 1, .isSealed⟩,
    ⟨"freeze", 1, .freeze⟩,
    ⟨"isFrozen", 1, .isFrozen⟩]
  inherited := [
    ⟨"toString", 0, .objectToString⟩,
    ⟨"toLocaleString", 0, .objectToLocaleString⟩,
    ⟨"valueOf", 0, .objectValueOf⟩,
    ⟨"hasOwnProperty", 1, .hasOwnProperty⟩,
    ⟨"isPrototypeOf", 1, .isPrototypeOf⟩,
    ⟨"propertyIsEnumerable", 1, .propertyIsEnumerable⟩] }

def functionEntry : ConstructorEntry := {
  name := "Function"
  call := .function
  construct := .call .function
  proto := Intrinsics.first.functionPrototype
  inherited := [
    ⟨"call", 1, .functionCall⟩,
    ⟨"apply", 2, .functionApply⟩,
    ⟨"bind", 1, .functionBind⟩,
    ⟨"toString", 0, .functionToString⟩] }

/-- The constructor of a kind of error. The method that shows an error is inherited by all kinds. -/
def errorEntry (kind : ErrorKind) : ConstructorEntry := {
  name := kind.name
  call := .error kind
  construct := .error
  proto := Intrinsics.first.errorPrototype kind
  inherited := if kind = .error then [⟨"toString", 0, .errorToString⟩] else [] }

def booleanEntry : ConstructorEntry := {
  name := "Boolean"
  call := .boolean
  construct := .call .booleanConstruct
  proto := Intrinsics.first.booleanPrototype
  inherited := [⟨"toString", 0, .booleanToString⟩, ⟨"valueOf", 0, .booleanValueOf⟩] }

def numberEntry : ConstructorEntry := {
  name := "Number"
  call := .number
  construct := .call .numberConstruct
  proto := Intrinsics.first.numberPrototype
  constants := [
    ("MAX_VALUE", .largest),
    ("MIN_VALUE", .smallest),
    ("NaN", .nan),
    ("POSITIVE_INFINITY", .infinite false),
    ("NEGATIVE_INFINITY", .infinite true)]
  inherited := [
    ⟨"toString", 1, .numberToString⟩,
    ⟨"toLocaleString", 0, .numberToLocaleString⟩,
    ⟨"valueOf", 0, .numberValueOf⟩,
    ⟨"toFixed", 1, .numberToFixed⟩] }

def stringEntry : ConstructorEntry := {
  name := "String"
  call := .string
  construct := .call .stringConstruct
  proto := Intrinsics.first.stringPrototype
  own := [⟨"fromCharCode", 1, .fromCharCode⟩]
  inherited := [
    ⟨"toString", 0, .stringValueOf⟩,
    ⟨"valueOf", 0, .stringValueOf⟩,
    ⟨"charAt", 1, .charAt⟩,
    ⟨"charCodeAt", 1, .charCodeAt⟩,
    ⟨"concat", 1, .stringConcat⟩,
    ⟨"indexOf", 1, .stringIndexOf⟩,
    ⟨"lastIndexOf", 1, .stringLastIndexOf⟩,
    ⟨"localeCompare", 1, .localeCompare⟩,
    ⟨"slice", 2, .stringSlice⟩,
    ⟨"substring", 2, .substring⟩,
    ⟨"split", 2, .split⟩,
    ⟨"replace", 2, .replace⟩,
    ⟨"toLowerCase", 0, .toLowerCase⟩,
    ⟨"toLocaleLowerCase", 0, .toLowerCase⟩,
    ⟨"toUpperCase", 0, .toUpperCase⟩,
    ⟨"toLocaleUpperCase", 0, .toUpperCase⟩,
    ⟨"trim", 0, .trim⟩] }

def arrayEntry : ConstructorEntry := {
  name := "Array"
  call := .array
  construct := .call .array
  proto := Intrinsics.first.arrayPrototype
  own := [⟨"isArray", 1, .isArray⟩]
  inherited := [
    ⟨"push", 1, .arrayPush⟩,
    ⟨"pop", 0, .arrayPop⟩,
    ⟨"join", 1, .arrayJoin⟩,
    ⟨"toString", 0, .arrayToString⟩,
    ⟨"slice", 2, .arraySlice⟩,
    ⟨"indexOf", 1, .arrayIndexOf⟩,
    ⟨"forEach", 1, .arrayForEach⟩,
    ⟨"map", 1, .arrayMap⟩] }

/-- All constructors, in the order in which the global object names them. -/
def constructorEntries : List ConstructorEntry :=
  [objectEntry, functionEntry] ++ ErrorKind.all.map errorEntry ++
    [booleanEntry, numberEntry, stringEntry, arrayEntry]

/-- The constants that the global object names. -/
def globalConstants : List (String × Value) :=
  [("NaN", .number .nan), ("Infinity", .number (.infinite false)), ("undefined", .undefined)]

/-- The functions that the global object names. -/
def globalFunctions : List MethodEntry := [
  ⟨"isNaN", 1, .isNaN⟩,
  ⟨"isFinite", 1, .isFinite⟩,
  ⟨"parseInt", 2, .parseInt⟩,
  ⟨"parseFloat", 1, .parseFloat⟩,
  ⟨"print", 1, .print⟩]

/-! ## Installation -/

/-- Gives an object methods. -/
def installMethods (target : ObjectId) (entries : List MethodEntry) : Eval Unit :=
  entries.forM fun e => defineMethod target e.name e.length e.call

/-- Makes a constructor with all that belongs to it, and names it globally. -/
def installConstructor (global : ObjectId) (e : ConstructorEntry) : Eval Unit := do
  let f ← createConstructor e.name 1 e.call e.construct e.proto
  e.constants.forM fun (name, n) => modifyObject f (·.setData name (.number n) .none)
  installMethods f e.own
  installMethods e.proto e.inherited
  modifyObject global (·.setData e.name (.object f) .hidden)

/-- Installs the whole library. -/
def installLibrary : Eval Unit := do
  let global := (← getRealm).globalObject
  constructorEntries.forM (installConstructor global)
  globalConstants.forM fun (name, value) => modifyObject global (·.setData name value .none)
  installMethods global globalFunctions

/-- A new engine. -/
def Machine.new (options : EngineOptions) : Machine :=
  match installLibrary (.bare options) with
  | .ok _ m => m
  | .error _ m => m

end ScriptEngine
