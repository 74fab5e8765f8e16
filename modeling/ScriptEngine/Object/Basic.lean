import ScriptEngine.Number.Literal
import ScriptEngine.Object.Function
import ScriptEngine.Object.OrderedMap

/-!
Objects by themselves: their kinds and their own properties. The object that wraps a string has its
code units as properties beside those that it holds. Among the names of properties the decimal numerals of `0` to
`2 ^ 32 - 2` are array indices.
-/

namespace ScriptEngine

/-! ## Array indices -/

/-- The number of elements that no array can have. -/
def arrayIndexLimit : Nat := 1 <<< 32 - 1

/-- Goes on reading decimal digits; nothing once the number is no index. -/
def arrayIndexAfter (value : Nat) : List Char → Option Nat
  | [] => some value
  | c :: rest =>
    if c.isDigit then
      let value := 10 * value + (c.toNat - '0'.toNat)
      if arrayIndexLimit ≤ value then none else arrayIndexAfter value rest
    else none

/-- The array index that a name is: a numeral without a zero before other digits. -/
def arrayIndex? (key : String) : Option Nat :=
  match key.toList with
  | [] => none
  | '0' :: _ :: _ => none
  | digits => arrayIndexAfter 0 digits

/-- The name of the property at an index. -/
def indexKey (index : Nat) : String :=
  Nat.repr index

/-! ## Objects -/

/-- The kinds of object, with what is particular to an object of each. -/
inductive ObjectKind where
  | ordinary
  | array
  | arguments
  | error
  | boolean (b : Bool)
  | number (n : Number)
  | string (s : String)
  | function (f : Callable)

/-- An object. New properties can be added as long as it is extensible. -/
structure Object where
  kind : ObjectKind
  proto : Option ObjectId
  extensible : Bool
  properties : OrderedMap Property

namespace Object

/-- An object without properties. -/
def new (kind : ObjectKind) (proto : Option ObjectId) : Object :=
  ⟨kind, proto, true, .empty⟩

instance : Inhabited Object := ⟨new .ordinary none⟩

/-- The name of an object's kind. -/
def className (o : Object) : String :=
  match o.kind with
  | .ordinary => "Object"
  | .array => "Array"
  | .arguments => "Arguments"
  | .error => "Error"
  | .boolean _ => "Boolean"
  | .number _ => "Number"
  | .string _ => "String"
  | .function _ => "Function"

def isArray (o : Object) : Bool :=
  match o.kind with
  | .array => true
  | _ => false

/-- What a function object runs. -/
def callable? (o : Object) : Option Callable :=
  match o.kind with
  | .function f => some f
  | _ => none

def isCallable (o : Object) : Bool :=
  o.callable?.isSome

/-- The primitive value that an object wraps. -/
def primitive? (o : Object) : Option Value :=
  match o.kind with
  | .boolean b => some (.boolean b)
  | .number n => some (.number n)
  | .string s => some (.string s)
  | _ => none

/-- The property that a code unit of a wrapped string is. -/
def unitProperty? (text key : String) : Option Property := do
  let index ← arrayIndex? key
  let unit ← (Text.units text)[index]?
  return .data (.string (Text.ofUnits [unit])) ⟨false, true, false⟩

/-- An object's own property. -/
def getOwn? (o : Object) (key : String) : Option Property :=
  match o.properties.find? key with
  | some p => some p
  | none =>
    match o.kind with
    | .string text => unitProperty? text key
    | _ => none

/-- The names of the code units of a wrapped string. -/
def unitKeys (o : Object) : List String :=
  match o.kind with
  | .string text => (List.range (Text.units text).length).map indexKey
  | _ => []

/-- The names of an object's own properties: code units first, then the others, oldest first. -/
def ownKeys (o : Object) : List String :=
  let units := o.unitKeys
  if units.isEmpty then o.properties.keys
  else units ++ o.properties.keys.filter (!units.contains ·)

/-- Sets a property as it is, whatever was there. -/
def set (o : Object) (key : String) (p : Property) : Object :=
  { o with properties := o.properties.insert key p }

/-- Sets a property that holds a value. -/
def setData (o : Object) (key : String) (value : Value) (attributes : Attributes) : Object :=
  o.set key (.data value attributes)

/-- Makes the object wrap or hold something else. -/
def withKind (o : Object) (kind : ObjectKind) : Object :=
  { o with kind }

/-- No properties can be added from now on. -/
def preventExtensions (o : Object) : Object :=
  { o with extensible := false }

end Object
end ScriptEngine
