import ScriptEngine.Object.Define

/-!
All objects of a running engine, and what can be said of an object together with those it inherits
from. Objects are never freed, so an address stays valid. Prototype links form no cycle: the only
operation that changes one refuses to close it.
-/

namespace ScriptEngine

/-- The objects, each at its address. -/
structure Heap where
  objects : Array Object

namespace Heap

/-- No objects. -/
def empty : Heap := ⟨#[]⟩

instance : Inhabited Heap := ⟨empty⟩

/-- The object at an address. -/
def get (h : Heap) (id : ObjectId) : Object :=
  h.objects.getD id.index default

/-- Adds an object at a new address. -/
def add (h : Heap) (o : Object) : ObjectId × Heap :=
  (⟨h.objects.size⟩, ⟨h.objects.push o⟩)

/-- Replaces the object at an address. -/
def set (h : Heap) (id : ObjectId) (o : Object) : Heap :=
  ⟨h.objects.setIfInBounds id.index o⟩

/-- Replaces the object at an address by what an operation makes of it, and gives what the operation
says. -/
def update {α : Type} (h : Heap) (id : ObjectId) (f : Object → α × Object) : α × Heap :=
  let (a, o) := f (h.get id)
  (a, h.set id o)

@[simp] theorem size_set (h : Heap) (id : ObjectId) (o : Object) :
    (h.set id o).objects.size = h.objects.size := by
  simp [set]

@[simp] theorem size_add (h : Heap) (o : Object) :
    (h.add o).2.objects.size = h.objects.size + 1 := by
  simp [add]

theorem get_set_self {h : Heap} {id : ObjectId} (o : Object) (there : id.index < h.objects.size) :
    (h.set id o).get id = o := by
  simp [get, set, Array.getD_eq_getD_getElem?, there]

theorem get_set_of_ne {h : Heap} {id other : ObjectId} (o : Object) (distinct : id ≠ other) :
    (h.set id o).get other = h.get other := by
  have places : id.index ≠ other.index := fun same => distinct (ObjectId.ext same)
  simp [get, set, Array.getD_eq_getD_getElem?, places]

/-- A new object is at its address. -/
theorem get_add_self (h : Heap) (o : Object) : (h.add o).2.get (h.add o).1 = o := by
  simp [get, add]

theorem index_add_lt (h : Heap) (o : Object) : (h.add o).1.index < (h.add o).2.objects.size := by
  simp [add]

/-- The objects that were there stay where they are. -/
theorem get_add_of_lt {h : Heap} {id : ObjectId} (o : Object) (there : id.index < h.objects.size) :
    (h.add o).2.get id = h.get id := by
  simp [get, add, Array.getD_eq_getD_getElem?, Array.getElem?_push, Nat.ne_of_lt there]

/-! ## Inheritance -/

/-- The objects from a given one on along at most `fuel` prototype links. -/
def chainFrom (h : Heap) (fuel : Nat) (start : Option ObjectId) : List ObjectId :=
  match fuel, start with
  | fuel + 1, some id => id :: h.chainFrom fuel (h.get id).proto
  | _, _ => []

/-- An object and all it inherits from, nearest first. Without cycles this takes no more links than
there are objects. -/
def chain (h : Heap) (start : Option ObjectId) : List ObjectId :=
  h.chainFrom (h.objects.size + 1) start

/-- The first property of a name along at most `fuel` prototype links. -/
def findFrom? (h : Heap) (key : String) (fuel : Nat) (start : Option ObjectId) : Option Property :=
  match fuel, start with
  | fuel + 1, some id =>
    let o := h.get id
    match o.getOwn? key with
    | some p => some p
    | none => h.findFrom? key fuel o.proto
  | _, _ => none

/-- The first property of a name on an object or on what it inherits from. -/
def find? (h : Heap) (start : Option ObjectId) (key : String) : Option Property :=
  h.findFrom? key (h.objects.size + 1) start

/-- An object has or inherits a property. -/
def has (h : Heap) (id : ObjectId) (key : String) : Bool :=
  (h.find? (some id) key).isSome

/-- An object is among those that another one inherits from. -/
def inheritsFrom (h : Heap) (id ancestor : ObjectId) : Bool :=
  (h.chain (h.get id).proto).contains ancestor

/-- Gives an object another prototype, unless it would inherit from itself. -/
def setPrototype (h : Heap) (id : ObjectId) (proto : Option ObjectId) : Bool × Heap :=
  if (h.chain proto).contains id then (false, h)
  else (true, h.set id { h.get id with proto })

/-! ## Functions -/

/-- What a value runs when it is called. -/
def callable? (h : Heap) (value : Value) : Option Callable :=
  value.asObject?.bind fun id => (h.get id).callable?

def isCallable (h : Heap) (value : Value) : Bool :=
  (h.callable? value).isSome

/-- A function can construct objects; one with bound arguments can if its target can. -/
def isConstructorWithin (h : Heap) (fuel : Nat) : Callable → Bool
  | .script f => !f.code.isArrow
  | .native f => f.construct.isSome
  | .bound f =>
    match fuel, (h.get f.target).callable? with
    | fuel + 1, some target => h.isConstructorWithin fuel target
    | _, _ => false

def isConstructor (h : Heap) (f : Callable) : Bool :=
  h.isConstructorWithin h.objects.size f

/-- The name of a function, which for one with bound arguments contains that of its target. -/
def functionNameWithin (h : Heap) (fuel : Nat) : Callable → String
  | .script f => f.code.name.getD ""
  | .native f => f.name
  | .bound f =>
    "bound " ++
      match fuel, (h.get f.target).callable? with
      | fuel + 1, some target => h.functionNameWithin fuel target
      | _, _ => ""

def functionName (h : Heap) (f : Callable) : String :=
  h.functionNameWithin h.objects.size f

/-! ## Values as text -/

/-- The name of the type of a value. -/
def typeOf (h : Heap) (value : Value) : String :=
  match value with
  | .undefined => "undefined"
  | .null => "object"
  | .boolean _ => "boolean"
  | .number _ => "number"
  | .string _ => "string"
  | .object id => if (h.get id).isCallable then "function" else "object"

/-- A value as it is shown in messages. -/
def display (h : Heap) (value : Value) : String :=
  value.textWith fun id => (h.get id).className

/-- A value as it is shown when strings are to be told from other values. -/
def inspect (h : Heap) (value : Value) : String :=
  match value with
  | .string s => Text.quoted s
  | _ => h.display value

/-- A function of a property as it is shown. -/
def inspectFunction (h : Heap) (f : Option ObjectId) : String :=
  match f with
  | some id => s!"Some({h.display (.object id)})"
  | none => "None"

/-- A property as it is shown. -/
def inspectProperty (h : Heap) (p : Property) : String :=
  let flag (b : Bool) : String := if b then "true" else "false"
  let first := match p.kind with
    | .data value writable => s!"value: {h.inspect value}, writable: {flag writable}"
    | .accessor get set => s!"get: {h.inspectFunction get}, set: {h.inspectFunction set}"
  let flags := s!"enumerable: {flag p.enumerable}, configurable: {flag p.configurable}"
  "PropertyDescriptor \x7b " ++ first ++ ", " ++ flags ++ " \x7d"

end Heap
end ScriptEngine
