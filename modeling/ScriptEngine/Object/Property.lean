import ScriptEngine.Value

/-!
Properties of objects, and the partial descriptions by which they are defined and changed.
-/

namespace ScriptEngine

/-- The three flags of a property that holds a value. -/
structure Attributes where
  writable : Bool
  enumerable : Bool
  configurable : Bool
  deriving DecidableEq

namespace Attributes

/-- All flags are on. -/
def all : Attributes := ⟨true, true, true⟩

/-- All flags are off. -/
def none : Attributes := ⟨false, false, false⟩

/-- The flags of methods and links that the engine installs: loops over keys do not see them. -/
def hidden : Attributes := ⟨true, false, true⟩

end Attributes

/-- What a property is: a value that may be read-only, or two functions, either of which may be
missing, that run when it is read and written. -/
inductive PropertyKind where
  | data (value : Value) (writable : Bool)
  | accessor (get set : Option ObjectId)
  deriving DecidableEq

/-- A property as an object holds it. -/
structure Property where
  kind : PropertyKind
  enumerable : Bool
  configurable : Bool
  deriving DecidableEq

namespace Property

/-- A property that holds a value. -/
def data (value : Value) (attributes : Attributes) : Property :=
  ⟨.data value attributes.writable, attributes.enumerable, attributes.configurable⟩

def isData (p : Property) : Bool :=
  match p.kind with
  | .data .. => true
  | .accessor .. => false

/-- The property holds a value that may be replaced. -/
def isWritable (p : Property) : Bool :=
  match p.kind with
  | .data _ writable => writable
  | .accessor .. => false

end Property

/-- A description of some of the parts of a property. A part that is not mentioned is left as it is,
or takes its default when the property is new; a function may be mentioned as missing. -/
structure PropertyPatch where
  value : Option Value := none
  writable : Option Bool := none
  get : Option (Option ObjectId) := none
  set : Option (Option ObjectId) := none
  enumerable : Option Bool := none
  configurable : Option Bool := none
  deriving DecidableEq

namespace PropertyPatch

/-- All parts of a property that holds a value. -/
def data (value : Value) (attributes : Attributes) : PropertyPatch :=
  { value := some value
    writable := some attributes.writable
    enumerable := some attributes.enumerable
    configurable := some attributes.configurable }

/-- A new value and nothing else. -/
def ofValue (value : Value) : PropertyPatch :=
  { value := some value }

/-- The description of a whole property. -/
def ofProperty (p : Property) : PropertyPatch :=
  let flags : PropertyPatch := { enumerable := some p.enumerable, configurable := some p.configurable }
  match p.kind with
  | .data value writable => { flags with value := some value, writable := some writable }
  | .accessor get set => { flags with get := some get, set := some set }

/-- A function is mentioned. -/
def mentionsAccessor (p : PropertyPatch) : Bool :=
  p.get.isSome || p.set.isSome

/-- The value or whether it may be replaced is mentioned. -/
def mentionsData (p : PropertyPatch) : Bool :=
  p.value.isSome || p.writable.isSome

/-- Nothing is mentioned that belongs to one of the two kinds of property. -/
def isGeneric (p : PropertyPatch) : Bool :=
  !p.mentionsAccessor && !p.mentionsData

/-- Nothing is mentioned. -/
def isEmpty (p : PropertyPatch) : Bool :=
  p.isGeneric && p.enumerable.isNone && p.configurable.isNone

/-- The property that a description makes when there is none yet. -/
def create (p : PropertyPatch) : Property :=
  { kind :=
      if p.mentionsAccessor then .accessor (p.get.getD none) (p.set.getD none)
      else .data (p.value.getD .undefined) (p.writable.getD false)
    enumerable := p.enumerable.getD false
    configurable := p.configurable.getD false }

/-- A mentioned part, if any, meets a condition. -/
def agrees {α : Type} (part : Option α) (holds : α → Bool) : Bool :=
  part.all holds

/-- Every part that is mentioned is as it is already. -/
def matchesProperty (p : PropertyPatch) (current : Property) : Bool :=
  agrees p.enumerable (· == current.enumerable) &&
  agrees p.configurable (· == current.configurable) &&
  match current.kind with
  | .data value writable =>
    p.get.isNone && p.set.isNone && agrees p.writable (· == writable) &&
      agrees p.value (·.sameValue value)
  | .accessor get set =>
    p.value.isNone && p.writable.isNone && agrees p.get (· == get) && agrees p.set (· == set)

/-- The flags that are mentioned may be given to a property: one that is not configurable can neither
become so nor change whether loops see it. -/
def flagsAllowed (p : PropertyPatch) (current : Property) : Bool :=
  current.configurable ||
    (agrees p.configurable (!·) && agrees p.enumerable (· == current.enumerable))

/-- The kind that a property has before the mentioned parts are put in, or nothing if the change is
refused. Only a configurable property may change its kind; of a property that is not configurable a
read-only value stays as it is, and so do the functions. -/
def changeKind? (p : PropertyPatch) (current : Property) : Option PropertyKind :=
  if p.isGeneric then some current.kind
  else if current.isData != p.mentionsData then
    if !current.configurable then none
    else if current.isData then some (.accessor none none)
    else some (.data .undefined false)
  else
    let allowed := current.configurable ||
      match current.kind with
      | .data value writable =>
        writable || (agrees p.writable (!·) && agrees p.value (·.sameValue value))
      | .accessor get set => agrees p.get (· == get) && agrees p.set (· == set)
    if allowed then some current.kind else none

/-- Puts the mentioned parts into a property of a given kind. -/
def fill (p : PropertyPatch) (kind : PropertyKind) : PropertyKind :=
  match kind with
  | .data value writable => .data (p.value.getD value) (p.writable.getD writable)
  | .accessor get set => .accessor (p.get.getD get) (p.set.getD set)

/-- The property that a description makes of one that is there, or nothing if it is refused. -/
def update? (p : PropertyPatch) (current : Property) : Option Property :=
  if p.flagsAllowed current then
    (p.changeKind? current).map fun kind =>
      { kind := p.fill kind
        enumerable := p.enumerable.getD current.enumerable
        configurable := p.configurable.getD current.configurable }
  else none

end PropertyPatch
end ScriptEngine
