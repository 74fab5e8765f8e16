import ScriptEngine.Number.Words
import ScriptEngine.Object.Basic

/-!
Definition and removal of an object's own properties. Each operation says whether it was accepted. An
array keeps its length above all of its indices: a new index raises it, and a smaller length removes
the indices it no longer covers.
-/

namespace ScriptEngine.Object

/-- Defines a property of an object that is no array, or one that is of no account to its length. -/
def defineOrdinary (o : Object) (key : String) (patch : PropertyPatch) : Bool × Object :=
  match o.getOwn? key with
  | none => if o.extensible then (true, o.set key patch.create) else (false, o)
  | some current =>
    if patch.isEmpty || patch.matchesProperty current then (true, o)
    else match patch.update? current with
      | some updated => (true, o.set key updated)
      | none => (false, o)

/-- Removes a property, unless it is there and not configurable. -/
def delete (o : Object) (key : String) : Bool × Object :=
  match o.getOwn? key with
  | none => (true, o)
  | some p => if p.configurable then (true, { o with properties := o.properties.erase key }) else (false, o)

/-! ## Arrays -/

/-- The name of the property that holds the length of an array. -/
def lengthKey : String := "length"

/-- The largest number that a length is read as. -/
def maxWord : Nat := 1 <<< 32 - 1

/-- The length of an array, and whether it may change. -/
def arrayLength (o : Object) : Nat × Bool :=
  match o.properties.find? lengthKey with
  | some ⟨.data (.number n) writable, _, _⟩ => (n.clampTo maxWord, writable)
  | _ => (0, true)

/-- Changes the length property of an array in place. -/
def modifyLength (o : Object) (f : Value → Bool → PropertyKind) : Object :=
  match o.properties.find? lengthKey with
  | some ⟨.data value writable, enumerable, configurable⟩ =>
    o.set lengthKey ⟨f value writable, enumerable, configurable⟩
  | _ => o

/-- Sets the length of an array. -/
def setArrayLength (o : Object) (length : Nat) : Object :=
  o.modifyLength fun _ writable => .data (.ofNat length) writable

/-- Makes the length of an array read-only. -/
def freezeArrayLength (o : Object) : Object :=
  o.modifyLength fun value _ => .data value false

/-- The indices of an array that a length does not cover, largest first. -/
def indicesFrom (o : Object) (length : Nat) : List (Nat × String) :=
  let indexed := o.properties.keys.filterMap fun key => (arrayIndex? key).map (·, key)
  (indexed.filter fun (i, _) => length ≤ i).mergeSort fun x y => y.1 ≤ x.1

/-- Removes elements one by one. The first that cannot be removed becomes the last of the array. -/
def dropElements (o : Object) : List (Nat × String) → Bool × Object
  | [] => (true, o)
  | (index, key) :: rest =>
    match o.delete key with
    | (true, o) => dropElements o rest
    | (false, o) => (false, o.setArrayLength (index + 1))

/-- Defines the length of an array, whose value, if one is mentioned, is a number. -/
def defineLength (o : Object) (patch : PropertyPatch) : Bool × Object :=
  let (oldLength, writable) := o.arrayLength
  match patch.value with
  | some (.number requested) =>
    let newLength := requested.clampTo maxWord
    if oldLength ≤ newLength then o.defineOrdinary lengthKey patch
    else if !writable then (false, o)
    else
      let freezes := patch.writable == some false
      let staged := if freezes then { patch with writable := some true } else patch
      match o.defineOrdinary lengthKey staged with
      | (false, o) => (false, o)
      | (true, o) =>
        let (complete, o) := o.dropElements (o.indicesFrom newLength)
        (complete, if freezes then o.freezeArrayLength else o)
  | _ => o.defineOrdinary lengthKey patch

/-- Defines an element of an array. -/
def defineElement (o : Object) (index : Nat) (key : String) (patch : PropertyPatch) :
    Bool × Object :=
  let (length, writable) := o.arrayLength
  if length ≤ index && !writable then (false, o)
  else match o.defineOrdinary key patch with
    | (false, o) => (false, o)
    | (true, o) => (true, if length ≤ index then o.setArrayLength (index + 1) else o)

/-- Defines a property of an object. -/
def define (o : Object) (key : String) (patch : PropertyPatch) : Bool × Object :=
  if o.isArray then
    if key == lengthKey then o.defineLength patch
    else match arrayIndex? key with
      | some index => o.defineElement index key patch
      | none => o.defineOrdinary key patch
  else o.defineOrdinary key patch

end ScriptEngine.Object
