import ScriptEngine.Heap

/-!
The keys that a loop over an object sees: the enumerable ones of the object, then those of what it
inherits from, except where a nearer object has a property of the same name. Keys are asked for one at
a time, and what the loop does in between counts: an object's keys are listed when it is reached, and a
key that is gone by its turn is left out.
-/

namespace ScriptEngine

/-- A walk over keys: the object reached, its keys that are still to come if they are listed, all of
its keys, and the keys that nearer objects had. -/
structure KeyWalk where
  origin : ObjectId
  current : Option ObjectId
  pending : Option (List String)
  listed : List String
  shadowed : List String

namespace KeyWalk

/-- A walk that has not begun. -/
def start (origin : ObjectId) : KeyWalk :=
  ⟨origin, some origin, none, [], []⟩

/-- The walk from its beginning. -/
def restart (w : KeyWalk) : KeyWalk :=
  start w.origin

/-- The first of an object's keys that is not shadowed and is enumerable now, and those behind it. -/
def nextOwn (o : Object) (shadowed : List String) : List String → Option (String × List String)
  | [] => none
  | key :: rest =>
    if !shadowed.contains key && (o.getOwn? key).any (·.enumerable) then some (key, rest)
    else nextOwn o shadowed rest

/-- The next key along at most `fuel` prototype links. -/
def nextWithin (h : Heap) (fuel : Nat) (w : KeyWalk) : Option String × KeyWalk :=
  match fuel, w.current with
  | fuel + 1, some id =>
    let o := h.get id
    let w : KeyWalk := match w.pending with
      | some _ => w
      | none => let keys := o.ownKeys; { w with pending := some keys, listed := keys }
    match nextOwn o w.shadowed (w.pending.getD []) with
    | some (key, rest) => (some key, { w with pending := some rest })
    | none =>
      nextWithin h fuel
        { w with
          current := o.proto
          pending := none
          listed := []
          shadowed := w.listed ++ w.shadowed }
  | _, _ => (none, w)

/-- The next key; none when the walk is over. -/
def next (h : Heap) (w : KeyWalk) : Option String × KeyWalk :=
  nextWithin h (h.objects.size + 1) w

/-- The keys that are left in a walk over objects that do not change, at most `fuel`. -/
def collect (h : Heap) (fuel : Nat) (w : KeyWalk) : List String :=
  match fuel with
  | 0 => []
  | fuel + 1 =>
    match w.next h with
    | (some key, w) => key :: collect h fuel w
    | (none, _) => []

end KeyWalk

/-- How many own properties the objects have that one inherits from, itself included. -/
def Heap.keyCount (h : Heap) (id : ObjectId) : Nat :=
  (h.chain (some id)).foldr (fun o count => (h.get o).ownKeys.length + count) 0

/-- All keys that a loop over an object sees if it changes nothing. -/
def Heap.enumerate (h : Heap) (id : ObjectId) : List String :=
  (KeyWalk.start id).collect h (h.keyCount id + 1)

end ScriptEngine
