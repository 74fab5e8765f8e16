/-!
Lists of code units inside others: where they occur, what lies between their occurrences, and templates
that mention them.
-/

namespace ScriptEngine.Text

/-- The first place at which one list occurs in another, of which the first unit stands at `index`. -/
def findAt? (needle : List UInt16) (index : Nat) : List UInt16 → Option Nat
  | [] => if needle.isEmpty then some index else none
  | u :: rest =>
    if needle.isPrefixOf (u :: rest) then some index else findAt? needle (index + 1) rest

/-- The first place from `start` on at which one list occurs in another. -/
def findFrom? (needle haystack : List UInt16) (start : Nat) : Option Nat :=
  findAt? needle start (haystack.drop start)

/-- The last place up to `bound` at which one list occurs in another, of which the first unit stands at
`index`; before it the list occurred last at `found`. -/
def findLastAt? (needle : List UInt16) (bound index : Nat) (found : Option Nat) :
    List UInt16 → Option Nat
  | [] => if index ≤ bound && needle.isEmpty then some index else found
  | u :: rest =>
    if bound < index then found
    else
      let found := if needle.isPrefixOf (u :: rest) then some index else found
      findLastAt? needle bound (index + 1) found rest

/-- The last place up to `bound` at which one list occurs in another. -/
def findLast? (needle haystack : List UInt16) (bound : Nat) : Option Nat :=
  findLastAt? needle bound 0 none haystack

/-! ## Splitting -/

/-- The parts of a list between the occurrences of a separator. The units `part`, last first, are the
beginning of the next part, and `skip` more units belong to the separator found last. -/
def splitAfter (separator part : List UInt16) (skip : Nat) : List UInt16 → List (List UInt16)
  | [] => [part.reverse]
  | u :: rest =>
    match skip with
    | skip + 1 => splitAfter separator part skip rest
    | 0 =>
      if separator.isPrefixOf (u :: rest) then
        part.reverse :: splitAfter separator [] (separator.length - 1) rest
      else splitAfter separator (u :: part) 0 rest

/-- The parts of a list between the occurrences of a separator; an empty one separates all units. -/
def splitUnits (separator subject : List UInt16) : List (List UInt16) :=
  match separator with
  | [] => subject.map ([·])
  | _ => splitAfter separator [] 0 subject

/-! ## Templates -/

/-- What a template may mention: what was found, and what stands before and behind it. -/
structure Match where
  before : List UInt16
  found : List UInt16
  after : List UInt16

/-- The dollar sign, with which a mention begins. -/
def dollar : UInt16 := 0x24

/-- What a dollar sign and the unit behind it stand for. -/
def Match.expandMention (m : Match) (u : UInt16) : List UInt16 :=
  if u == dollar then [dollar]
  else if u == 0x26 then m.found
  else if u == 0x60 then m.before
  else if u == 0x27 then m.after
  else [dollar, u]

/-- A template with its mentions replaced. -/
def Match.expand (m : Match) : List UInt16 → List UInt16
  | [] => []
  | [u] => [u]
  | u :: v :: rest =>
    if u == dollar then m.expandMention v ++ m.expand rest else u :: m.expand (v :: rest)

end ScriptEngine.Text
