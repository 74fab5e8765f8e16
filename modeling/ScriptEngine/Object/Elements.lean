import ScriptEngine.Object.Define

/-!
Properties at the first indices, as a new array and the arguments of a call have them. Each value gets
an index of its own, and no index is the name of the length.
-/

namespace ScriptEngine

theorem indexKey_inj {i j : Nat} : indexKey i = indexKey j ↔ i = j := by
  constructor
  · intro same
    have digits := congrArg (fun key => Nat.ofDigitChars 10 key.toList 0) same
    simpa [indexKey, Nat.toList_repr] using digits
  · exact congrArg indexKey

/-- An index begins with a digit. -/
theorem indexKey_ne_lengthKey (i : Nat) : indexKey i ≠ Object.lengthKey := by
  intro same
  have digits : ∀ c ∈ (indexKey i).toList, c.isDigit := by
    intro c member
    rw [indexKey, Nat.toList_repr] at member
    exact Nat.isDigit_of_mem_toDigits (by decide) (by decide) member
  rw [same] at digits
  exact absurd (digits 'l' (by decide)) (by decide)

namespace Object

/-- Values under the indices from zero on. -/
def elements (items : List Value) : List (String × Property) :=
  items.zipIdx.map fun (v, index) => (indexKey index, .data v .all)

theorem keys_elements (items : List Value) :
    (elements items).map Prod.fst = (List.range items.length).map indexKey := by
  rw [elements, List.map_map, List.range_eq_range', ← List.zipIdx_map_snd 0 items, List.map_map]
  rfl

theorem nodup_elements (items : List Value) : ((elements items).map Prod.fst).Nodup := by
  rw [keys_elements]
  exact List.Pairwise.map indexKey (fun _ _ distinct same => distinct (indexKey_inj.1 same))
    List.nodup_range

theorem lengthKey_not_mem_elements (items : List Value) :
    lengthKey ∉ (elements items).map Prod.fst := by
  rw [keys_elements]
  intro member
  obtain ⟨i, _, same⟩ := List.mem_map.1 member
  exact indexKey_ne_lengthKey i same

/-- The flags of the length of an array. -/
def arrayLengthAttributes : Attributes := ⟨true, false, false⟩

/-- The properties of a new array: its length, then its elements. -/
def arrayProperties (items : List Value) : OrderedMap Property where
  entries := (lengthKey, .data (.ofNat items.length) arrayLengthAttributes) :: elements items
  nodup := List.nodup_cons.2 ⟨lengthKey_not_mem_elements items, nodup_elements items⟩

/-- The properties of the arguments of a call: the arguments, then how many there are. -/
def argumentsProperties (items : List Value) : OrderedMap Property where
  entries := elements items ++ [(lengthKey, .data (.ofNat items.length) .hidden)]
  nodup := by
    rw [List.map_append, List.nodup_append]
    refine ⟨nodup_elements items, List.nodup_cons.2 ⟨List.not_mem_nil, List.nodup_nil⟩, ?_⟩
    intro key member other isLength same
    rw [List.map_cons, List.map_nil, List.mem_singleton] at isLength
    subst same
    subst isLength
    exact lengthKey_not_mem_elements items member

/-- An array of given elements. -/
def ofElements (proto : ObjectId) (items : List Value) : Object :=
  { new .array (some proto) with properties := arrayProperties items }

/-- The object that holds the arguments of a call. -/
def ofArguments (proto : ObjectId) (items : List Value) : Object :=
  { new .arguments (some proto) with properties := argumentsProperties items }

end Object
end ScriptEngine
