/-!
Values under names, in the order in which the names came. Setting a name that is there leaves it at its
place, and a name that is removed and set again comes last.
-/

namespace ScriptEngine

/-- Values under distinct names, oldest name first. -/
structure OrderedMap (α : Type) where
  entries : List (String × α)
  nodup : (entries.map Prod.fst).Nodup

namespace OrderedMap

variable {α : Type}

/-- No names. -/
def empty : OrderedMap α := ⟨[], List.nodup_nil⟩

instance : Inhabited (OrderedMap α) := ⟨empty⟩

/-- The names, oldest first. -/
def keys (m : OrderedMap α) : List String :=
  m.entries.map Prod.fst

/-- The value under a name in a list of entries. -/
def lookup (key : String) : List (String × α) → Option α
  | [] => none
  | (k, v) :: rest => if k = key then some v else lookup key rest

/-- The value under a name. -/
def find? (m : OrderedMap α) (key : String) : Option α :=
  lookup key m.entries

/-- A name is there. -/
def contains (m : OrderedMap α) (key : String) : Bool :=
  (m.find? key).isSome

/-- Puts a value under a name, at its place if it has one, else at the end. -/
def put (key : String) (value : α) : List (String × α) → List (String × α)
  | [] => [(key, value)]
  | (k, v) :: rest => if k = key then (k, value) :: rest else (k, v) :: put key value rest

/-- Takes a name out. -/
def remove (key : String) : List (String × α) → List (String × α)
  | [] => []
  | (k, v) :: rest => if k = key then rest else (k, v) :: remove key rest

theorem mem_keys_put {key name : String} {value : α} {entries : List (String × α)} :
    name ∈ (put key value entries).map Prod.fst ↔ name = key ∨ name ∈ entries.map Prod.fst := by
  induction entries with
  | nil => simp [put]
  | cons e rest ih =>
    obtain ⟨k, v⟩ := e
    by_cases same : k = key
    · subst same; simp [put]
    · simp only [put, same, if_false, List.map_cons, List.mem_cons, ih]
      constructor
      · rintro (h | h | h) <;> simp [h]
      · rintro (h | h | h) <;> simp [h]

theorem nodup_put {key : String} {value : α} {entries : List (String × α)}
    (distinct : (entries.map Prod.fst).Nodup) : ((put key value entries).map Prod.fst).Nodup := by
  induction entries with
  | nil => simp [put]
  | cons e rest ih =>
    obtain ⟨k, v⟩ := e
    rw [List.map_cons, List.nodup_cons] at distinct
    by_cases same : k = key
    · rw [put, if_pos same, List.map_cons, List.nodup_cons]
      exact distinct
    · rw [put, if_neg same, List.map_cons, List.nodup_cons, mem_keys_put]
      refine ⟨fun member => ?_, ih distinct.2⟩
      rcases member with h | h
      · exact same h
      · exact distinct.1 h

theorem mem_keys_of_remove {key name : String} {entries : List (String × α)}
    (member : name ∈ (remove key entries).map Prod.fst) : name ∈ entries.map Prod.fst := by
  induction entries with
  | nil => simp [remove] at member
  | cons e rest ih =>
    obtain ⟨k, v⟩ := e
    by_cases same : k = key
    · rw [remove, if_pos same] at member
      exact List.mem_cons_of_mem _ member
    · rw [remove, if_neg same, List.map_cons, List.mem_cons] at member
      rcases member with rfl | member
      · exact List.mem_cons_self
      · exact List.mem_cons_of_mem _ (ih member)

theorem nodup_remove {key : String} {entries : List (String × α)}
    (distinct : (entries.map Prod.fst).Nodup) : ((remove key entries).map Prod.fst).Nodup := by
  induction entries with
  | nil => simp [remove]
  | cons e rest ih =>
    obtain ⟨k, v⟩ := e
    rw [List.map_cons, List.nodup_cons] at distinct
    by_cases same : k = key
    · rw [remove, if_pos same]; exact distinct.2
    · rw [remove, if_neg same, List.map_cons, List.nodup_cons]
      exact ⟨fun member => distinct.1 (mem_keys_of_remove member), ih distinct.2⟩

/-- The map with a value under a name. -/
def insert (m : OrderedMap α) (key : String) (value : α) : OrderedMap α :=
  ⟨put key value m.entries, nodup_put m.nodup⟩

/-- The map without a name. -/
def erase (m : OrderedMap α) (key : String) : OrderedMap α :=
  ⟨remove key m.entries, nodup_remove m.nodup⟩

/-! ## What a map says after a change -/

theorem lookup_put {key name : String} {value : α} {entries : List (String × α)} :
    lookup name (put key value entries) = if key = name then some value else lookup name entries := by
  induction entries with
  | nil => simp [put, lookup]
  | cons e rest ih =>
    obtain ⟨k, v⟩ := e
    by_cases same : k = key
    · subst same
      by_cases hit : k = name <;> simp [put, lookup, hit]
    · by_cases hit : k = name
      · subst hit
        simp [put, lookup, same, Ne.symm same]
      · simp [put, lookup, same, hit, ih]

theorem lookup_isSome {name : String} {entries : List (String × α)} :
    (lookup name entries).isSome ↔ name ∈ entries.map Prod.fst := by
  induction entries with
  | nil => simp [lookup]
  | cons e rest ih =>
    obtain ⟨k, v⟩ := e
    by_cases hit : k = name
    · simp [lookup, hit]
    · simp [lookup, hit, ih, Ne.symm hit]

theorem lookup_eq_none {name : String} {entries : List (String × α)} :
    lookup name entries = none ↔ name ∉ entries.map Prod.fst := by
  rw [← lookup_isSome, Option.not_isSome_iff_eq_none]

theorem lookup_remove {key name : String} {entries : List (String × α)}
    (distinct : (entries.map Prod.fst).Nodup) :
    lookup name (remove key entries) = if key = name then none else lookup name entries := by
  induction entries with
  | nil => simp [remove, lookup]
  | cons e rest ih =>
    obtain ⟨k, v⟩ := e
    rw [List.map_cons, List.nodup_cons] at distinct
    by_cases same : k = key
    · subst same
      by_cases hit : k = name
      · subst hit
        simpa [remove] using lookup_eq_none.2 distinct.1
      · simp [remove, lookup, hit]
    · by_cases hit : k = name
      · subst hit
        simp [remove, lookup, same, Ne.symm same]
      · simp [remove, lookup, same, hit, ih distinct.2]

@[simp] theorem find?_insert (m : OrderedMap α) (key name : String) (value : α) :
    (m.insert key value).find? name = if key = name then some value else m.find? name :=
  lookup_put

@[simp] theorem find?_erase (m : OrderedMap α) (key name : String) :
    (m.erase key).find? name = if key = name then none else m.find? name :=
  lookup_remove m.nodup

@[simp] theorem find?_empty (name : String) : (empty : OrderedMap α).find? name = none :=
  rfl

theorem find?_isSome (m : OrderedMap α) (name : String) : (m.find? name).isSome ↔ name ∈ m.keys :=
  lookup_isSome

theorem nodup_keys (m : OrderedMap α) : m.keys.Nodup :=
  m.nodup

theorem keys_put_of_mem {key : String} {value : α} {entries : List (String × α)}
    (there : key ∈ entries.map Prod.fst) :
    (put key value entries).map Prod.fst = entries.map Prod.fst := by
  induction entries with
  | nil => cases there
  | cons e rest ih =>
    obtain ⟨k, v⟩ := e
    by_cases same : k = key
    · simp [put, same]
    · have later : key ∈ rest.map Prod.fst := by simpa [Ne.symm same] using there
      simp only [put, same, if_false, List.map_cons, ih later]

theorem keys_put_of_not_mem {key : String} {value : α} {entries : List (String × α)}
    (missing : key ∉ entries.map Prod.fst) :
    (put key value entries).map Prod.fst = entries.map Prod.fst ++ [key] := by
  induction entries with
  | nil => rfl
  | cons e rest ih =>
    obtain ⟨k, v⟩ := e
    rw [List.map_cons, List.mem_cons, not_or] at missing
    simp only [put, Ne.symm missing.1, if_false, List.map_cons, ih missing.2, List.cons_append]

/-- A name that is there keeps its place, and a new one comes last. -/
theorem keys_insert (m : OrderedMap α) (key : String) (value : α) :
    (m.insert key value).keys = if key ∈ m.keys then m.keys else m.keys ++ [key] := by
  by_cases there : key ∈ m.keys
  · rw [if_pos there]; exact keys_put_of_mem there
  · rw [if_neg there]; exact keys_put_of_not_mem there

/-- The other names keep their order when one is removed. -/
theorem keys_erase (m : OrderedMap α) (key : String) : (m.erase key).keys = m.keys.erase key := by
  have keys_remove : ∀ entries : List (String × α),
      (remove key entries).map Prod.fst = (entries.map Prod.fst).erase key := by
    intro entries
    induction entries with
    | nil => rfl
    | cons e rest ih =>
      obtain ⟨k, v⟩ := e
      by_cases same : k = key
      · simp [remove, same]
      · simp [remove, same, ih]
  exact keys_remove m.entries

end OrderedMap
end ScriptEngine
