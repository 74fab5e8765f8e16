import ScriptEngine.Library.Strings
import ScriptEngine.Proofs.Library.ArrayEnds
import ScriptEngine.Proofs.Text.Alignment

/-!
Splitting a string and joining its parts. The parts end where the separator occurs first behind the part before, so none
of them contains it, and with the separator between them they are the string again. Since no occurrence of a string
begins or ends between the halves of a surrogate pair, the parts are whole strings, too. An empty separator divides the
string into its code units, which are strings as long as there is no such pair.
-/

namespace ScriptEngine

open Text

namespace Text

variable {separator part rest subject : List UInt16} {parts : List (List UInt16)} {u : UInt16}

/-! ## Parts of units -/

/-- The parts of a list between the occurrences of a separator, each of which is the first one in what is left. -/
inductive LeftmostParts (separator : List UInt16) : List UInt16 → List (List UInt16) → Prop where
  | last {rest : List UInt16} (none : {i | Occurs separator rest i} = ∅) : LeftmostParts separator rest [rest]
  | next {part rest : List UInt16} {parts : List (List UInt16)}
      (first : IsLeast {i | Occurs separator (part ++ separator ++ rest) i} part.length)
      (later : LeftmostParts separator rest parts) : LeftmostParts separator (part ++ separator ++ rest) (part :: parts)

theorem LeftmostParts.inversion (divides : LeftmostParts separator subject parts) :
    {i | Occurs separator subject i} = ∅ ∧ parts = [subject] ∨
    ∃ part rest later, subject = part ++ separator ++ rest ∧ IsLeast {i | Occurs separator subject i} part.length ∧
      parts = part :: later ∧ LeftmostParts separator rest later := by
  cases divides with
  | last none => exact .inl ⟨none, rfl⟩
  | next first later => exact .inr ⟨_, _, _, rfl, first, rfl, later⟩

/-- There is one way only to divide a list. -/
theorem LeftmostParts.unique {other : List (List UInt16)} (divides : LeftmostParts separator subject parts)
    (again : LeftmostParts separator subject other) : other = parts := by
  induction divides generalizing other with
  | last none =>
    rcases again.inversion with ⟨-, rfl⟩ | ⟨part, rest, later, -, first, -, -⟩
    · rfl
    · exact absurd (none ▸ first.1) (Set.notMem_empty _)
  | next first _ ih =>
    rcases again.inversion with ⟨none, -⟩ | ⟨part, rest, later, same, first', rfl, divides⟩
    · exact absurd (none ▸ first.1) (Set.notMem_empty _)
    · rw [List.append_assoc, List.append_assoc] at same
      obtain ⟨rfl, behind⟩ := List.append_inj same (first.unique first')
      obtain rfl := List.append_cancel_left behind
      rw [ih divides]

theorem LeftmostParts.ne_nil (divides : LeftmostParts separator subject parts) : parts ≠ [] := by
  cases divides <;> exact List.cons_ne_nil _ _

/-- With the separator between them the parts are what was divided. -/
theorem LeftmostParts.intercalate (divides : LeftmostParts separator subject parts) :
    separator.intercalate parts = subject := by
  induction divides with
  | last => exact List.intercalate_singleton
  | next _ later ih => rw [List.intercalate_cons_of_ne_nil later.ne_nil, ih]

theorem Occurs.append {needle haystack : List UInt16} {place : Nat} (occurs : Occurs needle haystack place)
    (more : List UInt16) : Occurs needle (haystack ++ more) place := by
  obtain ⟨before, after, rfl, rfl⟩ := occurs
  exact ⟨before, after ++ more, by rw [List.append_assoc, List.append_assoc, List.append_assoc], rfl⟩

/-- No part contains the separator. -/
theorem LeftmostParts.free (some : separator ≠ []) (divides : LeftmostParts separator subject parts) :
    ∀ part ∈ parts, ∀ i, ¬ Occurs separator part i := by
  induction divides with
  | last none =>
    intro part mem i occurs
    rw [List.mem_singleton.1 mem] at occurs
    exact absurd (none ▸ occurs : i ∈ (∅ : Set Nat)) (Set.notMem_empty i)
  | @next before rest _ first _ ih =>
    intro part mem i occurs
    rcases List.mem_cons.1 mem with rfl | later
    · have inside := occurs.inside
      have least : part.length ≤ i := first.2 (List.append_assoc part separator rest ▸ occurs.append _)
      have positive := List.length_pos_iff.2 some
      omega
    · exact ih part later i occurs

theorem occurs_at_iff {needle before after : List UInt16} {place : Nat} (here : before.length = place) :
    Occurs needle (before ++ after) place ↔ needle <+: after := by
  rw [occurs_iff_drop, ← here, List.drop_left]
  exact and_iff_right (by simp)

/-- The scan divides what is left behind the units to be skipped, as long as no separator begins in what it has
passed. -/
theorem split_after_leftmost (some : separator ≠ []) (part : List UInt16) (skip : Nat) (rest : List UInt16)
    (free : ∀ i < part.length, ¬ Occurs separator (part.reverse ++ rest.drop skip) i) :
    LeftmostParts separator (part.reverse ++ rest.drop skip) (splitAfter separator part skip rest) := by
  have positive := List.length_pos_iff.2 some
  induction rest generalizing part skip with
  | nil =>
    rw [List.drop_nil, List.append_nil] at free ⊢
    refine .last (Set.eq_empty_of_forall_notMem fun i occurs => ?_)
    have inside : i + separator.length ≤ part.reverse.length := occurs.inside
    rw [List.length_reverse] at inside
    exact free i (by omega) occurs
  | cons u rest ih =>
    cases skip with
    | succ skip => exact ih part skip free
    | zero =>
      rw [splitAfter]
      split
      · next begins =>
        -- The separator is passed, and the next part begins behind it.
        obtain ⟨tail, same⟩ := List.isPrefixOf_iff_prefix.1 begins
        have behind : rest.drop (separator.length - 1) = tail := by
          cases separator with
          | nil => exact absurd rfl some
          | cons v separator =>
            cases same
            exact List.drop_left
        have later := ih [] (separator.length - 1) fun i none => absurd none (Nat.not_lt_zero i)
        rw [behind] at later
        rw [List.drop_zero, ← same] at free ⊢
        have here : Occurs separator (part.reverse ++ (separator ++ tail)) part.length :=
          (occurs_at_iff (List.length_reverse ..)).2 (List.prefix_append separator tail)
        rw [← List.append_assoc] at free here ⊢
        refine .next ⟨?_, fun i occurs => ?_⟩ later
        · rwa [List.length_reverse]
        · rw [List.length_reverse]
          exact Nat.le_of_not_lt fun less => free i less occurs
      · next other =>
        have longer : part.reverse ++ u :: rest = (u :: part).reverse ++ rest := by simp
        rw [List.drop_zero] at free ⊢
        have here : ¬ Occurs separator (part.reverse ++ u :: rest) part.length := by
          rw [occurs_at_iff (List.length_reverse ..)]
          exact mt List.isPrefixOf_iff_prefix.2 other
        rw [longer] at free here ⊢
        refine ih (u :: part) 0 fun i less => ?_
        rcases Nat.lt_or_eq_of_le (Nat.le_of_lt_succ less) with before | rfl
        · exact free i before
        · exact here

/-- A separator that is not empty divides a list at its leftmost occurrences. -/
theorem split_units_leftmost (some : separator ≠ []) (subject : List UInt16) :
    LeftmostParts separator subject (splitUnits separator subject) := by
  have divides := split_after_leftmost some [] 0 subject fun i none => absurd none (Nat.not_lt_zero i)
  rw [splitUnits]
  · exact divides
  · exact some

/-! ## Parts of strings -/

theorem units_intercalate (separator : String) (parts : List String) :
    units (separator.intercalate parts) = (units separator).intercalate (parts.map units) := by
  induction parts with
  | nil => rfl
  | cons part rest ih =>
    cases rest with
    | nil => rw [String.intercalate_singleton, List.map_cons, List.map_nil, List.intercalate_singleton]
    | cons next rest =>
      rw [String.intercalate_cons_cons, units_append, units_append, ih]
      exact List.intercalate_cons_cons.symm

variable {s sep : String}

theorem units_ne_nil (some : sep ≠ "") : units sep ≠ [] :=
  fun none => some (units_inj.1 none)

/-- A string is divided into strings at the occurrences of another one. -/
theorem LeftmostParts.strings (some : sep ≠ "") (divides : LeftmostParts (units sep) (units s) parts) :
    ∃ texts : List String, parts = texts.map units := by
  generalize whole : units s = subject at divides
  induction divides generalizing s with
  | last => exact ⟨[s], by rw [← whole]; rfl⟩
  | next _ _ ih =>
    obtain ⟨front, back, -, rfl, rfl⟩ := exists_of_encode_infix (mt String.toList_eq_nil_iff.1 some) whole.symm
    have part (text : List Char) : units (String.ofList text) = encode text := by rw [units, String.toList_ofList]
    obtain ⟨texts, rfl⟩ := ih (part back)
    exact ⟨String.ofList front :: texts, by rw [List.map_cons, part]⟩

/-- A string that is not empty divides another one at its leftmost occurrences. -/
theorem parts_of_leftmost (some : sep ≠ "") (s : String) :
    LeftmostParts (units sep) (units s) ((Library.partsOf s sep).map units) := by
  have divides := split_units_leftmost (units_ne_nil some) (units s)
  obtain ⟨texts, same⟩ := divides.strings some
  have back : ofUnits ∘ units = id := funext ofUnits_units
  have parts : Library.partsOf s sep = texts := by rw [Library.partsOf, same, List.map_map, back, List.map_id]
  rwa [parts, ← same]

/-- Where there are no surrogate pairs each unit is a string of its own. -/
theorem units_of_unit (plain : ∀ u ∈ units s, isHighSurrogate u = false) (mem : u ∈ units s) :
    units (ofUnits [u]) = [u] := by
  obtain ⟨c, inText, inChar⟩ := List.mem_flatMap.1 mem
  rcases encode_char_cases c with ⟨v, same, -, -⟩ | ⟨v, w, same, high, -⟩
  · rw [same, List.mem_singleton] at inChar
    subst inChar
    have alone : units (String.ofList [c]) = [u] := by
      rw [units, String.toList_ofList, encode_cons, encode_nil, List.append_nil, same]
    rw [← alone, ofUnits_units]
  · have first : v ∈ units s := by
      refine List.mem_flatMap.2 ⟨c, inText, ?_⟩
      rw [same]
      exact List.mem_cons_self
    rw [plain v first] at high
    cases high

/-- The empty string divides such a string into its units. -/
theorem parts_of_units (plain : ∀ u ∈ units s, isHighSurrogate u = false) :
    (Library.partsOf s "").map units = (units s).map ([·]) := by
  have parts : Library.partsOf s "" = (units s).map fun u => ofUnits [u] := List.map_map
  rw [parts, List.map_map]
  exact List.map_congr_left fun u mem => units_of_unit plain mem

theorem intercalate_units (us : List UInt16) : List.intercalate [] (us.map ([·])) = us := by
  induction us with
  | nil => rfl
  | cons u rest ih =>
    cases rest with
    | nil => rfl
    | cons v rest =>
      rw [List.map_cons, List.map_cons, List.intercalate_cons_cons]
      exact congrArg (u :: ·) ih

/-- The string is got back from its parts: always if the separator is not empty, else if there are no surrogate
pairs. -/
theorem parts_rejoin (s sep : String) (divided : sep ≠ "" ∨ ∀ u ∈ units s, isHighSurrogate u = false) :
    sep.intercalate (Library.partsOf s sep) = s := by
  rw [← units_inj, units_intercalate]
  by_cases empty : sep = ""
  · subst empty
    rw [parts_of_units (divided.resolve_left fun some => some rfl)]
    exact intercalate_units (units s)
  · exact (parts_of_leftmost empty s).intercalate

end Text

/-! ## Arrays of strings -/

theorem OrderedMap.lookup_of_mem {α : Type} {key : String} {value : α} {entries : List (String × α)}
    (distinct : (entries.map Prod.fst).Nodup) (mem : (key, value) ∈ entries) : lookup key entries = some value := by
  induction entries with
  | nil => cases mem
  | cons entry rest ih =>
    obtain ⟨k, v⟩ := entry
    rw [List.map_cons, List.nodup_cons] at distinct
    rcases List.mem_cons.1 mem with same | later
    · cases same
      exact if_pos rfl
    · have other : k ≠ key := by
        rintro rfl
        exact distinct.1 (List.mem_map.2 ⟨_, later, rfl⟩)
      exact (if_neg other).trans (ih distinct.2 later)

section

variable {engine : Engine} {m : Machine} {id : ObjectId} {proto : ObjectId} {texts : List String} {sep text : String}

theorem run_get_data {key : String} {v : Value} {attributes : Attributes}
    (held : (key, .data v attributes) ∈ (m.heap.get id).properties.entries) :
    m.run (getProperty engine id key) = (.ok v, m) :=
  Machine.run_get_own engine
    (Object.get_own_of_find (OrderedMap.lookup_of_mem (m.heap.get id).properties.nodup held)) rfl

/-- An array holds its length and its elements. -/
theorem run_text_count (array : m.heap.get id = .ofElements proto (texts.map .string))
    (few : texts.length ≤ Object.maxWord) : m.run (Library.lengthOf engine id) = (.ok texts.length, m) := by
  have held : (Object.lengthKey, .data (.ofNat texts.length) Object.arrayLengthAttributes) ∈
      (m.heap.get id).properties.entries := by
    have count : (texts.map Value.string).length = texts.length := List.length_map _
    rw [array, ← count]
    exact List.mem_cons_self
  exact Machine.run_length_of engine (OrderedMap.lookup_of_mem (m.heap.get id).properties.nodup held) few

theorem run_get_element (array : m.heap.get id = .ofElements proto (texts.map .string)) {i : Nat}
    (there : texts[i]? = some text) : m.run (getProperty engine id (indexKey i)) = (.ok (.string text), m) := by
  have numbered : (Value.string text, i) ∈ (texts.map Value.string).zipIdx := by
    rw [List.mk_mem_zipIdx_iff_getElem?, List.getElem?_map, there]
    rfl
  have held : (indexKey i, .data (.string text) .all) ∈ (m.heap.get id).properties.entries := by
    rw [array]
    exact List.mem_cons_of_mem _ (List.mem_map.2 ⟨_, numbered, rfl⟩)
  exact run_get_data held

theorem intercalate_eq_foldl (sep text : String) (rest : List String) :
    sep.intercalate (text :: rest) = rest.foldl (fun text part => text ++ sep ++ part) text := by
  induction rest generalizing text with
  | nil => exact String.intercalate_singleton
  | cons part rest ih =>
    rw [String.intercalate_cons_cons, List.foldl_cons, ← ih, String.intercalate_cons_append]

/-- One element is put behind the text. -/
theorem run_join_step (array : m.heap.get id = .ofElements proto (texts.map .string)) {i : Nat} {part : String}
    (there : texts[i]? = some part) (count : Nat) :
    m.run (Library.joinElements engine id sep i text (count + 1)) =
      m.run (Library.joinElements engine id sep (i + 1) ((if i == 0 then text else text ++ sep) ++ part) count) := by
  rw [Library.joinElements, Machine.run_bind_ok (run_get_element array there)]
  rfl

/-- The elements behind the first one are put behind the text, each after the separator. -/
theorem run_join_elements (array : m.heap.get id = .ofElements proto (texts.map .string)) (i : Nat) (text : String)
    (rest : List String) (left : texts.drop (i + 1) = rest) :
    m.run (Library.joinElements engine id sep (i + 1) text rest.length) =
      (.ok (rest.foldl (fun text part => text ++ sep ++ part) text), m) := by
  induction rest generalizing i text with
  | nil => rfl
  | cons part rest ih =>
    have there : texts[i + 1]? = some part := by
      rw [← List.head?_drop, left]
      rfl
    have behind : texts.drop (i + 1 + 1) = rest := by
      rw [← List.tail_drop, left]
      rfl
    rw [List.length_cons, run_join_step array there]
    exact ih (i + 1) (text ++ sep ++ part) behind

theorem run_join (array : m.heap.get id = .ofElements proto (texts.map .string))
    (few : texts.length ≤ Object.maxWord) :
    m.run (Library.join engine (.object id) [.string sep]) = (.ok (.string (sep.intercalate texts)), m) := by
  have joined : m.run (Library.joinElements engine id sep 0 "" texts.length) = (.ok (sep.intercalate texts), m) := by
    cases texts with
    | nil => rfl
    | cons first rest =>
      rw [List.length_cons, run_join_step array rfl, intercalate_eq_foldl]
      have begun : (if (0 : Nat) == 0 then "" else "" ++ sep) ++ first = first := String.empty_append
      rw [begun]
      exact run_join_elements array 0 first rest rfl
  have given : m.run (toText engine (.string sep)) = (.ok sep, m) := rfl
  have taken : m.run (toObject (.object id)) = (.ok id, m) := rfl
  unfold Library.join
  rw [Machine.run_bind_ok taken, Machine.run_bind_ok (run_text_count array few)]
  refine (Machine.run_bind_ok given _).trans ?_
  rw [Machine.run_bind_ok joined]
  rfl

/-- A new array of strings is joined to all of them with the separator between them. -/
theorem run_text_array_join (engine : Engine) (m : Machine) (sep : String) (few : texts.length ≤ Object.maxWord) :
    ∃ after, m.run (Library.textArray texts >>= fun array => Library.join engine array [.string sep]) =
      (.ok (.string (sep.intercalate texts)), after) := by
  let array := Object.ofElements m.realm.intrinsics.arrayPrototype (texts.map .string)
  have made : m.run (Library.textArray texts) =
    (.ok (.object (m.heap.add array).1), { m with heap := (m.heap.add array).2 }) := rfl
  rw [Machine.run_bind_ok made]
  exact ⟨_, run_join (Heap.get_add_self ..) few⟩

end

/-! ## Splitting -/

section

variable (engine : Engine) (m : Machine) (s sep : String)

theorem run_split :
    m.run (Library.split engine (.string s) [.string sep]) =
      m.run (Library.textArray ((Library.partsOf s sep).take Object.maxWord)) :=
  rfl

/-- A number of parts that is given is taken as an unsigned word. -/
theorem run_split_limited {limit : Value} (given : limit ≠ .undefined) :
    m.run (Library.split engine (.string s) [.string sep, limit]) =
      m.run (toUint32 engine limit >>= fun most =>
        Library.textArray (((Library.partsOf s sep).take Object.maxWord).take most.toNat)) := by
  have fewer (most : UInt32) : ((Library.partsOf s sep).take Object.maxWord).take most.toNat =
      (Library.partsOf s sep).take most.toNat := by
    rw [List.take_take, Nat.min_eq_left]
    exact Nat.le_of_lt_succ most.toNat_lt
  have taken : m.run (Library.thisText engine (.string s)) = (.ok s, m) := rfl
  simp only [fewer]
  refine (Machine.run_bind_ok taken _).trans ?_
  cases limit with
  | undefined => exact absurd rfl given
  | _ => exact congrArg m.run (bind_congr fun _ => rfl)

/-- A string is split at the leftmost occurrences of a separator, one behind the other, into parts that do not contain
it, and joining them with it gives the string back. Without a surrogate pair in the string this holds for the empty
separator, too, which parts all units. A number of parts that is given keeps the first ones. An array has room for fewer
than `2 ^ 32` elements, so that more parts are left out. -/
theorem splitting_parts_and_joining_restores :
    ∃ parts : List String,
      (sep ≠ "" → LeftmostParts (units sep) (units s) (parts.map units) ∧
        (∀ other, LeftmostParts (units sep) (units s) other → other = parts.map units) ∧
        ∀ part ∈ parts, ∀ i, ¬ Occurs (units sep) (units part) i) ∧
      (sep = "" → (∀ u ∈ units s, isHighSurrogate u = false) → parts.map units = (units s).map ([·])) ∧
      m.run (Library.split engine (.string s) [.string sep]) =
        m.run (Library.textArray (parts.take Object.maxWord)) ∧
      (∀ limit, limit ≠ .undefined → m.run (Library.split engine (.string s) [.string sep, limit]) =
        m.run (toUint32 engine limit >>= fun most =>
          Library.textArray ((parts.take Object.maxWord).take most.toNat))) ∧
      (sep ≠ "" ∨ (∀ u ∈ units s, isHighSurrogate u = false) →
        sep.intercalate parts = s ∧
        (parts.length ≤ Object.maxWord → ∃ after,
          m.run (Library.split engine (.string s) [.string sep] >>= fun array =>
            Library.join engine array [.string sep]) = (.ok (.string s), after))) := by
  refine ⟨Library.partsOf s sep, fun some => ?_, ?_, run_split engine m s sep,
    fun limit => run_split_limited engine m s sep, fun divided => ?_⟩
  · have divides := parts_of_leftmost some s
    refine ⟨divides, fun other => divides.unique, fun part mem => ?_⟩
    exact divides.free (units_ne_nil some) (units part) (List.mem_map_of_mem mem)
  · rintro rfl plain
    exact parts_of_units plain
  · have whole := parts_rejoin s sep divided
    refine ⟨whole, fun few => ?_⟩
    obtain ⟨after, ran⟩ := run_text_array_join engine m sep few
    rw [whole] at ran
    refine ⟨after, ?_⟩
    rw [Machine.run_bind, run_split, List.take_of_length_le few, ← Machine.run_bind]
    exact ran

end

end ScriptEngine
