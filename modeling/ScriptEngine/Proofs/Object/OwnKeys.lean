import ScriptEngine.Object.Elements

/-!
The names of an object's own properties: no name is listed twice, and every name under which there is a
property is listed, be it that of a code unit of a wrapped string.
-/

namespace ScriptEngine

/-! ## Numerals of indices -/

theorem digit_bounds {c : Char} (digit : c.isDigit) : 48 ≤ c.toNat ∧ c.toNat ≤ 57 := by
  rw [Char.isDigit, Bool.and_eq_true, decide_eq_true_eq, decide_eq_true_eq] at digit
  exact digit

theorem digit_char_of_digit {c : Char} (digit : c.isDigit) : (c.toNat - '0'.toNat).digitChar = c := by
  obtain ⟨low, high⟩ := digit_bounds digit
  have zero : '0'.toNat = 48 := rfl
  apply Char.toNat_inj.1
  rw [zero, Nat.toNat_digitChar_of_lt_ten (by omega)]
  omega

theorem digit_lt_ten {c : Char} (digit : c.isDigit) : c.toNat - '0'.toNat < 10 := by
  obtain ⟨low, high⟩ := digit_bounds digit
  change c.toNat - 48 < 10
  omega

/-- What follows the first digits of a number are its other digits. -/
theorem to_digits_of_array_index {value index : Nat} {digits : List Char}
    (read : arrayIndexAfter value digits = some index) (positive : 0 < value) :
    Nat.toDigits 10 value ++ digits = Nat.toDigits 10 index := by
  induction digits generalizing value with
  | nil =>
    obtain rfl : value = index := by simpa [arrayIndexAfter] using read
    rw [List.append_nil]
  | cons c rest ih =>
    simp only [arrayIndexAfter] at read
    split at read
    · rename_i digit
      have small := digit_lt_ten digit
      split at read
      · cases read
      · calc Nat.toDigits 10 value ++ c :: rest
            = (Nat.toDigits 10 value ++ Nat.toDigits 10 (c.toNat - '0'.toNat)) ++ rest := by
              rw [Nat.toDigits_of_lt_base small, digit_char_of_digit digit, List.append_assoc,
                List.singleton_append]
          _ = Nat.toDigits 10 (10 * value + (c.toNat - '0'.toNat)) ++ rest := by
              rw [Nat.toDigits_append_toDigits (by decide) positive small]
          _ = Nat.toDigits 10 index := ih read (by omega)
    · cases read

/-- A name that is an array index is the name of that index. -/
theorem index_key_of_array_index {key : String} {index : Nat} (isIndex : arrayIndex? key = some index) :
    indexKey index = key := by
  apply String.toList_injective
  rw [indexKey, Nat.toList_repr]
  unfold arrayIndex? at isIndex
  split at isIndex
  · cases isIndex
  · cases isIndex
  · rename_i nonempty leading
    cases chars : key.toList with
    | nil => exact absurd chars nonempty
    | cons c rest =>
      rw [chars] at isIndex
      simp only [arrayIndexAfter] at isIndex
      split at isIndex
      · rename_i digit
        split at isIndex
        · cases isIndex
        · rw [Nat.mul_zero, Nat.zero_add] at isIndex
          have first := Nat.toDigits_of_lt_base (digit_lt_ten digit)
          rw [digit_char_of_digit digit] at first
          by_cases zero : c.toNat - '0'.toNat = 0
          · -- A numeral that begins with zero is no longer than that.
            have isZero : c = '0' := by rw [← digit_char_of_digit digit, zero]; rfl
            cases rest with
            | nil =>
              obtain rfl : c.toNat - '0'.toNat = index := by simpa [arrayIndexAfter] using isIndex
              exact first
            | cons second others => exact absurd (isZero ▸ chars) (leading second others)
          · rw [← to_digits_of_array_index isIndex (Nat.pos_of_ne_zero zero), first, List.singleton_append]
      · cases isIndex

/-- The digits of a number that is small enough are read as that number. -/
theorem array_index_after_digits {n : Nat} (small : n < arrayIndexLimit) (rest : List Char) :
    arrayIndexAfter 0 (Nat.toDigits 10 n ++ rest) = arrayIndexAfter n rest := by
  have read (value digit : Nat) (single : digit < 10) (rest : List Char) (fits : 10 * value + digit < arrayIndexLimit) :
      arrayIndexAfter value (digit.digitChar :: rest) = arrayIndexAfter (10 * value + digit) rest := by
    have zero : '0'.toNat = 48 := rfl
    have isDigit : digit.digitChar.isDigit = true := by simp [Nat.isDigit_digitChar, single]
    rw [arrayIndexAfter, if_pos isDigit, zero, Nat.toNat_digitChar_sub_48_of_lt_ten single]
    exact if_neg (Nat.not_le.2 fits)
  induction n using Nat.strongRecOn generalizing rest with
  | ind n ih =>
    rcases Nat.lt_or_ge n 10 with single | more
    · rw [Nat.toDigits_of_lt_base single, List.singleton_append, read 0 n single rest (by omega)]
      simp
    · have whole : 10 * (n / 10) + n % 10 = n := Nat.div_add_mod n 10
      rw [Nat.toDigits_of_base_le (by decide) more, List.append_assoc, List.singleton_append,
        ih (n / 10) (by omega) (by omega), read _ _ (Nat.mod_lt n (by decide)) rest (by omega), whole]

/-- Only the numeral of zero begins with that digit. -/
theorem zero_of_leading {n : Nat} (leading : (Nat.toDigits 10 n).head? = some '0') : n = 0 := by
  induction n using Nat.strongRecOn with
  | ind n ih =>
    rcases Nat.lt_or_ge n 10 with single | more
    · simpa [Nat.toDigits_of_lt_base single] using leading
    · rw [Nat.toDigits_of_base_le (by decide) more, List.head?_append,
        List.head?_eq_some_head Nat.toDigits_ne_nil, Option.some_or, ← List.head?_eq_some_head] at leading
      have small := ih (n / 10) (by omega) leading
      omega

/-- The name of an index that an array can have is read as that index. -/
theorem array_index_of_index_key {n : Nat} (small : n < arrayIndexLimit) : arrayIndex? (indexKey n) = some n := by
  have digits : (indexKey n).toList = Nat.toDigits 10 n := by rw [indexKey, Nat.toList_repr]
  have read : arrayIndexAfter 0 (Nat.toDigits 10 n) = some n := by
    simpa [arrayIndexAfter] using array_index_after_digits small []
  unfold arrayIndex?
  rw [digits]
  split
  · rename_i empty
    exact absurd empty Nat.toDigits_ne_nil
  · rename_i second others zeroFirst
    have zero : n = 0 := zero_of_leading (by rw [zeroFirst, List.head?_cons])
    subst zero
    simp at zeroFirst
  · exact read

namespace Object

/-! ## Names of own properties -/

theorem nodup_unit_keys (o : Object) : o.unitKeys.Nodup := by
  unfold unitKeys
  split
  · exact List.Pairwise.map indexKey (fun _ _ distinct same => distinct (indexKey_inj.1 same)) List.nodup_range
  · exact List.nodup_nil

/-- No name is listed twice. -/
theorem nodup_own_keys (o : Object) : o.ownKeys.Nodup := by
  unfold ownKeys
  dsimp only
  split
  · exact o.properties.nodup_keys
  · apply List.nodup_append.2 ⟨o.nodup_unit_keys, o.properties.nodup_keys.filter _, ?_⟩
    rintro key unit other member rfl
    simp [unit] at member

theorem mem_own_keys_iff (o : Object) (key : String) :
    key ∈ o.ownKeys ↔ key ∈ o.unitKeys ∨ key ∈ o.properties.keys := by
  unfold ownKeys
  dsimp only
  split
  · rename_i empty
    simp [List.isEmpty_iff.1 empty]
  · by_cases unit : key ∈ o.unitKeys <;> simp [unit]

/-- Every name under which there is a property is listed. -/
theorem mem_own_keys {o : Object} {key : String} {p : Property} (own : o.getOwn? key = some p) :
    key ∈ o.ownKeys := by
  rw [mem_own_keys_iff]
  unfold getOwn? at own
  split at own
  · rename_i found
    right
    rw [← OrderedMap.find?_isSome, found]
    rfl
  · split at own
    · rename_i text kind
      left
      unfold unitProperty? at own
      obtain ⟨index, isIndex, unit⟩ := Option.bind_eq_some_iff.1 own
      obtain ⟨c, there, _⟩ := Option.bind_eq_some_iff.1 unit
      obtain ⟨bound, _⟩ := List.getElem?_eq_some_iff.1 there
      simp only [unitKeys, kind, List.mem_map, List.mem_range]
      exact ⟨index, bound, index_key_of_array_index isIndex⟩
    · cases own

end Object
end ScriptEngine
