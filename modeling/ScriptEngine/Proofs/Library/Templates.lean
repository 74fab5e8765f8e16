import ScriptEngine.Library.Strings
import ScriptEngine.Proofs.Evaluation.Outcome
import ScriptEngine.Proofs.Text.Alignment

/-!
Replacement by a template. The template is read from left to right: a dollar sign and the character behind it may be a
mention of what was found or of what stands around it, and every other character stands for itself. The places are
those of code units, but no character is torn apart on the way, so what becomes of a string is said in characters.
-/

namespace ScriptEngine

open Text

namespace Text

/-! ## Templates by their characters -/

/-- What makes a mention together with the dollar sign in front of it: the dollar sign itself, the ampersand, the grave
accent and the apostrophe. -/
def mentionMarks : List Char := ['$', '&', '\x60', '\x27']

/-- What a template stands for, read from left to right. -/
inductive Fills (before found after : List Char) : List Char → List Char → Prop where
  | nothing : Fills before found after [] []
  | dollar {rest out : List Char} (fills : Fills before found after rest out) :
      Fills before found after ('$' :: '$' :: rest) ('$' :: out)
  | found {rest out : List Char} (fills : Fills before found after rest out) :
      Fills before found after ('$' :: '&' :: rest) (found ++ out)
  | before {rest out : List Char} (fills : Fills before found after rest out) :
      Fills before found after ('$' :: '\x60' :: rest) (before ++ out)
  | after {rest out : List Char} (fills : Fills before found after rest out) :
      Fills before found after ('$' :: '\x27' :: rest) (after ++ out)
  | kept {c : Char} {rest out : List Char} (plain : c = '$' → ∀ mark ∈ rest.head?, mark ∉ mentionMarks)
      (fills : Fills before found after rest out) : Fills before found after (c :: rest) (c :: out)

/-- A text with each dollar sign written twice. -/
def doubled (text : String) : String :=
  String.ofList (text.toList.flatMap fun c => if c = '$' then ['$', '$'] else [c])

variable {before found after template out : List Char} {c mark : Char} {u : UInt16} {us : List UInt16} {m : Match}

/-- Every template stands for something. -/
theorem exists_fills (before found after template : List Char) : ∃ out, Fills before found after template out := by
  suffices both : (∃ out, Fills before found after template out) ∧
      ∀ c, ∃ out, Fills before found after (c :: template) out from both.1
  induction template with
  | nil => exact ⟨⟨[], .nothing⟩, fun c => ⟨[c], .kept (by simp) .nothing⟩⟩
  | cons d rest ih =>
    obtain ⟨⟨out, fills⟩, further⟩ := ih
    refine ⟨further d, fun c => ?_⟩
    by_cases mention : c = '$' ∧ d ∈ mentionMarks
    · obtain ⟨rfl, marks⟩ := mention
      simp only [mentionMarks, List.mem_cons, List.not_mem_nil, or_false] at marks
      rcases marks with rfl | rfl | rfl | rfl
      · exact ⟨_, .dollar fills⟩
      · exact ⟨_, .found fills⟩
      · exact ⟨_, .before fills⟩
      · exact ⟨_, .after fills⟩
    · obtain ⟨out, fills⟩ := further d
      refine ⟨_, .kept (fun sign mark here marks => mention ⟨sign, ?_⟩) fills⟩
      cases here
      exact marks

theorem fills_doubled (before found after : List Char) (text : String) :
    Fills before found after (doubled text).toList text.toList := by
  rw [doubled, String.toList_ofList]
  induction text.toList with
  | nil => exact .nothing
  | cons c rest ih =>
    rw [List.flatMap_cons]
    by_cases sign : c = '$'
    · subst sign
      exact .dollar ih
    · rw [if_neg sign]
      exact .kept (fun same => absurd same sign) ih

/-! ## Templates by their units -/

/-- A character is known by its first unit, if this is one of its own. -/
theorem eq_of_begins (begins : encodeChar c = u :: us) (alone : encodeChar mark = [u]) : c = mark := by
  rcases encode_char_cases c with ⟨v, same, -, -⟩ | ⟨v, w, same, high, -⟩
  · rw [same] at begins
    exact encode_char_inj.1 (by rw [same, alone, List.head_eq_of_cons_eq begins])
  · rw [same] at begins
    rw [List.head_eq_of_cons_eq begins] at high
    rcases encode_char_cases mark with ⟨x, other, plain, -⟩ | ⟨x, y, other, -, -⟩
    · rw [alone] at other
      rw [List.head_eq_of_cons_eq other, plain] at high
      cases high
    · rw [alone] at other
      cases other

/-- What is no dollar sign has no unit that is one. -/
theorem ne_dollar_of_mem (other : c ≠ '$') (mem : u ∈ encodeChar c) : u ≠ dollar := by
  rintro rfl
  rcases encode_char_cases c with ⟨v, same, -, -⟩ | ⟨v, w, same, high, low⟩
  · rw [same, List.mem_singleton] at mem
    subst mem
    exact other (eq_of_begins same rfl)
  · rw [same, List.mem_cons, List.mem_singleton] at mem
    rcases mem with rfl | rfl
    · cases high
    · cases low

theorem Match.expand_plain (other : u ≠ dollar) (us : List UInt16) : m.expand (u :: us) = u :: m.expand us := by
  cases us with
  | nil => rfl
  | cons v rest => rw [expand, if_neg (mt beq_iff_eq.1 other)]

theorem Match.expand_append {front : List UInt16} (others : ∀ u ∈ front, u ≠ dollar) (us : List UInt16) :
    m.expand (front ++ us) = front ++ m.expand us := by
  induction front with
  | nil => rfl
  | cons u front ih =>
    obtain ⟨first, rest⟩ := List.forall_mem_cons.1 others
    rw [List.cons_append, expand_plain first, ih rest, List.cons_append]

/-- Behind a dollar sign only a mark is not kept. -/
theorem Match.expand_mention_other (begins : encodeChar c = u :: us) (other : c ∉ mentionMarks) :
    m.expandMention u = [dollar, u] := by
  have differs (mark : Char) (v : UInt16) (marks : mark ∈ mentionMarks) (alone : encodeChar mark = [v]) :
      ¬ (u == v) = true := by
    intro same
    rw [beq_iff_eq.1 same] at begins
    exact other (eq_of_begins begins alone ▸ marks)
  rw [expandMention, if_neg (differs '$' dollar (by decide) rfl), if_neg (differs '&' 0x26 (by decide) rfl),
    if_neg (differs '\x60' 0x60 (by decide) rfl), if_neg (differs '\x27' 0x27 (by decide) rfl)]

/-- The units of a template are replaced by those of what it stands for. -/
theorem expand_encode (fills : Fills before found after template out) :
    (⟨encode before, encode found, encode after⟩ : Match).expand (encode template) = encode out := by
  induction fills with
  | nothing => rfl
  | dollar _ ih => exact congrArg (dollar :: ·) ih
  | found _ ih =>
    rw [encode_append, ← ih]
    rfl
  | before _ ih =>
    rw [encode_append, ← ih]
    rfl
  | after _ ih =>
    rw [encode_append, ← ih]
    rfl
  | @kept c rest out plain _ ih =>
    by_cases sign : c = '$'
    · subst sign
      cases rest with
      | nil => exact congrArg (dollar :: ·) ih
      | cons d rest =>
        obtain ⟨v, us, begins, -⟩ := encode_char_begins d
        have other : d ∉ mentionMarks := plain rfl d rfl
        have ordinary : v ≠ dollar := by
          rintro rfl
          have sign : d = '$' := eq_of_begins begins rfl
          exact other (sign ▸ by decide)
        rw [encode_cons d, begins, List.cons_append, Match.expand_plain ordinary] at ih
        have step : encode ('$' :: d :: rest) = dollar :: v :: (us ++ encode rest) := by
          rw [encode_cons, encode_cons, begins]
          rfl
        rw [step, Match.expand, if_pos (beq_self_eq_true _), Match.expand_mention_other begins other, encode_cons, ← ih]
        rfl
    · rw [encode_cons, Match.expand_append fun u => ne_dollar_of_mem sign, ih, encode_cons]

/-- A template stands for one text only. -/
theorem Fills.unique {other : List Char} (fills : Fills before found after template out)
    (fills' : Fills before found after template other) : other = out :=
  encode_inj.1 ((expand_encode fills').symm.trans (expand_encode fills))

end Text

/-! ## Replacement -/

section

variable (engine : Engine) (m : Machine) (s search template : String)

/-- Strings are taken as they are, so that only the scan decides. -/
theorem run_replace :
    m.run (Library.replace engine (.string s) [.string search, .string template]) =
      (.ok (.string (match findFrom? (units search) (units s) 0 with
        | none => s
        | some place =>
          let found : Match := ⟨(units s).take place, units search, (units s).drop (place + (units search).length)⟩
          ofUnits (found.before ++ found.expand (units template) ++ found.after))), m) := by
  have runs : m.run (Library.replace engine (.string s) [.string search, .string template]) =
      m.run (match findFrom? (units search) (units s) 0 with
        | none => return .string s
        | some place => do
          let found : Match := ⟨(units s).take place, units search, (units s).drop (place + (units search).length)⟩
          let inserted ← Library.replacementUnits engine s search found (.byTemplate template)
          return .string (ofUnits (found.before ++ inserted ++ found.after))) := rfl
  rw [runs]
  cases findFrom? (units search) (units s) 0 <;> rfl

variable {s search template} {before after out : String}

theorem run_replace_missing (none : {i | Occurs (units search) (units s) i} = ∅) :
    m.run (Library.replace engine (.string s) [.string search, .string template]) = (.ok (.string s), m) := by
  rw [run_replace, (find_first ..).eq_none_iff.2 none]

/-- The first occurrence is replaced by what the template stands for. -/
theorem run_replace_found
    (first : IsLeast {i | Occurs (units search) (units (before ++ search ++ after)) i} (units before).length)
    (fills : Fills before.toList search.toList after.toList template.toList out.toList) :
    m.run (Library.replace engine (.string (before ++ search ++ after)) [.string search, .string template]) =
      (.ok (.string (before ++ out ++ after)), m) := by
  have parts : units (before ++ search ++ after) = units before ++ (units search ++ units after) := by
    rw [units_append, units_append, List.append_assoc]
  have front : (units (before ++ search ++ after)).take (units before).length = units before := by
    rw [parts, List.take_left]
  have back : (units (before ++ search ++ after)).drop ((units before).length + (units search).length) =
      units after := by
    rw [parts, ← List.drop_drop, List.drop_left, List.drop_left]
  rw [run_replace, (find_first ..).eq_some first]
  dsimp only
  rw [front, back]
  have filled : (⟨units before, units search, units after⟩ : Match).expand (units template) = units out :=
    expand_encode fills
  rw [filled, ← units_append, ← units_append, ofUnits_units]

end

/-- The first occurrence of a string is replaced by what a template stands for, and nothing else is changed. A text
whose dollar signs are all written twice is inserted as it is, and the mention of what was found changes nothing. -/
theorem templates_fill_first_occurrence (engine : Engine) (m : Machine) (s search : String) :
    ({i | Occurs (units search) (units s) i} = ∅ → ∀ template,
      m.run (Library.replace engine (.string s) [.string search, .string template]) = (.ok (.string s), m)) ∧
    (∀ place, IsLeast {i | Occurs (units search) (units s) i} place → ∃ before after,
      s = before ++ search ++ after ∧ (units before).length = place ∧
        (∀ template : String, ∃ out : String,
          Fills before.toList search.toList after.toList template.toList out.toList ∧
          (∀ other, Fills before.toList search.toList after.toList template.toList other → other = out.toList) ∧
          m.run (Library.replace engine (.string s) [.string search, .string template]) =
            (.ok (.string (before ++ out ++ after)), m)) ∧
        ∀ text, m.run (Library.replace engine (.string s) [.string search, .string (doubled text)]) =
          (.ok (.string (before ++ text ++ after)), m)) ∧
    m.run (Library.replace engine (.string s) [.string search, .string "$&"]) = (.ok (.string s), m) := by
  refine ⟨fun none template => run_replace_missing engine m none, fun place least => ?_, ?_⟩
  · obtain ⟨before, after, rfl, rfl⟩ := exists_of_first_place least
    refine ⟨before, after, rfl, rfl, fun template => ?_, fun text => ?_⟩
    · obtain ⟨out, fills⟩ := exists_fills before.toList search.toList after.toList template.toList
      rw [← String.toList_ofList (l := out)] at fills
      exact ⟨String.ofList out, fills, fun _ => fills.unique, run_replace_found engine m least fills⟩
    · exact run_replace_found engine m least (fills_doubled _ _ _ text)
  · cases found : findFrom? (units search) (units s) 0 with
    | none => exact run_replace_missing engine m ((find_first ..).eq_none_iff.1 found)
    | some place =>
      have least : FirstOf {i | Occurs (units search) (units s) i} (some place) := found ▸ find_first ..
      obtain ⟨before, after, rfl, rfl⟩ := exists_of_first_place least
      refine run_replace_found engine m least ?_
      have mention : Fills before.toList search.toList after.toList ['$', '&'] (search.toList ++ []) := .found .nothing
      rwa [List.append_nil] at mention

end ScriptEngine
