import Mathlib.Data.List.Induction
import ScriptEngine.Proofs.Reading.StatementSteps
import ScriptEngine.Syntax.Program

/-!
Every script is read or refused for a fault of its own. The levels of nesting last for any list of tokens, so that
no reader breaks, and a fault is reported for a part of the script whose line and column can be told.
-/

namespace ScriptEngine

namespace Grammar

open Scanning

theorem levels_rules_for (levels : Nat) : (rulesFor levels).levels = levels := by
  cases levels <;> rfl

namespace Script

variable {script : Script}

/-- The rules for any number of levels work where few enough tokens are left. -/
theorem steady_rules (levels : Nat) : script.Steady (rulesFor levels) := by
  induction levels with
  | zero =>
    have nowhere {α : Type} {depths : List (Nat × Nat)} {i : Nat} {read : Reader α} {goal : α → Nat → Prop}
        (room : 2 * script.size ≤ 0 + 2 * i) : script.Steps depths i read goal :=
      .of_at fun s here => absurd here.inside (by omega)
    exact {
      assignment := fun _ _ _ room => nowhere room
      binary := fun _ _ _ _ room => nowhere room
      unary := fun _ _ room => nowhere room
      newExpression := fun _ _ room _ => nowhere room
      statement := fun _ _ room => nowhere (Nat.le_of_succ_le room)
      item := fun _ _ room => nowhere (Nat.le_of_succ_le room) }
  | succ levels ih =>
    have fewer {i : Nat} (room : 2 * script.size ≤ levels + 1 + 2 * i) :
        2 * script.size ≤ (rulesFor levels).levels + 2 * i + 1 := by
      rw [levels_rules_for]
      omega
    have less {i : Nat} (room : 2 * script.size + 1 ≤ levels + 1 + 2 * i) :
        2 * script.size ≤ (rulesFor levels).levels + 2 * i := by
      rw [levels_rules_for]
      omega
    exact {
      assignment := fun _ _ noIn room => takes_assignment ih noIn (fewer room)
      binary := fun _ _ precedence noIn room => takes_binary ih precedence noIn (fewer room)
      unary := fun _ _ room => takes_unary ih (fewer room)
      newExpression := fun _ _ room keyword => takes_new_expression ih keyword (fewer room)
      statement := fun _ _ room => steps_statement ih (less room)
      item := fun _ _ room => steps_item ih (less room) }

/-- The tokens of a script form a program, or a part of the script is at fault. -/
theorem reports_of_tokens (script : Script) {strict : Bool} {d : Diagnostic}
    (refused : Program.ofTokens script.source strict script.tokens = .error d) : script.Reports d := by
  cases tokens : script.tokens with
  | nil =>
    obtain ⟨front, stop, same, -⟩ := script.lossless.ends
    rw [tokens] at same
    simp at same
  | cons first rest =>
    rw [tokens] at refused
    have size : script.size = rest.length + 1 := by rw [Script.size, tokens, List.length_cons]
    let start : ReadingState := ⟨script.source, first, first, rest, .start false strict, []⟩
    have here : script.At [(0, 0)] 0 start := ⟨rfl, by rw [tokens]; rfl, by rw [tokens]; rfl, rfl⟩
    have levels : levelsFor (first :: rest) = 2 * script.size + 8 := by rw [levelsFor, size, List.length_cons]
    have steps : script.Steps [(0, 0)] 0 (programBody (levelsFor (first :: rest))) fun _ j => 0 ≤ j := by
      refine steps_body_items (steady_rules _) _ _ _ _ ?_ ?_
      · rw [levels_rules_for]
        omega
      · omega
    have read : (programBody (levelsFor (first :: rest)) start >>= fun read =>
        .ok (⟨read.1, read.2.body.strict, read.2.body.names⟩ : Program)) = .error d := refused
    cases ended : programBody (levelsFor (first :: rest)) start with
    | ok result =>
      rw [ended] at read
      cases read
    | error fault =>
      rw [ended] at read
      cases read
      exact (steps start here).2 d ended

end Script

end Grammar

/-! ## Lines and columns -/

/-- The characters behind the last line feed of a text. -/
def lastLine (text : List Char) : List Char :=
  (text.reverse.takeWhile (· != '\n')).reverse

/-- The line and the column behind one more character. -/
def advancePlace (place : Nat × Nat) (c : Char) : Nat × Nat :=
  if c == '\n' then (place.1 + 1, 1) else (place.1, place.2 + 1)

theorem locate_eq_foldl (line column : Nat) (before behind : List Char) :
    Diagnostic.locate line column (byteLength before) (before ++ behind) =
      before.foldl advancePlace (line, column) := by
  induction before generalizing line column with
  | nil => cases behind <;> rfl
  | cons c before ih =>
    rw [List.cons_append, byteLength_cons, Diagnostic.locate, cut_behind, if_neg Bool.false_ne_true,
      Nat.add_sub_cancel_left, ih, ih, List.foldl_cons, advancePlace]
    split <;> rfl

/-- Lines are counted by line feeds, and columns by the characters behind the last of them. -/
theorem foldl_advance_place (before : List Char) :
    before.foldl advancePlace (1, 1) = (before.count '\n' + 1, (lastLine before).length + 1) := by
  induction before using List.reverseRecOn with
  | nil => rfl
  | append_singleton before c ih =>
    rw [List.foldl_append, ih, List.foldl_cons, List.foldl_nil, advancePlace]
    by_cases feed : c = '\n'
    · simp [feed, lastLine]
    · simp [feed, lastLine, List.count_append]

/-- A fault is reported for a part of a script, which lies between two of its characters, and it is located at the
line and the column at which this part begins. -/
structure Diagnostic.Locates (source : String) (d : Diagnostic) : Prop where
  ordered : d.span.start ≤ d.span.stop
  inside : d.span.stop ≤ source.utf8ByteSize
  start : isBoundary d.span.start source.toList
  stop : isBoundary d.span.stop source.toList
  location : ∃ before behind, source.toList = before ++ behind ∧ byteLength before = d.span.start ∧
    d.location source = (before.count '\n' + 1, (lastLine before).length + 1)

theorem byte_length_to_list (source : String) : byteLength source.toList = source.utf8ByteSize := by
  have encoded (text : List Char) : byteLength text = text.utf8Encode.size := by
    induction text with
    | nil => rfl
    | cons c text ih =>
      rw [byteLength_cons, ih, List.utf8Encode_cons, ByteArray.size_append, List.utf8Encode_singleton]
      simp
  rw [encoded, ← String.toByteArray_ofList, String.ofList_toList, String.size_toByteArray]

theorem locates_of_fits {source : String} {d : Diagnostic} (fits : d.span.Fits source.toList) :
    d.Locates source := by
  obtain ⟨before, behind, same, counted⟩ := is_boundary_iff.mp fits.start
  refine ⟨fits.ordered, byte_length_to_list source ▸ le_length_of_boundary fits.stop, fits.start, fits.stop, ?_⟩
  refine ⟨before, behind, same, counted, ?_⟩
  rw [Diagnostic.location, same, ← counted, locate_eq_foldl, foldl_advance_place]

/-- Reading a script gives a program or a fault. The reader itself never breaks: it has levels of nesting left,
cuts the script between characters, and counts no loop or choice that it did not enter; and each fault can be
located in the script. -/
theorem of_source_total (source : String) (strict : Bool) :
    (∃ p, Program.ofSource source strict = .ok p) ∨
      ∃ d, Program.ofSource source strict = .error d ∧ d.fault ≠ .brokenReader ∧ d.Locates source := by
  have layout := Scanning.tokens_of_splits source
  have steps : Program.ofSource source strict =
      (Scanning.tokensOf source >>= Program.ofTokens source.toList strict) := rfl
  rw [steps]
  cases scanned : Scanning.tokensOf source with
  | error d =>
    rw [scanned] at layout
    exact .inr ⟨d, rfl, layout.1, locates_of_fits layout.2⟩
  | ok tokens =>
    rw [scanned] at layout
    let script : Grammar.Script := ⟨source.toList, tokens, Scanning.lossless_of_layout layout [] rfl⟩
    cases read : Program.ofTokens source.toList strict tokens with
    | ok p => exact .inl ⟨p, read⟩
    | error d =>
      obtain ⟨known, fits⟩ := script.reports_of_tokens read
      exact .inr ⟨d, read, known, locates_of_fits fits⟩

end ScriptEngine
