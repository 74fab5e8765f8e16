import ScriptEngine.Proofs.Excerpts.Echo
import ScriptEngine.Proofs.Scanning.Runs

/-!
Some tokens of a script, with the text that they are read off, as a script of their own between parentheses.
-/

namespace ScriptEngine

open Scanning

namespace Scanning

/-- A parenthesis at the front of a text. -/
def parenthesis (m : Mark) (lexeme : String) (offset : Nat) : Token :=
  ⟨.mark m, lexeme, ⟨offset, offset + 1⟩, false, false⟩

theorem reads_open_parenthesis (offset : Nat) (rest : List Char) :
    ReadsFirst offset [] ['('] rest (parenthesis .openParen "(" offset) :=
  ⟨.nothing, by rintro _ _ ⟨⟩; exact ⟨by decide, nofun⟩, by simp, rfl⟩

theorem reads_close_parenthesis (offset : Nat) (rest : List Char) :
    ReadsFirst offset [] [')'] rest (parenthesis .closeParen ")" offset) :=
  ⟨.nothing, by rintro _ _ ⟨⟩; exact ⟨by decide, nofun⟩, by simp, rfl⟩

/-- Nothing is left behind the last parenthesis. -/
theorem scans_closing (offset : Nat) : Scans offset [')'] [parenthesis .closeParen ")" offset, endToken (offset + 1)] :=
  .token (reads_close_parenthesis offset []) (.stop .nothing)

theorem Scans.lossless {text : List Char} {tokens : List Token} (scans : Scans 0 text tokens) : Lossless 0 text tokens := by
  have read : tokensOf (String.ofList text) = .ok tokens := tokens_of_iff.mpr (by rwa [String.toList_ofList])
  have lossless := tokens_lossless _ _ read
  rwa [String.toList_ofList] at lossless

/-- Tokens of a text, cut off it with the text that they are read off. The gap before the first one is left out. -/
structure Taken (text : List Char) (t : Token) (tokens : List Token) (before inside behind : List Char) : Prop where
  parts : text = before ++ (inside ++ behind)
  start : t.span.start = byteLength before
  stop : gapStart t.span.stop tokens = byteLength before + byteLength inside
  within : ∀ u ∈ t :: tokens, byteLength before ≤ u.span.start ∧ u.span.start ≤ u.span.stop ∧
    u.span.stop ≤ byteLength before + byteLength inside
  enclosed : Scans 0 ('(' :: (inside ++ [')'])) (parenthesis .openParen "(" 0 ::
    { moved (byteLength before) 1 t with newlineBefore := false } :: (tokens.map (moved (byteLength before) 1) ++
      [parenthesis .closeParen ")" (byteLength inside + 1), endToken (byteLength inside + 1 + 1)]))

theorem Scans.taken {text : List Char} {earlier tokens later : List Token} {t : Token}
    (scans : Scans 0 text (earlier ++ t :: (tokens ++ later))) (more : later ≠ []) :
    ∃ before inside behind, Taken text t tokens before inside behind := by
  obtain ⟨passed, rest, cut⟩ := scans.cut (List.cons_ne_nil t (tokens ++ later))
  have begun := cut.rest
  generalize listed : t :: (tokens ++ later) = all at begun
  cases begun with
  | stop separates =>
    have none := (List.cons.inj listed).2
    exact absurd (List.append_eq_nil_iff.mp none).2 more
  | @token _ gap piece rest _ _ first behind =>
    obtain ⟨rfl, rfl⟩ := List.cons.inj listed
    obtain ⟨middle, rest', cut'⟩ := behind.cut more
    have whole := cut.parts
    have inner := cut'.parts
    subst inner
    have span := first.read_off.1.span
    have count : byteLength (passed ++ gap) = 0 + byteLength passed + byteLength gap := by
      rw [byteLength_append, Nat.zero_add]
    rw [← count] at span
    have closes : Alike rest' [')'] := by
      rintro c ⟨⟩
      exact .inr (.inl rfl)
    refine ⟨passed ++ gap, piece ++ middle, rest', ?_, by rw [span], ?_,
      List.forall_mem_cons.mpr ⟨?_, fun u mem => ?_⟩, ?_⟩
    · rw [whole]
      simp
    · have stop := cut'.last
      rw [← count] at stop
      rw [span, stop, byteLength_append piece, Nat.add_assoc]
    · rw [span, byteLength_append piece]
      dsimp only
      omega
    · obtain ⟨start, ordered, stop⟩ := cut'.inside u mem
      rw [byteLength_append piece]
      omega
    · have later := cut'.elsewhere (1 + byteLength piece) [')'] _ closes (scans_closing _)
      have token := Scans.token (first.elsewhere (closes.append middle) 1 .nothing) later
      have begun : readAt t false 1 piece = { moved (byteLength (passed ++ gap)) 1 t with newlineBefore := false } := by
        rw [readAt, moved, span]
        simp only [Token.mk.injEq, Span.mk.injEq, true_and, and_true]
        omega
      have shifted : tokens.map
          (moved (0 + byteLength passed + byteLength gap + byteLength piece) (1 + byteLength piece)) =
          tokens.map (moved (byteLength (passed ++ gap)) 1) := by
        refine List.map_congr_left fun u mem => ?_
        obtain ⟨start, ordered, -⟩ := cut'.inside u mem
        rw [← count] at start ⊢
        exact moved_behind _ _ 1 start ordered
      have stop : 1 + byteLength piece + byteLength middle = byteLength (piece ++ middle) + 1 := by
        rw [byteLength_append]
        omega
      change Scans 1 (piece ++ (middle ++ [')'])) (readAt t false 1 piece :: _) at token
      rw [begun, shifted, stop, ← List.append_assoc] at token
      exact .token (reads_open_parenthesis 0 _) token

end Scanning

namespace Grammar

section

variable {whole part : Script} {before text behind before' behind' : List Char}
  {earlier inner later earlier' inner' later' : List Token}

/-- Tokens that say the same pairwise are found behind those in front of them. -/
theorem twins_between (listed : whole.tokens = earlier ++ (inner ++ later))
    (listed' : part.tokens = earlier' ++ (inner' ++ later')) (same : inner'.length = inner.length)
    (twins : ∀ k t u, inner[k]? = some t → inner'[k]? = some u →
      t.span.stop ≤ byteLength before + byteLength text ∧ Twin before before' k t u) (k : Nat) (t : Token)
    (inside : k < inner.length) (found : whole.tokens[earlier.length + k]? = some t) :
    t.span.stop ≤ byteLength before + byteLength text ∧
      ∃ u, part.tokens[earlier'.length + k]? = some u ∧ Twin before before' k t u := by
  rw [listed, List.getElem?_append_right (Nat.le_add_right ..), Nat.add_sub_cancel_left,
    List.getElem?_append_left inside] at found
  have inside' : k < inner'.length := same ▸ inside
  obtain ⟨u, found'⟩ : ∃ u, inner'[k]? = some u := ⟨_, List.getElem?_eq_getElem inside'⟩
  obtain ⟨within, twin⟩ := twins k t u found found'
  refine ⟨within, u, ?_, twin⟩
  rwa [listed', List.getElem?_append_right (Nat.le_add_right ..), Nat.add_sub_cancel_left,
    List.getElem?_append_left inside']

theorem lt_size_between (listed : whole.tokens = earlier ++ (inner ++ later)) (more : later ≠ []) :
    earlier.length + inner.length < whole.size := by
  have positive := List.length_pos_iff.mpr more
  rw [Script.size, listed, List.length_append, List.length_append]
  omega

theorem edge_between (listed' : part.tokens = earlier' ++ (inner' ++ later')) (same : inner'.length = inner.length)
    (edge : ∃ u, later'.head? = some u ∧ u.kind ∈ closing false) :
    ∃ u, part.tokens[earlier'.length + inner.length]? = some u ∧ u.kind ∈ closing false := by
  obtain ⟨u, first, closes⟩ := edge
  refine ⟨u, ?_, closes⟩
  rw [listed', List.getElem?_append_right (Nat.le_add_right ..), Nat.add_sub_cancel_left,
    List.getElem?_append_right (Nat.le_of_eq same), same, Nat.sub_self, ← List.head?_eq_getElem?, first]

end

/-- A text in two scripts is an excerpt of one of them if their tokens of it say the same. -/
def Excerpt.between (whole part : Script) {before text behind before' behind' : List Char}
    {earlier inner later earlier' inner' later' : List Token} (source : whole.source = before ++ (text ++ behind))
    (source' : part.source = before' ++ (text ++ behind')) (listed : whole.tokens = earlier ++ (inner ++ later))
    (listed' : part.tokens = earlier' ++ (inner' ++ later')) (same : inner'.length = inner.length)
    (twins : ∀ k t u, inner[k]? = some t → inner'[k]? = some u →
      t.span.stop ≤ byteLength before + byteLength text ∧ Twin before before' k t u)
    (begins : byteLength before ≤ whole.startAt earlier.length) (more : later ≠ [])
    (edge : ∃ u, later'.head? = some u ∧ u.kind ∈ closing false) : Excerpt where
  whole := whole
  part := part
  text := text
  before := before
  behind := behind
  before' := before'
  behind' := behind'
  first := earlier.length
  place := earlier'.length
  count := inner.length
  source := source
  source' := source'
  begins := begins
  twins := twins_between listed listed' same twins
  goesOn := lt_size_between listed more
  edge := edge_between listed' same edge

/-- The part is the shared text between parentheses, and the shared tokens are all that is read off this text. -/
structure Excerpt.Enclosed (x : Excerpt) : Prop where
  source : x.part.source = '(' :: (x.text ++ [')'])
  scans : Scans 0 x.part.source x.part.tokens
  place : x.place = 1
  begins : x.whole.startAt x.first = byteLength x.before
  stops : x.whole.stopAt (x.first + x.count - 1) = byteLength x.before + byteLength x.text
  opens : x.part.kindAt 0 = some (.mark .openParen)
  closes : x.part.kindAt (1 + x.count) = some (.mark .closeParen)
  ends : x.part.kindAt (1 + x.count + 1) = some .endOfInput

section

variable {script : Script} {earlier tokens later : List Token} {t : Token} {before inside behind : List Char}

/-- Shared tokens say the same, but for the line break before the first one. -/
theorem twin_of_moved (k : Nat) {u : Token} (start : byteLength before ≤ u.span.start)
    (ordered : u.span.start ≤ u.span.stop) (newline : Bool) (same : 0 < k → newline = u.newlineBefore) :
    Twin before ['('] k u { moved (byteLength before) 1 u with newlineBefore := newline } where
  kind := rfl
  lexeme := rfl
  legacyOctal := rfl
  newline := same
  start := ⟨u.span.start - byteLength before, by omega, rfl⟩
  stop := ⟨u.span.stop - byteLength before, by omega, rfl⟩

theorem stop_at_last (listed : script.tokens = earlier ++ t :: (tokens ++ later)) :
    script.stopAt (earlier.length + (tokens.length + 1) - 1) = gapStart t.span.stop tokens := by
  have place : earlier.length + (tokens.length + 1) - 1 = earlier.length + tokens.length := by omega
  rw [place]
  rcases List.eq_nil_or_concat tokens with rfl | ⟨front, last, rfl⟩
  · refine Script.stop_at ?_
    rw [listed]
    simp
  · rw [List.concat_eq_append, gapStart, List.getLast?_concat, Option.elim_some]
    refine Script.stop_at ?_
    rw [listed]
    simp

theorem exists_enclosed_parts (listed : script.tokens = earlier ++ t :: (tokens ++ later)) (more : later ≠ [])
    (taken : Taken script.source t tokens before inside behind) :
    ∃ x : Excerpt, x.whole = script ∧ x.first = earlier.length ∧ x.count = tokens.length + 1 ∧ x.Enclosed := by
  let first : Token := { moved (byteLength before) 1 t with newlineBefore := false }
  let others := tokens.map (moved (byteLength before) 1)
  let close := parenthesis .closeParen ")" (byteLength inside + 1)
  let all := parenthesis .openParen "(" 0 :: first :: (others ++ [close, endToken (byteLength inside + 1 + 1)])
  let part : Script := ⟨'(' :: (inside ++ [')']), all, taken.enclosed.lossless⟩
  have last : all[1 + (tokens.length + 1)]? = some close := by
    have place : 1 + (tokens.length + 1) = others.length + 1 + 1 := by simp [others]; omega
    rw [place]
    simp [all]
  have ends : all[1 + (tokens.length + 1) + 1]? = some (endToken (byteLength inside + 1 + 1)) := by
    have place : 1 + (tokens.length + 1) + 1 = others.length + 1 + 1 + 1 := by simp [others]; omega
    rw [place]
    simp [all]
  have begins : script.startAt earlier.length = byteLength before := by
    rw [← taken.start, Script.start_at]
    rw [listed]
    simp
  have twins (k : Nat) (u v : Token) (found : (t :: tokens)[k]? = some u) (found' : (first :: others)[k]? = some v) :
      u.span.stop ≤ byteLength before + byteLength inside ∧ Twin before ['('] k u v := by
    obtain ⟨start, ordered, stop⟩ := taken.within u (List.mem_of_getElem? found)
    refine ⟨stop, ?_⟩
    cases k with
    | zero =>
      cases found
      cases found'
      exact twin_of_moved 0 start ordered false (by simp)
    | succ k =>
      rw [List.getElem?_cons_succ] at found found'
      rw [List.getElem?_map, found] at found'
      cases found'
      exact twin_of_moved (k + 1) start ordered u.newlineBefore fun _ => rfl
  have all_eq : part.tokens = [parenthesis .openParen "(" 0] ++ ((first :: others) ++
    [close, endToken (byteLength inside + 1 + 1)]) := rfl
  let x : Excerpt := .between script part taken.parts rfl listed all_eq (by simp [others]) twins
    (Nat.le_of_eq begins.symm) more ⟨close, rfl, List.mem_cons_self ..⟩
  refine ⟨x, rfl, rfl, rfl, ?_⟩
  exact {
    source := rfl
    scans := taken.enclosed
    place := rfl
    begins
    stops := (stop_at_last listed).trans taken.stop
    opens := rfl
    closes := congrArg (Option.map Token.kind) last
    ends := congrArg (Option.map Token.kind) ends }

end

/-- Tokens between two others stand between parentheses in a script of their own. -/
theorem exists_enclosed (script : Script) (scans : Scans 0 script.source script.tokens) {i j : Nat} (order : i < j)
    (inside : j < script.size) :
    ∃ x : Excerpt, x.whole = script ∧ x.first = i ∧ i + x.count = j ∧ x.Enclosed := by
  obtain ⟨t, found⟩ := Script.exists_token (Nat.lt_trans order inside)
  obtain ⟨bound, rfl⟩ := List.getElem?_eq_some_iff.mp found
  let tokens := (script.tokens.drop (i + 1)).take (j - (i + 1))
  have behind : script.tokens.drop (i + 1) = tokens ++ script.tokens.drop j := by
    have split := List.take_append_drop (j - (i + 1)) (script.tokens.drop (i + 1))
    have place : i + 1 + (j - (i + 1)) = j := by omega
    rw [List.drop_drop, place] at split
    exact split.symm
  have listed : script.tokens = script.tokens.take i ++ script.tokens[i] :: (tokens ++ script.tokens.drop j) := by
    rw [← behind, ← List.drop_eq_getElem_cons bound, List.take_append_drop]
  have more : script.tokens.drop j ≠ [] := fun none => absurd (List.drop_eq_nil_iff.mp none) (Nat.not_le.mpr inside)
  have earlier : (script.tokens.take i).length = i := List.length_take_of_le (Nat.le_of_lt bound)
  have count : tokens.length + 1 = j - i := by
    have lengths := congrArg List.length behind
    rw [List.length_drop, List.length_append, List.length_drop] at lengths
    rw [Script.size] at inside
    omega
  rw [listed] at scans
  obtain ⟨before, text, rest, taken⟩ := scans.taken more
  obtain ⟨x, whole, first, counted, enclosed⟩ := exists_enclosed_parts listed more taken
  exact ⟨x, whole, first.trans earlier, by omega, enclosed⟩

end Grammar
end ScriptEngine
