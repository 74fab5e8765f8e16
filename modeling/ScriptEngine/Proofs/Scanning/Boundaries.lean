import Mathlib.Data.List.TakeDrop
import ScriptEngine.Syntax.Span

/-!
Where a text can be cut. A byte offset is a boundary if a front of the text takes that many bytes, and a span
fits the text if it lies between two boundaries; then, and only then, there is text in it.
-/

namespace ScriptEngine

variable {text : List Char} {count : Nat} {span : Span}

theorem is_boundary_zero : isBoundary 0 text := by
  cases text <;> rfl

theorem is_boundary_append (before behind : List Char) :
    isBoundary (byteLength before) (before ++ behind) := by
  induction before with
  | nil => exact is_boundary_zero
  | cons c before ih =>
    rw [List.cons_append, byteLength_cons, isBoundary, Nat.add_sub_cancel_left, ih]
    simp

/-- A boundary is the length of a front of the text. -/
theorem is_boundary_iff :
    isBoundary count text ↔ ∃ before behind, text = before ++ behind ∧ byteLength before = count := by
  constructor
  · intro bound
    induction text generalizing count with
    | nil => exact ⟨[], [], rfl, (beq_iff_eq.mp bound).symm⟩
    | cons c text ih =>
      by_cases none : count = 0
      · exact ⟨[], c :: text, rfl, none.symm⟩
      · simp only [isBoundary, Bool.or_eq_true, Bool.and_eq_true, beq_iff_eq, decide_eq_true_eq] at bound
        obtain ⟨fits, inner⟩ := bound.resolve_left none
        obtain ⟨before, behind, rfl, counted⟩ := ih inner
        refine ⟨c :: before, behind, rfl, ?_⟩
        rw [byteLength_cons]
        omega
  · rintro ⟨before, behind, rfl, rfl⟩
    exact is_boundary_append before behind

theorem le_length_of_boundary (bound : isBoundary count text) : count ≤ byteLength text := by
  obtain ⟨before, behind, rfl, rfl⟩ := is_boundary_iff.mp bound
  simp

/-- Of two fronts of one text the shorter one is a front of the longer one. -/
theorem exists_between {first last later rest : List Char} (same : first ++ later = last ++ rest)
    (shorter : byteLength first ≤ byteLength last) : ∃ part, last = first ++ part := by
  rcases List.append_eq_append_iff.mp same with ⟨part, rfl, -⟩ | ⟨part, rfl, -⟩
  · exact ⟨part, rfl⟩
  · cases part with
    | nil => exact ⟨[], by simp⟩
    | cons c part =>
      have positive := c.utf8Size_pos
      rw [byteLength_append, byteLength_cons] at shorter
      omega

/-- A span of the text ends behind its start, and cuts no character. -/
structure Span.Fits (text : List Char) (span : Span) : Prop where
  ordered : span.start ≤ span.stop
  start : isBoundary span.start text
  stop : isBoundary span.stop text

theorem fits_between (before part behind : List Char) :
    Span.Fits (before ++ (part ++ behind)) ⟨byteLength before, byteLength before + byteLength part⟩ where
  ordered := Nat.le_add_right _ _
  start := is_boundary_append _ _
  stop := by
    rw [← List.append_assoc, ← byteLength_append]
    exact is_boundary_append _ _

/-- What fits is the part of the text between two others. -/
theorem fits_iff : span.Fits text ↔ ∃ before part behind, text = before ++ (part ++ behind) ∧
    span = ⟨byteLength before, byteLength before + byteLength part⟩ := by
  constructor
  · rintro ⟨ordered, start, stop⟩
    obtain ⟨before, later, rfl, counted⟩ := is_boundary_iff.mp start
    obtain ⟨whole, behind, same, ended⟩ := is_boundary_iff.mp stop
    obtain ⟨part, rfl⟩ := exists_between same (by omega)
    rw [List.append_assoc, List.append_cancel_left_eq] at same
    refine ⟨before, part, behind, by rw [same], ?_⟩
    rw [byteLength_append] at ended
    cases span
    simp_all
  · rintro ⟨before, part, behind, rfl, rfl⟩
    exact fits_between before part behind

/-- There is text in a span exactly if it fits. -/
theorem slice_is_some : (span.slice? text).isSome ↔ span.Fits text := by
  unfold Span.slice?
  simp only [Option.isSome_ite, Bool.and_eq_true, decide_eq_true_eq]
  exact ⟨fun ⟨⟨ordered, start⟩, stop⟩ => ⟨ordered, start, stop⟩,
    fun ⟨ordered, start, stop⟩ => ⟨⟨ordered, start⟩, stop⟩⟩

theorem slice_of_parts (before part behind : List Char) :
    Span.slice? ⟨byteLength before, byteLength before + byteLength part⟩ (before ++ (part ++ behind)) =
      some part := by
  obtain ⟨ordered, start, stop⟩ := fits_between before part behind
  rw [Span.slice?, start, stop, decide_eq_true ordered, Span.slice_between]
  rfl

end ScriptEngine
