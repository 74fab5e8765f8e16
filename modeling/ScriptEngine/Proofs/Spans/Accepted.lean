import ScriptEngine.Proofs.Spans.ReadStatement
import ScriptEngine.Proofs.Strictness.Accepted

/-!
The spans of accepted programs. Each part of a program takes up a part of the script inside of the one that its parent
takes up, parts of the same parent stand one behind the other, and a function keeps the text that it takes up.
-/

namespace ScriptEngine

open Grammar

namespace Grammar.Script

variable {script : Script} {strict : Bool} {p : Program}

/-- The rules for any number of levels read nested parts. -/
theorem nests_rules (levels : Nat) : script.Nests (rulesFor levels) := by
  induction levels with
  | zero =>
    exact {
      levels := ⟨0, rfl⟩
      assignment := fun _ _ _ _ => .broken
      binary := fun _ _ _ _ _ => .broken
      unary := fun _ _ _ => .broken
      newExpression := fun _ _ _ _ => .broken
      statement := fun _ _ _ => .broken
      item := fun _ _ _ => .broken }
  | succ levels ih =>
    exact {
      levels := ⟨levels + 1, rfl⟩
      assignment := fun _ _ _ noIn => nests_assignment ih noIn
      binary := fun _ _ _ precedence noIn => nests_binary ih precedence noIn
      unary := fun _ _ _ => nests_unary ih
      newExpression := fun _ _ _ keyword => nests_new_expression ih keyword
      statement := fun _ _ _ => nests_statement ih
      item := fun _ _ _ => nests_item ih }

/-- The statements of a program that was read are in a row. -/
theorem program_row (accepted : Program.ofTokens script.source strict script.tokens = .ok p) :
    ∃ j, script.Row p.strict 0 j (p.body.map .stmt) := by
  cases tokens : script.tokens with
  | nil =>
    rw [tokens] at accepted
    cases accepted
  | cons first rest =>
    rw [tokens] at accepted
    let start : ReadingState := ⟨script.source, first, first, rest, .start false strict, []⟩
    let levels := levelsFor (first :: rest)
    have steps : (programBody levels start >>= fun read =>
        .ok (⟨read.1, read.2.body.strict, read.2.body.names⟩ : Program)) = .ok p := accepted
    have place : script.At [(0, 0)] 0 start := ⟨rfl, by rw [tokens]; rfl, by rw [tokens]; rfl, rfl⟩
    have here : script.Stands [strict] 0 start := ⟨⟨_, place⟩, rfl⟩
    cases read : programBody levels start with
    | error d =>
      rw [read] at steps
      cases steps
    | ok ended =>
      rw [read] at steps
      cases steps
      have items := nests_body_items (nests_rules levels) _ _ _ _ start ended.1 ended.2 read here
      obtain ⟨⟨flag, j, there, -, body, same, row⟩, -⟩ := items
      obtain rfl : ended.1 = body := same
      obtain rfl : ended.2.body.strict = flag := (List.cons.inj there.codes).1
      exact ⟨j, row⟩

/-- What lies in a program is nested where its statements are. -/
theorem placed_of_has {j : Nat} (row : script.Row p.strict 0 j (p.body.map .stmt)) {part : Part}
    (lies : p.Has strict part) : script.Placed strict part := by
  induction lies with
  | body direct => exact row.placed _ (List.mem_map_of_mem direct)
  | inner outer direct ih =>
    cases ih with
    | intro nested traced inner => exact inner _ direct

end Grammar.Script

/-- A script that is accepted comes with its tokens, between which the statements of the program are in a row. -/
theorem row_of_source {source : String} {strict : Bool} {p : Program}
    (accepted : Program.ofSource source strict = .ok p) :
    ∃ script : Script, script.source = source.toList ∧ Scanning.tokensOf source = .ok script.tokens ∧
      ∃ j, script.Row p.strict 0 j (p.body.map .stmt) := by
  have steps : (Scanning.tokensOf source >>= Program.ofTokens source.toList strict) = .ok p := accepted
  have layout := Scanning.tokens_of_splits source
  cases scanned : Scanning.tokensOf source with
  | error d =>
    rw [scanned] at steps
    cases steps
  | ok tokens =>
    rw [scanned] at steps layout
    let script : Script := ⟨source.toList, tokens, Scanning.lossless_of_layout layout [] rfl⟩
    exact ⟨script, rfl, rfl, script.program_row steps⟩

/-- The parts of a program are nested as the spans that they keep of its script say. -/
structure Program.SpansNested (p : Program) (source : List Char) : Prop where
  /-- The statements of the program stand one behind the other. -/
  body : Part.Ordered (p.body.map .stmt)
  /-- Each part takes up a part of the script, inside of which its own parts stand one behind the other. -/
  parts : ∀ strict part, p.Has strict part → part.Nested source

/-- The spans of an accepted program are nested, and each function keeps the text that it takes up. -/
theorem spans_nested_of_source {source : String} {strict : Bool} {p : Program}
    (accepted : Program.ofSource source strict = .ok p) : p.SpansNested source.toList := by
  obtain ⟨script, text, -, j, row⟩ := row_of_source accepted
  refine ⟨row.ordered, fun flag part lies => ?_⟩
  rw [← text]
  exact (Script.placed_of_has row lies).nested

/-- The text of an arrow function that is assigned by a statement, if there is one. -/
def assignedText? : Stmt → Option String
  | ⟨.expr ⟨.assign _ _ ⟨.function code, _⟩, _⟩, _⟩ => some code.source
  | _ => none

/-- An arrow function in parentheses, which returns an expression in parentheses. -/
def enclosedArrow : String :=
  "f = (((a, b) => (a)));"

/-- The text that the function keeps is without the parentheses around it. -/
theorem enclosed_arrow_nested :
    ∃ p, Program.ofSource enclosedArrow false = .ok p ∧ p.SpansNested enclosedArrow.toList ∧
      ∃ code, p.Has false (.code code) ∧ code.source = "(a, b) => (a)" := by
  have accepted : (Program.ofSource enclosedArrow false).toOption.any (fun p => p.strict == false &&
      p.body.any fun s => assignedText? s == some "(a, b) => (a)") = true := by
    decide +kernel
  cases read : Program.ofSource enclosedArrow false with
  | error d =>
    rw [read] at accepted
    cases accepted
  | ok p =>
    rw [read] at accepted
    obtain ⟨sloppy, someBody⟩ := Bool.and_eq_true_iff.mp accepted
    obtain ⟨s, direct, known⟩ := List.any_eq_true.mp someBody
    have body : p.Has p.strict (.stmt s) := .body direct
    rw [beq_iff_eq.mp sloppy] at body
    refine ⟨p, rfl, spans_nested_of_source read, ?_⟩
    unfold assignedText? at known
    split at known
    · next op target code inner outer span =>
      have assigned : p.Has false (.expr ⟨.assign op target ⟨.function code, inner⟩, outer⟩) := body.inner (.head _)
      have function : p.Has false (.expr ⟨.function code, inner⟩) := assigned.inner (.tail _ (.head _))
      exact ⟨code, function.inner (.head _), Option.some.inj (beq_iff_eq.mp known)⟩
    · cases beq_iff_eq.mp known

end ScriptEngine
