import ScriptEngine.Proofs.Hoisting.ReadStatement
import ScriptEngine.Proofs.Jumps.ReadStatement

/-!
The names that come with a program and with its functions, blocks and `switch` statements are those that are declared
in them, and its functions know whether they mention `arguments`: what was noted while a script was read is what can be
told from its tree.
-/

namespace ScriptEngine

namespace Grammar

/-- The rules for any number of levels harvest what they read. -/
theorem harvest_rules (levels : Nat) : (rulesFor levels).Harvest := by
  induction levels with
  | zero =>
    exact {
      assignment := fun _ => .broken
      binary := fun _ _ => .broken
      unary := .broken
      newExpression := .broken
      statement := .broken
      item := .broken }
  | succ levels ih =>
    exact {
      assignment := harvests_assignment ih
      binary := harvests_binary ih
      unary := harvests_unary ih
      newExpression := harvests_new_expression ih
      statement := harvests_statement ih
      item := harvests_item ih }

end Grammar

/-! ## Accepted programs -/

/-- A program has the names of `var` and the functions that are declared in it, and so have all its functions, which
also know whether they mention `arguments`. -/
structure Program.Described (p : Program) : Prop where
  names : p.scope.Hoists p.body
  inner : ∀ child ∈ p.children, child.Described

/-- Whatever is read as a program is described. -/
theorem program_described_of_tokens {source : List Char} {strict : Bool} {tokens : List Token} {p : Program}
    (accepted : Program.ofTokens source strict tokens = .ok p) : p.Described := by
  cases tokens with
  | nil => cases accepted
  | cons first rest =>
    let start : Grammar.ReadingState := ⟨source, first, first, rest, .start false strict, []⟩
    let levels := Grammar.levelsFor (first :: rest)
    have steps : (Grammar.programBody levels start >>= fun read =>
        .ok (⟨read.1, read.2.body.strict, read.2.body.names⟩ : Program)) = .ok p := accepted
    have harvests := Grammar.harvests_body_items (Grammar.harvest_rules levels) levels .endOfInput true []
    cases read : Grammar.programBody levels start with
    | error d =>
      rw [read] at steps
      cases steps
    | ok ended =>
      rw [read] at steps
      cases steps
      obtain ⟨h, noted, body, rfl, told⟩ := harvests start ended.1 ended.2 read
      have begins : start.notes = [⟨false, [], [], false⟩] := rfl
      rw [begins, Grammar.add_to_start] at noted
      obtain ⟨inner, -⟩ := List.cons.inj noted
      have vars : ended.2.body.vars = h.vars.eraseDups := congrArg Grammar.Notes.vars inner
      have functions : ended.2.body.functions = h.functions := congrArg Grammar.Notes.functions inner
      exact ⟨Grammar.hoists_of_told told functions vars, Grammar.described_of_told told functions .script⟩

theorem program_described_of_source {source : String} {strict : Bool} {p : Program}
    (accepted : Program.ofSource source strict = .ok p) : p.Described := by
  have steps : (Scanning.tokensOf source >>= Program.ofTokens source.toList strict) = .ok p := accepted
  cases scanned : Scanning.tokensOf source with
  | error d =>
    rw [scanned] at steps
    cases steps
  | ok tokens =>
    rw [scanned] at steps
    exact program_described_of_tokens steps

/-- The names that come with the parts of a program are those that are declared in them. -/
structure Program.KnowsNames (p : Program) : Prop where
  /-- The program has the names of `var` and the functions in it, and the names of its own statements. -/
  script : p.scope.Hoists p.body ∧ Declares p.scope.lexical p.body
  /-- So has each function, wherever it stands. Other than an arrow it knows whether it mentions `arguments`. -/
  functions : ∀ code, p.Contains (.code code) → code.Described ∧ Declares code.scope.lexical code.body
  /-- Each block has the names of its own statements. -/
  blocks : ∀ place b span, p.Contains (.stmt place ⟨.block b, span⟩) → Declares b.lexical b.body
  /-- So have the blocks of each `try` statement. -/
  attempts : ∀ place guarded handler finalizer span,
    p.Contains (.stmt place ⟨.attempt guarded handler finalizer, span⟩) → Declares guarded.lexical guarded.body ∧
      (∀ h ∈ handler, Declares h.body.lexical h.body.body) ∧ ∀ b ∈ finalizer, Declares b.lexical b.body
  /-- Each `switch` statement has the names of the statements of its clauses. -/
  switches : ∀ place discriminant clauses names span,
    p.Contains (.stmt place ⟨.switch discriminant clauses names, span⟩) →
      Declares names (clauses.flatMap SwitchClause.body)

/-- What was noted of the names of an accepted program, of its functions and of its blocks is what their trees tell. -/
theorem knows_names_of_source {source : String} {strict : Bool} {p : Program}
    (accepted : Program.ofSource source strict = .ok p) : p.KnowsNames := by
  have described := program_described_of_source accepted
  have inPlace {n : Node} (contained : p.Contains n) : n.InPlace :=
    ((Node.sound_iff n).mp (sound_of_source accepted contained)).1
  refine ⟨⟨described.names, (program_sound_of_source accepted).names⟩, ?_, ?_, ?_, ?_⟩
  · intro code contained
    obtain ⟨outer, direct, within⟩ := contained
    have here := (Node.described_iff _).mp ((described.inner outer direct).within within)
    exact ⟨here.1 code rfl, inPlace ⟨outer, direct, within⟩⟩
  · intro place b span contained
    exact inPlace contained
  · intro place guarded handler finalizer span contained
    exact inPlace contained
  · intro place discriminant clauses names span contained
    exact inPlace contained

/-- Names of `var` in a loop, a handler and a clause, functions in blocks, and an arrow that mentions `arguments`. -/
def scatteredNames : String :=
  "function f(a) \x7b for (var i = 0; i < 1; i++) \x7b let i; function g() \x7b\x7d \x7d try \x7b var i \x7d " ++
    "catch (e) \x7b var j \x7d switch (a) \x7b case 1: const k = 2; var l \x7d return () => arguments \x7d"

/-- Such a script is read. -/
theorem scattered_names_known :
    ∃ p, Program.ofSource scatteredNames false = .ok p ∧ p.KnowsNames := by
  have accepted : (Program.ofSource scatteredNames false).isOk = true := by decide +kernel
  cases read : Program.ofSource scatteredNames false with
  | ok p => exact ⟨p, rfl, knows_names_of_source read⟩
  | error d =>
    rw [read] at accepted
    cases accepted

end ScriptEngine
