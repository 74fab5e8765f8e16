import ScriptEngine.Proofs.Printing.Layers

/-!
How each form of expression is read from the tokens that it is written as, once its parts are.
-/

namespace ScriptEngine.Grammar.Printing

/-! ## Literals, names and parentheses -/

/-- An expression is complete when its form is known. -/
theorem passes_complete {form : ExprForm} {rest : List Token} (start : Nat) {read : ExprForm}
    (same : read.erased = form.erased) :
    Passes rest rest (do return (⟨read, ← spanFrom start⟩ : Expr)) (·.Matches form) :=
  (passes_span_from start).bind fun _ _ => .pure same

theorem reads_this {t : Token} (word : t.kind = .keyword .«this») : ReadsPrimary .this [t] := by
  intro levels next after room _
  refine passes_peek.bind fun token there => ?_
  subst there
  extract_lets complete name number string
  rw [word]
  exact (passes_over (by simp)).bind fun _ _ => passes_complete _ rfl

theorem reads_identifier {name : String} {t : Token} (word : t.kind = .identifier) (same : t.lexeme = name) :
    ReadsPrimary (.identifier name) [t] := by
  subst same
  intro levels next after room _
  refine passes_peek.bind fun token there => ?_
  subst there
  extract_lets complete name number string
  rw [word]
  refine (passes_over (by simp)).bind fun _ _ => .ite ?_ (passes_complete _ rfl)
  exact passes_mention_arguments.bind fun _ _ => passes_complete _ rfl

theorem reads_literal {value : Literal} {t : Token} (spells : t.Spells value) : ReadsPrimary (.literal value) [t] := by
  intro levels next after room _
  refine passes_peek.bind fun token there => ?_
  subst there
  extract_lets complete name number string
  have completed (form : ExprForm) : Passes (next :: after) (next :: after) (complete form) (·.Matches form) :=
    passes_complete _ rfl
  cases value with
  | null =>
    have word : token.kind = .keyword .«null» := spells
    rw [word]
    exact (passes_over (by simp)).bind fun _ _ => completed _
  | boolean b =>
    cases b with
    | true =>
      have word : token.kind = .keyword .«true» := spells
      rw [word]
      exact (passes_over (by simp)).bind fun _ _ => completed _
    | false =>
      have word : token.kind = .keyword .«false» := spells
      rw [word]
      exact (passes_over (by simp)).bind fun _ _ => completed _
  | number n =>
    obtain ⟨word, rfl⟩ := spells
    rw [word]
    refine (passes_over (by simp)).bind fun _ _ => passes_is_strict.bind fun strict sloppy => ?_
    exact .ite_false (by simp [sloppy]) (completed _)
  | string s =>
    obtain ⟨word, rfl⟩ := spells
    rw [word]
    refine (passes_over (by simp)).bind fun _ _ => passes_is_strict.bind fun strict sloppy => ?_
    exact .ite_false (by simp [sloppy]) (completed _)

theorem append_enclosed (ts rest : List Token) (opening closing : Token) :
    opening :: (ts ++ [closing]) ++ rest = opening :: (ts ++ closing :: rest) := by
  simp

theorem reads_enclosed {form : ExprForm} {opening closing : Token} {ts : List Token}
    (opens : opening.kind = .mark .openParen) (inner : ReadsExpression form ts)
    (closes : closing.kind = .mark .closeParen) : ReadsPrimary form (opening :: (ts ++ [closing])) := by
  intro levels next after room _
  simp only [List.length_cons, List.length_append, List.length_nil] at room
  rw [append_enclosed]
  refine passes_peek.bind fun token there => ?_
  subst there
  extract_lets complete name number string
  rw [opens]
  refine (passes_over (by simp)).bind fun _ _ => ?_
  have within : ts.length + (next :: after).length + 1 < levels := by
    rw [List.length_cons]
    omega
  refine (inner levels closing (next :: after) within (ends_before _ (by simp [closes]))).bind fun e same => ?_
  exact (passes_expect closes _ (by simp)).bind fun _ _ => .pure same

/-! ## Lists -/

/-- From tokens expressions with commas between them are read. -/
def ReadsItems (items : List Expr) (ts : List Token) : Prop :=
  ∀ levels fuel done next after, ts.length + after.length + 1 < levels → ts.length < fuel →
    Ends Level.sequence next →
    Passes (ts ++ next :: after) (next :: after) (readSeparated fuel ((rulesFor levels).assignment false) done)
      fun read => ∃ later, read = done.reverse ++ later ∧ erasedItems later = erasedItems items

theorem reads_one_item {e : Expr} {ts : List Token} (only : ReadsAssignment e.form ts) : ReadsItems [e] ts := by
  intro levels fuel done next after room lasts ends
  obtain ⟨k, rfl⟩ : ∃ k, fuel = k + 1 := ⟨fuel - 1, by omega⟩
  refine (only.assignment_rule room (ends.above (Nat.zero_le _))).bind fun read same => ?_
  refine (passes_no_accept (ends.comma rfl)).bind fun comma found => .ite_false (by simp [found]) (.pure ?_)
  exact ⟨[read], by simp, by simp [erasedItems, same.erased]⟩

theorem reads_more_items {e : Expr} {rest : List Expr} {comma : Token} {ts us : List Token}
    (begins : ReadsAssignment e.form ts) (separates : comma.kind = .mark .comma) (goesOn : ReadsItems rest us) :
    ReadsItems (e :: rest) (ts ++ comma :: us) := by
  intro levels fuel done next after room lasts ends
  obtain ⟨k, rfl⟩ : ∃ k, fuel = k + 1 := ⟨fuel - 1, by omega⟩
  simp only [List.length_append, List.length_cons] at room lasts
  rw [append_between]
  have follows : Ends Level.assignment comma := ends_before_comma (Nat.le_refl _) separates
  refine (begins.assignment_rule (by simp; omega) follows).bind fun read same => ?_
  refine (passes_accept separates (by simp)).bind fun comma found => .ite_true found ?_
  refine (goesOn levels k (read :: done) next after (by omega) (by omega) ends).weaken fun items there => ?_
  obtain ⟨later, rfl, others⟩ := there
  exact ⟨read :: later, by simp, by simp [erasedItems, same.erased, others]⟩

/-- From tokens the arguments of a call are read. -/
def ReadsArguments (items : List Expr) (ts : List Token) : Prop :=
  ∀ levels next after, ts.length + after.length < levels →
    Passes (ts ++ next :: after) (next :: after) (argumentList (rulesFor levels)) (erasedItems · = erasedItems items)

theorem reads_no_arguments {opening closing : Token} (opens : opening.kind = .mark .openParen)
    (closes : closing.kind = .mark .closeParen) : ReadsArguments [] [opening, closing] := by
  intro levels next after room
  refine (passes_expect opens _ (by simp)).bind fun _ _ => (passes_check _).bind fun closed found => ?_
  extract_lets finish
  have finished : Passes (closing :: next :: after) (next :: after) (finish []) (erasedItems · = erasedItems []) :=
    (passes_expect closes _ (by simp)).bind fun _ _ => .pure rfl
  exact .ite_true (by simp [found, closes]) finished

theorem reads_some_arguments {items : List Expr} {opening closing : Token} {ts : List Token}
    (begins : Begins Level.assignment ts) (opens : opening.kind = .mark .openParen) (inner : ReadsItems items ts)
    (closes : closing.kind = .mark .closeParen) : ReadsArguments items (opening :: (ts ++ [closing])) := by
  obtain ⟨first, rest, same, starts⟩ := begins
  intro levels next after room
  simp only [List.length_cons, List.length_append, List.length_nil] at room
  rw [append_enclosed]
  refine (passes_expect opens _ (by simp)).bind fun _ _ => ?_
  extract_lets finish
  have read : Passes (ts ++ closing :: next :: after) (closing :: next :: after)
      (readSeparated (rulesFor levels).levels ((rulesFor levels).assignment false) [])
      (erasedItems · = erasedItems items) := by
    rw [levels_rules_for]
    refine (inner levels levels [] closing (next :: after) (by simp; omega) (by omega)
      (ends_before _ (by simp [closes]))).weaken fun items there => ?_
    obtain ⟨later, rfl, same⟩ := there
    exact same
  have finished (read : List Expr) (same : erasedItems read = erasedItems items) :
      Passes (closing :: next :: after) (next :: after) (finish read) (erasedItems · = erasedItems items) :=
    (passes_expect closes _ (by simp)).bind fun _ _ => .pure same
  have notClosed : Passes (ts ++ closing :: next :: after) (ts ++ closing :: next :: after)
      (checkMark .closeParen) (· = false) := by
    subst same
    exact (passes_check _).weaken fun closed found => by simp [found, starts.closes]
  exact notClosed.bind fun closed found => .ite_false (by simp [found]) (read.bind finished)

/-! ## Arrays -/

/-- From tokens, with a closing bracket behind them, the elements of an array are read. -/
def ReadsElements (elements : List (Option Expr)) (ts : List Token) : Prop :=
  ∀ levels fuel done closing next after, ts.length + after.length + 2 < levels → ts.length < fuel →
    closing.kind = .mark .closeBracket →
    Passes (ts ++ closing :: next :: after) (next :: after) (arrayElements (rulesFor levels) fuel done)
      fun read => ∃ later, read = done.reverse ++ later ∧ erasedElements later = erasedElements elements

theorem reads_no_elements : ReadsElements [] [] := by
  intro levels fuel done closing next after room lasts closes
  obtain ⟨k, rfl⟩ : ∃ k, fuel = k + 1 := ⟨fuel - 1, by omega⟩
  refine (passes_accept closes (by simp)).bind fun closed found => .ite_true found (.pure ?_)
  exact ⟨[], by simp, rfl⟩

theorem reads_elision {rest : List (Option Expr)} {comma : Token} {us : List Token}
    (separates : comma.kind = .mark .comma) (goesOn : ReadsElements rest us) :
    ReadsElements (none :: rest) (comma :: us) := by
  intro levels fuel done closing next after room lasts closes
  obtain ⟨k, rfl⟩ : ∃ k, fuel = k + 1 := ⟨fuel - 1, by omega⟩
  simp only [List.length_cons] at room lasts
  refine (passes_no_accept (by simp [separates])).bind fun closed found => .ite_false (by simp [found]) ?_
  refine (passes_accept separates (by simp)).bind fun left found => .ite_true found ?_
  refine (goesOn levels k (none :: done) closing next after (by omega) (by omega) closes).weaken fun read there => ?_
  obtain ⟨later, rfl, same⟩ := there
  exact ⟨none :: later, by simp, congrArg (none :: ·) same⟩

/-- An element goes on with the ones behind it after a comma or before the closing bracket. -/
theorem reads_element {e : Expr} {ts rest left : List Token} {next : Token} {levels fuel : Nat}
    {done : List (Option Expr)} {good : List (Option Expr) → Prop} (begins : Begins Level.assignment ts)
    (element : ReadsAssignment e.form ts) (room : ts.length + rest.length + 1 < levels)
    (ends : next.kind = .mark .closeBracket ∨ next.kind = .mark .comma)
    (goesOn : ∀ read : Expr, read.Matches e.form → Passes (next :: rest) left (do
      unless ← checkMark .closeBracket do
        expectMark .comma "`,` or `]` in array literal"
      arrayElements (rulesFor levels) fuel (some read :: done)) good) :
    Passes (ts ++ next :: rest) left (arrayElements (rulesFor levels) (fuel + 1) done) good := by
  have follows : Ends Level.assignment next := by
    rcases ends with closes | separates
    · exact ends_before _ (by simp [closes])
    · exact ends_before_comma (Nat.le_refl _) separates
  have read := element.assignment_rule room follows
  obtain ⟨first, others, rfl, starts⟩ := begins
  refine (passes_no_accept starts.closes.2.1).bind fun closed found => .ite_false (by simp [found]) ?_
  refine (passes_no_accept starts.closes.2.2).bind fun comma found => .ite_false (by simp [found]) ?_
  exact read.bind goesOn

theorem reads_last_element {e : Expr} {ts : List Token} (begins : Begins Level.assignment ts)
    (only : ReadsAssignment e.form ts) : ReadsElements [some e] ts := by
  intro levels fuel done closing next after room lasts closes
  have some : 0 < ts.length := by
    obtain ⟨first, rest, rfl, -⟩ := begins
    simp
  obtain ⟨k, rfl⟩ : ∃ k, fuel = k + 1 := ⟨fuel - 1, by omega⟩
  refine reads_element begins only (by simp; omega) (.inl closes) fun read same => ?_
  refine (passes_check _).bind fun closed found => ?_
  extract_lets finish
  refine .ite_true (by simp [found, closes]) ?_
  refine (reads_no_elements levels k (.some read :: done) closing next after (by simp; omega) (by simp; omega)
    closes).weaken fun read' there => ?_
  obtain ⟨later, rfl, others⟩ := there
  exact ⟨.some read :: later, by simp, by simp [erasedElements, same.erased, others]⟩

theorem reads_more_elements {e : Expr} {rest : List (Option Expr)} {comma : Token} {ts us : List Token}
    (begins : Begins Level.assignment ts) (element : ReadsAssignment e.form ts)
    (separates : comma.kind = .mark .comma) (goesOn : ReadsElements rest us) :
    ReadsElements (some e :: rest) (ts ++ comma :: us) := by
  intro levels fuel done closing next after room lasts closes
  obtain ⟨k, rfl⟩ : ∃ k, fuel = k + 1 := ⟨fuel - 1, by omega⟩
  simp only [List.length_append, List.length_cons] at room lasts
  rw [append_between]
  refine reads_element begins element (by simp; omega) (.inr separates) fun read same => ?_
  refine (passes_check _).bind fun closed found => ?_
  extract_lets finish
  refine .ite_false (by simp [found, separates]) ?_
  refine (passes_expect separates _ (by simp)).bind fun _ _ => ?_
  refine (goesOn levels k (some read :: done) closing next after (by omega) (by omega)
    closes).weaken fun read' there => ?_
  obtain ⟨later, rfl, others⟩ := there
  exact ⟨some read :: later, by simp, by simp [erasedElements, same.erased, others]⟩

theorem reads_array {elements : List (Option Expr)} {opening closing : Token} {ts : List Token}
    (opens : opening.kind = .mark .openBracket) (inner : ReadsElements elements ts)
    (closes : closing.kind = .mark .closeBracket) : ReadsPrimary (.array elements) (opening :: (ts ++ [closing])) := by
  intro levels next after room _
  simp only [List.length_cons, List.length_append, List.length_nil] at room
  rw [append_enclosed]
  refine passes_peek.bind fun token there => ?_
  subst there
  extract_lets complete name number string
  rw [opens]
  refine (passes_over (by simp)).bind fun _ _ => ?_
  rw [levels_rules_for]
  refine (inner levels levels [] closing next after (by omega) (by omega) closes).bind fun read there => ?_
  obtain ⟨later, rfl, same⟩ := there
  exact passes_complete _ (congrArg ExprForm.array same)

/-! ## Objects -/

theorem passes_property_name {t : Token} {key : String} {rest : List Token} (names : t.IsKey key) (more : rest ≠ []) :
    Passes (t :: rest) rest propertyName (· = key) := by
  refine (passes_advance more).bind fun token there => ?_
  subst there
  rcases names with ⟨word | ⟨k, word⟩, rfl⟩ | ⟨word, rfl⟩ | ⟨word, rfl⟩
  · rw [word]; exact .pure rfl
  · rw [word]; exact .pure rfl
  · rw [word]; exact .pure rfl
  · rw [word]; exact .pure rfl

/-- From tokens, with a closing brace behind them, the properties of an object are read. -/
def ReadsEntries (entries : List Entry) (ts : List Token) : Prop :=
  ∀ levels fuel done closing next after, ts.length + after.length + 2 < levels → ts.length < fuel →
    closing.kind = .mark .closeBrace →
    Passes (ts ++ closing :: next :: after) (next :: after) (objectEntries (rulesFor levels) fuel done)
      fun read => ∃ later, read = done.reverse ++ later ∧ erasedEntries later = erasedEntries entries

/-- What is read of a property is what was written, up to spans. -/
def SameEntry (key : String) (e : Expr) (entry : Entry) : Prop :=
  ∃ value span, entry = ⟨key, .value value, span⟩ ∧ value.Matches e.form

/-- A name with a colon behind it begins no accessor, be it `get` or `set`. -/
theorem reads_entry {key : String} {e : Expr} {name colon next : Token} {ts rest : List Token} {levels : Nat}
    (names : name.IsKey key) (parts : colon.kind = .mark .colon) (value : ReadsAssignment e.form ts)
    (room : ts.length + rest.length + 1 < levels) (ends : Ends Level.assignment next) :
    Passes (name :: colon :: (ts ++ next :: rest)) (next :: rest) (objectEntry (rulesFor levels))
      (SameEntry key e) := by
  refine Passes.get.bind fun s faces => ?_
  extract_lets token start isGetter
  have ordinary : endsPropertyName (s.tokenAt 1).kind = true := by
    have behind : s.tokenAt 1 = colon := by simp [ReadingState.tokenAt, faces_upcoming faces]
    simp [behind, parts, endsPropertyName]
  refine .ite_false (by simp [ordinary]) ?_
  refine (passes_property_name names (by simp)).bind fun text same => ?_
  subst same
  refine (passes_expect parts _ (by simp)).bind fun _ _ => ?_
  refine (value.assignment_rule room ends).bind fun read same => ?_
  exact (passes_span_from _).bind fun span _ => .pure ⟨read, span, rfl, same⟩

theorem reads_no_entries : ReadsEntries [] [] := by
  intro levels fuel done closing next after room lasts closes
  obtain ⟨k, rfl⟩ : ∃ k, fuel = k + 1 := ⟨fuel - 1, by omega⟩
  refine (passes_accept closes (by simp)).bind fun closed found => .ite_true found (.pure ?_)
  exact ⟨[], by simp, rfl⟩

/-- The name of a property is no closing brace. -/
theorem key_closes_nothing {t : Token} {key : String} (names : t.IsKey key) : t.kind ≠ .mark .closeBrace := by
  rcases names with ⟨word | ⟨k, word⟩, -⟩ | ⟨word, -⟩ | ⟨word, -⟩ <;> simp [word]

theorem reads_last_entry {key : String} {e : Expr} {span : Span} {name colon : Token} {ts : List Token}
    (names : name.IsKey key) (parts : colon.kind = .mark .colon) (only : ReadsAssignment e.form ts) :
    ReadsEntries [⟨key, .value e, span⟩] (name :: colon :: ts) := by
  intro levels fuel done closing next after room lasts closes
  obtain ⟨k, rfl⟩ : ∃ k, fuel = k + 1 := ⟨fuel - 1, by omega⟩
  simp only [List.length_cons] at room lasts
  refine (passes_no_accept (key_closes_nothing names)).bind fun closed found => .ite_false (by simp [found]) ?_
  refine (reads_entry names parts only (by simp; omega) (ends_before _ (by simp [closes]))).bind fun entry there => ?_
  obtain ⟨value, span', rfl, same⟩ := there
  refine (passes_check _).bind fun closed found => ?_
  extract_lets finish
  refine .ite_true (by simp [found, closes]) ?_
  refine (reads_no_entries levels k (_ :: done) closing next after (by simp; omega) (by simp; omega)
    closes).weaken fun read there => ?_
  obtain ⟨later, rfl, others⟩ := there
  exact ⟨⟨key, .value value, span'⟩ :: later, by simp, by simp [erasedEntries, same.erased, others]⟩

theorem reads_more_entries {key : String} {e : Expr} {span : Span} {rest : List Entry} {name colon comma : Token}
    {ts us : List Token} (names : name.IsKey key) (parts : colon.kind = .mark .colon)
    (value : ReadsAssignment e.form ts) (separates : comma.kind = .mark .comma) (goesOn : ReadsEntries rest us) :
    ReadsEntries (⟨key, .value e, span⟩ :: rest) (name :: colon :: (ts ++ comma :: us)) := by
  intro levels fuel done closing next after room lasts closes
  obtain ⟨k, rfl⟩ : ∃ k, fuel = k + 1 := ⟨fuel - 1, by omega⟩
  simp only [List.length_cons, List.length_append] at room lasts
  rw [List.cons_append, List.cons_append, append_between]
  refine (passes_no_accept (key_closes_nothing names)).bind fun closed found => .ite_false (by simp [found]) ?_
  have ends : Ends Level.assignment comma := ends_before_comma (Nat.le_refl _) separates
  refine (reads_entry names parts value (by simp; omega) ends).bind fun entry there => ?_
  obtain ⟨read, span', rfl, same⟩ := there
  refine (passes_check _).bind fun closed found => ?_
  extract_lets finish
  refine .ite_false (by simp [found, separates]) ?_
  refine (passes_expect separates _ (by simp)).bind fun _ _ => ?_
  refine (goesOn levels k (_ :: done) closing next after (by omega) (by omega) closes).weaken fun read' there => ?_
  obtain ⟨later, rfl, others⟩ := there
  exact ⟨⟨key, .value read, span'⟩ :: later, by simp, by simp [erasedEntries, same.erased, others]⟩

theorem reads_object {entries : List Entry} {opening closing : Token} {ts : List Token}
    (opens : opening.kind = .mark .openBrace) (inner : ReadsEntries entries ts)
    (closes : closing.kind = .mark .closeBrace) : ReadsPrimary (.object entries) (opening :: (ts ++ [closing])) := by
  intro levels next after room _
  simp only [List.length_cons, List.length_append, List.length_nil] at room
  rw [append_enclosed]
  refine passes_peek.bind fun token there => ?_
  subst there
  extract_lets complete name number string
  rw [opens]
  refine (passes_over (by simp)).bind fun _ _ => ?_
  rw [levels_rules_for]
  refine (inner levels levels [] closing next after (by omega) (by omega) closes).bind fun read there => ?_
  obtain ⟨later, rfl, same⟩ := there
  exact passes_complete _ (congrArg ExprForm.object same)

end ScriptEngine.Grammar.Printing
