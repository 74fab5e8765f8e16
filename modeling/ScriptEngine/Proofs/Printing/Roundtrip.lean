import ScriptEngine.Proofs.Printing.Operations

/-!
Expressions that are printed are read again. By induction on the ways to write an expression each part of it is read
from its tokens, whatever follows that does not go on with it.
-/

namespace ScriptEngine.Grammar.Printing

/-! ## First tokens -/

/-- What the tokens of a part of an expression begin with. -/
def BeginsPhrase (ts : List Token) : Phrase → Prop
  | .expr level _ | .bare level _ => Begins level ts
  | .creation _ => BeginsNew ts
  | .items _ => Begins Level.assignment ts
  | .arguments _ => BeginsCall ts
  | .elements _ | .entries _ => True

/-- A token that is neither an operator nor `new`, and closes nothing, begins an expression wherever it stands. -/
theorem begins_any {level : Nat} {t : Token} {rest : List Token}
    (closes : t.kind ≠ .mark .closeParen ∧ t.kind ≠ .mark .closeBracket ∧ t.kind ≠ .mark .comma)
    (operator : unaryOp? t.kind = none ∧ updateOp? t.kind = none) (creation : t.kind ≠ .keyword .«new») :
    Begins level (t :: rest) :=
  ⟨t, rest, rfl, closes, fun _ => operator, fun _ => creation⟩

theorem begins_mark {level : Nat} {t : Token} {rest : List Token} (opens : t.kind = .mark .openParen ∨
    t.kind = .mark .openBracket ∨ t.kind = .mark .openBrace) : Begins level (t :: rest) := by
  rcases opens with kind | kind | kind <;>
    exact begins_any (by simp [kind]) (by simp [kind, unaryOp?, updateOp?]) (by simp [kind])

/-- What kinds of tokens are literals. -/
theorem literal_kinds {value : Literal} {t : Token} (spells : t.Spells value) :
    t.kind = .keyword .«null» ∨ t.kind = .keyword .«true» ∨ t.kind = .keyword .«false» ∨ t.kind = .number ∨
      t.kind = .string := by
  cases value with
  | null => exact .inl spells
  | boolean b =>
    cases b with
    | true => exact .inr (.inl spells)
    | false => exact .inr (.inr (.inl spells))
  | number n => exact .inr (.inr (.inr (.inl spells.1)))
  | string s => exact .inr (.inr (.inr (.inr spells.1)))

theorem begins_literal {level : Nat} {value : Literal} {t : Token} (spells : t.Spells value) : Begins level [t] := by
  rcases literal_kinds spells with kind | kind | kind | kind | kind <;>
    exact begins_any (by simp [kind]) (by simp [kind, unaryOp?, updateOp?]) (by simp [kind])

theorem begins_new {level : Nat} {ts : List Token} (begins : BeginsNew ts) (inner : level < Level.primary) :
    Begins level ts := by
  obtain ⟨t, rest, rfl, kind⟩ := begins
  refine ⟨t, rest, rfl, by simp [kind], ?_, ?_⟩
  · intro reached
    simp [kind, unaryOp?, updateOp?]
  · intro reached
    exact absurd reached (Nat.not_le.mpr inner)

/-- An operator before its operand begins what is asked for at the level of such operators, or below. -/
theorem begins_operator {t : Token} {rest : List Token}
    (closes : t.kind ≠ .mark .closeParen ∧ t.kind ≠ .mark .closeBracket ∧ t.kind ≠ .mark .comma) :
    Begins Level.unary (t :: rest) := by
  refine ⟨t, rest, rfl, closes, ?_, ?_⟩
  · intro reached
    exact absurd reached (by decide)
  · intro reached
    exact absurd reached (by decide)

theorem begins_of_printed {phrase : Phrase} {ts : List Token} (printed : Printed phrase ts) :
    BeginsPhrase ts phrase := by
  induction printed with
  | plain reaches form ih => exact Begins.below ih reaches
  | enclosed opens inner closes ih => exact begins_mark (.inl opens)
  | thisWord word => exact begins_any (by simp [word]) (by simp [word, unaryOp?, updateOp?]) (by simp [word])
  | identifier word same => exact begins_any (by simp [word]) (by simp [word, unaryOp?, updateOp?]) (by simp [word])
  | literal spells => exact begins_literal spells
  | array opens inner closes ih => exact begins_mark (.inr (.inl opens))
  | object opens inner closes ih => exact begins_mark (.inr (.inr opens))
  | member either inner point word ih => exact Begins.append ih _
  | index either inner opens within closes ih ih' => exact Begins.append ih _
  | call inner given ih ih' => exact Begins.append ih _
  | construct word inner given ih ih' => exact begins_new ⟨_, _, rfl, word⟩ (by decide)
  | creation inner ih => exact begins_new ih (by decide)
  | create word inner ih => exact ⟨_, _, rfl, word⟩
  | createAgain word inner ih => exact ⟨_, _, rfl, word⟩
  | updateBehind isTarget inner operator sameLine ih => exact (Begins.below ih (by decide)).append _
  | @updateBefore op target t ts isTarget operator inner ih =>
    exact begins_operator (by cases op <;> simp [operator, UpdateOp.kind])
  | @unary op operand t ts operator inner ih =>
    exact begins_operator (by cases op <;> simp [operator, UnaryOp.kind])
  | binary first operator second ih ih' => exact Begins.append ih _
  | logical first operator second ih ih' => exact Begins.append ih _
  | conditional first asks second parts third ih ih' ih'' => exact (Begins.below ih (by decide)).append _
  | assign isTarget first operator second ih ih' => exact (Begins.below ih (by decide)).append _
  | sequence begins separates goesOn ih ih' => exact (Begins.below ih (by decide)).append _
  | oneItem only ih => exact ih
  | moreItems begins separates goesOn ih ih' => exact Begins.append ih _
  | noArguments opens closes => exact ⟨_, _, rfl, opens⟩
  | someArguments opens inner closes ih => exact ⟨_, _, rfl, opens⟩
  | noElements | elision | lastElement | moreElements | noEntries | lastEntry | moreEntries => trivial

/-! ## Arrows -/

theorem no_arrow_spells {value : Literal} {t : Token} (spells : t.Spells value) : t.kind ≠ .mark .arrow := by
  rcases literal_kinds spells with kind | kind | kind | kind | kind <;> simp [kind]

theorem no_arrow_word {t : Token} {text : String} (word : t.IsWord text) : t.kind ≠ .mark .arrow := by
  rcases word with ⟨kind | ⟨k, kind⟩, -⟩ <;> simp [kind]

theorem no_arrow_key {t : Token} {key : String} (names : t.IsKey key) : t.kind ≠ .mark .arrow := by
  rcases names with word | ⟨kind, -⟩ | ⟨kind, -⟩
  · exact no_arrow_word word
  · simp [kind]
  · simp [kind]

theorem no_arrow_assignment {op : Option BinaryOp} {kind : TokenKind} (assigns : assignmentKind? op = some kind) :
    kind ≠ .mark .arrow := by
  cases op with
  | none =>
    cases assigns
    decide
  | some op => cases op <;> cases assigns <;> decide

/-- Nothing that is printed has an arrow in it. -/
theorem no_arrow_printed {phrase : Phrase} {ts : List Token} (printed : Printed phrase ts) :
    ∀ t ∈ ts, t.kind ≠ .mark .arrow := by
  induction printed with
  | plain reaches form ih => exact ih
  | creation inner ih => exact ih
  | oneItem only ih => exact ih
  | lastElement only ih => exact ih
  | noElements | noEntries => exact List.forall_mem_nil _
  | thisWord word | identifier word same => simp [word]
  | literal spells => exact List.forall_mem_singleton.mpr (no_arrow_spells spells)
  | noArguments opens closes => simp [opens, closes]
  | create word inner ih | createAgain word inner ih => exact List.forall_mem_cons.mpr ⟨by simp [word], ih⟩
  | elision separates goesOn ih => exact List.forall_mem_cons.mpr ⟨by simp [separates], ih⟩
  | @updateBefore op target t ts isTarget operator inner ih =>
    exact List.forall_mem_cons.mpr ⟨by cases op <;> simp [operator, UpdateOp.kind], ih⟩
  | @unary op operand t ts operator inner ih =>
    exact List.forall_mem_cons.mpr ⟨by cases op <;> simp [operator, UnaryOp.kind], ih⟩
  | @updateBehind op target t ts isTarget inner operator sameLine ih =>
    have other : t.kind ≠ .mark .arrow := by cases op <;> simp [operator, UpdateOp.kind]
    exact List.forall_mem_append.mpr ⟨ih, List.forall_mem_singleton.mpr other⟩
  | call inner given ih ih' => exact List.forall_mem_append.mpr ⟨ih, ih'⟩
  | construct word inner given ih ih' =>
    exact List.forall_mem_cons.mpr ⟨by simp [word], List.forall_mem_append.mpr ⟨ih, ih'⟩⟩
  | enclosed opens inner closes ih | array opens inner closes ih | object opens inner closes ih
  | someArguments opens inner closes ih =>
    simp only [List.forall_mem_cons, List.forall_mem_append]
    exact ⟨by simp [opens], ih, by simp [closes]⟩
  | member either inner point word ih =>
    simp only [List.forall_mem_cons, List.forall_mem_append]
    exact ⟨ih, by simp [point], no_arrow_word word, List.forall_mem_nil _⟩
  | index either inner opens within closes ih ih' =>
    simp only [List.forall_mem_cons, List.forall_mem_append]
    exact ⟨ih, by simp [opens], ih', by simp [closes]⟩
  | @binary op left right t ts us first operator second ih ih' =>
    simp only [List.forall_mem_cons, List.forall_mem_append]
    exact ⟨ih, by cases op <;> simp [operator, BinaryOp.kind], ih'⟩
  | @logical op left right t ts us first operator second ih ih' =>
    simp only [List.forall_mem_cons, List.forall_mem_append]
    exact ⟨ih, by cases op <;> simp [operator, LogicalOp.kind], ih'⟩
  | conditional first asks second parts third ih ih' ih'' =>
    simp only [List.forall_mem_cons, List.forall_mem_append]
    exact ⟨ih, by simp [asks], ih', by simp [parts], ih''⟩
  | assign isTarget first operator second ih ih' =>
    simp only [List.forall_mem_cons, List.forall_mem_append]
    exact ⟨ih, no_arrow_assignment operator, ih'⟩
  | sequence begins separates goesOn ih ih' | moreItems begins separates goesOn ih ih'
  | moreElements begins separates goesOn ih ih' =>
    simp only [List.forall_mem_cons, List.forall_mem_append]
    exact ⟨ih, by simp [separates], ih'⟩
  | lastEntry names parts only ih =>
    simp only [List.forall_mem_cons]
    exact ⟨no_arrow_key names, by simp [parts], ih⟩
  | moreEntries names parts begins separates goesOn ih ih' =>
    simp only [List.forall_mem_cons, List.forall_mem_append]
    exact ⟨no_arrow_key names, by simp [parts], ih, by simp [separates], ih'⟩

/-! ## Reading -/

/-- A part of an expression is read from its tokens. -/
def ReadsPhrase (ts : List Token) : Phrase → Prop
  | .expr level e => ReadsAt level e.form ts
  | .bare level form => ReadsAt level form ts
  | .creation form => ReadsBy newExpression (Ends Level.creation) form ts
  | .items items => ReadsItems items ts
  | .arguments items => ReadsArguments items ts
  | .elements elements => ReadsElements elements ts
  | .entries entries => ReadsEntries entries ts

/-- What stands in parentheses is read wherever it stands. -/
theorem reads_anywhere {level : Nat} {form : ExprForm} {ts : List Token} (begins : Begins Level.primary ts)
    (reads : ReadsPrimary form ts) : ReadsAt level form ts := by
  by_cases below : level ≤ Level.primary
  · exact ReadsAt.below below begins reads
  · obtain ⟨n, rfl⟩ : ∃ n, level = n + 18 := Nat.exists_eq_add_of_le' (Nat.le_of_lt (Nat.not_le.mp below))
    exact reads

theorem binary_precedence (op : BinaryOp) : 1 ≤ op.precedence ∧ op.precedence ≤ 10 := by
  cases op <;> decide

theorem logical_precedence (op : LogicalOp) : 1 ≤ op.precedence ∧ op.precedence ≤ 10 := by
  cases op <;> decide

/-- An operator between operands that are read at its level, and at the next one behind it, is read at its level. -/
theorem reads_between {op : InfixOp} {p : Nat} {left right : Expr} {t : Token} {ts us : List Token}
    (operator : infixOp? false t.kind = some (p, op)) (bounds : 1 ≤ p ∧ p ≤ 10)
    (first : ReadsAt (Level.operation p) left.form ts) (second : ReadsAt (Level.operation (p + 1)) right.form us) :
    ReadsAt (Level.operation p) (op.apply left right).form (ts ++ t :: us) := by
  obtain ⟨operates, binds⟩ := bounds
  have one : ReadsOperand p left.form ts := first.operand operates (by omega)
  have other : ReadsOperand (p + 1) right.form us := second.operand (by omega) (by omega)
  exact (reads_operation one operator other).reads operates binds

/-- What is written as a part of an expression is read as that part. -/
theorem reads_of_printed {phrase : Phrase} {ts : List Token} (printed : Printed phrase ts) :
    ReadsPhrase ts phrase := by
  induction printed with
  | plain reaches form ih => exact ReadsAt.below reaches (begins_of_printed form) ih
  | @enclosed required e opening closing ts opens inner closes ih =>
    exact reads_anywhere (begins_mark (.inl opens)) (reads_enclosed opens ih closes)
  | thisWord word => exact reads_this word
  | identifier word same => exact reads_identifier word same
  | literal spells => exact reads_literal spells
  | array opens inner closes ih => exact reads_array opens ih closes
  | object opens inner closes ih => exact reads_object opens ih closes
  | member either inner point word ih => exact reads_suffix (reads_point point word) ⟨_, _, rfl, .inl point⟩ either ih
  | index either inner opens within closes ih ih' =>
    exact reads_suffix (reads_key opens ih' closes) ⟨_, _, rfl, .inr opens⟩ either ih
  | call inner given ih ih' => exact reads_call ih ih' (begins_of_printed given)
  | construct word inner given ih ih' =>
    exact member_of_construct ⟨_, _, rfl, word⟩ (reads_construct ih.1 ih' (begins_of_printed given))
  | creation inner ih => exact target_of_creation (begins_of_printed inner) ih
  | create word inner ih => exact reads_create_member ih.1
  | createAgain word inner ih => exact reads_create_again (begins_of_printed inner) ih
  | updateBehind isTarget inner operator sameLine ih => exact reads_update_behind isTarget operator ih sameLine
  | updateBefore isTarget operator inner ih => exact reads_update_before isTarget operator ih
  | unary operator inner ih => exact reads_unary operator ih
  | @binary op left right t ts us first operator second ih ih' =>
    exact reads_between (by rw [operator, binary_kind]) (binary_precedence op) ih ih'
  | @logical op left right t ts us first operator second ih ih' =>
    exact reads_between (by rw [operator, logical_kind]) (logical_precedence op) ih ih'
  | conditional first asks second parts third ih ih' ih'' => exact reads_conditional ih asks ih' parts ih''
  | assign isTarget first operator second ih ih' =>
    have below : Level.operation 1 ≤ Level.creation := by decide
    exact reads_assign isTarget (ReadsAt.below below (begins_of_printed first) ih) operator ih'
  | sequence begins separates goesOn ih ih' => exact reads_sequence ih separates ih'
  | oneItem only ih => exact reads_one_item ih
  | moreItems begins separates goesOn ih ih' => exact reads_more_items ih separates ih'
  | noArguments opens closes => exact reads_no_arguments opens closes
  | someArguments opens inner closes ih => exact reads_some_arguments (begins_of_printed inner) opens ih closes
  | noElements => exact reads_no_elements
  | elision separates goesOn ih => exact reads_elision separates ih
  | lastElement only ih => exact reads_last_element (begins_of_printed only) ih
  | moreElements begins separates goesOn ih ih' => exact reads_more_elements (begins_of_printed begins) ih separates ih'
  | noEntries => exact reads_no_entries
  | lastEntry names parts only ih => exact reads_last_entry names parts ih
  | moreEntries names parts begins separates goesOn ih ih' => exact reads_more_entries names parts ih separates ih'

end ScriptEngine.Grammar.Printing
