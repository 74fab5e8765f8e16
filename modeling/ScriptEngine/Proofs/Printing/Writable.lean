import ScriptEngine.Proofs.Printing.Roundtrip

/-!
Every expression of literals, names, data and operators can be written as tokens, and whatever way it is written, it is
read back from them, up to spans.
-/

namespace ScriptEngine

/-! ## Expressions that can be written -/

/-- Expressions without functions in them, whose numbers have a spelling. Names and properties alone are assigned and
updated, and commas stand between at least two expressions. -/
inductive Expr.Writable : Expr → Prop where
  | literal {value : Literal} {span : Span} (spelled : ∃ t : Token, t.Spells value) : Writable ⟨.literal value, span⟩
  | identifier {name : String} {span : Span} : Writable ⟨.identifier name, span⟩
  | thisObject {span : Span} : Writable ⟨.this, span⟩
  | array {elements : List (Option Expr)} {span : Span} (each : ∀ e, some e ∈ elements → Writable e) :
      Writable ⟨.array elements, span⟩
  | object {entries : List Entry} {span : Span} (data : ∀ entry ∈ entries, ∃ e, entry.value = .value e)
      (each : ∀ entry ∈ entries, ∀ e, entry.value = .value e → Writable e) : Writable ⟨.object entries, span⟩
  | member {object : Expr} {name : String} {span : Span} (inner : Writable object) :
      Writable ⟨.member object name, span⟩
  | index {object key : Expr} {span : Span} (inner : Writable object) (within : Writable key) :
      Writable ⟨.index object key, span⟩
  | call {callee : Expr} {items : List Expr} {span : Span} (inner : Writable callee) (given : ∀ e ∈ items, Writable e) :
      Writable ⟨.call callee items, span⟩
  | construct {callee : Expr} {items : List Expr} {span : Span} (inner : Writable callee)
      (given : ∀ e ∈ items, Writable e) : Writable ⟨.construct callee items, span⟩
  | update {op : UpdateOp} {operatorFirst : Bool} {target : Expr} {span : Span} (isTarget : target.form.IsTarget)
      (inner : Writable target) : Writable ⟨.update op operatorFirst target, span⟩
  | unary {op : UnaryOp} {operand : Expr} {span : Span} (inner : Writable operand) : Writable ⟨.unary op operand, span⟩
  | binary {op : BinaryOp} {left right : Expr} {span : Span} (first : Writable left) (second : Writable right) :
      Writable ⟨.binary op left right, span⟩
  | logical {op : LogicalOp} {left right : Expr} {span : Span} (first : Writable left) (second : Writable right) :
      Writable ⟨.logical op left right, span⟩
  | conditional {test yes no : Expr} {span : Span} (first : Writable test) (second : Writable yes)
      (third : Writable no) : Writable ⟨.conditional test yes no, span⟩
  | assign {op : Option BinaryOp} {target value : Expr} {kind : TokenKind} {span : Span}
      (assigns : assignmentKind? op = some kind) (isTarget : target.form.IsTarget) (first : Writable target)
      (second : Writable value) : Writable ⟨.assign op target value, span⟩
  | sequence {first second : Expr} {rest : List Expr} {span : Span}
      (each : ∀ e ∈ first :: second :: rest, Writable e) : Writable ⟨.sequence (first :: second :: rest), span⟩

/-- A token of a kind on the same line as the one before it. -/
def Token.ofKind (kind : TokenKind) (lexeme : String) : Token :=
  ⟨kind, lexeme, ⟨0, 0⟩, false, false⟩

/-- There is a way to write a part of an expression. -/
def Phrase.HasPrint (phrase : Phrase) : Prop :=
  ∃ ts, Printed phrase ts

/-- There is a way to write an expression at any place. -/
def Expr.HasPrints (e : Expr) : Prop :=
  ∀ required, (Phrase.expr required e).HasPrint

/-- What does not reach the level that its place asks for is put in parentheses. -/
theorem has_prints_of_bare {e : Expr} {level : Nat} {ts : List Token} (printed : Printed (.bare level e.form) ts) :
    e.HasPrints := by
  intro required
  by_cases reaches : required ≤ level
  · exact ⟨ts, .plain reaches printed⟩
  · have inner : Printed (.expr Level.sequence e) ts := .plain (Nat.zero_le level) printed
    let opening := Token.ofKind (.mark .openParen) "("
    let closing := Token.ofKind (.mark .closeParen) ")"
    exact ⟨opening :: (ts ++ [closing]), .enclosed rfl inner rfl⟩

theorem has_print_items {items : List Expr} (some : items ≠ []) (each : ∀ e ∈ items, e.HasPrints) :
    (Phrase.items items).HasPrint := by
  induction items with
  | nil => exact absurd rfl some
  | cons e rest ih =>
    obtain ⟨ts, first⟩ := each e (.head _) Level.assignment
    cases rest with
    | nil => exact ⟨ts, .oneItem first⟩
    | cons second rest =>
      obtain ⟨us, others⟩ := ih (List.cons_ne_nil _ _) fun e mem => each e (.tail _ mem)
      let comma := Token.ofKind (.mark .comma) ","
      exact ⟨ts ++ comma :: us, .moreItems first rfl others⟩

theorem has_print_arguments {items : List Expr} (each : ∀ e ∈ items, e.HasPrints) :
    (Phrase.arguments items).HasPrint := by
  let opening := Token.ofKind (.mark .openParen) "("
  let closing := Token.ofKind (.mark .closeParen) ")"
  cases items with
  | nil => exact ⟨[opening, closing], .noArguments rfl rfl⟩
  | cons e rest =>
    obtain ⟨ts, inner⟩ := has_print_items (List.cons_ne_nil e rest) each
    exact ⟨opening :: (ts ++ [closing]), .someArguments rfl inner rfl⟩

theorem has_print_elements {elements : List (Option Expr)} (each : ∀ e, some e ∈ elements → e.HasPrints) :
    (Phrase.elements elements).HasPrint := by
  induction elements with
  | nil => exact ⟨[], .noElements⟩
  | cons element rest ih =>
    obtain ⟨us, others⟩ := ih fun e mem => each e (.tail _ mem)
    let comma := Token.ofKind (.mark .comma) ","
    cases element with
    | none => exact ⟨comma :: us, .elision rfl others⟩
    | some e =>
      obtain ⟨ts, first⟩ := each e (.head _) Level.assignment
      exact ⟨ts ++ comma :: us, .moreElements first rfl others⟩

theorem has_print_entries {entries : List Entry} (data : ∀ entry ∈ entries, ∃ e, entry.value = .value e)
    (each : ∀ entry ∈ entries, ∀ e, entry.value = .value e → e.HasPrints) : (Phrase.entries entries).HasPrint := by
  induction entries with
  | nil => exact ⟨[], .noEntries⟩
  | cons entry rest ih =>
    obtain ⟨us, others⟩ := ih (fun e mem => data e (.tail _ mem)) fun e mem => each e (.tail _ mem)
    obtain ⟨key, value, span⟩ := entry
    obtain ⟨e, rfl⟩ := data _ (.head _)
    obtain ⟨ts, first⟩ := each _ (.head _) e rfl Level.assignment
    let name := Token.ofKind .string key
    let colon := Token.ofKind (.mark .colon) ":"
    let comma := Token.ofKind (.mark .comma) ","
    exact ⟨name :: colon :: (ts ++ comma :: us), .moreEntries (.inr (.inl ⟨rfl, rfl⟩)) rfl first rfl others⟩

/-- There is a way to write each writable expression, wherever it stands. -/
theorem has_prints_of_writable {e : Expr} (writable : e.Writable) : e.HasPrints := by
  induction writable with
  | literal spelled =>
    obtain ⟨t, spells⟩ := spelled
    exact has_prints_of_bare (.literal spells)
  | @identifier name span =>
    have word : (Token.ofKind .identifier name).kind = .identifier := rfl
    exact has_prints_of_bare (.identifier word rfl)
  | thisObject =>
    have word : (Token.ofKind (.keyword .«this») "this").kind = .keyword .«this» := rfl
    exact has_prints_of_bare (.thisWord word)
  | array each ih =>
    obtain ⟨ts, inner⟩ := has_print_elements ih
    have opens : (Token.ofKind (.mark .openBracket) "[").kind = .mark .openBracket := rfl
    have closes : (Token.ofKind (.mark .closeBracket) "]").kind = .mark .closeBracket := rfl
    exact has_prints_of_bare (.array opens inner closes)
  | object data each ih =>
    obtain ⟨ts, inner⟩ := has_print_entries data ih
    have opens : (Token.ofKind (.mark .openBrace) "\x7b").kind = .mark .openBrace := rfl
    have closes : (Token.ofKind (.mark .closeBrace) "\x7d").kind = .mark .closeBrace := rfl
    exact has_prints_of_bare (.object opens inner closes)
  | @member object name span inner ih =>
    obtain ⟨ts, printed⟩ := ih Level.member
    have point : (Token.ofKind (.mark .dot) ".").kind = .mark .dot := rfl
    have word : (Token.ofKind .identifier name).IsWord name := ⟨.inl rfl, rfl⟩
    exact has_prints_of_bare (.member (.inr rfl) printed point word)
  | index inner within ih ih' =>
    obtain ⟨ts, printed⟩ := ih Level.member
    obtain ⟨us, key⟩ := ih' Level.sequence
    have opens : (Token.ofKind (.mark .openBracket) "[").kind = .mark .openBracket := rfl
    have closes : (Token.ofKind (.mark .closeBracket) "]").kind = .mark .closeBracket := rfl
    exact has_prints_of_bare (.index (.inr rfl) printed opens key closes)
  | call inner given ih ih' =>
    obtain ⟨ts, printed⟩ := ih Level.call
    obtain ⟨us, arguments⟩ := has_print_arguments ih'
    exact has_prints_of_bare (.call printed arguments)
  | construct inner given ih ih' =>
    obtain ⟨ts, printed⟩ := ih Level.member
    obtain ⟨us, arguments⟩ := has_print_arguments ih'
    have word : (Token.ofKind (.keyword .«new») "new").kind = .keyword .«new» := rfl
    exact has_prints_of_bare (.construct word printed arguments)
  | @update op operatorFirst target span isTarget inner ih =>
    have operator : (Token.ofKind op.kind "").kind = op.kind := rfl
    cases operatorFirst with
    | true =>
      obtain ⟨ts, printed⟩ := ih Level.unary
      exact has_prints_of_bare (.updateBefore isTarget operator printed)
    | false =>
      obtain ⟨ts, printed⟩ := ih Level.creation
      exact has_prints_of_bare (.updateBehind isTarget printed operator rfl)
  | @unary op operand span inner ih =>
    obtain ⟨ts, printed⟩ := ih Level.unary
    have operator : (Token.ofKind op.kind "").kind = op.kind := rfl
    exact has_prints_of_bare (.unary operator printed)
  | @binary op left right span first second ih ih' =>
    obtain ⟨ts, one⟩ := ih (Level.operation op.precedence)
    obtain ⟨us, other⟩ := ih' (Level.operation (op.precedence + 1))
    have operator : (Token.ofKind op.kind "").kind = op.kind := rfl
    exact has_prints_of_bare (.binary one operator other)
  | @logical op left right span first second ih ih' =>
    obtain ⟨ts, one⟩ := ih (Level.operation op.precedence)
    obtain ⟨us, other⟩ := ih' (Level.operation (op.precedence + 1))
    have operator : (Token.ofKind op.kind "").kind = op.kind := rfl
    exact has_prints_of_bare (.logical one operator other)
  | conditional first second third ih ih' ih'' =>
    obtain ⟨ts, test⟩ := ih (Level.operation 1)
    obtain ⟨us, yes⟩ := ih' Level.assignment
    obtain ⟨vs, no⟩ := ih'' Level.assignment
    have asks : (Token.ofKind (.mark .question) "?").kind = .mark .question := rfl
    have parts : (Token.ofKind (.mark .colon) ":").kind = .mark .colon := rfl
    exact has_prints_of_bare (.conditional test asks yes parts no)
  | @assign op target value kind span assigns isTarget first second ih ih' =>
    obtain ⟨ts, one⟩ := ih Level.creation
    obtain ⟨us, other⟩ := ih' Level.assignment
    have operator : assignmentKind? op = some (Token.ofKind kind "").kind := assigns
    exact has_prints_of_bare (.assign isTarget one operator other)
  | @sequence first second rest span each ih =>
    obtain ⟨ts, one⟩ := ih first (.head _) Level.assignment
    obtain ⟨us, others⟩ := has_print_items (List.cons_ne_nil second rest) fun e mem => ih e (.tail _ mem)
    have separates : (Token.ofKind (.mark .comma) ",").kind = .mark .comma := rfl
    exact has_prints_of_bare (.sequence one separates others)

/-! ## Reading back -/

namespace Grammar

open Printing

/-- At the begin of tokens, with the end of the input behind them, an expression is read in sloppy code. All tokens
are taken, and the expression is the given one, up to spans. -/
def ReadsBack (e : Expr) (ts : List Token) : Prop :=
  ∀ (ending : Token) (s : ReadingState) (levels : Nat), ending.kind = .endOfInput →
    s.current :: s.upcoming = ts ++ [ending] → s.body.strict = false → levelsFor (ts ++ [ending]) ≤ levels →
    ∃ read next, expression (rulesFor levels) false s = .ok (read, next) ∧ read.erased = e.erased ∧
      next.current :: next.upcoming = [ending]

theorem reads_back_of_printed {e : Expr} {ts : List Token} (printed : Printed (.expr Level.sequence e) ts) :
    ReadsBack e ts := by
  intro ending s levels ends left sloppy enough
  have noArrow : ∀ t ∈ ts ++ [ending], t.kind ≠ .mark .arrow :=
    List.forall_mem_append.mpr ⟨no_arrow_printed printed, List.forall_mem_singleton.mpr (by simp [ends])⟩
  have room : ts.length + ([] : List Token).length + 1 < levels := by
    simp only [levelsFor, List.length_append, List.length_cons, List.length_nil] at enough ⊢
    omega
  have reads : ReadsExpression e.form ts := reads_of_printed printed
  obtain ⟨read, next, done, same, there⟩ :=
    reads levels ending [] room (ends_before _ (.inl ends)) s ⟨left, sloppy, noArrow⟩
  exact ⟨read, next, done, same.erased, there.left⟩

end Grammar

/-- A writable expression can be written, and in whatever way it is written, it is read back. -/
theorem writable_reads_back {e : Expr} (writable : e.Writable) :
    (∃ ts, Printed (.expr Level.sequence e) ts) ∧
      ∀ ts, Printed (.expr Level.sequence e) ts → Grammar.ReadsBack e ts :=
  ⟨has_prints_of_writable writable Level.sequence, fun _ => Grammar.reads_back_of_printed⟩

/-- An object that is created from what a call gives, with a difference of three names as its argument. -/
def creationFromCall : Expr :=
  let name (text : String) : Expr := ⟨.identifier text, ⟨0, 0⟩⟩
  let difference : Expr := ⟨.binary .sub ⟨.binary .sub (name "a") (name "b"), ⟨0, 0⟩⟩ (name "c"), ⟨0, 0⟩⟩
  ⟨.construct ⟨.call (name "f") [], ⟨0, 0⟩⟩ [difference], ⟨0, 0⟩⟩

/-- The tokens of `new (f())(a - b - c)`. The call needs parentheses, and the difference on the left does not. -/
def creationFromCallTokens : List Token :=
  let mark (m : Mark) : Token := .ofKind (.mark m) ""
  let name (text : String) : Token := .ofKind .identifier text
  [.ofKind (.keyword .«new») "new", mark .openParen, name "f", mark .openParen, mark .closeParen, mark .closeParen,
    mark .openParen, name "a", mark .minus, name "b", mark .minus, name "c", mark .closeParen]

theorem creation_from_call_printed : Printed (.expr Level.sequence creationFromCall) creationFromCallTokens := by
  have plain {required level : Nat} {form : ExprForm} {ts : List Token} (reaches : required ≤ level)
      (printed : Printed (.bare level form) ts) : Printed (.expr required ⟨form, ⟨0, 0⟩⟩) ts := .plain reaches printed
  have name (text : String) {required : Nat} (below : required ≤ Level.primary) :
      Printed (.expr required ⟨.identifier text, ⟨0, 0⟩⟩) [.ofKind .identifier text] :=
    plain below (.identifier rfl rfl)
  have opens : (Token.ofKind (.mark .openParen) "").kind = .mark .openParen := rfl
  have closes : (Token.ofKind (.mark .closeParen) "").kind = .mark .closeParen := rfl
  have minus : (Token.ofKind (.mark .minus) "").kind = BinaryOp.sub.kind := rfl
  have word : (Token.ofKind (.keyword .«new») "new").kind = .keyword .«new» := rfl
  have call := Printed.call (name "f" (by decide)) (.noArguments opens closes)
  have left := Printed.binary (name "a" (by decide)) minus (name "b" (by decide))
  have difference := Printed.binary (plain (Nat.le_refl _) left) minus (name "c" (by decide))
  have given := Printed.someArguments opens (.oneItem (plain (by decide) difference)) closes
  exact plain (Nat.zero_le _) (.construct word (.enclosed opens (plain (Nat.zero_le _) call) closes) given)

theorem creation_from_call_reads_back :
    creationFromCall.Writable ∧ Grammar.ReadsBack creationFromCall creationFromCallTokens := by
  have writable : creationFromCall.Writable := by
    refine .construct (.call .identifier (List.forall_mem_nil _)) (List.forall_mem_singleton.mpr ?_)
    exact .binary (.binary .identifier .identifier) .identifier
  exact ⟨writable, (writable_reads_back writable).2 _ creation_from_call_printed⟩

end ScriptEngine
