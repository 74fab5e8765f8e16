import ScriptEngine.Proofs.Spans.Rows
import ScriptEngine.Proofs.Strictness.ReadExpression

/-!
The rules for expressions read nested parts. An expression in parentheses is given without them, so that what is told of
an expression between two tokens has to hold of the one that the first token begins as well: where parentheses open
there, they are closed again before the end, and a literal or a function without them is read there directly.
-/

namespace ScriptEngine.Grammar.Script

/-- Parentheses are opened at a token and closed at another one. -/
structure Encloses (script : Script) (i k : Nat) : Prop where
  opens : script.kindAt i = some (.mark .openParen)
  inside : script.Balanced (i + 1) k
  closes : script.kindAt k = some (.mark .closeParen)

/-- A function without parentheses around it is read as one of the smallest expressions, unless it is an arrow
function. -/
def Bare (script : Script) (i : Nat) (e : Expr) (j : Nat) : Prop :=
  ∀ code, e.form = .function code → code.kind = .arrow ∨
    ∃ levels codes s t, script.Stands codes i s ∧ primary (rulesFor levels) s = .ok (e, t) ∧ script.Stands codes j t

/-- An expression was read between two tokens, in code that is strict or not. -/
structure ExprRow (script : Script) (strict : Bool) (i : Nat) (e : Expr) (j : Nat) : Prop where
  row : script.Row strict i j [.expr e]
  opens : script.kindAt i = some (.mark .openParen) → ∃ k, k < j ∧ script.Encloses i k
  literal : ∀ value, e.form = .literal value → script.kindAt i = some (.mark .openParen) ∨
    ∃ t, script.tokens[i]? = some t ∧ t.span = e.span
  bare : script.Bare i e j

/-- A function was read, and the tokens that come before it belong to it. -/
structure CodeRow (script : Script) (strict : Bool) (i : Nat) (code : FunctionCode) (kind : FunctionKind) (j : Nat) :
    Prop where
  row : script.Row strict i j [.code code]
  kind : code.kind = kind

/-- A statement was read between two tokens, in code that is strict or not. The labels before it take as many tokens
as there are of them, and more follow. -/
structure StmtRow (script : Script) (strict : Bool) (i : Nat) (s : Stmt) (j : Nat) : Prop where
  row : script.Row strict i j [.stmt s]
  labels : ∀ n, (∀ m < n, script.kindAt (i + 2 * m) = some .identifier ∧
    script.kindAt (i + 2 * m + 1) = some (.mark .colon)) → i + 2 * n < j
  literal : ∀ e value, s.form = .expr e → e.form = .literal value → script.kindAt i = some (.mark .openParen) ∨
    ∃ t, script.tokens[i]? = some t ∧ t.span = e.span

/-- The rules read nested parts, in whatever functions they do. -/
structure Nests (script : Script) (rules : Rules) : Prop where
  levels : ∃ levels, rules = rulesFor levels
  assignment : ∀ strict outer i noIn,
    script.Covers (strict :: outer) i (rules.assignment noIn) (script.ExprRow strict i)
  binary : ∀ strict outer i precedence noIn,
    script.Covers (strict :: outer) i (rules.binary precedence noIn) (script.ExprRow strict i)
  unary : ∀ strict outer i, script.Covers (strict :: outer) i rules.unary (script.ExprRow strict i)
  newExpression : ∀ strict outer i, script.kindAt i = some (.keyword .new) →
    script.Covers (strict :: outer) i rules.newExpression (script.ExprRow strict i)
  statement : ∀ strict outer i, script.Covers (strict :: outer) i rules.statement (script.StmtRow strict i)
  item : ∀ strict outer i, script.Covers (strict :: outer) i rules.item (script.StmtRow strict i)

variable {script : Script} {rules : Rules} {strict : Bool} {outer codes : List Bool} {i j k : Nat} {t : Token}
  {kind : TokenKind} {parts : List Part}

/-! ## What expressions are read from -/

theorem ExprRow.order {e : Expr} (row : script.ExprRow strict i e j) : i < j :=
  (row.row.lies _ (.head _)).1

theorem Row.order {part : Part} (row : script.Row strict i j (part :: parts)) : i < j :=
  (row.lies part (.head _)).1

/-- An expression goes on behind one that it begins with. -/
theorem ExprRow.grow {first e : Expr} (row : script.ExprRow strict i first j) (whole : script.Row strict i k [.expr e])
    (later : j ≤ k) (noLiteral : ∀ value, e.form ≠ .literal value) (noFunction : ∀ code, e.form ≠ .function code) :
    script.ExprRow strict i e k where
  row := whole
  opens opens := by
    obtain ⟨l, before, encloses⟩ := row.opens opens
    exact ⟨l, Nat.lt_of_lt_of_le before later, encloses⟩
  literal value same := absurd same (noLiteral value)
  bare code same := absurd same (noFunction code)

/-- An expression that begins with the token itself, and not with a parenthesis. -/
theorem Row.expr {e : Expr} (row : script.Row strict i j [.expr e]) (found : script.kindAt i = some kind)
    (unopened : kind ≠ .mark .openParen) (noLiteral : ∀ value, e.form ≠ .literal value)
    (noFunction : ∀ code, e.form ≠ .function code) : script.ExprRow strict i e j where
  row := row
  opens opens := by
    rw [found, Option.some.injEq] at opens
    exact absurd opens unopened
  literal value same := absurd same (noLiteral value)
  bare code same := absurd same (noFunction code)

/-- An expression that is no function has none to be traced. -/
theorem traced_of_ne {form : ExprForm} {span : Span} (noFunction : ∀ code, form ≠ .function code) :
    ∀ code ∈ Part.function? (.expr ⟨form, span⟩), script.Traced strict code := by
  intro code mem
  cases form with
  | function other => exact absurd rfl (noFunction other)
  | _ => cases mem

/-- An expression that goes from its token to the end of what is read. -/
theorem Row.expr_from_token {form : ExprForm} (row : script.Row strict i j form.parts) (order : i < j)
    (found : script.tokens[i]? = some t) (unopened : t.kind ≠ .mark .openParen)
    (noLiteral : ∀ value, form ≠ .literal value) (noFunction : ∀ code, form ≠ .function code) :
    script.ExprRow strict i ⟨form, ⟨t.span.start, max (script.stopAt (j - 1)) t.span.start⟩⟩ j := by
  have whole : script.Row strict i j [.expr ⟨form, ⟨t.span.start, max (script.stopAt (j - 1)) t.span.start⟩⟩] :=
    Row.from_token row order found rfl (traced_of_ne noFunction) nofun
  exact whole.expr (kind_at found) unopened noLiteral noFunction

/-- An expression that goes from its first part to the end of what is read. -/
theorem ExprRow.from_first {first : Expr} {form : ExprForm} (left : script.ExprRow strict i first j)
    (row : script.Row strict i k (.expr first :: parts)) (same : form.parts = .expr first :: parts) (later : j ≤ k)
    (noLiteral : ∀ value, form ≠ .literal value) (noFunction : ∀ code, form ≠ .function code) :
    script.ExprRow strict i ⟨form, ⟨first.span.start, max (script.stopAt (k - 1)) first.span.start⟩⟩ k := by
  have whole : script.Row strict i k
      [.expr ⟨form, ⟨first.span.start, max (script.stopAt (k - 1)) first.span.start⟩⟩] :=
    Row.from_part row same rfl (traced_of_ne noFunction) nofun
  exact left.grow whole later noLiteral noFunction

theorem nests_operation {op : InfixOp} {left right : Expr} {l : Nat} (first : script.ExprRow strict i left j)
    (second : script.ExprRow strict k right l) (between : script.Balanced j k) :
    script.ExprRow strict i (op.apply left right) l := by
  have row := (first.row.before between).and second.row
  have ordered := (List.pairwise_cons.mp row.ordered).1 _ (.head _)
  have forward := between.forward
  have leftFits := (first.row.lies _ (.head _)).2.fits
  have rightFits := (second.row.lies _ (.head _)).2.fits
  obtain ⟨leftOrder, leftLies⟩ := row.lies _ (.head _)
  obtain ⟨-, rightLies⟩ := row.lies _ (.tail _ (.head _))
  have covered : script.Lies i l (left.span.cover right.span) :=
    ⟨⟨Nat.le_trans (Nat.le_trans leftFits.ordered ordered) rightFits.ordered, leftFits.start, rightFits.stop⟩,
      leftLies.behind, rightLies.before⟩
  have inside : ∀ child ∈ [Part.expr left, .expr right], child.Inside (left.span.cover right.span) := by
    simp only [List.forall_mem_cons, List.not_mem_nil, false_imp_iff, implies_true, and_true]
    exact ⟨⟨Nat.le_refl _, Nat.le_trans ordered rightFits.ordered⟩,
      Nat.le_trans leftFits.ordered ordered, Nat.le_refl _⟩
  have later : j ≤ l := Nat.le_of_lt (Nat.lt_of_le_of_lt forward second.order)
  cases op with
  | binary op =>
    have whole : script.Row strict i l [.expr ⟨.binary op left right, left.span.cover right.span⟩] :=
      Row.whole row leftOrder covered inside (traced_of_ne nofun) nofun
    exact first.grow whole later nofun nofun
  | logical op =>
    have whole : script.Row strict i l [.expr ⟨.logical op left right, left.span.cover right.span⟩] :=
      Row.whole row leftOrder covered inside (traced_of_ne nofun) nofun
    exact first.grow whole later nofun nofun

/-- An expression in parentheses. -/
theorem ExprRow.enclosed {e : Expr} (row : script.ExprRow strict (i + 1) e j)
    (opens : script.kindAt i = some (.mark .openParen)) (closes : script.kindAt j = some (.mark .closeParen))
    (bare : script.Bare i e (j + 1)) : script.ExprRow strict i e (j + 1) where
  row := row.row.enclosed opens closes
  opens _ := ⟨j, Nat.lt_succ_self j, opens, row.row.balanced, closes⟩
  literal _ _ := .inl opens
  bare := bare

/-! ## Functions -/

/-- A function whose text is the one from its first token on. -/
theorem Row.code {code : FunctionCode} (row : script.Row code.strict i j (code.body.map .stmt)) (order : i < j)
    (found : script.tokens[i]? = some t)
    (span : code.span = ⟨t.span.start, max (script.stopAt (j - 1)) t.span.start⟩)
    (text : Span.slice? ⟨t.span.start, script.stopAt (j - 1)⟩ script.source = some code.source.toList) :
    script.Row strict i j [.code code] := by
  have before := (begins_at found row.balanced.inside order).before
  refine Row.from_token row order found span nofun ?_
  rintro other ⟨⟩
  have same : (Part.code code).span = ⟨t.span.start, script.stopAt (j - 1)⟩ := by
    rw [← Nat.max_eq_left before]
    exact span
  rw [same, text]

theorem nests_parameter_list (rules : Rules) :
    script.Covers (strict :: outer) i (parameterList rules) fun _ j => script.Balanced i j ∧ i < j ∧
      ∃ k, k + 1 = j ∧ script.Encloses i k := by
  refine .bind (nests_expect_exact (by simp) _) fun _ j there => ?_
  obtain ⟨rfl, opens⟩ := there
  extract_lets parameter finish
  have finished {k : Nat} (parameters : List (String × Token)) (inside : script.Balanced (i + 1) k) :
      script.Covers (strict :: outer) k (finish parameters) fun _ j => script.Balanced i j ∧ i < j ∧
        ∃ k, k + 1 = j ∧ script.Encloses i k := by
    refine .bind (nests_expect_exact (by simp) _) fun _ l there => .give ?_
    obtain ⟨rfl, closes⟩ := there
    have forward := inside.forward
    exact ⟨inside.enclosed opens closes, by omega, k, rfl, opens, inside, closes⟩
  have named (k : Nat) : script.Covers (strict :: outer) k parameter fun _ l => script.Balanced k l := by
    refine .bind covers_peek fun token l there => ?_
    obtain ⟨rfl, -⟩ := there
    exact .bind (nests_binding_name _) fun name m there => .give there.1
  refine .bind (covers_check _) fun closed k there => ?_
  obtain ⟨rfl, -⟩ := there
  apply Covers.ite
  · intro _
    exact .bind (nests_nothing []) fun parameters l there => finished parameters there.2
  · intro _
    have all (fuel : Nat) (done : List (String × Token)) (k : Nat) :
        script.Covers (strict :: outer) k (readSeparated fuel parameter done) fun _ l => script.Balanced k l := by
      induction fuel generalizing done k with
      | zero => exact .broken
      | succ fuel ih =>
        refine .bind (named k) fun a l first => .bind (nests_accept (by decide)) fun comma m there => ?_
        refine .ite (fun _ => ?_) fun _ => .give (first.and there.1)
        exact (ih (a :: done) m).weaken fun _ _ rest => (first.and there.1).and rest
    exact (all _ _ _).bind fun parameters l passed => finished parameters passed

/-! ## Bodies -/

/-- A directive has no functions, so that it may be in strict code as well as in any other. -/
theorem Row.directive {s : Stmt} {now : Bool} (row : script.Row strict i j [.stmt s])
    (directive : isDirective t s = true) :
    script.Row now i j [.stmt s] := by
  refine ⟨row.balanced, List.forall_mem_singleton.mpr ?_, row.lies, row.ordered⟩
  obtain ⟨form, span⟩ := s
  have placed := row.placed _ (.head _)
  unfold isDirective at directive
  split at directive
  · next text inner same =>
    dsimp only at same
    subst same
    cases placed with
    | intro nested traced inner =>
      refine .intro nested nofun (List.forall_mem_singleton.mpr ?_)
      cases inner _ (.head _) with
      | intro nested traced inner => exact .intro nested nofun (List.forall_mem_nil _)
  · cases directive

/-- A body was read from a token on, in code that is strict or not, and it is what it is in the end. -/
def BodyRow (script : Script) (outer : List Bool) (strict inFront : Bool) (i : Nat) (done body : List Stmt)
    (s : ReadingState) : Prop :=
  ∃ ended j, script.Stands (ended :: outer) j s ∧ (inFront = false → ended = strict) ∧
    ∃ later, body = done.reverse ++ later ∧ script.Row ended i j (later.map .stmt)

section

variable (nests : script.Nests rules)

include nests

theorem nests_body_items (fuel : Nat) (stop : TokenKind) (inFront : Bool) (done : List Stmt) :
    Leads (script.Stands (strict :: outer) i) (script.BodyRow outer strict inFront i done)
      (bodyItems rules fuel stop inFront done) fun _ => True := by
  induction fuel generalizing strict inFront i done with
  | zero => exact .broken
  | succ fuel ih =>
    refine covers_peek.leads fun token j there => ?_
    obtain ⟨rfl, found⟩ := there
    have inside : j < script.size := (List.getElem?_eq_some_iff.mp found).1
    split
    · exact .give (fun s here => ⟨strict, j, here, fun _ => rfl, [], by simp, (balanced_here inside).row⟩) trivial
    · refine (nests.item strict outer j).leads fun s k first => ?_
      extract_lets directive rest
      by_cases directed : directive = true
      · rw [if_pos directed]
        have parts := directed
        rw [Bool.and_eq_true, Bool.and_eq_true, beq_iff_eq] at parts
        obtain ⟨⟨front, kind⟩, whole⟩ := parts
        refine (leads_obey_directive (List.mem_of_getElem? found) kind).bind fun _ _ state body next read there => ?_
        obtain ⟨now, here, -⟩ := there
        obtain ⟨⟨ended, l, there, -, later, rfl, row⟩, -⟩ := ih directive (s :: done) state body next read here
        refine ⟨⟨ended, l, there, fun off => ?_, s :: later, by simp, (first.row.directive whole).cons row⟩, trivial⟩
        rw [front] at off
        cases off
      · rw [if_neg directed]
        intro state body next read here
        obtain ⟨⟨ended, l, there, same, later, rfl, row⟩, -⟩ := ih directive (s :: done) state body next read here
        obtain rfl := same (Bool.eq_false_iff.mpr directed)
        exact ⟨⟨ended, l, there, fun _ => rfl, s :: later, by simp, first.row.cons row⟩, trivial⟩

/-- Expressions that commas separate are in a row. -/
theorem nests_expressions (noIn : Bool) (fuel : Nat) :
    script.Covers (strict :: outer) i (readSeparated fuel (rules.assignment noIn) []) fun items j =>
      script.Row strict i j (items.map .expr) := by
  refine (nests_separated (fun i => (nests.assignment strict outer i noIn).weaken fun _ _ row => row.row) fuel
    []).weaken fun items j there => ?_
  obtain ⟨later, rfl, row⟩ := there
  exact row

theorem nests_expression (noIn : Bool) :
    script.Covers (strict :: outer) i (expression rules noIn) (script.ExprRow strict i) := by
  refine .bind (nests.assignment strict outer i noIn) fun first j row => .bind (covers_check _) fun comma k there => ?_
  obtain ⟨rfl, comma⟩ := there
  refine .ite (fun more => ?_) fun _ => .give row
  obtain ⟨token, found, kind⟩ := Option.map_eq_some_iff.mp (comma.mp more)
  refine .bind (nests_skip found (by rw [kind]; decide)) fun _ l passed => ?_
  refine .bind (nests_expressions nests noIn _) fun rest m others => .bind (covers_span_from _) fun span n there => ?_
  obtain ⟨rfl, rfl⟩ := there
  have all := (row.row.before passed).and others
  exact .give (row.from_first all rfl (passed.and others.balanced).forward nofun nofun)

/-! ## Functions -/

/-- A body ends the function that it belongs to. -/
theorem nests_function_body {first : Nat} {opening : Token} (begins : script.tokens[first]? = some opening)
    (front : script.Balanced first i) (name : Option String) (kind : FunctionKind)
    (parameters : List (String × Token)) :
    script.Covers (strict :: outer) i (functionBody rules name kind parameters opening.span.start) fun code j =>
      script.CodeRow strict first code kind j ∧ i < j := by
  refine .bind (nests_expect (by decide) _) fun _ j there => .bind covers_is_strict fun around k same => ?_
  obtain ⟨brace, order⟩ := there
  obtain ⟨rfl, rfl⟩ := same
  have inside : script.Covers (around :: outer) k
      (withBody (kind == .arrow) around (bodyItems rules rules.levels (.mark .closeBrace) true [])) fun result l =>
        script.Row result.2.strict k l (result.1.map .stmt) := by
    refine covers_with_body (fun (items : List Stmt) ended l => script.Row ended k l (items.map .stmt)) _ around ?_
    intro s body next read here
    obtain ⟨⟨ended, l, there, -, later, rfl, row⟩, -⟩ := nests_body_items nests _ _ _ _ s body next read here
    exact ⟨⟨ended, l, there, row⟩, trivial⟩
  refine inside.bind fun result l row => ?_
  obtain ⟨statements, body⟩ := result
  dsimp -zeta only at row ⊢
  refine .bind (nests_expect (by decide) _) fun _ m closes => ?_
  extract_lets finish
  have finished : script.Covers (around :: outer) m (finish ()) fun code n =>
      script.CodeRow around first code kind n ∧ i < n := by
    refine .bind (nests_source_from _) fun source n text => .bind (covers_span_from _) fun span o there => .give ?_
    obtain ⟨rfl, rfl⟩ := there
    obtain ⟨rfl, text⟩ := text
    have forward := front.forward
    have passed := row.balanced.forward
    have whole := (row.before closes.1).behind (front.and brace)
    exact ⟨⟨Row.code whole (by omega) begins rfl text, rfl⟩, by omega⟩
  exact covers_with_checked parameters fun _ => finished

/-- A function is traced to the run that gives it. -/
theorem nests_function_rest {first : Nat} {opening : Token} (begins : script.tokens[first]? = some opening)
    (keyword : opening.kind = .keyword .function) (kind : FunctionKind) (proper : kind ≠ .arrow) :
    script.Covers (strict :: outer) (first + 1) (functionRest rules kind opening.span.start) fun code j =>
      script.CodeRow strict first code kind j ∧ script.Traced strict code := by
  have front : script.Balanced first (first + 1) := balanced_next (kind_at begins) (by rw [keyword]; decide)
  have reads : script.Covers (strict :: outer) (first + 1) (functionRest rules kind opening.span.start) fun code j =>
      script.CodeRow strict first code kind j := by
    unfold functionRest
    extract_lets finish
    have finished (name : Option String) (j : Nat) (passed : script.Balanced (first + 1) j) :
        script.Covers (strict :: outer) j (finish name) fun code k => script.CodeRow strict first code kind k := by
      refine .bind (nests_parameter_list rules) fun parameters k listed => ?_
      refine (nests_function_body nests begins ((front.and passed).and listed.1) name kind parameters).weaken ?_
      exact fun _ _ there => there.1
    refine .bind (covers_check _) fun named j there => ?_
    obtain ⟨rfl, -⟩ := there
    refine .ite (fun _ => ?_) fun _ => .ite (fun _ => ?_) fun _ => ?_
    · have name : script.Covers (strict :: outer) (first + 1) (some <$> bindingName "function name") fun _ k =>
          script.Balanced (first + 1) k := .map some (nests_binding_name _) fun _ _ there => there.1
      exact name.bind finished
    · have nothing : script.Covers (strict :: outer) (first + 1) (failHere .functionWithoutName)
          fun (_ : Option String) _ => False := covers_fail_here _
      exact nothing.bind fun _ _ => False.elim
    · exact .bind (nests_nothing none) fun name k there => finished name k there.2
  obtain ⟨levels, rfl⟩ := nests.levels
  intro s code next read here
  obtain ⟨⟨j, there, row⟩, -⟩ := reads s code next read here
  rw [← start_at begins] at read
  exact ⟨⟨j, there, row, .keyword (by rw [kind_at begins, keyword]) proper here read⟩, trivial⟩

omit nests in
/-- An expression that a function returns is its body. -/
theorem Row.returned {value : Expr} (row : script.Row strict i j [.expr value]) :
    script.Row strict i j [.stmt ⟨.ret (some value), value.span⟩] := by
  obtain ⟨order, lies⟩ := row.lies _ (.head _)
  refine Row.whole row order lies ?_ nofun nofun
  exact List.forall_mem_singleton.mpr ⟨Nat.le_refl _, Nat.le_refl _⟩

/-- An arrow function is read behind its parameters. It is nested if it can be traced. -/
structure ArrowRow (script : Script) (strict : Bool) (i : Nat) (e : Expr) (j : Nat) : Prop where
  arrow : ∃ code span, e = ⟨.function code, span⟩ ∧ code.kind = .arrow
  row : (∀ code, e.form = .function code → script.Traced strict code) → script.Row strict i j [.expr e]

omit nests in
/-- An arrow function that can be traced is an expression. -/
theorem ArrowRow.expr {e : Expr} (found : script.ArrowRow strict i e j)
    (traced : ∀ code, e.form = .function code → script.Traced strict code)
    (opens : script.kindAt i = some (.mark .openParen) → ∃ k, k < j ∧ script.Encloses i k) :
    script.ExprRow strict i e j := by
  have row := found.row traced
  obtain ⟨code, span, rfl, kind⟩ := found.arrow
  exact ⟨row, opens, nofun, fun _ same => .inl (ExprForm.function.inj same ▸ kind)⟩

theorem nests_arrow_rest {first : Nat} {opening : Token} (begins : script.tokens[first]? = some opening)
    (front : script.Balanced first i) (parameters : List (String × Token)) :
    script.Covers (strict :: outer) i (arrowRest rules parameters opening.span.start) fun e j =>
      script.ArrowRow strict first e j ∧ i < j := by
  refine .bind (nests_expect (by decide) _) fun _ j there => ?_
  obtain ⟨arrow, forward⟩ := there
  have before := front.and arrow
  have order : first < j := Nat.lt_of_le_of_lt front.forward forward
  extract_lets finish
  have finished (code : FunctionCode) (k : Nat) (found : script.CodeRow strict first code .arrow k ∧ j < k) :
      script.Covers (strict :: outer) k (finish code) fun e k => script.ArrowRow strict first e k ∧ i < k := by
    obtain ⟨found, later⟩ := found
    refine .bind (covers_span_from _) fun span l there => .give ?_
    obtain ⟨rfl, rfl⟩ := there
    refine ⟨⟨⟨code, _, rfl, found.kind⟩, fun traced => ?_⟩, by omega⟩
    refine Row.from_token found.row found.row.order begins rfl ?_ nofun
    rintro other ⟨⟩
    exact traced code rfl
  refine .bind (covers_check _) fun braces k there => ?_
  obtain ⟨rfl, -⟩ := there
  apply Covers.ite
  · intro _
    exact .bind (nests_function_body nests begins before none .arrow parameters) finished
  · intro _
    refine .bind covers_is_strict fun around l there => ?_
    obtain ⟨rfl, rfl⟩ := there
    have inside : script.Covers (around :: outer) l (withBody true around (rules.assignment false)) fun result m =>
        script.ExprRow around l result.1 m := by
      refine covers_with_body (fun value _ m => script.ExprRow around l value m) _ _ ?_
      intro s value next read here
      obtain ⟨⟨m, there, row⟩, -⟩ := nests.assignment around (around :: outer) l false s value next read here
      exact ⟨⟨around, m, there, row⟩, trivial⟩
    refine inside.bind fun result m row => ?_
    obtain ⟨value, body⟩ := result
    dsimp -zeta only at row ⊢
    extract_lets complete
    have completed : script.Covers (around :: outer) m (complete ()) fun e k =>
        script.ArrowRow around first e k ∧ i < k := by
      refine .bind (nests_source_from _) fun source n text => .bind (covers_span_from _) fun span o there => ?_
      obtain ⟨rfl, rfl⟩ := there
      obtain ⟨rfl, text⟩ := text
      have given (code : FunctionCode) (found : script.CodeRow around first code .arrow o ∧ l < o) :
          script.Covers (around :: outer) o (pure code)
              fun code j => script.CodeRow around first code .arrow j ∧ l < j :=
        .give found
      have whole := row.row.returned.behind before
      refine (given _ ⟨⟨?_, rfl⟩, row.order⟩).bind finished
      exact Row.code whole whole.order begins rfl text
    exact covers_with_checked parameters fun _ => completed

/-! ## Literals -/

theorem nests_array_elements (fuel : Nat) (done : List (Option Expr)) :
    script.Covers (strict :: outer) i (arrayElements rules fuel done) fun elements j =>
      ∃ later, elements = done.reverse ++ later ∧ script.Row strict i j ((later.filterMap id).map .expr) := by
  induction fuel generalizing i done with
  | zero => exact .broken
  | succ fuel ih =>
    refine .bind (nests_accept (by decide)) fun closed j first => ?_
    refine .ite (fun _ => .give ⟨[], by simp, first.1.row⟩) fun _ => ?_
    refine .bind (nests_accept (by decide)) fun comma k second => .ite (fun _ => ?_) fun _ => ?_
    · refine (ih (none :: done)).weaken fun elements l there => ?_
      obtain ⟨later, rfl, row⟩ := there
      exact ⟨none :: later, by simp, (row.behind second.1).behind first.1⟩
    · refine .bind (nests.assignment _ _ _ _) fun element l row => .bind (covers_check _) fun last m there => ?_
      obtain ⟨rfl, -⟩ := there
      extract_lets rest
      have later (n : Nat) (passed : script.Balanced m n) : script.Covers (strict :: outer) n (rest ())
          fun elements j =>
          ∃ later, elements = done.reverse ++ later ∧ script.Row strict i j ((later.filterMap id).map .expr) := by
        refine (ih (some element :: done)).weaken fun elements o there => ?_
        obtain ⟨later, rfl, others⟩ := there
        exact ⟨some element :: later, by simp, (((row.row.before passed).cons others).behind second.1).behind first.1⟩
      refine .ite (fun _ => later m (balanced_here row.row.balanced.inside)) fun _ => ?_
      exact .bind (nests_expect (by decide) _) fun _ n passed => later n passed.1

omit nests in
/-- The name of a property takes a token at most. -/
theorem nests_property_name : script.Covers codes i propertyName fun _ j => script.Balanced i j := by
  refine .bind nests_advance_word fun token j passed => ?_
  split
  · next kind => exact .give (passed (by rw [kind]; decide))
  · next word kind => exact .give (passed ⟨by simp [kind], by simp [kind], by simp [kind]⟩)
  · next kind => exact .give (passed (by rw [kind]; decide))
  · next kind => exact .give (passed (by rw [kind]; decide))
  · exact .fail _ _

theorem nests_object_entry :
    script.Covers (strict :: outer) i (objectEntry rules) fun entry j => script.Row strict i j [.entry entry] := by
  refine .bind .get fun s j here => ?_
  obtain ⟨rfl, here⟩ := here
  extract_lets token start isGetter
  have found : script.tokens[j]? = some token := here.current
  apply Covers.ite
  · intro accessor
    have kind : token.kind = .identifier := by
      rw [Bool.and_eq_true, Bool.and_eq_true] at accessor
      exact beq_iff_eq.mp accessor.1.1
    refine .bind (nests_skip found (by rw [kind]; decide)) fun _ k word => ?_
    refine .bind nests_property_name fun key k name => ?_
    refine .bind (nests_parameter_list rules) fun parameters l listed => ?_
    have front := (word.and name).and listed.1
    extract_lets finish
    have finished : script.Covers (strict :: outer) l (finish ()) fun entry j' =>
        script.Row strict j j' [.entry entry] := by
      refine .bind (nests_function_body nests found front none .expression parameters) fun code m there => ?_
      obtain ⟨given, -⟩ := there
      refine .bind (covers_span_from _) fun span n there => .give ?_
      obtain ⟨rfl, rfl⟩ := there
      refine Row.from_token ?_ given.row.order found rfl nofun nofun
      change script.Row strict j n [EntryValue.part _]
      split
      · exact given.row
      · exact given.row
    exact .ite (fun _ => .ite (fun _ => finished) fun _ => .fail_then _ _) fun _ =>
      .ite (fun _ => finished) fun _ => .fail_then _ _
  · intro _
    refine .bind nests_property_name fun key k name => .bind (nests_expect (by decide) _) fun _ l colon => ?_
    refine .bind (nests.assignment _ _ _ _) fun value m given => .bind (covers_span_from _) fun span n there => .give ?_
    obtain ⟨rfl, rfl⟩ := there
    have row := given.row.behind (name.and colon.1)
    exact Row.from_token row row.order found rfl nofun nofun

theorem nests_object_entries (fuel : Nat) (done : List Entry) :
    script.Covers (strict :: outer) i (objectEntries rules fuel done) fun entries j =>
      ∃ later, entries = done.reverse ++ later ∧ script.Row strict i j (later.map .entry) := by
  induction fuel generalizing i done with
  | zero => exact .broken
  | succ fuel ih =>
    refine .bind (nests_accept (by decide)) fun closed j first => ?_
    refine .ite (fun _ => .give ⟨[], by simp, first.1.row⟩) fun _ => ?_
    refine .bind (nests_object_entry nests) fun entry k row => .bind (covers_check _) fun last l there => ?_
    obtain ⟨rfl, -⟩ := there
    extract_lets rest
    have later (m : Nat) (passed : script.Balanced l m) : script.Covers (strict :: outer) m (rest ()) fun entries j =>
        ∃ later, entries = done.reverse ++ later ∧ script.Row strict i j (later.map .entry) := by
      refine (ih (entry :: done)).weaken fun entries n there => ?_
      obtain ⟨later, rfl, others⟩ := there
      exact ⟨entry :: later, by simp, ((row.before passed).cons others).behind first.1⟩
    refine .ite (fun _ => later l (balanced_here row.balanced.inside)) fun _ => ?_
    exact .bind (nests_expect (by decide) _) fun _ m passed => later m passed.1

/-! ## Expressions -/

omit nests in
/-- A literal is its token. -/
theorem literal_row {value : Literal} (found : script.tokens[i]? = some t) (flat : t.kind.IsFlat) :
    script.ExprRow strict i ⟨.literal value, ⟨t.span.start, max (script.stopAt (i + 1 - 1)) t.span.start⟩⟩ (i + 1) := by
  have row : script.Row strict i (i + 1) [] := (balanced_next (kind_at found) flat).row
  have whole : script.Row strict i (i + 1)
      [.expr ⟨.literal value, ⟨t.span.start, max (script.stopAt (i + 1 - 1)) t.span.start⟩⟩] :=
    Row.from_token row (Nat.lt_succ_self i) found rfl nofun nofun
  have span : (⟨t.span.start, max (script.stopAt (i + 1 - 1)) t.span.start⟩ : Span) = t.span := by
    rw [Nat.add_sub_cancel, stop_at found, Nat.max_eq_left (token_fits found).ordered]
  refine ⟨whole, fun opens => ?_, fun _ _ => .inr ⟨t, found, span.symm⟩, nofun⟩
  rw [kind_at found, Option.some.injEq] at opens
  exact absurd opens flat.opens

theorem nests_primary : script.Covers (strict :: outer) i (primary rules) (script.ExprRow strict i) := by
  have reads : script.Covers (strict :: outer) i (primary rules) fun e j =>
      script.Bare i e j → script.ExprRow strict i e j := by
    refine .bind covers_peek fun token j there => ?_
    obtain ⟨rfl, found⟩ := there
    extract_lets complete name number string
    have completed {k : Nat} {form : ExprForm} (row : script.Row strict j k form.parts) (order : j < k)
        (unopened : token.kind ≠ .mark .openParen) (noLiteral : ∀ value, form ≠ .literal value)
        (noFunction : ∀ code, form ≠ .function code) :
        script.Covers (strict :: outer) k (complete form)
            fun e l => script.Bare j e l → script.ExprRow strict j e l := by
      refine .bind (covers_span_from _) fun span l there => .give fun _ => ?_
      obtain ⟨rfl, rfl⟩ := there
      exact row.expr_from_token order found unopened noLiteral noFunction
    have literal (value : Literal) (flat : token.kind.IsFlat) :
        script.Covers (strict :: outer) (j + 1) (complete (.literal value)) fun e l =>
          script.Bare j e l → script.ExprRow strict j e l := by
      refine .bind (covers_span_from _) fun span l there => .give fun _ => ?_
      obtain ⟨rfl, rfl⟩ := there
      exact literal_row found flat
    have guarded (flat : token.kind.IsFlat) (fault : SyntaxFault) (value : Literal) :
        script.Covers (strict :: outer) j (do
          discard advance
          if token.legacyOctal && (← isStrict) then failAt token.span fault
          complete (.literal value)) fun e l => script.Bare j e l → script.ExprRow strict j e l := by
      refine .bind (covers_pass found flat.ends) fun _ k same => .bind covers_is_strict fun around l there => ?_
      subst same
      obtain ⟨rfl, rfl⟩ := there
      exact .ite (fun _ => .fail_then _ _) fun _ => literal value flat
    have constant (flat : token.kind.IsFlat) (value : Literal) :
        script.Covers (strict :: outer) j (do discard advance; complete (.literal value)) fun e l =>
          script.Bare j e l → script.ExprRow strict j e l := by
      refine .bind (covers_pass found flat.ends) fun _ k same => ?_
      subst same
      exact literal value flat
    split
    · next kind =>
      refine .bind (covers_pass found (by simp [kind])) fun _ k same => ?_
      subst same
      exact completed (balanced_next (kind_at found) (by rw [kind]; decide)).row (Nat.lt_succ_self j) (by simp [kind])
        nofun nofun
    · next kind =>
      refine .bind (covers_pass found (by simp [kind])) fun _ k same => ?_
      subst same
      have named : script.Covers (strict :: outer) (j + 1) (name ()) fun e l =>
          script.Bare j e l → script.ExprRow strict j e l :=
        completed (balanced_next (kind_at found) (by rw [kind]; decide)).row (Nat.lt_succ_self j) (by simp [kind])
          nofun nofun
      refine .ite (fun _ => .bind covers_mention_arguments fun _ l same => ?_) fun _ => named
      rwa [same]
    · next kind => exact guarded (by rw [kind]; decide) .octalNumber _
    · next kind => exact guarded (by rw [kind]; decide) .octalEscape _
    · next kind => exact constant (by rw [kind]; decide) _
    · next kind => exact constant (by rw [kind]; decide) _
    · next kind => exact constant (by rw [kind]; decide) _
    · next kind =>
      refine .bind (covers_pass found (by simp [kind])) fun _ k same => ?_
      subst same
      refine .bind (nests_function_rest nests found kind .expression nofun) fun code k there => ?_
      obtain ⟨given, traced⟩ := there
      refine .bind (covers_span_from _) fun span l there => .give fun bare => ?_
      obtain ⟨rfl, rfl⟩ := there
      refine ⟨Row.from_token given.row given.row.order found rfl ?_ nofun, fun opens => ?_, nofun, bare⟩
      · rintro other ⟨⟩
        exact traced
      · rw [kind_at found, kind] at opens
        cases opens
    · next kind =>
      refine .bind (covers_pass found (by simp [kind])) fun _ k same => ?_
      subst same
      refine .bind (nests_expression nests false) fun inner l row => ?_
      refine .bind (nests_expect_exact (by simp) _) fun _ m there => .give fun bare => ?_
      obtain ⟨rfl, closes⟩ := there
      exact row.enclosed (by rw [kind_at found, kind]) closes bare
    · next kind =>
      refine .bind (covers_pass found (by simp [kind])) fun _ k same => ?_
      subst same
      refine .bind (nests_array_elements nests _ _) fun elements l there => ?_
      obtain ⟨_, rfl, row⟩ := there
      have whole := row.behind (balanced_next (kind_at found) (by rw [kind]; decide))
      exact completed whole row.balanced.forward (by simp [kind]) nofun nofun
    · next kind =>
      refine .bind (covers_pass found (by simp [kind])) fun _ k same => ?_
      subst same
      refine .bind (nests_object_entries nests _ _) fun entries l there => ?_
      obtain ⟨_, rfl, row⟩ := there
      have whole := row.behind (balanced_next (kind_at found) (by rw [kind]; decide))
      exact completed whole row.balanced.forward (by simp [kind]) nofun nofun
    · exact .fail _ _
    · exact .fail _ _
  obtain ⟨levels, rfl⟩ := nests.levels
  intro s e next read here
  obtain ⟨⟨j, there, row⟩, -⟩ := reads s e next read here
  exact ⟨⟨j, there, row fun code form => .inr ⟨levels, _, s, next, here, read, there⟩⟩, trivial⟩

theorem nests_argument_list :
    script.Covers (strict :: outer) i (argumentList rules) fun items j => script.Row strict i j (items.map .expr) := by
  refine .bind (nests_expect_exact (by simp) _) fun _ j there => ?_
  obtain ⟨rfl, opens⟩ := there
  extract_lets finish
  have finished (items : List Expr) (k : Nat) (row : script.Row strict (i + 1) k (items.map .expr)) :
      script.Covers (strict :: outer) k (finish items) fun items j => script.Row strict i j (items.map .expr) := by
    refine .bind (nests_expect_exact (by simp) _) fun _ l there => .give ?_
    obtain ⟨rfl, closes⟩ := there
    exact row.enclosed opens closes
  refine .bind (covers_check _) fun closed k there => ?_
  obtain ⟨rfl, -⟩ := there
  refine .ite (fun _ => .bind (nests_nothing []) fun items k there => ?_) fun _ => ?_
  · obtain ⟨rfl, here⟩ := there
    exact finished [] k here.row
  · exact .bind (nests_expressions nests false _) finished

theorem nests_member_suffix {object : Expr} (row : script.ExprRow strict i object j) :
    script.Covers (strict :: outer) j (memberSuffix rules object) (script.ExprRow strict i) := by
  refine .bind (nests_accept (by decide)) fun dot k there => ?_
  obtain ⟨first, -⟩ := there
  apply Covers.ite
  · intro _
    refine .bind nests_advance_word fun token l word => ?_
    have named (passed : script.Balanced k l) (name : String) :
        script.Covers (strict :: outer) l (do return ⟨.member object name, ← spanFrom object.span.start⟩)
          (script.ExprRow strict i) := by
      refine .bind (covers_span_from _) fun span m there => .give ?_
      obtain ⟨rfl, rfl⟩ := there
      have whole := row.row.before (first.and passed)
      exact row.from_first whole rfl (first.and passed).forward nofun nofun
    split
    · next kind => exact named (word (by rw [kind]; decide)) _
    · next kind => exact named (word ⟨by simp [kind], by simp [kind], by simp [kind]⟩) _
    · exact .fail _ _
  · intro _
    refine .bind (nests_expect (by decide) _) fun _ l there => ?_
    refine .bind (nests_expression nests false) fun key m inner => ?_
    obtain ⟨opens, -⟩ := there
    refine .bind (nests_expect (by decide) _) fun _ n there => .bind (covers_span_from _) fun span o same => .give ?_
    obtain ⟨closes, -⟩ := there
    obtain ⟨rfl, rfl⟩ := same
    have rest := (inner.row.behind opens).behind first
    exact row.from_first ((row.row.and rest).before closes) rfl (rest.balanced.and closes).forward nofun nofun

theorem nests_member_suffixes (fuel : Nat) {object : Expr} (row : script.ExprRow strict i object j) :
    script.Covers (strict :: outer) j (memberSuffixes rules fuel object) (script.ExprRow strict i) := by
  induction fuel generalizing j object with
  | zero => exact .broken
  | succ fuel ih =>
    refine .bind .get fun s k here => ?_
    obtain ⟨rfl, -⟩ := here
    refine .ite (fun _ => ?_) fun _ => .give row
    exact .bind (nests_member_suffix nests row) fun e l further => ih further

theorem nests_new_expression (keyword : script.kindAt i = some (.keyword .new)) :
    script.Covers (strict :: outer) i (newExpression rules) (script.ExprRow strict i) := by
  obtain ⟨t, found, kind⟩ := Option.map_eq_some_iff.mp keyword
  refine .bind (covers_take found (by simp [kind])) fun token j there => ?_
  obtain ⟨rfl, rfl⟩ := there
  have first : script.Balanced i (i + 1) := balanced_next keyword (by decide)
  extract_lets start finish
  have finished (head : Expr) (k : Nat) (begun : script.ExprRow strict (i + 1) head k) :
      script.Covers (strict :: outer) k (finish head) (script.ExprRow strict i) := by
    refine .bind (nests_member_suffixes nests _ begun) fun callee l row => ?_
    refine .bind (covers_check _) fun called m there => ?_
    obtain ⟨rfl, -⟩ := there
    extract_lets complete
    have completed (items : List Expr) (n : Nat) (others : script.Row strict m n (items.map .expr)) :
        script.Covers (strict :: outer) n (complete items) (script.ExprRow strict i) := by
      refine .bind (covers_span_from _) fun span o there => .give ?_
      obtain ⟨rfl, rfl⟩ := there
      have whole := (row.row.cons others).behind first
      exact whole.expr_from_token whole.order found (by simp [kind]) nofun nofun
    refine .ite (fun _ => .bind (nests_argument_list nests) completed) fun _ => ?_
    refine .bind (nests_nothing []) fun items n there => ?_
    obtain ⟨rfl, here⟩ := there
    exact completed [] n here.row
  refine .bind (covers_check _) fun nested k there => ?_
  obtain ⟨rfl, nested⟩ := there
  apply Covers.ite
  · intro again
    exact .bind (nests.newExpression _ _ _ (nested.mp again)) finished
  · intro _
    exact .bind (nests_primary nests) finished

theorem nests_call_suffixes (fuel : Nat) {callee : Expr} (row : script.ExprRow strict i callee j) :
    script.Covers (strict :: outer) j (callSuffixes rules fuel callee) (script.ExprRow strict i) := by
  induction fuel generalizing j callee with
  | zero => exact .broken
  | succ fuel ih =>
    refine .bind (covers_check _) fun called k there => ?_
    obtain ⟨rfl, -⟩ := there
    apply Covers.ite
    · intro _
      refine .bind (nests_argument_list nests) fun items l others => .bind (covers_span_from _) fun span m there => ?_
      obtain ⟨rfl, rfl⟩ := there
      exact ih (row.from_first (row.row.cons others) rfl others.balanced.forward nofun nofun)
    · intro _
      refine .bind .get fun s l here => ?_
      obtain ⟨rfl, -⟩ := here
      refine .ite (fun _ => ?_) fun _ => .give row
      exact .bind (nests_member_suffix nests row) fun e m further => ih further

theorem nests_left_hand_side :
    script.Covers (strict :: outer) i (leftHandSide rules) (script.ExprRow strict i) := by
  refine .bind (covers_check _) fun constructs j there => ?_
  obtain ⟨rfl, constructs⟩ := there
  apply Covers.ite
  · intro new
    exact .bind (nests_new_expression nests (constructs.mp new)) fun e k row => nests_call_suffixes nests _ row
  · intro _
    exact .bind (nests_primary nests) fun e k row => nests_call_suffixes nests _ row

omit nests in
/-- An operator is neither a parenthesis nor the end of the input. -/
theorem flat_of_operator {β : Type} {operator? : TokenKind → Option β} {op : β} (known : operator? kind = some op)
    (opens : operator? (.mark .openParen) = none) (closes : operator? (.mark .closeParen) = none)
    (ends : operator? .endOfInput = none) : kind.IsFlat := by
  refine ⟨fun same => ?_, fun same => ?_, fun same => ?_⟩
  · rw [same, opens] at known
    cases known
  · rw [same, closes] at known
    cases known
  · rw [same, ends] at known
    cases known

theorem nests_postfix_update :
    script.Covers (strict :: outer) i (postfixUpdate rules) (script.ExprRow strict i) := by
  refine .bind (nests_left_hand_side nests) fun target j row => .bind covers_peek fun token k there => ?_
  obtain ⟨rfl, mark⟩ := there
  split
  · next op update =>
    refine .ite (fun _ => .give row) fun _ => .bind (covers_check_target _) fun _ l there => ?_
    obtain ⟨rfl, -⟩ := there
    refine .bind (nests_skip mark (flat_of_operator update rfl rfl rfl)) fun _ m passed => ?_
    refine .bind (covers_span_from _) fun span n there => .give ?_
    obtain ⟨rfl, rfl⟩ := there
    exact row.from_first (row.row.before passed) rfl passed.forward nofun nofun
  · exact .give row

theorem nests_unary : script.Covers (strict :: outer) i (unary rules) (script.ExprRow strict i) := by
  refine .bind covers_peek fun token j there => ?_
  obtain ⟨rfl, mark⟩ := there
  extract_lets start
  have completed {k l : Nat} {operand : Expr} {form : ExprForm} (flat : token.kind.IsFlat)
      (passed : script.Balanced j k) (row : script.ExprRow strict k operand l) (same : form.parts = [.expr operand])
      (noLiteral : ∀ value, form ≠ .literal value) (noFunction : ∀ code, form ≠ .function code) :
      script.Covers (strict :: outer) l (do return ⟨form, ← spanFrom start⟩) (script.ExprRow strict j) := by
    refine .bind (covers_span_from _) fun span m there => .give ?_
    obtain ⟨rfl, rfl⟩ := there
    have whole := row.row.behind passed
    rw [← same] at whole
    exact whole.expr_from_token (Nat.lt_of_le_of_lt passed.forward row.order) mark flat.opens noLiteral noFunction
  split
  · next op known =>
    have flat : token.kind.IsFlat := flat_of_operator known rfl rfl rfl
    refine .bind (nests_skip mark flat) fun _ k passed => .bind (nests.unary _ _ _) fun operand l row => ?_
    refine .bind covers_is_strict fun around m there => ?_
    obtain ⟨rfl, -⟩ := there
    exact .ite (fun _ => .fail_then _ _) fun _ => completed flat passed row rfl nofun nofun
  · next op _ update =>
    have flat : token.kind.IsFlat := flat_of_operator update rfl rfl rfl
    refine .bind (nests_skip mark flat) fun _ k passed => .bind (nests.unary _ _ _) fun target l row => ?_
    refine .bind (covers_check_target _) fun _ m there => ?_
    obtain ⟨rfl, -⟩ := there
    exact completed flat passed row rfl nofun nofun
  · exact nests_postfix_update nests

theorem nests_binary_rest (precedence : Nat) (noIn : Bool) (fuel : Nat) {left : Expr}
    (row : script.ExprRow strict i left j) :
    script.Covers (strict :: outer) j (binaryRest rules precedence noIn fuel left) (script.ExprRow strict i) := by
  induction fuel generalizing j left with
  | zero => exact .broken
  | succ fuel ih =>
    refine .bind covers_peek fun token k there => ?_
    obtain ⟨rfl, mark⟩ := there
    split
    · exact .give row
    · next p op known =>
      refine .ite (fun _ => .give row) fun _ => ?_
      refine .bind (nests_skip mark (flat_of_operator known rfl rfl rfl)) fun _ l passed => ?_
      exact .bind (nests.binary _ _ _ _ _) fun right m others => ih (nests_operation row others passed)

theorem nests_binary (precedence : Nat) (noIn : Bool) :
    script.Covers (strict :: outer) i (binary rules precedence noIn) (script.ExprRow strict i) :=
  .bind (nests_unary nests) fun _ _ row => nests_binary_rest nests precedence noIn _ row

theorem nests_conditional (noIn : Bool) :
    script.Covers (strict :: outer) i (conditional rules noIn) (script.ExprRow strict i) := by
  refine .bind (nests_binary nests 0 noIn) fun test j row => ?_
  refine .bind (nests_accept_exact (by simp)) fun chosen k there => ?_
  cases chosen with
  | false =>
    obtain rfl := there.2 rfl
    exact .give row
  | true =>
    obtain ⟨rfl, mark⟩ := there.1 rfl
    have question : script.Balanced j (j + 1) := balanced_next mark (by decide)
    refine .bind (nests.assignment _ _ _ _) fun yes l first => .bind (nests_expect (by decide) _) fun _ m colon => ?_
    refine .bind (nests.assignment _ _ _ _) fun no n second => .bind (covers_span_from _) fun span o there => .give ?_
    obtain ⟨rfl, rfl⟩ := there
    have rest := ((first.row.before colon.1).cons second.row).behind question
    exact row.from_first (row.row.cons rest) rfl rest.balanced.forward nofun nofun

theorem nests_assigned (begins : script.tokens[i]? = some t) (noIn : Bool) :
    script.Covers (strict :: outer) i (assigned rules noIn t.span.start) (script.ExprRow strict i) := by
  refine .bind (nests_conditional nests noIn) fun target l row => .bind covers_peek fun token m there => ?_
  obtain ⟨rfl, mark⟩ := there
  split
  · exact .give row
  · next op known =>
    refine .bind (covers_check_target _) fun _ n there => ?_
    obtain ⟨rfl, -⟩ := there
    refine .bind (nests_skip mark (flat_of_operator known rfl rfl rfl)) fun _ o passed => ?_
    refine .bind (nests.assignment _ _ _ _) fun value p others => ?_
    refine .bind (covers_span_from _) fun span q there => .give ?_
    obtain ⟨rfl, rfl⟩ := there
    have rest := others.row.behind passed
    have all := row.row.cons rest
    have whole : script.Row strict i q [.expr ⟨.assign op target value, _⟩] :=
      Row.from_token all all.order begins rfl (traced_of_ne nofun) nofun
    exact row.grow whole rest.balanced.forward nofun nofun

/-- An arrow function is traced to the run that gives it, which goes on with its parameters. -/
theorem nests_arrow {noIn : Bool} {s t next : ReadingState} {e : Expr} {read : Reader Expr}
    (begins : s.atSingleParameter = true ∨ atParameterList s = .ok (true, s))
    (covers : script.Covers (strict :: outer) i read fun e j => script.ArrowRow strict i e j ∧
      (script.kindAt i = some (.mark .openParen) → ∃ k, k < j ∧ script.Encloses i k))
    (whole : assignment rules noIn s = .ok (e, next)) (done : read t = .ok (e, next))
    (here : script.Stands (strict :: outer) i s) (same : t = s) :
    ∃ j, script.Stands (strict :: outer) j next ∧ script.ExprRow strict i e j := by
  obtain ⟨levels, rfl⟩ := nests.levels
  subst same
  obtain ⟨⟨j, there, found, opens⟩, -⟩ := covers t e next done here
  refine ⟨j, there, found.expr (fun code form => ?_) opens⟩
  obtain ⟨form', span⟩ := e
  obtain rfl : form' = .function code := form
  exact .arrow here begins whole

theorem nests_assignment (noIn : Bool) :
    script.Covers (strict :: outer) i (assignment rules noIn) (script.ExprRow strict i) := by
  intro s e next read here
  refine ⟨?_, trivial⟩
  have begins : script.tokens[i]? = some s.current := here.current
  have whole := read
  rw [assignment_eq] at read
  split at read
  · next single =>
    have kind : script.kindAt i = some .identifier := by
      unfold ReadingState.atSingleParameter at single
      rw [Bool.and_eq_true, Bool.and_eq_true, beq_iff_eq] at single
      rw [kind_at begins, single.1.1]
    have arrow : script.Covers (strict :: outer) i
        (do arrowRest rules [(← bindingName "parameter name", s.current)] s.current.span.start) fun e j =>
          script.ArrowRow strict i e j ∧
            (script.kindAt i = some (.mark .openParen) → ∃ k, k < j ∧ script.Encloses i k) := by
      refine .bind (nests_binding_name _) fun name k there => ?_
      refine (nests_arrow_rest nests begins there.1 _).weaken fun _ _ found => ⟨found.1, fun opens => ?_⟩
      rw [kind] at opens
      cases opens
    exact nests_arrow nests (.inl single) arrow whole read here rfl
  · split at read
    · cases read
    · next t looked =>
      obtain rfl := at_parameter_list_stays looked
      have arrow : script.Covers (strict :: outer) i
          (do arrowRest rules (← parameterList rules) t.current.span.start) fun e j =>
            script.ArrowRow strict i e j ∧
              (script.kindAt i = some (.mark .openParen) → ∃ k, k < j ∧ script.Encloses i k) := by
        refine .bind (nests_parameter_list rules) fun parameters k listed => ?_
        obtain ⟨front, -, l, last, encloses⟩ := listed
        refine (nests_arrow_rest nests begins front _).weaken fun _ j found => ⟨found.1, fun _ => ⟨l, ?_, encloses⟩⟩
        have later := found.2
        omega
      exact nests_arrow nests (.inr looked) arrow whole read here rfl
    · next t looked =>
      obtain rfl := at_parameter_list_stays looked
      obtain ⟨found, -⟩ := nests_assigned nests begins noIn t e next read here
      exact found

end

end ScriptEngine.Grammar.Script
