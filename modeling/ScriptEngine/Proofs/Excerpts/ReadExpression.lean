import ScriptEngine.Proofs.Excerpts.Steps
import ScriptEngine.Proofs.Spans.Accepted

/-!
The rules for expressions read the same from tokens that two scripts share. An expression takes a token at least, so
that nothing is to be told of one that begins behind these tokens; what may follow an expression is not taken there,
since nothing goes on with a token that closes.
-/

namespace ScriptEngine.Grammar.Excerpt

/-- The rules read the same in two scripts, whatever the functions are that they read it in. -/
structure Echoed (x : Excerpt) (rules rules' : Rules) : Prop where
  levels : ∃ levels, rules = rulesFor levels
  levels' : ∃ levels, rules' = rulesFor levels
  assignment : ∀ depth k noIn,
    x.Echoes false (depth + 1) k 1 Expr.unplaced (rules.assignment noIn) (rules'.assignment noIn)
  binary : ∀ depth k precedence noIn,
    x.Echoes false (depth + 1) k 1 Expr.unplaced (rules.binary precedence noIn) (rules'.binary precedence noIn)
  unary : ∀ depth k, x.Echoes false (depth + 1) k 1 Expr.unplaced rules.unary rules'.unary
  newExpression : ∀ depth k, x.whole.kindAt (x.first + k) = some (.keyword .new) →
    x.Echoes false (depth + 1) k 1 Expr.unplaced rules.newExpression rules'.newExpression
  statement : ∀ depth k, x.Echoes true (depth + 1) k 1 Stmt.unplaced rules.statement rules'.statement
  item : ∀ depth k, x.Echoes true (depth + 1) k 1 Stmt.unplaced rules.item rules'.item

variable {x : Excerpt} {rules rules' : Rules} {statements : Bool} {depth k l : Nat} {t u : Token}

/-! ## What expressions are read from -/

/-- What is told of readers inside any functions is told of a run. -/
theorem run_of_covers {α : Type} {script : Script} {i : Nat} {read : Reader α} {goal : Bool → α → Nat → Prop}
    {s s' : ReadingState} {a : α} (covers : ∀ strict outer, script.Covers (strict :: outer) i read (goal strict))
    (here : script.Comes i s) (done : read s = .ok (a, s')) : ∃ strict j, script.Comes j s' ∧ goal strict a j := by
  obtain ⟨⟨j, there, holds⟩, -⟩ := covers s.body.strict (s.outerBodies.map (·.strict)) s a s' done ⟨here, rfl⟩
  exact ⟨s.body.strict, j, there.place, holds⟩

theorem Echoed.nests (echoed : x.Echoed rules rules') : x.whole.Nests rules := by
  obtain ⟨levels, rfl⟩ := echoed.levels
  exact Script.nests_rules levels

theorem Echoed.nests' (echoed : x.Echoed rules rules') : x.part.Nests rules' := by
  obtain ⟨levels, rfl⟩ := echoed.levels'
  exact Script.nests_rules levels

/-- An expression is complete when its span is known. -/
theorem echoes_complete {form form' : ExprForm} {start start' : Nat} (same : form.unplaced = form'.unplaced) :
    x.Echoes statements depth k 0 Expr.unplaced (do return ⟨form, ← spanFrom start⟩)
      (do return ⟨form', ← spanFrom start'⟩) :=
  .stay (.span_from _ _) fun _ _ _ => .give (congrArg (fun form => (⟨form, .nowhere⟩ : Expr)) same)

theorem check_target_unplaced (form : ExprForm) (span : Span) :
    checkTarget ⟨form, span⟩ = checkTarget ⟨form.unplaced, span⟩ := by
  cases form <;> rfl

theorem is_name_unplaced (e : Expr) : isName e = isName e.unplaced := by
  obtain ⟨form, span⟩ := e
  cases form <;> rfl

/-- Whether an expression can be assigned does not depend on places. -/
theorem stays_check_target {target target' : Expr} (same : target.unplaced = target'.unplaced) :
    x.Stays depth (fun _ => ()) (checkTarget target) (checkTarget target') := by
  obtain ⟨form, span⟩ := target
  obtain ⟨form', span'⟩ := target'
  have forms : form.unplaced = form'.unplaced := (Expr.mk.inj same).1
  rw [check_target_unplaced form, check_target_unplaced form', forms]
  generalize form'.unplaced = common
  cases common with
  | identifier name =>
    refine .bind .is_strict fun strict strict' same => ?_
    obtain rfl : strict = strict' := same
    exact .ite Iff.rfl (fun _ => .fail _ _) fun _ => .give rfl
  | member object name => exact .give rfl
  | index object key => exact .give rfl
  | _ => exact .fail _ _

/-- The names of parameters. -/
abbrev parameterNames (parameters : List (String × Token)) : List String :=
  parameters.map Prod.fst

theorem echoes_parameter_list :
    x.Echoes statements depth k 1 parameterNames (parameterList rules) (parameterList rules') := by
  refine .bind_first (.expect (by simp) _) fun _ _ l _ _ => ?_
  extract_lets parameter finish
  have named (m : Nat) : x.Echoes statements depth m 1 Prod.fst parameter parameter := by
    refine .peek fun t u found twin => ?_
    exact .bind_first (.binding_name _) fun name name' _ _ same => .give same
  have finished (names names' : List (String × Token)) (m : Nat) (same : parameterNames names = parameterNames names') :
      x.Echoes statements depth m 1 parameterNames (finish names) (finish names') :=
    .bind_first (.expect (by simp) _) fun _ _ _ _ _ => .give same
  have listed : x.Echoes statements depth l 1 parameterNames
      (do if ← checkMark .closeParen then finish [] else finish (← readSeparated rules.levels parameter []))
      (do if ← checkMark .closeParen then finish [] else finish (← readSeparated rules'.levels parameter [])) := by
    refine .check_inner fun closed _ => .ite Iff.rfl (fun _ => finished [] [] l rfl) fun _ => ?_
    refine .bind (.separated (fun m _ => named m) _ _ [] [] rfl) fun names names' m _ same => ?_
    exact finished names names' m same
  exact listed.idle

theorem stays_check_strict_parameters (earlier : List String) (parameters parameters' : List (String × Token))
    (same : parameterNames parameters = parameterNames parameters') :
    x.Stays depth (fun _ => ()) (checkStrictParameters earlier parameters)
      (checkStrictParameters earlier parameters') := by
  induction parameters generalizing earlier parameters' with
  | nil =>
    cases parameters' with
    | nil => exact .give rfl
    | cons other rest => cases same
  | cons parameter rest ih =>
    cases parameters' with
    | nil => cases same
    | cons other rest' =>
      obtain ⟨name, token⟩ := parameter
      obtain ⟨name', token'⟩ := other
      obtain ⟨one, others⟩ := List.cons.inj same
      obtain rfl : name = name' := one
      unfold checkStrictParameters
      refine .ite Iff.rfl (fun _ => .fail_then _ _) fun _ => .ite Iff.rfl (fun _ => .fail_then _ _) fun _ => ?_
      exact ih _ _ others

/-- The body of a function and its parameters are checked once it is known whether the function is strict. -/
theorem echoes_with_checked {α γ : Type} {view : α → γ} {finish finish' : Reader α} {strict strict' : Bool} {more : Nat}
    {parameters parameters' : List (String × Token)}
    (flag : strict = strict') (same : parameterNames parameters = parameterNames parameters')
    (rest : x.Echoes statements depth k more view finish finish') :
    x.Echoes statements depth k more view
      (do if strict then checkStrictParameters [] parameters
          finish)
      (do if strict' then checkStrictParameters [] parameters'
          finish') :=
  .ite (by rw [flag]) (fun _ => .stay (stays_check_strict_parameters _ _ _ same) fun _ _ _ => rest) fun _ => rest

/-- A function is the same if all that it is made of is. -/
theorem function_code_unplaced {name : Option String} {kind : FunctionKind} {body body' : List Stmt}
    {strict strict' uses uses' : Bool} {scope scope' : ScopeNames} {source source' : String} {span span' : Span}
    {parameters parameters' : List (String × Token)} (names : parameters.map Prod.fst = parameters'.map Prod.fst)
    (inside : body.map Stmt.unplaced = body'.map Stmt.unplaced) (flag : strict = strict')
    (declared : scope.unplaced = scope'.unplaced) (mentions : uses = uses') (text : source = source') :
    FunctionCode.unplaced ⟨name, kind, parameters.map Prod.fst, body, strict, scope, uses, source, span⟩ =
      FunctionCode.unplaced ⟨name, kind, parameters'.map Prod.fst, body', strict', scope', uses', source', span'⟩ := by
  rw [FunctionCode.unplaced, FunctionCode.unplaced, unplaced_stmts, unplaced_stmts, names, inside, flag, declared,
    mentions, text]

/-! ## Bodies -/

/-- Where the string stands that is the statement, in parentheses or without. -/
def stringSpan? (s : Stmt) : Option Span :=
  match s.form with
  | .expr ⟨.literal (.string _), span⟩ => some span
  | _ => none

theorem is_directive_eq (t : Token) (s : Stmt) : isDirective t s = (stringSpan? s).any (· == t.span) := by
  obtain ⟨form, span⟩ := s
  cases form with
  | expr e =>
    obtain ⟨form, span⟩ := e
    cases form with
    | literal value => cases value <;> rfl
    | _ => rfl
  | _ => rfl

/-- A statement is a string wherever it stands. -/
theorem string_span_unplaced (s : Stmt) : (stringSpan? s).isSome = (stringSpan? s.unplaced).isSome := by
  obtain ⟨form, span⟩ := s
  cases form with
  | expr e =>
    obtain ⟨form, span⟩ := e
    cases form with
    | literal value => cases value <;> rfl
    | _ => rfl
  | _ => rfl

/-- A statement that begins with a string is a directive if it is nothing but a string. -/
theorem directive_of_row {script : Script} {strict : Bool} {i j : Nat} {s : Stmt} (row : script.StmtRow strict i s j)
    (found : script.tokens[i]? = some t) (string : t.kind = .string) :
    isDirective t s = (stringSpan? s).isSome := by
  rw [is_directive_eq]
  cases stands : stringSpan? s with
  | none => rfl
  | some place =>
    have literal : ∃ text, s.form = .expr ⟨.literal (.string text), place⟩ := by
      unfold stringSpan? at stands
      split at stands
      · next text span same =>
        obtain rfl := Option.some.inj stands
        exact ⟨text, same⟩
      · cases stands
    obtain ⟨text, same⟩ := literal
    rcases row.literal _ _ same rfl with opens | ⟨other, there, spans⟩
    · rw [Script.kind_at found, string] at opens
      cases opens
    · obtain rfl := Option.some.inj (found.symm.trans there)
      exact beq_iff_eq.mpr spans.symm

/-- A statement that says the same is a directive at a token if it is nothing but a string. -/
theorem exists_directive (s : Stmt) (u : Token) :
    ∃ s', s.unplaced = s'.unplaced ∧ isDirective u s' = (stringSpan? s').isSome := by
  obtain ⟨form, span⟩ := s
  cases form with
  | expr e =>
    obtain ⟨form, place⟩ := e
    refine ⟨⟨.expr ⟨form, u.span⟩, span⟩, rfl, ?_⟩
    rw [is_directive_eq]
    cases form with
    | literal value =>
      cases value with
      | string text => exact beq_self_eq_true u.span
      | _ => rfl
    | _ => rfl
  | _ => exact ⟨_, rfl, rfl⟩

variable (echoed : x.Echoed rules rules')

include echoed

/-- A statement of a body is a directive in both scripts, or in none. -/
theorem echoes_body_item {stop : TokenKind} {fuel fuel' : Nat} {inFront : Bool} {done done' : List Stmt}
    (found : x.whole.tokens[x.first + k]? = some t) (twin : x.Twins k t u)
    (shared : k < x.count → x.part.tokens[x.place + k]? = some u)
    (rest : ∀ l a a' front, a.unplaced = a'.unplaced → x.Echoes true (depth + 1) l 0 (List.map Stmt.unplaced)
      (bodyItems rules fuel stop front (a :: done)) (bodyItems rules' fuel' stop front (a' :: done'))) :
    x.Echoes true (depth + 1) k 1 (List.map Stmt.unplaced)
      (do let a ← rules.item
          let front := inFront && t.kind == .string && isDirective t a
          if front then obeyDirective t
          bodyItems rules fuel stop front (a :: done))
      (do let a' ← rules'.item
          let front := inFront && t.kind == .string && isDirective u a'
          if front then obeyDirective u
          bodyItems rules' fuel' stop front (a' :: done')) := by
  have after (a a' : Stmt) (l : Nat) (order : k + 1 ≤ l) (alike : a.unplaced = a'.unplaced) (front front' : Bool)
      (flags : front = front') : x.Echoes true (depth + 1) l 0 (List.map Stmt.unplaced)
        (do if front then obeyDirective t
            bodyItems rules fuel stop front (a :: done))
        (do if front' then obeyDirective u
            bodyItems rules' fuel' stop front' (a' :: done')) := by
    subst flags
    refine .ite Iff.rfl (fun _ => ?_) fun _ => rest l a a' _ alike
    exact .bind (.obey_directive found twin (by omega)) fun _ _ m _ _ => rest m a a' _ alike
  let known (t : Token) (s : Stmt) : Prop := t.kind = .string → isDirective t s = (stringSpan? s).isSome
  refine .bind_where (echoed.item depth k) (known t) (known u) ?_ ?_ ?_ ?_
  · intro s a next here read string
    obtain ⟨_, _, _, row⟩ := run_of_covers (fun strict outer => echoed.nests.item strict outer _) here read
    exact directive_of_row row found string
  · intro inside s a next here read string
    obtain ⟨_, _, _, row⟩ := run_of_covers (fun strict outer => echoed.nests'.item strict outer _) here read
    exact directive_of_row row (shared inside) string
  · intro a
    obtain ⟨a', alike, directive⟩ := exists_directive a u
    exact ⟨a', alike, fun _ => directive⟩
  · intro a a' l order alike known known'
    refine after a a' l order alike _ _ ?_
    by_cases string : t.kind = .string
    · rw [known string, known' (twin.kind.trans string), string_span_unplaced a, alike, ← string_span_unplaced a']
    · rw [beq_eq_false_iff_ne.mpr string, Bool.and_false, Bool.false_and, Bool.false_and]

theorem echoes_body_items (fuel fuel' : Nat) (inFront : Bool) (done done' : List Stmt)
    (same : done.map Stmt.unplaced = done'.map Stmt.unplaced) :
    x.Echoes true (depth + 1) k 0 (List.map Stmt.unplaced)
      (bodyItems rules fuel (.mark .closeBrace) inFront done)
      (bodyItems rules' fuel' (.mark .closeBrace) inFront done') := by
  induction fuel generalizing k fuel' inFront done done' with
  | zero => exact .broken
  | succ fuel ih =>
    refine .of_fuel (fun fuel' => bodyItems rules' fuel' (.mark .closeBrace) inFront done') rfl (fun fuel' => ?_) fuel'
    have ends : x.Echoes true (depth + 1) k 0 (List.map Stmt.unplaced) (pure done.reverse) (pure done'.reverse) := by
      refine .give ?_
      rw [List.map_reverse, List.map_reverse, same]
    have further (l : Nat) (a a' : Stmt) (front : Bool) (alike : a.unplaced = a'.unplaced) :=
      ih (k := l) fuel' front (a :: done) (a' :: done') (congrArg₂ List.cons alike same)
    refine .peek_edge (fun t u found twin shared => ?_) fun t u found last closes => ?_
    · rw [twin.kind]
      exact .ite Iff.rfl (fun _ => ends) fun _ => (echoes_body_item echoed found twin shared further).idle
    · have stops : (u.kind == .mark .closeBrace || u.kind == .endOfInput) = true := by
        simpa [closing] using closes
      rw [if_pos stops]
      by_cases ended : (t.kind == .mark .closeBrace || t.kind == .endOfInput) = true
      · rw [if_pos ended]
        exact ends
      · rw [if_neg ended]
        obtain ⟨ghost, twin, shared⟩ := exists_twin found
        exact ((echoes_body_item echoed found twin shared further).past (by omega)).idle

theorem echoes_expression (noIn : Bool) :
    x.Echoes false (depth + 1) k 1 Expr.unplaced (expression rules noIn) (expression rules' noIn) := by
  refine .bind_first (echoed.assignment depth k noIn) fun first first' l _ same => ?_
  refine .check (by decide) (fun comma => ?_) (.give same)
  obtain ⟨token, found, kind⟩ := Option.map_eq_some_iff.mp comma
  refine .pass found (by simp [kind]) ?_
  refine .bind (.separated (fun m _ => echoed.assignment depth m noIn) _ _ [] [] rfl) fun rest rest' m _ others => ?_
  refine echoes_complete ?_
  rw [ExprForm.unplaced_sequence, ExprForm.unplaced_sequence, List.map_cons, List.map_cons, same, others]

/-! ## Functions -/

section

variable {parameters parameters' : List (String × Token)} {start start' : Nat}

theorem echoes_function_body (name : Option String) (kind : FunctionKind)
    (same : parameterNames parameters = parameterNames parameters') (begins : x.Same start start') :
    x.Echoes statements depth k 1 FunctionCode.unplaced (functionBody rules name kind parameters start)
      (functionBody rules' name kind parameters' start') := by
  refine .bind_first (.expect (by simp) _) fun _ _ l order _ => .stay .is_strict fun strict strict' flag => ?_
  have items : x.Echoes true (depth + 1) l 0 (List.map Stmt.unplaced)
      (bodyItems rules rules.levels (.mark .closeBrace) true [])
      (bodyItems rules' rules'.levels (.mark .closeBrace) true []) := echoes_body_items echoed _ _ true [] [] rfl
  refine Echoes.moving (.bind_inside (.with_body flag items) fun result result' m later alike => ?_)
  obtain ⟨items, body⟩ := result
  obtain ⟨items', body'⟩ := result'
  obtain ⟨inside, outline⟩ := Prod.mk.inj alike
  refine .bind_first (.expect (by simp) _) fun _ _ n last _ => ?_
  have strict : body.unplaced.strict = body'.unplaced.strict := congrArg BodyState.strict outline
  have scope : body.unplaced.names = body'.unplaced.names := congrArg BodyState.names outline
  have uses : body.unplaced.usesArguments = body'.unplaced.usesArguments := congrArg BodyState.usesArguments outline
  refine echoes_with_checked strict same ?_
  refine .bind (.source_from begins (by omega)) fun source source' _ _ text => ?_
  refine .stay (.span_from _ _) fun _ _ _ => .give (function_code_unplaced same inside strict scope uses text)

theorem echoes_function_rest (kind : FunctionKind) (begins : x.Same start start') :
    x.Echoes statements depth k 1 FunctionCode.unplaced (functionRest rules kind start)
      (functionRest rules' kind start') := by
  unfold functionRest
  extract_lets finish finish'
  have finished (name : Option String) (l : Nat) :
      x.Echoes statements depth l 1 FunctionCode.unplaced (finish name) (finish' name) :=
    .bind_first echoes_parameter_list fun parameters parameters' m _ same =>
      (echoes_function_body echoed name kind same begins).idle
  refine .check_inner fun named _ => .ite Iff.rfl (fun _ => ?_) fun _ => .ite Iff.rfl (fun _ => ?_) fun _ => ?_
  · have name : x.Echoes statements depth k 1 id (some <$> bindingName "function name")
        (some <$> bindingName "function name") := .map (.binding_name _) fun _ _ same => congrArg some same
    refine .bind name fun name name' l _ same => ?_
    obtain rfl : name = name' := same
    exact finished name l
  · exact .fail_here_then _
  · exact finished none k

theorem echoes_arrow_rest (same : parameterNames parameters = parameterNames parameters')
    (begins : x.Same start start') :
    x.Echoes false depth k 1 Expr.unplaced (arrowRest rules parameters start)
      (arrowRest rules' parameters' start') := by
  refine .bind_first (.expect (by simp) _) fun _ _ l order _ => ?_
  extract_lets finish finish'
  have finished (code code' : FunctionCode) (m : Nat) (alike : code.unplaced = code'.unplaced) :
      x.Echoes false depth m 0 Expr.unplaced (finish code) (finish' code') :=
    echoes_complete (congrArg ExprForm.function alike)
  refine .check (by decide) (fun _ => ?_) ?_
  · exact .bind_first (echoes_function_body echoed none .arrow same begins) fun code code' m _ => finished code code' m
  · refine .stay .is_strict fun strict strict' flag => ?_
    refine .bind (.with_body flag (echoed.assignment depth l false)) fun result result' m later alike => ?_
    obtain ⟨value, body⟩ := result
    obtain ⟨value', body'⟩ := result'
    obtain ⟨inside, outline⟩ := Prod.mk.inj alike
    have scope : body.unplaced.names = body'.unplaced.names := congrArg BodyState.names outline
    refine echoes_with_checked flag same ?_
    refine .bind (.source_from begins (by omega)) fun source source' _ _ text => ?_
    refine .stay (.span_from _ _) fun span span' _ => finished _ _ _ ?_
    have returned := congrArg (fun e => [(⟨.ret (some e), .nowhere⟩ : Stmt)]) inside
    exact function_code_unplaced same returned flag scope rfl text

end

/-! ## Literals -/

theorem echoes_array_elements (fuel fuel' : Nat) (done done' : List (Option Expr))
    (same : done.map unplacedExpr? = done'.map unplacedExpr?) :
    x.Echoes false (depth + 1) k 1 (List.map unplacedExpr?) (arrayElements rules fuel done)
      (arrayElements rules' fuel' done') := by
  induction fuel generalizing k fuel' done done' with
  | zero => exact .broken
  | succ fuel ih =>
    refine .of_fuel (fun fuel' => arrayElements rules' fuel' done') rfl (fun fuel' => ?_) fuel'
    refine .accept_inner (by simp) (fun _ => .give ?_) (.accept_inner (by simp) (fun _ => ?_) ?_)
    · rw [List.map_reverse, List.map_reverse, same]
    · have further : (none :: done).map unplacedExpr? = (none :: done').map unplacedExpr? := congrArg (none :: ·) same
      exact (ih fuel' _ _ further).idle
    · refine .bind (echoed.assignment depth k false) fun element element' l _ alike => ?_
      have further : (some element :: done).map unplacedExpr? = (some element' :: done').map unplacedExpr? :=
        congrArg₂ List.cons (congrArg some alike) same
      refine .check_inner fun closed _ => .ite Iff.rfl (fun _ => ih fuel' _ _ further) fun _ => ?_
      exact .bind (.expect (by simp) _) fun _ _ m _ _ => ih fuel' _ _ further

omit echoed in
theorem echoes_property_name {α γ : Type} {view : α → γ} {more : Nat} {rest rest' : String → Reader α}
    (each : ∀ name l, k ≤ l → x.Echoes statements depth l (more + 1) view (rest name) (rest' name)) :
    x.Echoes statements depth k (more + 1) view (propertyName >>= rest) (propertyName >>= rest') := by
  unfold propertyName
  rw [bind_assoc, bind_assoc]
  refine .advance_inner fun l t u order _ face => ?_
  obtain ⟨kinds, said⟩ := Prod.mk.inj face
  obtain ⟨lexemes, -⟩ := Prod.mk.inj said
  rw [← kinds, ← lexemes]
  cases t.kind with
  | identifier => exact each t.lexeme l order
  | keyword word => exact each t.lexeme l order
  | string => exact each t.lexeme l order
  | number => exact each _ l order
  | _ => exact .fail_then _ _

/-- A property that is read or written by a function. -/
def accessorEntry (rules : Rules) (token : Token) (isGetter : Bool) : Reader Entry := do
  discard advance
  let key ← propertyName
  let parameters ← parameterList rules
  if isGetter then
    unless parameters.isEmpty do failAt token.span .getterParameters
  else
    unless parameters.length == 1 do failAt token.span .setterParameters
  let code ← functionBody rules none .expression parameters token.span.start
  return ⟨key, if isGetter then .getter code else .setter code, ← spanFrom token.span.start⟩

/-- A property with a value. -/
def valueEntry (rules : Rules) (token : Token) : Reader Entry := do
  let key ← propertyName
  expectMark .colon "`:` after property name"
  let value ← rules.assignment false
  return ⟨key, .value value, ← spanFrom token.span.start⟩

/-- The first two tokens tell which kind of property is read. -/
def entryBehind (rules : Rules) (token next : Token) : Reader Entry :=
  if token.kind == .identifier && (token.lexeme == "get" || token.lexeme == "set") &&
      !endsPropertyName next.kind then accessorEntry rules token (token.lexeme == "get")
  else valueEntry rules token

omit echoed in
theorem object_entry_eq (rules : Rules) :
    objectEntry rules = (do let s ← get; entryBehind rules s.current (s.tokenAt 1)) := rfl

theorem echoes_accessor_entry (found : x.whole.tokens[x.first + k]? = some t) (goesOn : t.kind ≠ .endOfInput)
    (twin : x.Twins k t u) (isGetter : Bool) :
    x.Echoes false depth k 2 Entry.unplaced (accessorEntry rules t isGetter) (accessorEntry rules' u isGetter) := by
  refine .pass found goesOn (echoes_property_name fun key l _ => ?_)
  refine .bind_first echoes_parameter_list fun parameters parameters' m _ same => ?_
  extract_lets finish finish'
  have finished : x.Echoes false depth m 0 Entry.unplaced (finish ()) (finish' ()) := by
    refine .bind (echoes_function_body echoed none .expression same twin.start) fun code code' _ _ alike => ?_
    refine .stay (.span_from _ _) fun _ _ _ => .give ?_
    cases isGetter with
    | true => exact congrArg (fun code => (⟨key, .getter code, .nowhere⟩ : Entry)) alike
    | false => exact congrArg (fun code => (⟨key, .setter code, .nowhere⟩ : Entry)) alike
  have count : parameters.length = parameters'.length := by
    have lengths := congrArg List.length same
    rwa [List.length_map, List.length_map] at lengths
  refine .ite Iff.rfl (fun _ => ?_) fun _ => ?_
  · have empty : parameters.isEmpty ↔ parameters'.isEmpty := by
      rw [List.isEmpty_iff_length_eq_zero, List.isEmpty_iff_length_eq_zero, count]
    exact .ite empty (fun _ => finished) fun _ => .fail_then _ _
  · exact .ite (by rw [count]) (fun _ => finished) fun _ => .fail_then _ _

theorem echoes_value_entry :
    x.Echoes false (depth + 1) k 2 Entry.unplaced (valueEntry rules t) (valueEntry rules' u) := by
  refine echoes_property_name fun key l _ => ?_
  refine .bind_both (.expect (by simp) _) fun _ _ m _ _ => ?_
  refine .bind_first (echoed.assignment depth m false) fun value value' _ _ same => ?_
  exact .stay (.span_from _ _) fun _ _ _ => .give (congrArg (fun e => (⟨key, .value e, .nowhere⟩ : Entry)) same)

theorem echoes_object_entry :
    x.Echoes false (depth + 1) k 2 Entry.unplaced (objectEntry rules) (objectEntry rules') := by
  rw [object_entry_eq, object_entry_eq]
  refine .look_ahead fun t next u next' found twin _ alike => ?_
  have same (next next' : Token) (kinds : next'.kind = next.kind) :
      x.Echoes false (depth + 1) k 2 Entry.unplaced (entryBehind rules t next) (entryBehind rules' u next') := by
    unfold entryBehind
    rw [twin.kind, twin.lexeme, kinds]
    refine .ite Iff.rfl (fun accessor => ?_) fun _ => echoes_value_entry echoed
    have name : t.kind = .identifier := by
      rw [Bool.and_eq_true, Bool.and_eq_true, beq_iff_eq] at accessor
      exact accessor.1.1
    exact echoes_accessor_entry echoed found (by simp [name]) twin _
  rcases alike with kinds | ⟨beyond, -⟩
  · exact same next next' kinds
  · exact (same next next rfl).past beyond

theorem echoes_object_entries (fuel fuel' : Nat) (done done' : List Entry)
    (same : done.map Entry.unplaced = done'.map Entry.unplaced) :
    x.Echoes false (depth + 1) k 1 (List.map Entry.unplaced) (objectEntries rules fuel done)
      (objectEntries rules' fuel' done') := by
  induction fuel generalizing k fuel' done done' with
  | zero => exact .broken
  | succ fuel ih =>
    refine .of_fuel (fun fuel' => objectEntries rules' fuel' done') rfl (fun fuel' => ?_) fuel'
    refine .accept_inner (by simp) (fun _ => .give ?_) ?_
    · rw [List.map_reverse, List.map_reverse, same]
    · refine .bind (echoes_object_entry echoed) fun entry entry' l _ alike => ?_
      have further : (entry :: done).map Entry.unplaced = (entry' :: done').map Entry.unplaced :=
        congrArg₂ List.cons alike same
      refine .check_inner fun closed _ => .ite Iff.rfl (fun _ => ih fuel' _ _ further) fun _ => ?_
      exact .bind (.expect (by simp) _) fun _ _ m _ _ => ih fuel' _ _ further

/-! ## Expressions -/

theorem echoes_primary :
    x.Echoes false (depth + 1) k 1 Expr.unplaced (primary rules) (primary rules') := by
  refine .peek fun t u found twin => ?_
  let complete (token : Token) (form : ExprForm) : Reader Expr := do return ⟨form, ← spanFrom token.span.start⟩
  have completed (form form' : ExprForm) (l : Nat) (same : form.unplaced = form'.unplaced) :
      x.Echoes false (depth + 1) l 0 Expr.unplaced (complete t form) (complete u form') := echoes_complete same
  have octal (fault : SyntaxFault) (form : ExprForm) :
      x.Echoes false (depth + 1) (k + 1) 0 Expr.unplaced
        (do if t.legacyOctal && (← isStrict) then failAt t.span fault
            complete t form)
        (do if u.legacyOctal && (← isStrict) then failAt u.span fault
            complete u form) := by
    refine .stay .is_strict fun strict strict' same => ?_
    obtain rfl : strict = strict' := same
    exact .ite (by rw [twin.legacyOctal]) (fun _ => .fail_then _ _) fun _ => completed _ _ _ rfl
  rw [twin.kind, twin.lexeme]
  have pass (goesOn : t.kind ≠ .endOfInput) {read read' : Reader Expr}
      (rest : x.Echoes false (depth + 1) (k + 1) 0 Expr.unplaced read read') := Echoes.pass found goesOn rest
  cases kind : t.kind with
  | identifier =>
    refine pass (by simp [kind]) (.ite Iff.rfl (fun _ => ?_) fun _ => completed _ _ _ rfl)
    exact .stay .mention_arguments fun _ _ _ => completed _ _ _ rfl
  | number => exact pass (by simp [kind]) (octal _ _)
  | string => exact pass (by simp [kind]) (octal _ _)
  | keyword word =>
    have goesOn : t.kind ≠ .endOfInput := by simp [kind]
    cases word with
    | this => exact pass goesOn (completed _ _ _ rfl)
    | true => exact pass goesOn (completed _ _ _ rfl)
    | false => exact pass goesOn (completed _ _ _ rfl)
    | null => exact pass goesOn (completed _ _ _ rfl)
    | function =>
      refine pass goesOn (.bind (echoes_function_rest echoed .expression twin.start) fun code code' l _ same => ?_)
      exact completed (.function code) (.function code') _ (congrArg ExprForm.function same)
    | _ => exact .fail _ _
  | mark m =>
    have goesOn : t.kind ≠ .endOfInput := by simp [kind]
    cases m with
    | openParen =>
      refine pass goesOn (.bind (echoes_expression echoed false) fun inner inner' l _ same => ?_)
      exact .bind (.expect (by simp) _) fun _ _ _ _ _ => .give same
    | openBracket =>
      refine pass goesOn (.bind (echoes_array_elements echoed _ _ [] [] rfl) fun elements elements' l _ same => ?_)
      refine completed _ _ _ ?_
      rw [ExprForm.unplaced_array, ExprForm.unplaced_array, same]
    | openBrace =>
      refine pass goesOn (.bind (echoes_object_entries echoed _ _ [] [] rfl) fun entries entries' l _ same => ?_)
      refine completed _ _ _ ?_
      rw [ExprForm.unplaced_object, ExprForm.unplaced_object, same]
    | _ => exact .fail _ _
  | endOfInput => exact .fail _ _

theorem echoes_argument_list :
    x.Echoes false (depth + 1) k 1 (List.map Expr.unplaced) (argumentList rules) (argumentList rules') := by
  refine .bind_first (.expect (by simp) _) fun _ _ l _ _ => ?_
  extract_lets finish
  have finished (items items' : List Expr) (m : Nat) (same : items.map Expr.unplaced = items'.map Expr.unplaced) :
      x.Echoes false (depth + 1) m 1 (List.map Expr.unplaced) (finish items) (finish items') :=
    .bind_first (.expect (by simp) _) fun _ _ _ _ _ => .give same
  refine Echoes.moving (.check_inner fun closed _ => .ite Iff.rfl (fun _ => finished [] [] l rfl) fun _ => ?_)
  exact .bind (.separated (fun m _ => echoed.assignment depth m false) _ _ [] [] rfl) fun items items' m _ same =>
    finished items items' m same

theorem echoes_member_suffix {object object' : Expr} (same : object.unplaced = object'.unplaced) :
    x.Echoes false (depth + 1) k 1 Expr.unplaced (memberSuffix rules object) (memberSuffix rules' object') := by
  refine .accept_inner (by simp) (fun dot => .moving (.take_proper (fun t u found twin => ?_) ?_)) ?_
  · rw [twin.kind, twin.lexeme]
    cases t.kind with
    | identifier => exact echoes_complete (congrArg (ExprForm.member · t.lexeme) same)
    | keyword word => exact echoes_complete (congrArg (ExprForm.member · t.lexeme) same)
    | _ => exact .fail _ _
  · intro t s a v found done
    have kind : t.kind = .mark .dot := Option.some.inj ((Script.kind_at found).symm.trans dot)
    rw [kind] at done
    cases done
  · refine .bind_first (.expect (by simp) _) fun _ _ l _ _ => ?_
    refine .bind (echoes_expression echoed false) fun key key' m _ alike => ?_
    refine .bind (.expect (by simp) _) fun _ _ _ _ _ => echoes_complete ?_
    exact congrArg₂ ExprForm.index same alike

omit echoed in
/-- Whether a suffix names a property is known of its first token. -/
theorem echoes_at_member {yes yes' no no' : Reader Expr}
    (taken : x.Echoes false depth k 1 Expr.unplaced yes yes') (left : x.Echoes false depth k 0 Expr.unplaced no no') :
    x.Echoes false depth k 0 Expr.unplaced (do if (← get).atMember then yes else no)
      (do if (← get).atMember then yes' else no') := by
  let names (kind : TokenKind) : Bool := kind == .mark .dot || kind == .mark .openBracket
  exact .ask_state names (fun _ => rfl) (by decide) (fun _ _ _ => taken) left

theorem echoes_member_suffixes (fuel fuel' : Nat) {object object' : Expr} (same : object.unplaced = object'.unplaced) :
    x.Echoes false (depth + 1) k 0 Expr.unplaced (memberSuffixes rules fuel object)
      (memberSuffixes rules' fuel' object') := by
  induction fuel generalizing k fuel' object object' with
  | zero => exact .broken
  | succ fuel ih =>
    refine .of_fuel (fun fuel' => memberSuffixes rules' fuel' object') rfl (fun fuel' => ?_) fuel'
    refine echoes_at_member ?_ (.give same)
    exact .bind_first (echoes_member_suffix echoed same) fun e e' l _ alike => ih fuel' alike

theorem echoes_new_expression (keyword : x.whole.kindAt (x.first + k) = some (.keyword .new)) :
    x.Echoes false (depth + 1) k 1 Expr.unplaced (newExpression rules) (newExpression rules') := by
  obtain ⟨token, found, kind⟩ := Option.map_eq_some_iff.mp keyword
  refine .take found (by simp [kind]) fun u twin => ?_
  extract_lets start finish start' finish'
  have finished (head head' : Expr) (l : Nat) (same : head.unplaced = head'.unplaced) :
      x.Echoes false (depth + 1) l 0 Expr.unplaced (finish head) (finish' head') := by
    refine .bind (echoes_member_suffixes echoed _ _ same) fun callee callee' m _ alike => ?_
    extract_lets complete complete'
    have completed (items items' : List Expr) (n : Nat) (others : items.map Expr.unplaced = items'.map Expr.unplaced) :
        x.Echoes false (depth + 1) n 0 Expr.unplaced (complete items) (complete' items') := by
      refine echoes_complete ?_
      rw [ExprForm.unplaced_construct, ExprForm.unplaced_construct, alike, others]
    refine .check (by decide) (fun _ => ?_) (completed [] [] m rfl)
    exact .bind_first (echoes_argument_list echoed) fun items items' n _ => completed items items' n
  refine Echoes.moving (.check_inner fun nested again => .ite Iff.rfl (fun holds => ?_) fun _ => ?_)
  · exact .bind_first (echoed.newExpression depth _ (again.mp holds)) fun head head' l _ => finished head head' l
  · exact .bind_first (echoes_primary echoed) fun head head' l _ => finished head head' l

theorem echoes_call_suffixes (fuel fuel' : Nat) {callee callee' : Expr} (same : callee.unplaced = callee'.unplaced) :
    x.Echoes false (depth + 1) k 0 Expr.unplaced (callSuffixes rules fuel callee)
      (callSuffixes rules' fuel' callee') := by
  induction fuel generalizing k fuel' callee callee' with
  | zero => exact .broken
  | succ fuel ih =>
    refine .of_fuel (fun fuel' => callSuffixes rules' fuel' callee') rfl (fun fuel' => ?_) fuel'
    refine .check (by decide) (fun _ => ?_) (echoes_at_member ?_ (.give same))
    · refine .bind_first (echoes_argument_list echoed) fun items items' l _ others => ?_
      refine .stay (.span_from _ _) fun _ _ _ => ih fuel' ?_
      rw [Expr.unplaced, Expr.unplaced, ExprForm.unplaced_call, ExprForm.unplaced_call, same, others]
    · exact .bind_first (echoes_member_suffix echoed same) fun e e' l _ alike => ih fuel' alike

theorem echoes_left_hand_side :
    x.Echoes false (depth + 1) k 1 Expr.unplaced (leftHandSide rules) (leftHandSide rules') := by
  refine .check_inner fun constructs new => .ite Iff.rfl (fun holds => ?_) fun _ => ?_
  · exact .bind_first (echoes_new_expression echoed (new.mp holds)) fun e e' l _ same =>
      echoes_call_suffixes echoed _ _ same
  · exact .bind_first (echoes_primary echoed) fun e e' l _ same => echoes_call_suffixes echoed _ _ same

omit echoed in
/-- No operator stands where nothing goes on. -/
theorem operator_of_closing {β : Type} (operator? : TokenKind → Option β) {kind : TokenKind}
    (closes : kind ∈ closing false) (paren : operator? (.mark .closeParen) = none)
    (brace : operator? (.mark .closeBrace) = none) (ends : operator? .endOfInput = none) : operator? kind = none := by
  simp only [closing, Bool.false_eq_true, if_false, List.mem_cons, List.not_mem_nil, or_false] at closes
  rcases closes with rfl | rfl | rfl
  · exact paren
  · exact brace
  · exact ends

theorem echoes_postfix_update :
    x.Echoes false (depth + 1) k 1 Expr.unplaced (postfixUpdate rules) (postfixUpdate rules') := by
  refine .bind_first (echoes_left_hand_side echoed) fun target target' l order same => ?_
  let update (op : UpdateOp) (target : Expr) : Reader Expr := do
    checkTarget target
    discard advance
    return ⟨.update op false target, ← spanFrom target.span.start⟩
  have updates (op : UpdateOp) (t : Token) (found : x.whole.tokens[x.first + l]? = some t)
      (known : updateOp? t.kind = some op) :
      x.Echoes false (depth + 1) l 1 Expr.unplaced (update op target) (update op target') := by
    refine .stay (stays_check_target same) fun _ _ _ => .pass found ?_ (echoes_complete ?_)
    · exact (Script.flat_of_operator known rfl rfl rfl).ends
    · exact congrArg (ExprForm.update op false) same
  refine .peek_edge (fun t u found twin _ => ?_) fun t u found last closes => ?_
  · rw [twin.kind, twin.newline (by omega)]
    cases known : updateOp? t.kind with
    | none => exact .give same
    | some op => exact .ite Iff.rfl (fun _ => .give same) fun _ => (updates op t found known).idle
  · rw [operator_of_closing updateOp? closes rfl rfl rfl]
    cases known : updateOp? t.kind with
    | none => exact .give same
    | some op =>
      dsimp only
      by_cases line : t.newlineBefore = true
      · rw [if_pos line]
        exact .give same
      · rw [if_neg line]
        exact ((updates op t found known).past (by omega)).idle

theorem echoes_unary :
    x.Echoes false (depth + 1) k 1 Expr.unplaced (unary rules) (unary rules') := by
  refine .peek fun t u found twin => ?_
  extract_lets start start'
  rw [twin.kind]
  cases prefix_ : unaryOp? t.kind with
  | some op =>
    have goesOn := (Script.flat_of_operator prefix_ rfl rfl rfl).ends
    refine .pass found goesOn (.bind (echoed.unary depth _) fun operand operand' l _ same => ?_)
    refine .stay .is_strict fun strict strict' flag => ?_
    obtain rfl : strict = strict' := flag
    have names : isName operand = isName operand' := by
      rw [is_name_unplaced operand, same, ← is_name_unplaced operand']
    refine .ite (by rw [names]) (fun _ => .fail_then _ _) fun _ => ?_
    exact echoes_complete (congrArg (ExprForm.unary op) same)
  | none =>
    cases known : updateOp? t.kind with
    | some op =>
      have goesOn := (Script.flat_of_operator known rfl rfl rfl).ends
      refine .pass found goesOn (.bind (echoed.unary depth _) fun target target' l _ same => ?_)
      refine .stay (stays_check_target same) fun _ _ _ => echoes_complete ?_
      exact congrArg (ExprForm.update op true) same
    | none => exact echoes_postfix_update echoed

omit echoed in
theorem operation_unplaced (op : InfixOp) {left left' right right' : Expr} (first : left.unplaced = left'.unplaced)
    (second : right.unplaced = right'.unplaced) :
    (op.apply left right).unplaced = (op.apply left' right').unplaced := by
  cases op with
  | binary op => exact congrArg₂ (fun l r => (⟨.binary op l r, .nowhere⟩ : Expr)) first second
  | logical op => exact congrArg₂ (fun l r => (⟨.logical op l r, .nowhere⟩ : Expr)) first second

theorem echoes_binary_rest (precedence : Nat) (noIn : Bool) (fuel fuel' : Nat) {left left' : Expr}
    (same : left.unplaced = left'.unplaced) :
    x.Echoes false (depth + 1) k 0 Expr.unplaced (binaryRest rules precedence noIn fuel left)
      (binaryRest rules' precedence noIn fuel' left') := by
  induction fuel generalizing k fuel' left left' with
  | zero => exact .broken
  | succ fuel ih =>
    refine .of_fuel (fun fuel' => binaryRest rules' precedence noIn fuel' left') rfl (fun fuel' => ?_) fuel'
    have operates (t : Token) (p : Nat) (op : InfixOp) (found : x.whole.tokens[x.first + k]? = some t)
        (known : infixOp? noIn t.kind = some (p, op)) : x.Echoes false (depth + 1) k 1 Expr.unplaced
          (do discard advance
              binaryRest rules precedence noIn fuel (op.apply left (← rules.binary (p + 1) noIn)))
          (do discard advance
              binaryRest rules' precedence noIn fuel' (op.apply left' (← rules'.binary (p + 1) noIn))) := by
      refine .pass found (Script.flat_of_operator known rfl rfl rfl).ends ?_
      exact .bind (echoed.binary depth _ _ _) fun right right' l _ alike => ih fuel' (operation_unplaced op same alike)
    refine .peek_edge (fun t u found twin _ => ?_) fun t u found last closes => ?_
    · rw [twin.kind]
      cases known : infixOp? noIn t.kind with
      | none => exact .give same
      | some operator =>
        obtain ⟨p, op⟩ := operator
        exact .ite Iff.rfl (fun _ => .give same) fun _ => (operates t p op found known).idle
    · rw [operator_of_closing (infixOp? noIn) closes rfl rfl rfl]
      cases known : infixOp? noIn t.kind with
      | none => exact .give same
      | some operator =>
        obtain ⟨p, op⟩ := operator
        dsimp only
        by_cases loose : p < precedence
        · rw [if_pos loose]
          exact .give same
        · rw [if_neg loose]
          exact ((operates t p op found known).past (by omega)).idle

theorem echoes_binary (precedence : Nat) (noIn : Bool) :
    x.Echoes false (depth + 1) k 1 Expr.unplaced (binary rules precedence noIn) (binary rules' precedence noIn) :=
  .bind_first (echoes_unary echoed) fun _ _ _ _ same => echoes_binary_rest echoed precedence noIn _ _ same

theorem echoes_conditional (noIn : Bool) :
    x.Echoes false (depth + 1) k 1 Expr.unplaced (conditional rules noIn) (conditional rules' noIn) := by
  refine .bind_first (echoes_binary echoed 0 noIn) fun test test' l _ same => ?_
  refine .accept (by decide) (fun _ => ?_) (.give same)
  refine .bind (echoed.assignment depth _ false) fun yes yes' m _ first => ?_
  refine .bind (.expect (by simp) _) fun _ _ n _ _ => ?_
  refine .bind (echoed.assignment depth n noIn) fun no no' _ _ second => echoes_complete ?_
  change ExprForm.conditional _ _ _ = .conditional _ _ _
  rw [same, first, second]

theorem echoes_assigned (noIn : Bool) (start start' : Nat) :
    x.Echoes false (depth + 1) k 1 Expr.unplaced (assigned rules noIn start) (assigned rules' noIn start') := by
  refine .bind_first (echoes_conditional echoed noIn) fun target target' l _ same => ?_
  have assigns (t : Token) (op : Option BinaryOp) (found : x.whole.tokens[x.first + l]? = some t)
      (known : assignOp? t.kind = some op) : x.Echoes false (depth + 1) l 1 Expr.unplaced
        (do checkTarget target
            discard advance
            let value ← rules.assignment noIn
            return ⟨.assign op target value, ← spanFrom start⟩)
        (do checkTarget target'
            discard advance
            let value ← rules'.assignment noIn
            return ⟨.assign op target' value, ← spanFrom start'⟩) := by
    refine .stay (stays_check_target same) fun _ _ _ => .pass found (Script.flat_of_operator known rfl rfl rfl).ends ?_
    refine .bind (echoed.assignment depth _ noIn) fun value value' m _ alike => echoes_complete ?_
    exact congrArg₂ (ExprForm.assign op) same alike
  refine .peek_edge (fun t u found twin _ => ?_) fun t u found last closes => ?_
  · rw [twin.kind]
    cases known : assignOp? t.kind with
    | none => exact .give same
    | some op => exact (assigns t op found known).idle
  · rw [operator_of_closing assignOp? closes rfl rfl rfl]
    cases known : assignOp? t.kind with
    | none => exact .give same
    | some op => exact ((assigns t op found known).past (by omega)).idle

end ScriptEngine.Grammar.Excerpt
