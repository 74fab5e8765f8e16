import ScriptEngine.Proofs.Excerpts.Enclosed
import ScriptEngine.Proofs.Excerpts.SoleExpression

/-!
The text that a function keeps is that of the function. Between parentheses it is a script of its own, which is accepted
in code that is as strict as the one around the function, and its only statement is the same function again.
-/

namespace ScriptEngine

/-- The function as an expression. Only a declaration is anything else. -/
def FunctionCode.asExpression (code : FunctionCode) : FunctionCode :=
  { code with kind := if code.kind = .declaration then .expression else code.kind }

theorem as_expression_of_ne {code : FunctionCode} (other : code.kind ≠ .declaration) : code.asExpression = code := by
  rw [FunctionCode.asExpression, if_neg other]
  cases code
  rfl

namespace Grammar

variable {α : Type} {rules : Rules} {start : Nat} {code : FunctionCode} {s t : ReadingState}

/-! ## The text of a function -/

/-- What is said of the end of any run. -/
def Always (read : Reader α) (after : α → ReadingState → Prop) : Prop :=
  ∀ s a t, read s = .ok (a, t) → after a t

/-- A function of a kind keeps the text up to the token passed last. -/
structure KeepsText (start : Nat) (kind : FunctionKind) (code : FunctionCode) (s : ReadingState) : Prop where
  kind : code.kind = kind
  text : Span.slice? ⟨start, s.previous.span.stop⟩ s.source = some code.source.toList

theorem Always.behind {β : Type} {read : Reader β} {rest : β → Reader α} {after : α → ReadingState → Prop}
    (later : ∀ b, Always (rest b) after) : Always (read >>= rest) after := by
  intro s a t done
  obtain ⟨b, u, -, ended⟩ := ok_of_steps done
  exact later b u a t ended

theorem Always.ite {c : Prop} [Decidable c] {yes no : Reader α} {after : α → ReadingState → Prop}
    (taken : Always yes after) (left : Always no after) : Always (if c then yes else no) after := by
  split
  · exact taken
  · exact left

/-- A function is complete when its text is cut. -/
theorem keeps_text_of_cut {make : String → Span → FunctionCode} {kind : FunctionKind}
    (known : ∀ text span, (make text span).kind = kind ∧ (make text span).source = text) :
    Always (do return make (← sourceFrom start) (← spanFrom start)) (KeepsText start kind) := by
  intro s code t done
  obtain ⟨text, u, cut, ended⟩ := ok_of_steps done
  obtain ⟨rfl, part, slice, rfl⟩ := slice_of_source_from cut
  cases ended
  refine ⟨(known _ _).1, ?_⟩
  rw [(known _ _).2, String.toList_ofList]
  exact slice

theorem function_body_keeps_text (name : Option String) (kind : FunctionKind) (parameters : List (String × Token)) :
    Always (functionBody rules name kind parameters start) (KeepsText start kind) := by
  refine .behind fun _ => .behind fun _ => .behind fun result => .behind fun _ => ?_
  obtain ⟨statements, body⟩ := result
  extract_lets finish
  have finished : Always (finish ()) (KeepsText start kind) := keeps_text_of_cut fun _ _ => ⟨rfl, rfl⟩
  exact .ite (.behind fun _ => finished) finished

theorem function_rest_keeps_text (kind : FunctionKind) :
    Always (functionRest rules kind start) (KeepsText start kind) := by
  unfold functionRest
  extract_lets finish
  have finished (name : Option String) : Always (finish name) (KeepsText start kind) :=
    .behind fun parameters => function_body_keeps_text name kind parameters
  exact .behind fun _ => .ite (.behind finished) (.ite (.behind finished) (.behind finished))

/-- An expression that is an arrow function keeps the text of it. -/
def ArrowKeepsText (start : Nat) (e : Expr) (s : ReadingState) : Prop :=
  ∀ code, e.form = .function code → KeepsText start .arrow code s

theorem arrow_rest_keeps_text (parameters : List (String × Token)) :
    Always (arrowRest rules parameters start) (ArrowKeepsText start) := by
  unfold arrowRest
  extract_lets finish
  have finished {read : Reader FunctionCode} (keeps : Always read (KeepsText start .arrow)) :
      Always (read >>= finish) (ArrowKeepsText start) := by
    intro s e t done
    obtain ⟨code, u, cut, ended⟩ := ok_of_steps done
    obtain ⟨span, v, passed, given⟩ := ok_of_steps ended
    cases passed
    cases given
    rintro other ⟨⟩
    exact keeps s code _ cut
  refine .behind fun _ => .behind fun _ => .ite (finished (function_body_keeps_text _ _ _)) ?_
  refine .behind fun strict => .behind fun result => ?_
  obtain ⟨value, body⟩ := result
  dsimp -zeta only
  extract_lets complete
  let make (source : String) (span : Span) : FunctionCode :=
    { name := none, kind := .arrow, parameters := parameters.map Prod.fst, body := [⟨.ret (some value), value.span⟩],
      strict, scope := body.names, usesArguments := false, source, span }
  have cut : Always (do return make (← sourceFrom start) (← spanFrom start)) (KeepsText start .arrow) :=
    keeps_text_of_cut fun _ _ => ⟨rfl, rfl⟩
  have completed : Always (complete ()) (ArrowKeepsText start) := by
    have whole := finished cut
    simp only [bind_assoc] at whole
    exact whole
  exact .ite (.behind fun _ => completed) completed

theorem arrow_keeps_text {noIn : Bool} {span : Span}
    (begins : s.atSingleParameter = true ∨ atParameterList s = .ok (true, s))
    (done : assignment rules noIn s = .ok (⟨.function code, span⟩, t)) :
    KeepsText s.current.span.start .arrow code t := by
  rw [assignment_eq] at done
  by_cases single : s.atSingleParameter = true
  · rw [if_pos single] at done
    have keeps : Always (do arrowRest rules [(← bindingName "parameter name", s.current)] s.current.span.start)
        (ArrowKeepsText s.current.span.start) := .behind fun name => arrow_rest_keeps_text _
    exact keeps _ _ _ done code rfl
  · rw [if_neg single, begins.resolve_left single] at done
    have keeps : Always (do arrowRest rules (← parameterList rules) s.current.span.start)
        (ArrowKeepsText s.current.span.start) := .behind fun parameters => arrow_rest_keeps_text _
    exact keeps _ _ _ done code rfl

/-! ## Declarations as expressions -/

theorem ok_of_map {β : Type} {f : α → β} {read : Reader α} {a : α} (done : read s = .ok (a, t)) :
    (f <$> read) s = .ok (f a, t) := by
  have steps : (f <$> read) s = read s >>= fun p => .ok (f p.1, p.2) := rfl
  rw [steps, done]
  rfl

/-- What a function declaration is read from is read as an expression, too. -/
theorem function_rest_expression (done : functionRest rules .declaration start s = .ok (code, t)) :
    functionRest rules .expression start s = .ok ({ code with kind := .expression }, t) := by
  have body (name : Option String) (parameters : List (String × Token)) :
      functionBody rules name .expression parameters start =
        (fun code => { code with kind := .expression }) <$> functionBody rules name .declaration parameters start := by
    simp only [functionBody, map_bind, apply_ite, map_pure]
    rfl
  -- The kind is not looked at but where the name is left out.
  have rest (read : Reader (Option String)) (done : (do
      let name ← read
      functionBody rules name .declaration (← parameterList rules) start) s = .ok (code, t)) : (do
      let name ← read
      functionBody rules name .expression (← parameterList rules) start) s =
        .ok ({ code with kind := .expression }, t) := by
    simp only [body, ← map_bind]
    exact ok_of_map done
  rw [functionRest, run_check] at done ⊢
  by_cases named : (s.current.kind == .identifier) = true
  · rw [if_pos named] at done ⊢
    exact rest _ done
  · rw [if_neg named] at done ⊢
    have declares : (FunctionKind.declaration == .declaration) = true := by decide
    rw [if_pos declares] at done
    cases done

/-! ## Functions between parentheses -/

/-- An expression is a function that says the same as another one. -/
def IsFunction (code : FunctionCode) (e : Expr) : Prop :=
  ∃ other span, e = ⟨.function other, span⟩ ∧ code.unplaced = other.unplaced

theorem is_function_of_unplaced {span : Span} {e : Expr}
    (same : (⟨.function code, span⟩ : Expr).unplaced = e.unplaced) : IsFunction code e := by
  obtain ⟨form, span'⟩ := e
  have forms : ExprForm.function code.unplaced = form.unplaced := congrArg Expr.form same
  cases form with
  | function other => exact ⟨other, span', rfl, ExprForm.function.inj forms⟩
  | _ => cases forms

/-- A function behind its keyword is all of an expression. -/
theorem gives_function_behind {n : Nat} {good : FunctionCode → ReadingState → Prop}
    (keyword : s.current.kind = .keyword .function)
    (rest : Gives (functionRest (rulesFor n) .expression s.current.span.start s.pass) fun other t =>
      good other t ∧ t.current.kind ∈ closing false) :
    Gives (assignment (rulesFor n) false s) fun e t => ∃ other span, e = ⟨.function other, span⟩ ∧ good other t := by
  have single : ¬ s.atSingleParameter = true := by
    simp [ReadingState.atSingleParameter, keyword]
  have first : Gives (primary (rulesFor n) s)
      (Ended fun e t => ∃ other span, e = ⟨.function other, span⟩ ∧ good other t) := by
    rw [primary, run_peek]
    extract_lets complete
    rw [keyword]
    dsimp only
    rw [run_pass]
    refine rest.bind fun other t there => .of_ok rfl ?_
    exact ⟨⟨other, _, rfl, there.1⟩, there.2⟩
  rw [assignment_eq, if_neg single, no_parameter_list (by rw [keyword]; decide)]
  have whole := gives_assigned (by rw [keyword]; exact ⟨rfl, rfl, by decide⟩) false s.current.span.start first
  exact whole.mono fun e t there => there.1

theorem gives_function_expression {n : Nat} {last : ReadingState → Prop}
    (keyword : s.current.kind = .keyword .function)
    (rest : Gives (functionRest (rulesFor n) .expression s.current.span.start s.pass) fun other t =>
      code.unplaced = other.unplaced ∧ last t ∧ t.current.kind ∈ closing false) :
    Gives (assignment (rulesFor n) false s) fun e t => IsFunction code e ∧ last t := by
  have behind : Gives (assignment (rulesFor n) false s) fun e t =>
      ∃ other span, e = ⟨.function other, span⟩ ∧ code.unplaced = other.unplaced ∧ last t :=
    gives_function_behind keyword (rest.mono fun other t there => ⟨⟨there.1, there.2.1⟩, there.2.2⟩)
  refine behind.mono fun e t there => ?_
  obtain ⟨other, span, same, alike, holds⟩ := there
  exact ⟨⟨other, span, same, alike⟩, holds⟩

namespace Excerpt

variable {x : Excerpt} {strict : Bool}

/-- What is read of the part from its first shared token on is the function, and it ends before the last parenthesis. -/
def ReadsFunction (x : Excerpt) (strict : Bool) (code : FunctionCode) : Prop :=
  ∀ n s, x.part.Comes 1 s → s.body.strict = strict →
    Gives (assignment (rulesFor n) false s) fun e t => IsFunction code e ∧ x.part.Comes (1 + x.count) t

theorem Enclosed.edge_kind (enclosed : x.Enclosed) {s : ReadingState} (here : x.part.Comes (1 + x.count) s) :
    s.current.kind = .mark .closeParen := by
  have closes := enclosed.closes
  rw [Script.kind_at here.current] at closes
  exact Option.some.inj closes

/-- A function behind its keyword is read in the part as in the whole script. -/
theorem reads_function_rest {levels : Nat} {s t : ReadingState} {outer : List Bool} (enclosed : x.Enclosed)
    (begins : x.whole.kindAt x.first = some (.keyword .function))
    (here : x.whole.Stands (strict :: outer) (x.first + 1) s)
    (read : functionRest (rulesFor levels) .expression (x.whole.startAt x.first) s = .ok (code, t))
    (there : x.whole.Comes (x.first + x.count) t) : x.ReadsFunction strict code := by
  intro n s' here' flag
  have place := enclosed.place
  have there' : x.whole.Comes (x.first + 1) s := here.place
  have inside : x.first < x.whole.size := Nat.lt_trans (Nat.lt_succ_self _) there'.inside
  obtain ⟨first, found⟩ := Script.exists_token inside
  rw [Script.start_at found] at read
  have rest (u : Token) (twin : x.Twins 0 first u) : x.Echoes false 0 1 1 FunctionCode.unplaced
      (functionRest (rulesFor levels) .expression first.span.start)
      (functionRest (rulesFor n) .expression u.span.start) :=
    echoes_function_rest (echoed_rules levels n) .expression twin.start
  have shared : 1 < x.count := by
    obtain ⟨u, twin, -⟩ : ∃ u, x.Twins 0 first u ∧ _ := exists_twin found
    obtain ⟨l, later, place⟩ := (rest u twin).progress s code t there' read
    have same := place.unique there
    omega
  obtain ⟨-, u, found', twin⟩ := x.twins 0 first (by omega) found
  rw [place] at found'
  obtain rfl := Option.some.inj (found'.symm.trans here'.current)
  rw [Script.kind_at found, Option.some.injEq] at begins
  have keyword : s'.current.kind = .keyword .function := twin.kind.trans begins
  have mirrors : x.Mirrors 0 1 s s'.pass := by
    refine ⟨Nat.le_of_lt shared, here.place, ?_, ?_⟩
    · rw [place]
      exact here'.pass (by rw [keyword]; decide)
    · rw [pass_body]
      exact .around ((List.cons.inj here.codes).1.trans flag.symm)
  have reached : x.Reaches false x.count := ⟨Nat.le_refl _, fun _ => x.edge⟩
  have echo := (rest s'.current twin).echo s s'.pass code t x.count mirrors read there reached
  refine gives_function_expression keyword (echo.mono fun other t' given => ?_)
  have last := given.2.part
  rw [place] at last
  exact ⟨given.1, last, by rw [enclosed.edge_kind last]; decide⟩

/-- An arrow function is read in the part as in the whole script. -/
theorem reads_arrow {levels : Nat} {noIn : Bool} {span : Span} {s t : ReadingState} {outer : List Bool}
    (enclosed : x.Enclosed) (here : x.whole.Stands (strict :: outer) x.first s)
    (begins : s.atSingleParameter = true ∨ atParameterList s = .ok (true, s))
    (read : assignment (rulesFor levels) noIn s = .ok (⟨.function code, span⟩, t))
    (there : x.whole.Comes (x.first + x.count) t) : x.ReadsFunction strict code := by
  intro n s' here' flag
  have mirrors : x.Mirrors 0 0 s s' := by
    refine ⟨Nat.zero_le _, here.place, ?_, .around ((List.cons.inj here.codes).1.trans flag.symm)⟩
    rw [enclosed.place]
    exact here'
  have reached : x.Reaches false x.count := ⟨Nat.le_refl _, fun _ => x.edge⟩
  have echo : Gives (assignment (rulesFor n) false s') fun e' t' =>
      (⟨.function code, span⟩ : Expr).unplaced = e'.unplaced ∧ x.Mirrors 0 x.count t t' := by
    by_cases single : s.atSingleParameter = true
    · exact echo_single_parameter (echoed_rules levels n) false mirrors single read there reached
    · exact echo_listed_parameters (echoed_rules levels n) false mirrors single (begins.resolve_left single) read there
        reached
  refine echo.mono fun e' t' given => ⟨is_function_of_unplaced given.1, ?_⟩
  have last := given.2.part
  rwa [enclosed.place] at last

/-- The parentheses around the shared text are closed by each other. -/
theorem Enclosed.encloses (enclosed : x.Enclosed) (balanced : x.whole.Balanced x.first (x.first + x.count)) :
    x.part.Encloses 0 (1 + x.count) where
  opens := enclosed.opens
  closes := enclosed.closes
  inside := {
    forward := Nat.le_add_right 1 x.count
    inside := by
      obtain ⟨u, found, -⟩ := Option.map_eq_some_iff.mp enclosed.closes
      exact (List.getElem?_eq_some_iff.mp found).1
    closed := fun depth => by
      have kinds : x.part.kinds (x.place + 0) (x.place + x.count) = x.whole.kinds (x.first + 0) (x.first + x.count) :=
        kinds_shared (Nat.le_refl x.count)
      rw [enclosed.place, Nat.add_zero, Nat.add_zero] at kinds
      rw [Nat.zero_add, kinds]
      exact balanced.closed depth }

/-- The function is the only statement of the part. -/
theorem Enclosed.program (enclosed : x.Enclosed) (balanced : x.whole.Balanced x.first (x.first + x.count))
    (reads : x.ReadsFunction strict code) :
    ∃ q, Program.ofTokens x.part.source strict x.part.tokens = .ok q ∧
      ∃ other inner span, q.body = [⟨.expr ⟨.function other, inner⟩, span⟩] ∧ code.unplaced = other.unplaced := by
  obtain ⟨next, found, ended⟩ := Option.map_eq_some_iff.mp enclosed.ends
  have encloses := enclosed.encloses balanced
  have gives (levels : Nat) (s : ReadingState) (here : x.part.Comes 0 s) (body : s.body = .start false strict)
      (_ : s.outerBodies = []) : Gives (programBody levels s) fun body _ =>
        ∃ e span, body = [⟨.expr e, span⟩] ∧ IsFunction code e := by
    have opens := enclosed.opens
    rw [Script.kind_at here.current, Option.some.injEq] at opens
    have looked := encloses.looks here found
    have noArrow : arrowNext next = false := by
      unfold arrowNext
      rw [ended]
      rfl
    rw [noArrow] at looked
    have flag : s.pass.body.strict = strict := by
      rw [pass_body, body]
      rfl
    refine gives_sole_expression opens looked (fun n => ?_) levels
    refine (reads n s.pass (here.pass (by rw [opens]; decide)) flag).mono fun e t given => ?_
    have closes := enclosed.edge_kind given.2
    have last := enclosed.ends
    rw [Script.kind_at (given.2.pass (by rw [closes]; decide)).current] at last
    exact ⟨given.1, closes, Option.some.inj last⟩
  obtain ⟨q, accepted, e, span, body, other, inner, rfl, same⟩ := of_tokens_of_gives x.part gives
  exact ⟨q, accepted, other, inner, span, body, same⟩

/-- The shared text is that of the function, if the function keeps the text of the shared tokens. -/
theorem Enclosed.text_eq (enclosed : x.Enclosed) {kind : FunctionKind} {t : ReadingState}
    (keeps : KeepsText (x.whole.startAt x.first) kind code t) (there : x.whole.Comes (x.first + x.count) t) :
    x.text = code.source.toList := by
  have slice := keeps.text
  have shared := slice_of_parts x.before x.text x.behind
  rw [there.source, ← Script.stop_at there.previous, enclosed.begins, enclosed.stops, x.source, shared] at slice
  exact Option.some.inj slice

end Excerpt

/-- A function that was read between two tokens is read again off their text. -/
theorem Script.Traced.reads {script : Script} {strict : Bool} (traced : script.Traced strict code)
    (scans : Scanning.Scans 0 script.source script.tokens) :
    ∃ x : Excerpt, x.Enclosed ∧ x.text = code.source.toList ∧ x.whole.Balanced x.first (x.first + x.count) ∧
      x.ReadsFunction strict code.asExpression := by
  cases traced with
  | @keyword levels i outer kind s t begins proper here read =>
    obtain ⟨opening, found, known⟩ := Option.map_eq_some_iff.mp begins
    have start := Script.start_at found
    rw [start] at read
    have nests := script.nests_rules levels
    obtain ⟨⟨j, there, row, -⟩, -⟩ := nests_function_rest nests found known kind proper s code t read here
    have order := row.row.order
    obtain ⟨x, rfl, rfl, rfl, enclosed⟩ := exists_enclosed script scans order row.row.balanced.inside
    have keeps := function_rest_keeps_text kind s code t read
    refine ⟨x, enclosed, enclosed.text_eq (start ▸ keeps) there.place, row.row.balanced, ?_⟩
    rw [← start] at read
    have again : functionRest (rulesFor levels) .expression (x.whole.startAt x.first) s =
        .ok (code.asExpression, t) := by
      cases kind with
      | declaration =>
        have same : code.asExpression = { code with kind := .expression } := by
          rw [FunctionCode.asExpression, if_pos keeps.kind]
        rw [same]
        exact function_rest_expression read
      | expression => rwa [as_expression_of_ne (by rw [keeps.kind]; decide)]
      | arrow => exact absurd rfl proper
    exact Excerpt.reads_function_rest enclosed begins here again there.place
  | @arrow levels i outer noIn span s t here begins read =>
    have current : script.tokens[i]? = some s.current := here.current
    obtain ⟨⟨j, there, row⟩, -⟩ := nests_assignment (nests_rules levels) noIn s _ t read here
    obtain ⟨x, rfl, rfl, rfl, enclosed⟩ := exists_enclosed script scans row.order row.row.balanced.inside
    have keeps := arrow_keeps_text begins read
    rw [← Script.start_at current] at keeps
    refine ⟨x, enclosed, enclosed.text_eq keeps there.place, row.row.balanced, ?_⟩
    rw [as_expression_of_ne (by rw [keeps.kind]; decide)]
    exact Excerpt.reads_arrow enclosed here begins read there.place

end Grammar

/-- Whatever function of an accepted program is not an accessor, its text between parentheses is a program of its own.
This is accepted where the code is as strict as that around the function, and it holds the same function as an
expression, apart from where it stands. -/
theorem source_denotes_function {source : String} {strict flag : Bool} {p : Program} {part : Part}
    {code : FunctionCode} (accepted : Program.ofSource source strict = .ok p) (lies : p.Has flag part)
    (function : part.function? = some code) :
    ∃ q other inner span, Program.ofSource ("(" ++ code.source ++ ")") flag = .ok q ∧
      q.body = [⟨.expr ⟨.function other, inner⟩, span⟩] ∧ other.unplaced = code.asExpression.unplaced := by
  obtain ⟨script, text, tokens, j, row⟩ := row_of_source accepted
  have scans : Scanning.Scans 0 script.source script.tokens := text ▸ Scanning.tokens_of_iff.mp tokens
  cases Grammar.Script.placed_of_has row lies with
  | intro nested traced inner =>
    obtain ⟨x, enclosed, same, balanced, reads⟩ := (traced code function).reads scans
    obtain ⟨q, read, other, span, whole, body, unplaced⟩ := enclosed.program balanced reads
    refine ⟨q, other, span, whole, ?_, body, unplaced.symm⟩
    have listed : ("(" ++ code.source ++ ")").toList = x.part.source := by
      rw [enclosed.source, same]
      simp
    have scanned : Scanning.tokensOf ("(" ++ code.source ++ ")") = .ok x.part.tokens :=
      Scanning.tokens_of_iff.mpr (by rw [listed]; exact enclosed.scans)
    have steps : Program.ofSource ("(" ++ code.source ++ ")") flag = Scanning.tokensOf ("(" ++ code.source ++ ")") >>=
        Program.ofTokens ("(" ++ code.source ++ ")").toList flag := rfl
    rw [steps, scanned, listed]
    exact read

/-- The text of a function that is declared. -/
def declaredText? : Stmt → Option String
  | ⟨.function code, _⟩ => some code.source
  | _ => none

/-- A function is declared with a line break before its body, and called. -/
def declaredHalf : String :=
  "function half(a)\n\x7b return a / 2 \x7d half(4);"

theorem declared_half_denotes :
    ∃ p part code, Program.ofSource declaredHalf false = .ok p ∧ p.Has false part ∧ part.function? = some code ∧
      code.source = "function half(a)\n\x7b return a / 2 \x7d" ∧
      ∃ q other inner span, Program.ofSource ("(" ++ code.source ++ ")") false = .ok q ∧
        q.body = [⟨.expr ⟨.function other, inner⟩, span⟩] ∧ other.unplaced = code.asExpression.unplaced := by
  have accepted : (Program.ofSource declaredHalf false).toOption.any (fun p => p.strict == false &&
      p.body.any fun s => declaredText? s == some "function half(a)\n\x7b return a / 2 \x7d") = true := by
    decide +kernel
  cases read : Program.ofSource declaredHalf false with
  | error d =>
    rw [read] at accepted
    cases accepted
  | ok p =>
    rw [read] at accepted
    obtain ⟨sloppy, someBody⟩ := Bool.and_eq_true_iff.mp accepted
    obtain ⟨s, direct, known⟩ := List.any_eq_true.mp someBody
    have lies : p.Has p.strict (.stmt s) := .body direct
    rw [beq_iff_eq.mp sloppy] at lies
    unfold declaredText? at known
    split at known
    · next code span =>
      exact ⟨p, _, code, rfl, lies, rfl, Option.some.inj (beq_iff_eq.mp known), source_denotes_function read lies rfl⟩
    · cases beq_iff_eq.mp known

end ScriptEngine
