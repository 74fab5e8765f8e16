import ScriptEngine.Library.Functions
import ScriptEngine.Proofs.Environment.GlobalObject
import ScriptEngine.Proofs.Excerpts.MadeText
import ScriptEngine.Proofs.Excerpts.SoleFunction

/-!
Functions that are made of texts. The texts are put into one script, and nothing is asked of this but that it is a
function expression. This is enough unless the text of the parameters reaches into what comes behind it, by a comment
that it leaves open or by a parenthesis that it closes: the script is a function just if the parameters are a list of
names on their own and the body is a function body on its own, and then the function has these names and the statements
of this body.
-/

namespace ScriptEngine

open Scanning Grammar

/-! ## Parts of a function -/

namespace Grammar

/-- The statements of a whole body, which ends where its text does. -/
def wholeBody (levels : Nat) : Reader (List Stmt) := do
  let statements ← bodyItems (rulesFor levels) levels (.mark .closeBrace) true []
  if ← check .endOfInput then return statements else failHere .unexpectedEnd

end Grammar

/-- The statements of a function body that a list of tokens forms, and what is known of the body at its end. It is the
body of a function in sloppy code. -/
def bodyOfTokens (source : List Char) (tokens : List Token) : Except Diagnostic (List Stmt × BodyState) :=
  match tokens with
  | [] => .error ⟨.parsing, .brokenReader, ⟨0, 0⟩, []⟩
  | first :: rest => do
    let (statements, s) ← (wholeBody (levelsFor tokens)).run
      ⟨source, first, first, rest, .start false false, [.start false false]⟩
    return (statements, s.body)

/-- The function, with these parameters and this body. -/
def FunctionCode.madeOf (code : FunctionCode) (names : List String) (statements : List Stmt) (body : BodyState) :
    FunctionCode :=
  .completed (some "anonymous") .expression names statements body code.source code.span

/-- A text that is a function body on its own. -/
def bodyOf (text : String) : Except Diagnostic (List Stmt × BodyState) := do
  let tokens ← tokensOf text
  bodyOfTokens text.toList tokens

/-- The names of a text that is a list of parameters on its own. -/
def parametersOf? (text : String) : Option (List String) :=
  match tokensOf text with
  | .error _ => none
  | .ok tokens => parameterNames? tokens.dropLast

namespace Grammar

variable {script : Script} {s t : ReadingState}

/-- A reader passes tokens one by one up to any token. -/
theorem Script.Comes.iterate {i : Nat} (here : script.Comes i s) (count : Nat) (inside : i + count < script.size) :
    script.Comes (i + count) (ReadingState.pass^[count] s) := by
  induction count generalizing i s with
  | zero => exact here
  | succ count ih =>
    have goesOn : s.current.kind ≠ .endOfInput := by
      intro ended
      have last := (Script.end_of_input_iff here.inside).mp (by rw [Script.kind_at here.current, ended])
      omega
    have later := ih (here.pass goesOn) (by omega)
    rw [Nat.add_right_comm] at later
    exact later

theorem iterate_pass_bodies (count : Nat) (s : ReadingState) :
    (ReadingState.pass^[count] s).body = s.body ∧ (ReadingState.pass^[count] s).outerBodies = s.outerBodies := by
  induction count generalizing s with
  | zero => exact ⟨rfl, rfl⟩
  | succ count ih => exact ⟨(ih s.pass).1.trans (pass_body s), (ih s.pass).2.trans (pass_outer_bodies s)⟩

/-- A body is read up to a later token, and all parentheses are closed that are opened in it. -/
theorem Script.Comes.body_items {i n fuel : Nat} {stop : TokenKind} {inFront : Bool} {done statements : List Stmt}
    (here : script.Comes i s) (read : bodyItems (rulesFor n) fuel stop inFront done s = .ok (statements, t)) :
    ∃ j, script.Comes j t ∧ script.Balanced i j := by
  have stands : script.Stands (s.body.strict :: s.outerBodies.map (·.strict)) i s := ⟨here, rfl⟩
  obtain ⟨⟨_, j, there, _, _, _, row⟩, _⟩ :=
    Script.nests_body_items (Script.nests_rules n) _ _ _ _ s statements t read stands
  exact ⟨j, there.place, row.balanced⟩

namespace Excerpt

variable {x : Excerpt} {s' : ReadingState}

/-- A body that is read from the first shared token to the last is read in the part as well. -/
theorem echo_body {statements : List Stmt} {n fuel : Nat} (n' fuel' : Nat) (reaches : x.Reaches true x.count)
    (here : x.whole.Comes x.first s) (here' : x.part.Comes x.place s')
    (bodies : AlikeTo 1 (s.body :: s.outerBodies) (s'.body :: s'.outerBodies))
    (read : bodyItems (rulesFor n) fuel (.mark .closeBrace) true [] s = .ok (statements, t))
    (there : x.whole.Comes (x.first + x.count) t) :
    Gives (bodyItems (rulesFor n') fuel' (.mark .closeBrace) true [] s') fun statements' t' =>
      unplacedStmts statements = unplacedStmts statements' ∧ x.Mirrors 1 x.count t t' := by
  have echoes : x.Echoes true (0 + 1) 0 0 (List.map Stmt.unplaced)
      (bodyItems (rulesFor n) fuel (.mark .closeBrace) true [])
      (bodyItems (rulesFor n') fuel' (.mark .closeBrace) true []) :=
    echoes_body_items (echoed_rules n n') fuel fuel' true [] [] rfl
  have mirrors : x.Mirrors 1 0 s s' := ⟨Nat.zero_le _, here, here', bodies⟩
  refine (echoes.echo s s' statements t x.count mirrors read there reaches).mono fun statements' t' given => ?_
  rw [unplaced_stmts, unplaced_stmts]
  exact given

end Excerpt

theorem whole_body_eq (levels : Nat) (s : ReadingState) : wholeBody levels s =
    bodyItems (rulesFor levels) levels (.mark .closeBrace) true [] s >>= fun p =>
      if p.2.current.kind = .endOfInput then .ok p else failHere .unexpectedEnd p.2 := by
  have steps : wholeBody levels s = bodyItems (rulesFor levels) levels (.mark .closeBrace) true [] s >>= fun p =>
      (if p.2.current.kind == .endOfInput then pure p.1 else failHere .unexpectedEnd : Reader (List Stmt)) p.2 := rfl
  rw [steps]
  refine congrArg (_ >>= ·) (funext fun p => ?_)
  by_cases ended : p.2.current.kind = .endOfInput
  · rw [if_pos ended, if_pos (by simp [ended])]
    rfl
  · rw [if_neg ended, if_neg (by simpa using ended)]

/-- The body is read from its first token on, as one of a function in sloppy code. -/
theorem body_of_tokens_eq (script : Script) : ∃ s, script.Comes 0 s ∧ s.body = .start false false ∧
    s.outerBodies = [.start false false] ∧ bodyOfTokens script.source script.tokens =
      wholeBody (levelsFor script.tokens) s >>= fun p => .ok (p.1, p.2.body) := by
  cases tokens : script.tokens with
  | nil =>
    obtain ⟨front, stop, same, -⟩ := script.lossless.ends
    rw [tokens] at same
    simp at same
  | cons first rest =>
    exact ⟨⟨script.source, first, first, rest, .start false false, [.start false false]⟩,
      ⟨_, rfl, by rw [tokens]; rfl, by rw [tokens]; rfl, rfl⟩, rfl, rfl, rfl⟩

/-- A body that is read up to the end of its text is a body on its own, since the reader never breaks. -/
theorem body_of_gives (script : Script) {goal : List Stmt → ReadingState → Prop}
    (gives : ∀ levels s, script.Comes 0 s → s.body = .start false false → s.outerBodies = [.start false false] →
      Gives (bodyItems (rulesFor levels) levels (.mark .closeBrace) true [] s) fun statements t =>
        goal statements t ∧ t.current.kind = .endOfInput) :
    ∃ statements t, bodyOfTokens script.source script.tokens = .ok (statements, t.body) ∧ goal statements t := by
  obtain ⟨s, here, body, outer, read⟩ := body_of_tokens_eq script
  rw [read, whole_body_eq]
  rcases gives (levelsFor script.tokens) s here body outer with
    ⟨d, failed, broken⟩ | ⟨statements, t, done, holds, ended⟩
  · obtain ⟨depths, place⟩ := here
    have steps : script.Steps depths 0
        (bodyItems (rulesFor (levelsFor script.tokens)) (levelsFor script.tokens) (.mark .closeBrace) true [])
        fun _ j => 0 ≤ j := by
      refine Script.steps_body_items (Script.steady_rules _) _ _ _ _ ?_ ?_
      · rw [levels_rules_for, levelsFor, Script.size]
        omega
      · rw [levelsFor, Script.size]
        omega
    exact absurd broken ((steps s place).2 d failed).1
  · rw [done]
    exact ⟨statements, t, by simp [bind, Except.bind, ended], holds⟩

/-- What is read as a body up to the end of its text. -/
theorem of_body (script : Script) {statements : List Stmt} {body : BodyState}
    (read : bodyOfTokens script.source script.tokens = .ok (statements, body)) :
    ∃ s t levels, script.Comes 0 s ∧ s.body = .start false false ∧ s.outerBodies = [.start false false] ∧
      bodyItems (rulesFor levels) levels (.mark .closeBrace) true [] s = .ok (statements, t) ∧
      t.current.kind = .endOfInput ∧ t.body = body := by
  obtain ⟨s, here, start, outer, same⟩ := body_of_tokens_eq script
  rw [same, whole_body_eq] at read
  generalize levelsFor script.tokens = levels at read
  cases done : bodyItems (rulesFor levels) levels (.mark .closeBrace) true [] s with
  | error d =>
    rw [done] at read
    cases read
  | ok p =>
    obtain ⟨found, t⟩ := p
    rw [done] at read
    by_cases ended : t.current.kind = .endOfInput
    · simp only [bind, Except.bind, if_pos ended] at read
      cases read
      exact ⟨s, t, _, here, start, outer, done, ended, rfl⟩
    · simp only [bind, Except.bind, if_neg ended] at read
      cases read

end Grammar

theorem strict_of_unplaced {body body' : BodyState} (outline : body.unplaced = body'.unplaced) :
    body.strict = body'.strict :=
  (congrArg BodyState.strict outline : body.unplaced.strict = _)

/-- A function is the same if its body says the same. -/
theorem completed_unplaced {name : Option String} {kind : FunctionKind} {parameters : List String}
    {statements statements' : List Stmt} {body body' : BodyState} (outline : body.unplaced = body'.unplaced)
    (inside : unplacedStmts statements = unplacedStmts statements') (source : String) (span : Span) :
    (FunctionCode.completed name kind parameters statements body source span).unplaced =
      (FunctionCode.completed name kind parameters statements' body' source span).unplaced := by
  have scope : body.names.unplaced = body'.names.unplaced := congrArg BodyState.names outline
  have uses : body.usesArguments = body'.usesArguments :=
    (congrArg BodyState.usesArguments outline : body.unplaced.usesArguments = _)
  rw [FunctionCode.completed, FunctionCode.completed, FunctionCode.unplaced, FunctionCode.unplaced, inside, scope, uses,
    strict_of_unplaced outline]

namespace Making

open Excerpt.Echoes (leftBody comes_left_body)

variable {m : Making} {code : FunctionCode} {names : List String} {statements : List Stmt} {body : BodyState}
  {s t : ReadingState}

/-! ## Around the parameters -/

/-- The state behind the list of parameters. -/
def behindList (m : Making) (s : ReadingState) : ReadingState :=
  (ReadingState.pass^[m.names.length] s.pass).pass

theorem left_list (here : m.script.Comes 3 s) : ∃ opening close next rest,
    s.current :: s.upcoming = opening :: (m.names ++ close :: next :: rest) ∧ opening.kind = .mark .openParen ∧
      close.kind = .mark .closeParen :=
  ⟨_, _, _, _, here.left.symm, rfl, rfl⟩

theorem comes_behind_list (here : m.script.Comes 3 s) : m.script.Comes (m.names.length + 5) (m.behindList s) := by
  have size : m.script.size = m.names.length + 6 + m.items.length + 3 := m.script_size
  have behind : m.script.Comes (3 + 1 + m.names.length + 1) (m.behindList s) :=
    ((here.iterate 1 (by omega)).iterate m.names.length (by omega)).iterate 1 (by omega)
  have place : 3 + 1 + m.names.length + 1 = m.names.length + 5 := by omega
  rwa [place] at behind

theorem behind_list_bodies (m : Making) (s : ReadingState) :
    (m.behindList s).body = s.body ∧ (m.behindList s).outerBodies = s.outerBodies := by
  obtain ⟨body, outer⟩ := iterate_pass_bodies m.names.length s.pass
  exact ⟨by rw [behindList, pass_body, body, pass_body],
    by rw [behindList, pass_outer_bodies, outer, pass_outer_bodies]⟩

/-- The list of parameters ends in the line behind it, if no parenthesis is closed in it, and it is one on its own. -/
theorem names_of_list {rules : Rules} {parameters : List (String × Token)}
    (first : ∀ t ∈ m.names, t.kind ≠ .mark .closeParen) (here : m.script.Comes 3 s) (sloppy : s.body.strict = false)
    (read : parameterList rules s = .ok (parameters, t)) :
    parameterNames? m.names = some (parameters.map Prod.fst) ∧ t = m.behindList s := by
  obtain ⟨opening, close, next, rest, left, opens, closes⟩ := left_list here
  obtain ⟨listed, rfl⟩ := parameter_list_of_ok left closes first read
  obtain ⟨names, known⟩ := Option.isSome_iff_exists.mp listed
  rcases gives_parameter_list left opens closes sloppy known with ⟨d, failed, -⟩ | ⟨given, u, done, same, -⟩
  · rw [failed] at read
    cases read
  · rw [read] at done
    cases done
    exact ⟨same ▸ known, rfl⟩

/-! ## Parts of a function that is made -/

/-- The function that is made of a body is read off it. -/
theorem read_of_program (m : Making) {p : Program} {inner span : Span}
    (accepted : Program.ofTokens m.script.source false m.script.tokens = .ok p)
    (sole : p.body = [⟨.expr ⟨.function code, inner⟩, span⟩]) :
    ∃ n s t start, m.script.Comes 3 s ∧ s.body = .start false false ∧ s.outerBodies = [] ∧
      (parameterList (rulesFor n) >>= fun parameters =>
        functionBody (rulesFor n) (some "anonymous") .expression parameters start) s = .ok (code, t) ∧
      t.current.kind = .mark .closeParen ∧ ∃ u,
        (u = t.pass ∨ t.pass.current.kind = .mark .semicolon ∧ u = t.pass.pass) ∧ u.current.kind = .endOfInput := by
  let first : Token := parenthesis .openParen "(" 0
  let s : ReadingState := ⟨m.script.source, first, first, m.script.tokens.tail, .start false false, []⟩
  have here : m.script.Comes 0 s := ⟨_, rfl, rfl, rfl, rfl⟩
  have steps : Program.ofTokens m.script.source false m.script.tokens =
      programBody (levelsFor m.script.tokens) s >>= fun read =>
        .ok ⟨read.1, read.2.body.strict, read.2.body.names⟩ := rfl
  rw [steps] at accepted
  cases read : programBody (levelsFor m.script.tokens) s with
  | error d =>
    rw [read] at accepted
    cases accepted
  | ok result =>
    obtain ⟨body, u⟩ := result
    rw [read] at accepted
    cases accepted
    dsimp only at sole
    rw [sole] at read
    obtain ⟨levels, v, whole, last, ended⟩ := expression_of_program (s := s) rfl read
    obtain ⟨n, t, rest, closes, rfl⟩ := function_rest_of_enclosed (s := s) rfl rfl whole
    rw [function_rest_eq (s := s.pass.pass) rfl rfl] at rest
    have third := here.iterate 3 (by rw [script_size, bodyIndex]; omega)
    exact ⟨n, s.pass.pass.pass, t, _, third, rfl, rfl, rest, closes, u, last, ended⟩

/-- The body of the function ends at the last brace, since nothing but a parenthesis comes behind it. -/
theorem last_brace {j : Nat} (there : m.script.Comes j s) (brace : s.current.kind = .mark .closeBrace)
    (paren : s.pass.current.kind = .mark .closeParen)
    (last : t = s.pass.pass ∨ s.pass.pass.current.kind = .mark .semicolon ∧ t = s.pass.pass.pass)
    (ended : t.current.kind = .endOfInput) : j = m.bodyIndex + m.items.length := by
  have size := m.script_size
  have next : m.script.Comes (j + 1 + 1) s.pass.pass :=
    (there.pass (by rw [brace]; decide)).pass (by rw [paren]; decide)
  rcases last with rfl | ⟨semicolon, rfl⟩
  · have ends := (Script.end_of_input_iff next.inside).mp (by rw [Script.kind_at next.current, ended])
    omega
  · -- A semicolon would be the token in front of the end of the input, which is the parenthesis.
    have further := next.pass (by rw [semicolon]; decide)
    have ends := (Script.end_of_input_iff further.inside).mp (by rw [Script.kind_at further.current, ended])
    have place : j + 1 + 1 = m.bodyIndex + m.items.length + 1 := by omega
    have current := next.current
    rw [place, m.closing_token 1] at current
    rw [← Option.some.inj current] at semicolon
    cases semicolon

/-- What is read behind the parameters up to the last brace is a body on its own. -/
theorem body_of_function {n fuel : Nat} (here : m.script.Comes m.bodyIndex s) (start : s.body = .start false false)
    (outer : s.outerBodies = [.start false false])
    (read : bodyItems (rulesFor n) fuel (.mark .closeBrace) true [] s = .ok (statements, t))
    (there : m.script.Comes (m.bodyIndex + m.items.length) t) :
    ∃ (statements' : List Stmt) (u : ReadingState),
      bodyOfTokens m.bodyScript.source m.bodyScript.tokens = .ok (statements', u.body) ∧
      unplacedStmts statements = unplacedStmts statements' ∧ t.body.unplaced = u.body.unplaced := by
  obtain ⟨x, whole, part, first, place, count, reaches⟩ := m.exists_body
  refine body_of_gives m.bodyScript fun levels s' here' start' outer' => ?_
  have alike : AlikeTo 1 (s.body :: s.outerBodies) (s'.body :: s'.outerBodies) := by
    rw [start, outer, start', outer']
    exact .inside rfl (.around rfl)
  have echo := Excerpt.echo_body levels levels reaches (by rwa [whole, first]) (by rwa [part, place]) alike read
    (by rwa [whole, first, count])
  refine echo.mono fun statements' u given => ?_
  obtain ⟨inside, mirrors⟩ := given
  refine ⟨⟨inside, mirrors.bodies.innermost⟩, ?_⟩
  have final := mirrors.part
  rw [part, place, count, Nat.zero_add] at final
  have ends := (Script.end_of_input_iff final.inside).mpr m.body_size.symm
  rw [Script.kind_at final.current] at ends
  exact Option.some.inj ends

/-- The body is entered behind its brace, as that of a function in sloppy code. -/
theorem enters_body {v : ReadingState} (here : m.script.Comes (m.names.length + 5) v)
    (opens : v.current.kind = .mark .openBrace) (around : v.body = .start false false) (outer : v.outerBodies = []) :
    m.script.Comes m.bodyIndex (v.pass.entered (FunctionKind.expression == .arrow)) ∧
      (v.pass.entered (FunctionKind.expression == .arrow)).body = .start false false ∧
      (v.pass.entered (FunctionKind.expression == .arrow)).outerBodies = [.start false false] := by
  refine ⟨(here.pass (by rw [opens]; decide)).with_bodies _ _, ?_, ?_⟩
  · rw [ReadingState.entered, pass_body, around]
    rfl
  · rw [ReadingState.entered, pass_body, pass_outer_bodies, around, outer]

/-- What a function is made of is a list of parameters and a body each on its own, if no parenthesis is closed in the
former. -/
theorem parts_of_program (m : Making) (first : ∀ t ∈ m.names, t.kind ≠ .mark .closeParen) {p : Program}
    {inner span : Span} (accepted : Program.ofTokens m.script.source false m.script.tokens = .ok p)
    (sole : p.body = [⟨.expr ⟨.function code, inner⟩, span⟩]) :
    ∃ names statements body, parameterNames? m.names = some names ∧
      bodyOfTokens m.bodyScript.source m.bodyScript.tokens = .ok (statements, body) ∧
      (body.strict = true → StrictNames names) ∧
      code.unplaced = (code.madeOf names statements body).unplaced := by
  obtain ⟨n, s, t, start, here, body, outer, read, closes, u, last, ended⟩ := m.read_of_program accepted sole
  obtain ⟨parameters, v, list, function⟩ := ok_of_steps read
  obtain ⟨known, rfl⟩ := names_of_list first here (by rw [body]; rfl) list
  have opens := function_body_opens function
  obtain ⟨kept, kept'⟩ := m.behind_list_bodies s
  obtain ⟨entrance, start', outer'⟩ :=
    enters_body (comes_behind_list here) opens (kept.trans body) (kept'.trans outer)
  rw [function_body_eq opens] at function
  cases items : bodyItems (rulesFor n) (rulesFor n).levels (.mark .closeBrace) true []
      ((m.behindList s).pass.entered (FunctionKind.expression == .arrow)) with
  | error d =>
    rw [items] at function
    cases function
  | ok result =>
    obtain ⟨statements, r⟩ := result
    rw [items] at function
    obtain ⟨brace, rfl, strict, source, place, rfl⟩ := complete_body_of_ok function
    obtain ⟨j, there, -⟩ := entrance.body_items items
    obtain rfl := last_brace (comes_left_body there) brace closes last ended
    obtain ⟨statements', w, alone, inside, outline⟩ := body_of_function entrance start' outer' items there
    refine ⟨_, statements', w.body, known, alone, ?_, completed_unplaced outline inside source place⟩
    exact fun holds => strict ((strict_of_unplaced outline).trans holds)

/-! ## Parts that are made a function -/

theorem flat_of_separated {tokens : List Token} {names : List String} (known : separatedNames? tokens = some names) :
    ∀ t ∈ tokens, t.kind.IsFlat := by
  induction tokens using separatedNames?.induct generalizing names with
  | case1 => cases known
  | case2 t named => simp [named]; decide
  | case3 t other => simp [separatedNames?, other] at known
  | case4 t u rest both ih =>
    rw [separatedNames?, if_pos both, Option.map_eq_some_iff] at known
    obtain ⟨others, same, -⟩ := known
    rw [List.forall_mem_cons, List.forall_mem_cons, both.1, both.2]
    exact ⟨by decide, by decide, ih same⟩
  | case5 t u rest other => simp [separatedNames?, other] at known

theorem flat_of_names {tokens : List Token} {names : List String} (known : parameterNames? tokens = some names) :
    ∀ t ∈ tokens, t.kind.IsFlat := by
  unfold parameterNames? at known
  split at known
  · next none => simp [none]
  · exact flat_of_separated known

theorem open_behind_flats {kinds : List TokenKind} (flat : ∀ kind ∈ kinds, kind.IsFlat) (depth : Nat) :
    openBehind depth kinds = some depth := by
  induction kinds with
  | nil => rfl
  | cons kind kinds ih =>
    obtain ⟨first, rest⟩ := List.forall_mem_cons.mp flat
    have split := open_behind_append depth [kind] kinds
    rw [List.singleton_append, open_behind_flat first, Option.bind_some] at split
    rw [split, ih rest]

/-- The parentheses around the function are closed by each other, if those of its body are. -/
theorem encloses_function (m : Making) {names : List String} (known : parameterNames? m.names = some names)
    (balanced : m.bodyScript.Balanced 0 m.items.length) : m.script.Encloses 0 (m.bodyIndex + m.items.length + 1) := by
  have flat : ∀ kind ∈ m.names.map (·.kind), kind.IsFlat := by
    rw [List.forall_mem_map]
    exact flat_of_names known
  have items : m.bodyScript.kinds 0 m.items.length = m.items.map (·.kind) := by
    rw [Script.kinds, body_tokens_eq, List.drop_zero, Nat.sub_zero, List.take_left' (List.length_map _), List.map_map]
    rfl
  have kinds : m.script.kinds 1 (m.bodyIndex + m.items.length + 1) =
      [.keyword .function, .identifier] ++ ((.mark .openParen :: (m.names.map (·.kind) ++ [.mark .closeParen])) ++
        (.mark .openBrace :: (m.items.map (·.kind) ++ [.mark .closeBrace]))) := by
    have parts : m.script.tokens.drop 1 =
        (openingTokens.tail ++ (m.names ++ (middleTokens (20 + byteLength m.list) ++ (lined m.items ++
          (closingTokens (bodyStart m.list + byteLength m.body)).take 1)))) ++
          (closingTokens (bodyStart m.list + byteLength m.body)).drop 1 := by
      change (madeTokens m.list m.body m.names m.items).drop 1 = _
      simp [madeTokens, openingTokens, closingTokens]
    rw [Script.kinds, parts, List.take_left']
    · simp [openingTokens, middleTokens, closingTokens, parenthesis, lined_kinds]
    · simp [openingTokens, middleTokens, closingTokens, lined_length, bodyIndex]
      omega
  have brace (kind : TokenKind) (plain : kind.IsFlat) (depth : Nat) (rest : List TokenKind) :
      openBehind depth (kind :: rest) = openBehind depth rest := by
    rw [← List.singleton_append, open_behind_append, open_behind_flat plain, Option.bind_some]
  refine ⟨rfl, ⟨by omega, by rw [script_size]; omega, fun depth => ?_⟩, ?_⟩
  · rw [kinds, open_behind_append, open_behind_flats (by decide), Option.bind_some, open_behind_append,
      open_behind_enclosed fun depth => open_behind_flats flat (depth + 1), if_neg (Nat.succ_ne_zero depth),
      Option.bind_some, brace _ (by decide), open_behind_append, ← items, balanced.closed, Option.bind_some,
      brace _ (by decide)]
    rfl
  · rw [Script.kind_at (m.closing_token 1)]

theorem brace_token (m : Making) :
    m.script.tokens[m.names.length + 5]? = (middleTokens (20 + byteLength m.list))[1]? := by
  have place : m.names.length + 5 = openingTokens.length + (m.names.length + 1) := by
    simp [openingTokens]
    omega
  change (madeTokens m.list m.body m.names m.items)[m.names.length + 5]? = _
  rw [madeTokens, place, List.getElem?_append_right (Nat.le_add_right ..), Nat.add_sub_cancel_left,
    List.getElem?_append_right (Nat.le_add_right ..), Nat.add_sub_cancel_left]
  rfl

/-- The kind of the token at which a reader stands. -/
theorem kind_of_token {i : Nat} {u : Token} (here : m.script.Comes i s) (found : m.script.tokens[i]? = some u) :
    s.current.kind = u.kind :=
  congrArg Token.kind (Option.some.inj (here.current.symm.trans found))

section

variable {levels : Nat} (begins : m.bodyScript.Comes 0 s) (start : s.body = .start false false)
  (outer : s.outerBodies = [.start false false])
  (read : bodyItems (rulesFor levels) levels (.mark .closeBrace) true [] s = .ok (statements, t))
  (ends : m.bodyScript.Comes m.items.length t)

include begins start outer read ends

/-- Behind the parameters the body is read as on its own. -/
theorem gives_body {n : Nat} (first : Nat) (name : Option String) {parameters : List (String × Token)}
    {v : ReadingState} (strict : t.body.strict = true → StrictNames (parameters.map Prod.fst))
    (here : m.script.Comes (m.names.length + 5) v) (around : v.body = .start false false) (alone : v.outerBodies = []) :
    Gives (functionBody (rulesFor n) name .expression parameters first v) fun _ u =>
      m.script.Comes (m.bodyIndex + m.items.length + 1) u := by
  have opens : v.current.kind = .mark .openBrace := kind_of_token here m.brace_token
  obtain ⟨entrance, start', outer'⟩ := enters_body here opens around alone
  obtain ⟨x, whole, part, index, place, count, reaches⟩ := m.exists_made
  have alike : AlikeTo 1 (s.body :: s.outerBodies)
      ((v.pass.entered (FunctionKind.expression == .arrow)).body ::
        (v.pass.entered (FunctionKind.expression == .arrow)).outerBodies) := by
    rw [start, outer, start', outer']
    exact .inside rfl (.around rfl)
  have echo := Excerpt.echo_body n (rulesFor n).levels reaches (by rwa [whole, index]) (by rwa [part, place]) alike read
    (by rwa [whole, index, count, Nat.zero_add])
  rw [function_body_eq opens]
  rcases echo with ⟨d, failed, fault⟩ | ⟨statements', t', done, -, mirrors⟩
  · rw [failed]
    exact .inl ⟨d, rfl, fault⟩
  · rw [done]
    have final := mirrors.part
    rw [part, place, count] at final
    have left : m.script.Comes (m.bodyIndex + m.items.length) (leftBody t') := comes_left_body final
    have closes : (leftBody t').current.kind = .mark .closeBrace := kind_of_token left (m.closing_token 0)
    have flag := strict_of_unplaced mirrors.bodies.innermost
    refine (gives_complete_body closes fun holds => strict (flag.trans holds)).mono fun code u same => ?_
    rw [same]
    exact left.pass (by rw [closes]; decide)

/-- The function is read behind its keyword, up to the parenthesis. -/
theorem gives_function {n : Nat} (first : Nat) {v : ReadingState} (known : parameterNames? m.names = some names)
    (strict : t.body.strict = true → StrictNames names) (here : m.script.Comes 2 v)
    (around : v.body = .start false false) (alone : v.outerBodies = []) :
    Gives (functionRest (rulesFor n) .expression first v) fun _ u =>
      m.script.Comes (m.bodyIndex + m.items.length + 1) u ∧ u.current.kind ∈ closing false := by
  have size := m.script_size
  have room : 6 ≤ m.bodyIndex := Nat.le_add_left ..
  have name : v.current.kind = .identifier := kind_of_token here rfl
  have listed : m.script.Comes 3 v.pass := here.iterate 1 (by omega)
  have sloppy : v.body.strict = false := by
    rw [around]
    rfl
  obtain ⟨opening, close, next, rest, left, opens, closes⟩ := left_list listed
  rw [function_rest_eq name sloppy]
  refine (gives_parameter_list left opens closes (by rwa [pass_body]) known).bind fun parameters u given => ?_
  obtain ⟨same, rfl⟩ := given
  obtain ⟨kept, kept'⟩ := m.behind_list_bodies v.pass
  have body := gives_body begins start outer read ends (n := n) first (some v.current.lexeme) (same ▸ strict)
    (comes_behind_list listed) (by rw [kept, pass_body, around]) (by rw [kept', pass_outer_bodies, alone])
  refine body.mono fun _ u last => ⟨last, ?_⟩
  rw [kind_of_token last (m.closing_token 1)]
  simp [closing]

end

/-- A list of parameters and a body, each on its own, are made a function. -/
theorem program_of_parts (m : Making) (known : parameterNames? m.names = some names)
    (alone : bodyOfTokens m.bodyScript.source m.bodyScript.tokens = .ok (statements, body))
    (strict : body.strict = true → StrictNames names) :
    ∃ p code inner span, Program.ofTokens m.script.source false m.script.tokens = .ok p ∧
      p.body = [⟨.expr ⟨.function code, inner⟩, span⟩] := by
  obtain ⟨s, t, levels, begins, start, outer, read, ended, rfl⟩ := of_body m.bodyScript alone
  -- The body ends where its script does, with all its parentheses closed.
  obtain ⟨l, there, balanced⟩ := begins.body_items read
  obtain rfl : l = m.items.length := by
    have last := (Script.end_of_input_iff there.inside).mp (by rw [Script.kind_at there.current, ended])
    rw [body_size] at last
    omega
  have encloses := m.encloses_function known balanced
  have size := m.script_size
  have gives (levels' : Nat) (s' : ReadingState) (here : m.script.Comes 0 s') (around : s'.body = .start false false)
      (alone : s'.outerBodies = []) : Gives (programBody levels' s') fun body _ =>
        ∃ e span, body = [⟨.expr e, span⟩] ∧ ∃ code inner, e = ⟨.function code, inner⟩ := by
    have looked := encloses.looks here (m.closing_token 2)
    refine gives_sole_expression (kind_of_token here rfl) looked (fun n => ?_) levels'
    obtain ⟨kept, kept'⟩ := iterate_pass_bodies 2 s'
    have function := gives_function begins start outer read there (n := n) s'.pass.current.span.start known strict
      (here.iterate 2 (by omega)) (kept.trans around) (kept'.trans alone)
    refine (gives_function_behind (kind_of_token (here.iterate 1 (by omega)) rfl) function).mono fun e u given => ?_
    obtain ⟨code, inner, rfl, final⟩ := given
    have closes : u.current.kind = .mark .closeParen := kind_of_token final (m.closing_token 1)
    have last := final.pass (by rw [closes]; decide)
    exact ⟨⟨code, inner, rfl⟩, closes, kind_of_token last (m.closing_token 2)⟩
  obtain ⟨p, accepted, e, span, whole, code, inner, rfl⟩ := of_tokens_of_gives m.script gives
  exact ⟨p, code, inner, span, accepted, whole⟩

end Making

/-! ## Texts -/

/-- What was scanned of a list of parameters reaches into what comes behind it: a comment is left open in it, or a
parenthesis is closed in it. -/
def ReachesOut : Except Diagnostic (List Token) → Prop
  | .error d => d.fault = .unterminatedComment
  | .ok tokens => ∃ t ∈ tokens, t.kind = .mark .closeParen

instance : (scanned : Except Diagnostic (List Token)) → Decidable (ReachesOut scanned)
  | .error d => inferInstanceAs (Decidable (d.fault = .unterminatedComment))
  | .ok tokens => inferInstanceAs (Decidable (∃ t ∈ tokens, t.kind = .mark .closeParen))

/-- The text of a list of parameters reaches into what comes behind it. -/
def Spills (list : String) : Prop :=
  ReachesOut (tokensOf list)

instance (list : String) : Decidable (Spills list) :=
  inferInstanceAs (Decidable (ReachesOut (tokensOf list)))

/-- Two texts are a list of parameters and a function body, each on its own. -/
structure FunctionParts (list text : String) (names : List String) (statements : List Stmt) (inner : BodyState) :
    Prop where
  parameters : parametersOf? list = some names
  body : bodyOf text = .ok (statements, inner)
  strict : inner.strict = true → StrictNames names

section

variable {list text : String} {tokens : List Token} {names : List String} {statements : List Stmt} {body : BodyState}

theorem separated_names_moved (offset offset' : Nat) (tokens : List Token) :
    separatedNames? (tokens.map (moved offset offset')) = separatedNames? tokens := by
  induction tokens using separatedNames?.induct with
  | case1 => rfl
  | case2 t named => simp [separatedNames?, moved, named]
  | case3 t other => simp [separatedNames?, moved, other]
  | case4 t u rest both ih => simp [separatedNames?, moved, both, ← ih]
  | case5 t u rest other => simp [separatedNames?, moved, other]

theorem parameter_names_moved (offset offset' : Nat) (tokens : List Token) :
    parameterNames? (tokens.map (moved offset offset')) = parameterNames? tokens := by
  cases tokens with
  | nil => rfl
  | cons t rest =>
    have names := separated_names_moved offset offset' (t :: rest)
    rwa [List.map_cons] at names ⊢

theorem joined_to_list (a b c d e : String) :
    (a ++ b ++ c ++ d ++ e).toList = a.toList ++ (b.toList ++ (c.toList ++ (d.toList ++ e.toList))) := by
  simp only [String.toList_append, List.append_assoc]

/-- The source that a function is made of, in its parts. -/
theorem function_source_parts (parameters : List String) (text : String) :
    (Library.functionSource (parameters ++ [text])).toList =
      madeText (",".intercalate parameters).toList text.toList := by
  have first : (parameters ++ [text]).dropLast = parameters := List.dropLast_concat
  have last : (parameters ++ [text]).getLastD "" = text := by simp
  have opening : "(function anonymous(".toList = openingText := rfl
  have middle : "\n) \x7b\n".toList = middleText ++ ['\n'] := rfl
  have closing : "\n\x7d)".toList = closingText := rfl
  unfold Library.functionSource
  rw [first, last, joined_to_list, closing, middle, madeText, List.append_assoc]
  exact congrArg (· ++ _) opening

/-- The parts of a function that is made are read off their texts. -/
theorem Making.of_texts (m : Making) (same : m.list = list.toList) (same' : m.body = text.toList) :
    tokensOf list = .ok ((m.names ++ [endToken m.last]).map (moved 20 0)) ∧
      parametersOf? list = parameterNames? m.names ∧
      bodyOf text = bodyOfTokens m.bodyScript.source m.bodyScript.tokens := by
  have read : tokensOf list = .ok ((m.names ++ [endToken m.last]).map (moved 20 0)) :=
    tokens_of_iff.mpr (same ▸ m.parameters.moves 0)
  have read' : tokensOf text = .ok m.bodyScript.tokens := tokens_of_iff.mpr (same' ▸ m.inside.moves 0)
  refine ⟨read, ?_, ?_⟩
  · rw [parametersOf?, read]
    dsimp only
    rw [List.map_append, List.map_singleton, List.dropLast_concat, parameter_names_moved]
  · have steps : bodyOf text = tokensOf text >>= bodyOfTokens text.toList := rfl
    rw [steps, read', ← same']
    rfl

/-- A source that is scanned is made of parts, unless the first one reaches into the other. -/
theorem exists_making (contained : ¬ Spills list) {source : List Char}
    (same : source = madeText list.toList text.toList) (scans : Scans 0 source tokens) :
    ∃ m : Making, m.list = list.toList ∧ m.body = text.toList ∧ m.script.tokens = tokens ∧
      ∀ t ∈ m.names, t.kind ≠ .mark .closeParen := by
  subst same
  rcases made_of_scans scans with leaves | ⟨names, items, last, stop, rfl, parameters, inside⟩
  · obtain ⟨d, read, fault⟩ := leaves.tokens_of
    exact absurd (by rw [Spills, read]; exact fault) contained
  · let m : Making := ⟨list.toList, text.toList, names, items, last, stop, parameters, inside⟩
    refine ⟨m, rfl, rfl, rfl, fun t mem closes => contained ?_⟩
    rw [Spills, (m.of_texts rfl rfl).1]
    exact ⟨moved 20 0 t, List.mem_map_of_mem (List.mem_append_left _ mem), closes⟩

/-- Parts that are what they are to be can be put together. -/
theorem exists_making_of_parts {inner : BodyState} (parts : FunctionParts list text names statements inner) :
    ∃ m : Making, m.list = list.toList ∧ m.body = text.toList := by
  have ⟨known, body, _⟩ := parts
  unfold parametersOf? at known
  cases read : tokensOf list with
  | error d =>
    rw [read] at known
    cases known
  | ok tokens =>
    cases read' : tokensOf text with
    | error d =>
      have steps : bodyOf text = tokensOf text >>= bodyOfTokens text.toList := rfl
      rw [steps, read'] at body
      cases body
    | ok tokens' =>
      have parameters := (tokens_of_iff.mp read).moves 20
      have inside := (tokens_of_iff.mp read').moves (bodyStart list.toList)
      obtain ⟨names, last, listed⟩ := parameters.ends
      obtain ⟨items, stop, listed'⟩ := inside.ends
      rw [listed] at parameters
      rw [listed'] at inside
      exact ⟨⟨list.toList, text.toList, names, items, last, stop, parameters, inside⟩, rfl, rfl⟩

theorem sole_function_iff {p : Program} {code : FunctionCode} :
    Library.soleFunction? p = some code ↔ ∃ inner span, p.body = [⟨.expr ⟨.function code, inner⟩, span⟩] := by
  constructor
  · intro found
    unfold Library.soleFunction? at found
    split at found
    · next inner span same =>
      cases found
      exact ⟨inner, span, same⟩
    · cases found
  · rintro ⟨inner, span, same⟩
    rw [Library.soleFunction?, same]

/-- A source made of two texts is a function just if each of them is a part of one on its own, and then the function has
these parts. -/
theorem sole_function_of_texts (contained : ¬ Spills list) {source : String}
    (same : source.toList = madeText list.toList text.toList) :
    (∃ p code names statements inner, Program.ofSource source false = .ok p ∧ Library.soleFunction? p = some code ∧
      FunctionParts list text names statements inner ∧
      code.unplaced = (code.madeOf names statements inner).unplaced) ∨
    (∀ p, Program.ofSource source false = .ok p → Library.soleFunction? p = none) ∧
      ∀ names statements inner, ¬ FunctionParts list text names statements inner := by
  have steps : Program.ofSource source false = tokensOf source >>= Program.ofTokens source.toList false := rfl
  by_cases made : ∃ p code, Program.ofSource source false = .ok p ∧ Library.soleFunction? p = some code
  · left
    obtain ⟨p, code, accepted, sole⟩ := made
    have read := accepted
    rw [steps] at read
    cases scanned : tokensOf source with
    | error d =>
      rw [scanned] at read
      cases read
    | ok tokens =>
      rw [scanned, same] at read
      obtain ⟨m, list_, text_, rfl, first⟩ := exists_making contained same (tokens_of_iff.mp scanned)
      rw [← list_, ← text_] at read
      obtain ⟨inner, span, alone⟩ := sole_function_iff.mp sole
      obtain ⟨names, statements, body, known, apart, strict, content⟩ :=
        m.parts_of_program first read alone
      obtain ⟨-, parameters, inside⟩ := m.of_texts list_ text_
      exact ⟨p, code, names, statements, body, accepted, sole,
        ⟨parameters.trans known, inside.trans apart, strict⟩, content⟩
  · refine .inr ⟨fun p accepted => ?_, fun names statements inner parts => made ?_⟩
    · cases sole : Library.soleFunction? p with
      | none => rfl
      | some code => exact absurd ⟨p, code, accepted, sole⟩ made
    · obtain ⟨m, list_, text_⟩ := exists_making_of_parts parts
      obtain ⟨-, parameters, inside⟩ := m.of_texts list_ text_
      obtain ⟨p, code, place, span, accepted, sole⟩ := m.program_of_parts (parameters.symm.trans parts.parameters)
        (inside.symm.trans parts.body) parts.strict
      have scans : Scans 0 source.toList m.script.tokens := by
        rw [same, ← list_, ← text_]
        exact scans_made m.parameters m.inside
      refine ⟨p, code, ?_, sole_function_iff.mpr ⟨place, span, sole⟩⟩
      rw [steps, tokens_of_iff.mpr scans, same, ← list_, ← text_]
      exact accepted

end

/-! ## The constructor of functions -/

section

variable (engine : Engine) (m : Machine) (parameters : List String) (text : String)

/-- Strings are taken as they are. -/
theorem run_function_texts (texts : List String) :
    m.run (Library.functionTexts engine (texts.map .string)) = (.ok texts, m) := by
  induction texts with
  | nil => rfl
  | cons text rest ih =>
    have taken : m.run (toText engine (.string text)) = (.ok text, m) := rfl
    rw [List.map_cons, Library.functionTexts, Machine.run_bind_ok taken, Machine.run_bind_ok ih]
    rfl

/-- The function object that `Function` makes of a list of parameters and a body holds these parameters and the
statements of this body, and nothing else is made: if one of the two is not what it is to be on its own, a syntax error
is thrown. -/
theorem made_functions_have_their_parts (contained : ¬ Spills (",".intercalate parameters)) :
    (∃ names statements inner code f after,
      FunctionParts (",".intercalate parameters) text names statements inner ∧
      m.run (Library.functionOf engine ((parameters ++ [text]).map .string)) = (.ok (.object f), after) ∧
      (after.heap.get f).callable? = some (.script ⟨code, m.realm.scriptEnvironment, none⟩) ∧
      code.unplaced = (code.madeOf names statements inner).unplaced) ∨
    (∀ names statements inner, ¬ FunctionParts (",".intercalate parameters) text names statements inner) ∧
      ∃ fault : Fault, fault.kind = .syntactic ∧
        m.run (Library.functionOf engine ((parameters ++ [text]).map .string)) = m.run (throwFault fault) := by
  let source := Library.functionSource (parameters ++ [text])
  have taken := run_function_texts engine m (parameters ++ [text])
  rcases sole_function_of_texts contained (function_source_parts parameters text) with
    ⟨p, code, names, statements, inner, accepted, sole, parts, content⟩ | ⟨none, apart⟩
  · left
    obtain ⟨f, after, made, -, -, -, -, callable⟩ := run_create_script_function m code m.realm.scriptEnvironment
    have kind : code.kind = .expression := by
      have same := congrArg FunctionCode.kind content
      cases code
      exact same
    have plain : ¬ code.isArrow = true := by simp [FunctionCode.isArrow, kind]
    refine ⟨names, statements, inner, code, f, after, parts, ?_, ?_, content⟩
    · refine (Machine.run_bind_ok taken _).trans ?_
      rw [accepted]
      dsimp only
      rw [sole]
      dsimp only
      rw [Machine.run_bind_ok (rfl : m.run getRealm = (.ok m.realm, m)), Machine.run_bind_ok made]
      rfl
    · rw [callable, Machine.closure, if_neg plain]
  · refine .inr ⟨apart, ?_⟩
    cases read : Program.ofSource source false with
    | error d =>
      refine ⟨.unreadable d.message, rfl, (Machine.run_bind_ok taken _).trans ?_⟩
      rw [read]
    | ok p =>
      refine ⟨.notFunctionBody, rfl, (Machine.run_bind_ok taken _).trans ?_⟩
      rw [read]
      dsimp only
      rw [none p read]

end

/-- A function of two parameters is made. -/
theorem sum_is_made : ¬ Spills (",".intercalate ["a", "b"]) ∧ ∃ f after,
    (Machine.new {}).run (Library.functionOf (engineAt 1) [.string "a", .string "b", .string "return a + b"]) =
      (.ok (.object f), after) := by
  have contained : ¬ Spills (",".intercalate ["a", "b"]) := by decide +kernel
  have list : parametersOf? (",".intercalate ["a", "b"]) = some ["a", "b"] := by decide +kernel
  have body : (bodyOf "return a + b").toOption.any (fun read => !read.2.strict) = true := by decide +kernel
  refine ⟨contained, ?_⟩
  rcases made_functions_have_their_parts (engineAt 1) (Machine.new {}) ["a", "b"] "return a + b" contained with
    ⟨-, -, -, -, f, after, -, ran, -⟩ | ⟨none, -⟩
  · exact ⟨f, after, ran⟩
  · cases read : bodyOf "return a + b" with
    | error d =>
      rw [read] at body
      cases body
    | ok found =>
      rw [read] at body
      have sloppy : (!found.2.strict) = true := body
      exact absurd ⟨list, read, fun strict => by simp [strict] at sloppy⟩ (none _ found.1 found.2)

/-- A comment that is open in the parameters may be closed in the body, and then neither of them is what it is to be. -/
example : Spills "/*" ∧ (Program.ofSource (Library.functionSource ["/*", "*/)\x7b"]) false).toOption.any
    (fun p => (Library.soleFunction? p).isSome) = true := by
  decide +kernel

end ScriptEngine
