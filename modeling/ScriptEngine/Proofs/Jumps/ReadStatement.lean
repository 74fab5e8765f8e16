import ScriptEngine.Proofs.Jumps.ReadExpression
import ScriptEngine.Syntax.Program

/-!
The rules for statements read sound statements. A loop, a `switch` statement and a label each let their
jumps be known while the statements inside are read, and forget them afterwards; a jump is refused unless
one that is known takes it.

So programs that were read are sound: all their parts are where they may be, and a program has the names that its
statements declare.
-/

namespace ScriptEngine.Grammar

variable {place : Place} {known : BodyOutline} {outer around : List BodyOutline} {rules : Rules}

/-! ## What is known inside -/

/-- What the statements around a place take is still taken from further inside. -/
theorem taken_inside {takes : JumpScope → Bool} {scopes : List JumpScope} (scope : JumpScope)
    (taken : ∃ outer ∈ scopes, takes outer) : ∃ outer ∈ scope :: scopes, takes outer := by
  obtain ⟨outer, around, ends⟩ := taken
  exact ⟨outer, .tail scope around, ends⟩

/-- What a statement takes ends there from directly inside of it. -/
theorem taken_here {takes : JumpScope → Bool} {scope : JumpScope} (scopes : List JumpScope)
    (taken : takes scope) : ∃ outer ∈ scope :: scopes, takes outer :=
  ⟨scope, .head scopes, taken⟩

theorem fits_in_loop (fits : Fits place known outer) :
    Fits place.inLoop { known with iterationDepth := known.iterationDepth + 1 } outer where
  inFunction := fits.inFunction
  breaks entry mem := taken_inside _ (fits.breaks entry mem)
  continues entry mem iteration := by
    rcases fits.continues entry mem iteration with around | announced
    · exact .inl (taken_inside _ around)
    · exact .inl (taken_here _ (List.contains_iff_mem.mpr announced))
  loops _ := taken_here _ rfl
  choices _ := taken_here _ rfl

theorem fits_in_choice (fits : Fits place.inside known outer) :
    Fits place.inChoice { known with switchDepth := known.switchDepth + 1 } outer where
  inFunction := fits.inFunction
  breaks entry mem := taken_inside _ (fits.breaks entry mem)
  continues entry mem iteration := by
    rcases fits.continues entry mem iteration with around | announced
    · exact .inl (taken_inside _ around)
    · cases announced
  loops repeated := taken_inside _ (fits.loops repeated)
  choices _ := taken_here _ rfl

/-- Behind a label that announces a loop the label is expected to stand directly before that loop. -/
theorem fits_behind (fits : Fits place known outer) (entry : LabelEntry) :
    Fits (place.behind entry.name) { known with labels := entry :: known.labels } outer where
  inFunction := fits.inFunction
  breaks other mem := by
    cases mem with
    | head => exact taken_here _ (beq_self_eq_true _)
    | tail _ mem => exact taken_inside _ (fits.breaks other mem)
  continues other mem iteration := by
    cases mem with
    | head => exact .inr (.head _)
    | tail _ mem =>
      rcases fits.continues other mem iteration with around | announced
      · exact .inl (taken_inside _ around)
      · exact .inr (.tail _ announced)
  loops repeated := taken_inside _ (fits.loops repeated)
  choices chosen := taken_inside _ (fits.choices chosen)

/-- Behind a label that announces no loop no label is expected any more. -/
theorem fits_behind_plain (fits : Fits place.inside known outer) {entry : LabelEntry}
    (plain : entry.iteration = false) :
    Fits (place.behind entry.name).inside { known with labels := entry :: known.labels } outer where
  inFunction := fits.inFunction
  breaks := (fits_behind fits entry).breaks
  continues other mem iteration := by
    cases mem with
    | head =>
      rw [plain] at iteration
      cases iteration
    | tail _ mem =>
      rcases fits.continues other mem iteration with around | announced
      · exact .inl (taken_inside _ around)
      · cases announced
  loops := (fits_behind fits entry).loops
  choices := (fits_behind fits entry).choices

/-- Where no labels stand directly before a place, any statement may be read for it. -/
theorem ready_bare {s : ReadingState} (bare : place.labels = []) (fits : Fits place known outer)
    (reached : s.Reached (known :: outer)) : Ready place known outer s := by
  have inside : place.inside = place := by rw [Place.inside, ← bare]
  exact ⟨reached, fits, fun _ => inside.symm ▸ fits⟩

/-! ## Sound statements -/

/-- A form of statement is sound at a place: it may stand there, without declaring anything, and what is
inside of it is sound. -/
structure SoundForm (place : Place) (form : StmtForm) : Prop where
  inPlace : form.InPlace place
  declared : form.declared = []
  inner : ∀ child ∈ form.children place, child.Sound

theorem SoundForm.sound {form : StmtForm} (holds : SoundForm place form) (span : Span) :
    SoundStatement place ⟨form, span⟩ :=
  ⟨.intro holds.inPlace holds.inner, holds.declared⟩

/-- A block has the names that its statements declare, and they are sound. -/
structure SoundBlock (place : Place) (b : Block) : Prop where
  inPlace : b.InPlace
  inner : ∀ s ∈ b.body, (Node.stmt place s).Sound

/-- The first value of a declared name, if there is one, is sound. -/
def SoundDeclarator (d : Declarator) : Prop :=
  ∀ e ∈ d.init, (Node.expr e).Sound

theorem sound_declarators {declarators : List Declarator}
    (sound : ∀ d ∈ declarators, SoundDeclarator d) :
    ∀ child ∈ declaratorNodes declarators, child.Sound := by
  intro child mem
  obtain ⟨d, among, same⟩ := List.mem_filterMap.mp mem
  obtain ⟨e, init, rfl⟩ := Option.map_eq_some_iff.mp same
  exact sound d among e init

theorem sound_option {e : Option Expr} (sound : ∀ some ∈ e, (Node.expr some).Sound) :
    ∀ child ∈ e.toList.map Node.expr, child.Sound := by
  cases e with
  | none => exact List.forall_mem_nil _
  | some e => exact List.forall_mem_singleton.mpr (sound e rfl)

theorem sound_statements {body : List Stmt} (sound : ∀ s ∈ body, (Node.stmt place s).Sound) :
    ∀ child ∈ place.nodes body, child.Sound :=
  List.forall_mem_map.mpr sound

/-- A name is refused that the innermost block has declared before. -/
theorem leads_declare_lexical (token : Token) {names : List LexicalName} (name : LexicalName) :
    Leads (ReadingState.Reached (known.inBlock names :: outer))
      (fun _ => ReadingState.Reached (known.inBlock (names ++ [name]) :: outer))
      (declareLexical token name) fun _ => True := by
  refine .bind .get fun s reached => ?_
  have inner : s.body.innerBlock = names :=
    congrArg (·.blocks.head?.getD []) (body_outline reached)
  dsimp only
  split
  · exact .fail_then _ _ _
  · next fresh =>
    refine leads_add_lexical fun other mem same => fresh ?_
    rw [inner]
    exact List.any_eq_true.mpr ⟨other, mem, beq_iff_eq.mpr same⟩

theorem reads_single_binding (declarators : List Declarator) :
    Reads around (singleBinding declarators) fun _ => True := by
  unfold singleBinding
  split
  · exact .pure trivial
  · exact reads_fail_here _

/-- Behind a loop one less is known. -/
theorem leads_leave_loop :
    Leads (ReadingState.Reached ({ known with iterationDepth := known.iterationDepth + 1 } :: outer))
      (fun _ => ReadingState.Reached (known :: outer)) leaveLoop fun _ => True := by
  refine .bind .get fun s reached => ?_
  have depth : s.body.iterationDepth = known.iterationDepth + 1 :=
    congrArg BodyOutline.iterationDepth (body_outline reached)
  rw [depth]
  refine leads_modify_body known (fun b same => ?_) id fun _ => rfl
  exact congrArg (fun k : BodyOutline => { k with iterationDepth := known.iterationDepth }) same

/-- Behind a `switch` statement one less is known. -/
theorem leads_leave_switch :
    Leads (ReadingState.Reached ({ known with switchDepth := known.switchDepth + 1 } :: outer))
      (fun _ => ReadingState.Reached (known :: outer)) leaveSwitch fun _ => True := by
  refine .bind .get fun s reached => ?_
  have depth : s.body.switchDepth = known.switchDepth + 1 :=
    congrArg BodyOutline.switchDepth (body_outline reached)
  rw [depth]
  refine leads_modify_body known (fun b same => ?_) id fun _ => rfl
  exact congrArg (fun k : BodyOutline => { k with switchDepth := known.switchDepth }) same

section

variable (sound : rules.Sound)

include sound

theorem reads_parenthesized (opening closing : String) :
    Reads around (parenthesized rules opening closing) fun e => (Node.expr e).Sound := by
  refine .bind (reads_expect _ _) fun _ _ => .bind (reads_expression sound false) fun e holds => ?_
  exact .bind (reads_expect _ _) fun _ _ => .pure holds

theorem reads_statement (bare : place.labels = []) (fits : Fits place known outer) :
    Reads (known :: outer) rules.statement (SoundStatement place) :=
  fun s a next done reached =>
    sound.statement place known outer s a next done (ready_bare bare fits reached)

/-- The innermost block declares what the statements of a list declare. -/
theorem leads_items (bare : place.labels = []) (fits : Fits place known outer)
    (more : ReadingState → Bool) (names : List LexicalName) :
    Leads (ReadingState.Reached (known.inBlock names :: outer))
      (fun items => ReadingState.Reached (known.inBlock (names ++ declaredNames items) :: outer))
      (readWhile rules.levels more rules.item []) fun items => ∀ s ∈ items, (Node.stmt place s).Sound := by
  have each (done : List Stmt) :
      Leads (ReadingState.Reached (known.inBlock (names ++ declaredNames done) :: outer))
        (fun s => ReadingState.Reached (known.inBlock (names ++ declaredNames (done ++ [s])) :: outer))
        rules.item fun s => (Node.stmt place s).Sound := by
    simp only [declared_names_concat, ← List.append_assoc]
    exact sound.item place known outer bare fits _
  have items := leads_while (fun items => known.inBlock (names ++ declaredNames items) :: outer) each
    rules.levels more (List.forall_mem_nil _)
  simpa [declaredNames] using items

theorem reads_block (bare : place.labels = []) (fits : Fits place known outer) :
    Reads (known :: outer) (block rules) (SoundBlock place) := by
  refine .bind (reads_expect _ _) fun _ _ => ?_
  refine .bind (reads_with_block (leads_items sound bare fits _ [])) fun read holds => ?_
  obtain ⟨inner, names, distinct⟩ := holds
  exact .bind (reads_expect _ _) fun _ _ => .pure ⟨⟨names, distinct⟩, inner⟩

/-! ## Declarations -/

theorem reads_var_declarator (noIn : Bool) :
    Reads around (varDeclarator rules noIn) SoundDeclarator := by
  refine .bind reads_peek fun token _ => ?_
  extract_lets start
  refine .bind (reads_binding_name _) fun name _ => ?_
  extract_lets finish
  have finished (init : Option Expr) (holds : ∀ e ∈ init, (Node.expr e).Sound) :
      Reads around (finish init) SoundDeclarator := by
    refine .bind (reads_modify_body _ ?_ ?_) fun _ _ => .bind (reads_span_from _) fun _ _ => .pure holds
    · exact fun b => (add_var_keeps name b).1
    · exact fun b => (add_var_keeps name b).2
  refine .bind (reads_accept _) fun given _ => .ite ?_ (.bind (.pure (by simp)) finished)
  exact .bind (.map some (sound.assignment _ noIn) fun e holds => by simpa using holds) finished

/-- A declared name is read with its value, after which the rest of its declaration follows. -/
theorem leads_lexical_declarator {after : Declarator → List BodyOutline} (constant inForHead valueRequired : Bool)
    (ends : ∀ token name init,
      Leads (ReadingState.Reached around) (fun d => ReadingState.Reached (after d))
        (do
          unless inForHead do declareLexical token ⟨name, constant⟩
          return ⟨name, init, ← spanFrom token.span.start⟩)
        fun d => d.init = init) :
    Leads (ReadingState.Reached around) (fun d => ReadingState.Reached (after d))
      (lexicalDeclarator rules constant inForHead valueRequired) SoundDeclarator := by
  refine .bind reads_peek fun token _ => .bind (reads_binding_name _) fun name _ => ?_
  extract_lets finish declare
  have finished (init : Option Expr) (holds : ∀ e ∈ init, (Node.expr e).Sound) :
      Leads (ReadingState.Reached around) (fun d => ReadingState.Reached (after d)) (finish init)
        SoundDeclarator := by
    refine .ite (.fail_then _ _ _) fun s d next done reached => ?_
    obtain ⟨later, same⟩ := ends token name init s d next done reached
    exact ⟨later, by rwa [SoundDeclarator, same]⟩
  refine .ite (.fail_then _ _ _) (.bind (reads_accept _) fun given _ => ?_)
  refine .ite ?_ (.bind (.pure (by simp)) finished)
  exact .bind (.map some (sound.assignment _ _) fun e holds => by simpa using holds) finished

/-- The head of a `for` statement declares its names in no block. -/
theorem reads_head_declarators (constant valueRequired : Bool) :
    Reads around (lexicalDeclarators rules constant true valueRequired)
      fun declarators => ∀ d ∈ declarators, SoundDeclarator d := by
  refine reads_separated (leads_lexical_declarator sound constant true valueRequired ?_) _ (by simp)
  exact fun token name init => .bind (reads_span_from _) fun _ _ => .pure rfl

/-- The innermost block declares the names of a declaration. -/
theorem leads_lexical_declarators (constant valueRequired : Bool) (names : List LexicalName) :
    Leads (ReadingState.Reached (known.inBlock names :: outer))
      (fun declarators => ReadingState.Reached
        (known.inBlock (names ++ (StmtForm.lexical constant declarators).declared) :: outer))
      (lexicalDeclarators rules constant false valueRequired)
      fun declarators => ∀ d ∈ declarators, SoundDeclarator d := by
  have each (done : List Declarator) :
      Leads (ReadingState.Reached
          (known.inBlock (names ++ (StmtForm.lexical constant done).declared) :: outer))
        (fun d => ReadingState.Reached
          (known.inBlock (names ++ (StmtForm.lexical constant (done ++ [d])).declared) :: outer))
        (lexicalDeclarator rules constant false valueRequired) SoundDeclarator := by
    simp only [StmtForm.declared, List.map_append, List.map_singleton, ← List.append_assoc]
    refine leads_lexical_declarator sound constant false valueRequired fun token name init => ?_
    refine .bind (leads_declare_lexical token ⟨name, constant⟩) fun _ _ => ?_
    exact .bind (reads_span_from _) fun _ _ => .give (fun _ => id) rfl
  have declarators := leads_separated
    (fun done => known.inBlock (names ++ (StmtForm.lexical constant done).declared) :: outer) each
    rules.levels (List.forall_mem_nil _)
  simpa [StmtForm.declared, lexicalDeclarators] using declarators

theorem reads_function_declaration (place : Place) :
    Reads around (functionDeclaration rules) (SoundStatement place) := by
  refine .bind reads_advance fun token _ => .bind (reads_function_rest sound _ _) fun code holds => ?_
  refine .bind (reads_add_function holds) fun _ _ => .bind (reads_span_from _) fun span _ => .pure ?_
  have form : SoundForm place (.function code) := ⟨trivial, rfl, List.forall_mem_singleton.mpr holds⟩
  exact form.sound span

/-! ## Loops -/

theorem reads_loop_body (fits : Fits place known outer) :
    Reads (known :: outer) (loopBody rules) (SoundStatement place.inLoop) := by
  refine .bind (leads_modify_body { known with iterationDepth := known.iterationDepth + 1 } ?_ id ?_) fun _ _ => ?_
  · rintro b rfl
    rfl
  · exact fun b => rfl
  refine .bind (reads_statement sound rfl (fits_in_loop fits)) fun s holds => ?_
  exact .bind leads_leave_loop fun _ _ => .pure holds

theorem reads_for_in_rest (fits : Fits place known outer) {target : ForInTarget}
    (holds : ∀ child ∈ target.nodes, child.Sound) :
    Reads (known :: outer) (forInRest rules target) (SoundForm place) := by
  refine .bind (reads_expect _ _) fun _ _ => .bind (reads_expression sound false) fun object inner => ?_
  refine .bind (reads_expect _ _) fun _ _ => .bind (reads_loop_body sound fits) fun body inBody => ?_
  refine .pure ⟨inBody.declared, rfl, ?_⟩
  simp only [StmtForm.children, List.forall_mem_append]
  exact ⟨holds, by simp [inner, inBody.sound]⟩

theorem reads_optional_expression (stop : Mark) :
    Reads around (optionalExpression rules stop) fun e => ∀ e' ∈ e, (Node.expr e').Sound := by
  refine .bind (reads_check _) fun absent _ => .ite (.pure (by simp)) ?_
  exact .map some (reads_expression sound false) fun e holds => by simpa using holds

theorem reads_for_rest (fits : Fits place known outer) {init : Option ForInit}
    (holds : ∀ i ∈ init, ∀ child ∈ i.nodes, child.Sound) :
    Reads (known :: outer) (forRest rules init) (SoundForm place) := by
  refine .bind (reads_expect _ _) fun _ _ => .bind (reads_optional_expression sound _) fun test inTest => ?_
  refine .bind (reads_expect _ _) fun _ _ => .bind (reads_optional_expression sound _) fun update inUpdate => ?_
  refine .bind (reads_expect _ _) fun _ _ => .bind (reads_loop_body sound fits) fun body inBody => ?_
  refine .pure ⟨inBody.declared, rfl, ?_⟩
  simp only [StmtForm.children, List.forall_mem_append]
  rw [List.map_append, List.forall_mem_append]
  refine ⟨⟨?_, sound_option inTest, sound_option inUpdate⟩, List.forall_mem_singleton.mpr inBody.sound⟩
  intro child mem
  obtain ⟨i, among, inside⟩ := List.mem_flatMap.mp mem
  exact holds i (Option.mem_toList.mp among) child inside

theorem reads_for_statement (fits : Fits place known outer) :
    Reads (known :: outer) (forStatement rules) (SoundForm place) := by
  have rest (init : ForInit) (holds : ∀ child ∈ init.nodes, child.Sound) :
      Reads (known :: outer) (forRest rules (some init)) (SoundForm place) :=
    reads_for_rest sound fits (by simpa using holds)
  refine .bind (reads_expect _ _) fun _ _ => .bind reads_peek fun token _ => .ite ?_ ?_
  · refine .bind reads_pass fun _ _ => ?_
    refine .bind (reads_separated (reads_var_declarator sound true) _ (by simp)) fun declarators holds => ?_
    refine .bind (reads_check _) fun inFollows _ => .ite ?_ ?_
    · exact .bind (reads_single_binding _) fun name _ => reads_for_in_rest sound fits (by simp [ForInTarget.nodes])
    · exact rest _ (sound_declarators holds)
  · split
    · next constant _ =>
      refine .bind reads_pass fun _ _ => .bind .get fun s _ => ?_
      extract_lets beforeIn
      refine .bind (reads_head_declarators sound constant _) ?_
      refine fun declarators holds => .bind (reads_check _) fun inFollows _ => .ite ?_ ?_
      · exact .bind (reads_single_binding _) fun name _ => reads_for_in_rest sound fits (by simp [ForInTarget.nodes])
      · exact rest _ (sound_declarators holds)
    · refine .ite (reads_for_rest sound fits (by simp)) ?_
      refine .bind (reads_expression sound true) fun e holds => .bind (reads_check _) fun inFollows _ => ?_
      have inner : ∀ child ∈ [Node.expr e], child.Sound := List.forall_mem_singleton.mpr holds
      refine .ite ?_ (rest (.expr e) inner)
      exact .bind (reads_check_target e) fun _ _ => reads_for_in_rest sound fits inner

end

/-! ## Jumps -/

theorem reads_optional_label : Reads around optionalLabel fun _ => True := by
  refine .bind reads_peek fun token _ => .ite ?_ (.pure trivial)
  exact .bind reads_pass fun _ _ => .pure trivial

/-- What the innermost function knows of the jumps in it. -/
theorem body_known {s : ReadingState} (reached : s.Reached (known :: outer)) :
    s.body.labels = known.labels ∧ s.body.iterationDepth = known.iterationDepth ∧
      s.body.switchDepth = known.switchDepth := by
  obtain rfl := body_outline reached
  exact ⟨rfl, rfl, rfl⟩

/-- A `continue` that is read has a loop to go on with. -/
theorem reads_continue (fits : Fits place.inside known outer) :
    Reads (known :: outer) continueStatement (SoundForm place) := by
  refine .bind reads_advance fun keyword _ => .bind reads_optional_label fun label _ => ?_
  refine .bind .get fun s reached => ?_
  obtain ⟨labels, depth, -⟩ := body_known reached
  extract_lets body finish
  have finished (anchored : ∃ scope ∈ place.scopes, scope.endsContinue label) :
      Reads (known :: outer) (finish ()) (SoundForm place) :=
    .bind reads_end_statement fun _ _ => .pure ⟨anchored, rfl, List.forall_mem_nil _⟩
  cases label with
  | none =>
    dsimp only
    split
    · exact .fail_then _ _ _
    · next inLoop =>
      refine finished (fits.loops fun none => inLoop ?_)
      exact beq_iff_eq.mpr (depth.trans none)
  | some name =>
    dsimp only
    split
    · next entry found =>
      split
      · next iteration =>
        have among : entry ∈ known.labels := labels ▸ List.mem_of_find?_eq_some found
        have same := List.find?_some found
        have named : entry.name = name := beq_iff_eq.mp same
        rcases fits.continues entry among iteration with offered | announced
        · exact finished (named ▸ offered)
        · cases announced
      · exact .fail_then _ _ _
    · exact .fail_then _ _ _

/-- A `break` that is read has a statement to leave. -/
theorem reads_break (fits : Fits place known outer) :
    Reads (known :: outer) breakStatement (SoundForm place) := by
  refine .bind reads_advance fun keyword _ => .bind reads_optional_label fun label _ => ?_
  refine .bind .get fun s reached => ?_
  obtain ⟨labels, loops, choices⟩ := body_known reached
  extract_lets body finish
  have finished (anchored : ∃ scope ∈ place.scopes, scope.endsBreak label) :
      Reads (known :: outer) (finish ()) (SoundForm place) :=
    .bind reads_end_statement fun _ _ => .pure ⟨anchored, rfl, List.forall_mem_nil _⟩
  cases label with
  | none =>
    dsimp only
    split
    · exact .fail_then _ _ _
    · next around =>
      refine finished (fits.choices ?_)
      rw [← loops, ← choices]
      simp only [Bool.and_eq_true, beq_iff_eq] at around
      exact Decidable.not_and_iff_or_not.mp around
  | some name =>
    dsimp only
    split
    · next declared =>
      obtain ⟨entry, among, same⟩ := List.any_eq_true.mp declared
      have offered := fits.breaks entry (labels ▸ among)
      exact finished (beq_iff_eq.mp same ▸ offered)
    · exact .fail_then _ _ _

/-! ## Labels -/

/-- A label before a statement announces what the statement itself announces. -/
theorem labels_loop_label {s : ReadingState} (named : s.current.kind = .identifier)
    (colon : (s.tokenAt 1).kind = .mark .colon) :
    labelsLoop (s.current :: s.upcoming) =
      labelsLoop (s.pass.pass.current :: s.pass.pass.upcoming) := by
  obtain ⟨source, previous, current, upcoming, body, outerBodies⟩ := s
  replace named : current.kind = .identifier := named
  match upcoming with
  | [] =>
    have same : current.kind = .mark .colon := colon
    rw [named] at same
    cases same
  | [next] =>
    have same : next.kind = .mark .colon := colon
    simp only [labelsLoop, ReadingState.pass, named, same]
    rfl
  | next :: after :: rest =>
    have same : next.kind = .mark .colon := colon
    simp [labelsLoop, ReadingState.pass, named, same]

/-- Nothing is announced where neither a loop nor a label comes next. -/
theorem labels_loop_other {token : Token} {rest : List Token}
    (loop : token.kind ≠ .keyword .«for» ∧ token.kind ≠ .keyword .«while» ∧
      token.kind ≠ .keyword .«do»)
    (label : token.kind = .identifier → ∀ next ∈ rest.head?, next.kind ≠ .mark .colon) :
    labelsLoop (token :: rest) = false := by
  cases rest with
  | nil => simp [labelsLoop, loop]
  | cons next rest =>
    unfold labelsLoop
    rw [if_neg]
    · simp [loop]
    · simp only [Bool.and_eq_true, beq_iff_eq, not_and]
      exact fun named => label named next rfl

theorem leads_advance {s : ReadingState} : Leads (· = s) (fun _ now => now = s.pass) advance fun _ => True := by
  intro before token after done same
  cases done
  exact ⟨congrArg ReadingState.pass same, trivial⟩

theorem leads_peek {s : ReadingState} : Leads (· = s) (fun _ now => now = s) peek (· = s.current) := by
  intro before token after done same
  cases done
  exact ⟨same, congrArg ReadingState.current same⟩

/-- Behind the label that comes next a statement may be read for the place behind that label. -/
theorem ready_behind {s : ReadingState} (ready : Ready place known outer s)
    (named : s.current.kind = .identifier) (colon : (s.tokenAt 1).kind = .mark .colon)
    (name : String) :
    let entry : LabelEntry := ⟨name, labelsLoop (s.pass.pass.current :: s.pass.pass.upcoming)⟩
    let body := { s.pass.pass.body with labels := entry :: s.pass.pass.body.labels }
    Ready (place.behind name) { known with labels := entry :: known.labels } outer
      { s.pass.pass with body := body } := by
  intro entry body
  have reached := reached_pass (reached_pass ready.reached)
  have outline : s.pass.pass.body.outline = known := body_outline reached
  refine ⟨?_, fits_behind ready.fits entry, fun silent => ?_⟩
  · have distinct := reached.distinct known (.head _)
    rw [← outline] at distinct
    have kept := reached_body (fun b => { b with labels := entry :: b.labels }) reached distinct
      fun code noted => .inl noted
    rw [← outline]
    exact kept
  · -- What the look ahead saw from before the label, it sees again from behind it.
    have announced := labels_loop_label named colon
    have plain : entry.iteration = false := silent
    exact fits_behind_plain (ready.otherwise (announced.trans silent)) plain

/-- A statement with a label is read as one that stands behind that label. -/
theorem leads_labeled_statement (sound : rules.Sound) {s : ReadingState}
    (ready : Ready place known outer s) (named : s.current.kind = .identifier)
    (colon : (s.tokenAt 1).kind = .mark .colon) :
    Leads (· = s) (fun _ => ReadingState.Reached (known :: outer)) (labeledStatement rules)
      (SoundForm place) := by
  have passes : Leads (· = s.pass) (fun _ now => now = s.pass.pass) (discard advance) fun _ => True :=
    .map _ leads_advance fun _ _ => trivial
  refine .bind leads_advance fun token _ => .bind passes fun _ _ => ?_
  extract_lets label
  refine .bind .get fun current same => ?_
  subst same
  extract_lets entry finish
  refine .ite (.fail_then _ _ _) ?_
  have enters : Leads (· = s.pass.pass) (fun _ => Ready (place.behind label)
      { known with labels := entry :: known.labels } outer)
      (modifyBody fun b => { b with labels := entry :: b.labels }) fun _ => True :=
    .modify fun _ same => same ▸ ready_behind ready named colon label
  refine enters.bind fun _ _ => .bind (sound.statement _ _ _) fun body holds => ?_
  refine .bind (leads_modify_body known (fun b same => ?_) id fun _ => rfl) fun _ _ => ?_
  · exact congrArg (fun k : BodyOutline => { k with labels := k.labels.tail }) same
  · exact .pure ⟨holds.declared, rfl, List.forall_mem_singleton.mpr holds.sound⟩

/-! ## Choices and handlers -/

section

variable (sound : rules.Sound)

include sound

/-- The clauses of a `switch` statement declare their names in one block. -/
theorem leads_switch_clauses (bare : place.labels = []) (fits : Fits place known outer) (fuel : Nat)
    (seenDefault : Bool) {done : List SwitchClause}
    (before : ∀ c ∈ done, ∀ child ∈ c.nodes place, child.Sound) :
    let inside (clauses : List SwitchClause) := ReadingState.Reached
      (known.inBlock (declaredNames (clauses.flatMap SwitchClause.body)) :: outer)
    Leads (inside done.reverse) inside (switchClauses rules fuel seenDefault done)
      fun clauses => ∀ c ∈ clauses, ∀ child ∈ c.nodes place, child.Sound := by
  intro inside
  have ended : ∀ c ∈ done.reverse, ∀ child ∈ c.nodes place, child.Sound :=
    fun c mem => before c (List.mem_reverse.mp mem)
  induction fuel generalizing seenDefault done with
  | zero => exact .broken
  | succ fuel ih =>
    refine .bind .get fun s _ => .ite ?_ (.give (fun _ => id) ended)
    refine .bind reads_advance fun token _ => ?_
    extract_lets finish default
    have finished (test : Option Expr) (holds : ∀ e ∈ test, (Node.expr e).Sound) :
        Leads (inside done.reverse) inside (finish test)
          fun clauses => ∀ c ∈ clauses, ∀ child ∈ c.nodes place, child.Sound := by
      refine .bind (reads_expect _ _) fun _ _ => ?_
      refine .bind (leads_items sound bare fits _ _) fun body inBody => ?_
      have before : ∀ c ∈ ⟨test, body⟩ :: done, ∀ child ∈ SwitchClause.nodes place c, child.Sound :=
        List.forall_mem_cons.mpr
          ⟨List.forall_mem_append.mpr ⟨sound_option holds, sound_statements inBody⟩, before⟩
      have same : declaredNames (done.reverse.flatMap SwitchClause.body) ++ declaredNames body =
          declaredNames ((⟨test, body⟩ :: done).reverse.flatMap SwitchClause.body) := by
        simp [declaredNames]
      rw [same]
      exact ih _ before fun c mem => before c (List.mem_reverse.mp mem)
    split
    · exact .bind (.map some (reads_expression sound false) fun e holds => by simpa using holds) finished
    · have unlabelled : Leads (inside done.reverse) inside (default ())
          fun clauses => ∀ c ∈ clauses, ∀ child ∈ c.nodes place, child.Sound :=
        .bind (.pure (by simp)) finished
      exact .ite (.fail_then _ _ _) unlabelled
    · exact .fail_then _ _ _

theorem reads_switch_statement (fits : Fits place.inside known outer) :
    Reads (known :: outer) (switchStatement rules) (SoundForm place) := by
  refine .bind (reads_parenthesized sound _ _) fun discriminant holds => ?_
  refine .bind (reads_expect _ _) fun _ _ => ?_
  refine .bind (leads_modify_body { known with switchDepth := known.switchDepth + 1 } ?_ id ?_) fun _ _ => ?_
  · rintro b rfl
    rfl
  · exact fun b => rfl
  have clauses := leads_switch_clauses sound rfl (fits_in_choice fits) rules.levels false
    (List.forall_mem_nil _)
  refine .bind (reads_with_block clauses) fun read inner => ?_
  obtain ⟨inner, names, distinct⟩ := inner
  refine .bind leads_leave_switch fun _ _ => ?_
  refine .bind (reads_expect _ _) fun _ _ => .pure ⟨⟨names, distinct⟩, rfl, ?_⟩
  refine List.forall_mem_cons.mpr ⟨holds, fun child mem => ?_⟩
  obtain ⟨clause, among, inside⟩ := List.mem_flatMap.mp mem
  exact inner clause among child inside

theorem reads_try_statement (fits : Fits place.inside known outer) :
    Reads (known :: outer) (tryStatement rules) (SoundForm place) := by
  refine .bind reads_advance fun keyword _ => .bind (reads_block sound rfl fits) fun guarded inBody => ?_
  have ended (handler : Option Handler) (finalizer : Option Block)
      (inHandler : ∀ h ∈ handler, SoundBlock place.inside h.body)
      (inFinalizer : ∀ b ∈ finalizer, SoundBlock place.inside b) :
      SoundForm place (.attempt guarded handler finalizer) := by
    refine ⟨⟨inBody.inPlace, ?_, ?_⟩, rfl,
      List.forall_mem_append.mpr ⟨List.forall_mem_append.mpr ⟨?_, ?_⟩, ?_⟩⟩
    · exact fun h mem => (inHandler h mem).inPlace
    · exact fun b mem => (inFinalizer b mem).inPlace
    · exact sound_statements inBody.inner
    · intro child mem
      obtain ⟨h, among, inside⟩ := List.mem_flatMap.mp mem
      exact sound_statements (inHandler h (Option.mem_toList.mp among)).inner child inside
    · intro child mem
      obtain ⟨b, among, inside⟩ := List.mem_flatMap.mp mem
      exact sound_statements (inFinalizer b (Option.mem_toList.mp among)).inner child inside
  extract_lets finish
  have finished (handler : Option Handler)
      (inHandler : ∀ h ∈ handler, SoundBlock place.inside h.body) :
      Reads (known :: outer) (finish handler) (SoundForm place) := by
    refine .bind (reads_accept _) fun last _ => ?_
    extract_lets complete
    have completed (finalizer : Option Block)
        (inFinalizer : ∀ b ∈ finalizer, SoundBlock place.inside b) :
        Reads (known :: outer) (complete finalizer) (SoundForm place) :=
      .ite (.fail_then _ _ _) (.pure (ended handler finalizer inHandler inFinalizer))
    refine .ite ?_ (.bind (.pure (by simp)) completed)
    exact .bind (.map some (reads_block sound rfl fits) fun b holds => by simpa using holds) completed
  refine .bind (reads_accept _) fun caught _ => .ite ?_ (.bind (.pure (by simp)) finished)
  refine .bind (reads_expect _ _) fun _ _ => .bind (reads_binding_name _) fun parameter _ => ?_
  refine .bind (reads_expect _ _) fun _ _ => .bind (reads_block sound rfl fits) fun b holds => ?_
  exact .bind (.pure (by simpa using holds)) finished

theorem reads_if_statement (fits : Fits place.inside known outer) :
    Reads (known :: outer) (ifStatement rules) (SoundForm place) := by
  refine .bind (reads_parenthesized sound _ _) fun test inTest => ?_
  refine .bind (reads_statement sound rfl fits) fun yes inYes => ?_
  extract_lets finish
  have finished (no : Option Stmt) (inNo : ∀ s ∈ no, SoundStatement place.inside s) :
      Reads (known :: outer) (finish no) (SoundForm place) := by
    refine .pure ⟨⟨inYes.declared, fun s mem => (inNo s mem).declared⟩, rfl, ?_⟩
    refine List.forall_mem_cons.mpr ⟨inTest, sound_statements ?_⟩
    exact List.forall_mem_cons.mpr ⟨inYes.sound, fun s mem => (inNo s (Option.mem_toList.mp mem)).sound⟩
  refine .bind (reads_accept _) fun other _ => .ite ?_ (.bind (.pure (by simp)) finished)
  exact .bind (.map some (reads_statement sound rfl fits) fun s holds => by simpa using holds) finished

/-! ## Statements -/

/-- A form of statement is read for its place. Only a loop, or a label before one, may stand where a loop is
announced. -/
theorem leads_statement_form {s : ReadingState} (ready : Ready place known outer s) :
    Leads (· = s) (fun _ => ReadingState.Reached (known :: outer)) (statementForm rules s.current)
      (SoundForm place) := by
  have here (read : Reader StmtForm) (reads : Reads (known :: outer) read (SoundForm place)) :
      Leads (· = s) (fun _ => ReadingState.Reached (known :: outer)) read (SoundForm place) :=
    fun before form next done same => reads before form next done (same ▸ ready.reached)
  have bare (kind : TokenKind) (same : s.current.kind = kind) (loop : kind ≠ .keyword .«for» ∧
      kind ≠ .keyword .«while» ∧ kind ≠ .keyword .«do») (label : kind ≠ .identifier) :
      Fits place.inside known outer :=
    ready.otherwise (labels_loop_other (same ▸ loop) fun named => absurd (same ▸ named) label)
  unfold statementForm
  split
  · next brace =>
    have fits := bare _ brace (by decide) (by decide)
    refine here _ (.bind (reads_block sound rfl fits) fun b holds => .pure ⟨holds.inPlace, rfl, ?_⟩)
    exact sound_statements holds.inner
  · exact here _ (.bind reads_pass fun _ _ => .pure ⟨trivial, rfl, List.forall_mem_nil _⟩)
  · refine here _ (.bind reads_pass fun _ _ => ?_)
    refine .bind (reads_separated (reads_var_declarator sound false) _ (by simp)) ?_
    refine fun declarators holds => .bind reads_end_statement fun _ _ => .pure ⟨trivial, rfl, ?_⟩
    exact sound_declarators holds
  · exact here _ (.fail _ _)
  · exact here _ (.fail _ _)
  · next choice =>
    have fits := bare _ choice (by decide) (by decide)
    exact here _ (.bind reads_pass fun _ _ => reads_if_statement sound fits)
  · refine here _ (.bind reads_pass fun _ _ => ?_)
    refine .bind (reads_parenthesized sound _ _) fun test inTest => ?_
    refine .bind (reads_loop_body sound ready.fits) fun body inBody => .pure ⟨inBody.declared, rfl, ?_⟩
    exact List.forall_mem_cons.mpr ⟨inTest, List.forall_mem_singleton.mpr inBody.sound⟩
  · refine here _ (.bind reads_pass fun _ _ => ?_)
    refine .bind (reads_loop_body sound ready.fits) fun body inBody => .bind (reads_expect _ _) ?_
    refine fun _ _ => .bind (reads_parenthesized sound _ _) fun test inTest => ?_
    refine .bind (.map _ (reads_accept _) fun _ _ => trivial) fun _ (_ : True) => .pure ⟨inBody.declared, rfl, ?_⟩
    exact List.forall_mem_cons.mpr ⟨inTest, List.forall_mem_singleton.mpr inBody.sound⟩
  · exact here _ (.bind reads_pass fun _ _ => reads_for_statement sound ready.fits)
  · next jump =>
    exact here _ (reads_continue (bare _ jump (by decide) (by decide)))
  · exact here _ (reads_break ready.fits)
  · refine here _ (.bind reads_pass fun _ _ => .bind .get fun now reached => ?_)
    extract_lets finish valued
    have finished (inFunction : place.inFunction = true) (value : Option Expr)
        (holds : ∀ e ∈ value, (Node.expr e).Sound) :
        Reads (known :: outer) (finish value) (SoundForm place) :=
      .bind reads_end_statement fun _ _ => .pure ⟨inFunction, rfl, sound_option holds⟩
    split
    · exact .fail_then _ _ _
    · next around =>
      have inFunction := ready.fits.inFunction fun none => around ?_
      · refine .ite (.bind (.pure (by simp)) (finished inFunction)) ?_
        refine .bind (.map some (reads_expression sound false) ?_) (finished inFunction)
        exact fun e holds => by simpa using holds
      · have noBodies : now.outerBodies.map BodyState.outline = [] :=
          (List.cons.inj reached.outline).2.trans none
        rw [List.map_eq_nil_iff.mp noBodies]
        rfl
  · next object =>
    have fits := bare _ object (by decide) (by decide)
    refine here _ (.bind reads_is_strict fun strict _ => .ite (.fail_then _ _ _) ?_)
    refine .bind reads_pass fun _ _ => .bind (reads_parenthesized sound _ _) fun object holds => ?_
    refine .bind (reads_statement sound rfl fits) fun body inBody => .pure ⟨inBody.declared, rfl, ?_⟩
    exact List.forall_mem_cons.mpr ⟨holds, List.forall_mem_singleton.mpr inBody.sound⟩
  · next choice =>
    have fits := bare _ choice (by decide) (by decide)
    exact here _ (.bind reads_pass fun _ _ => reads_switch_statement sound fits)
  · refine here _ (.bind reads_pass fun _ _ => .bind reads_peek fun next _ => ?_)
    refine .ite (.bind (reads_fail_here _) fun _ (impossible : False) => impossible.elim) ?_
    refine .bind (reads_expression sound false) fun value holds => ?_
    refine .bind reads_end_statement fun _ _ => .pure ⟨trivial, rfl, ?_⟩
    exact List.forall_mem_singleton.mpr holds
  · next guarded =>
    exact here _ (reads_try_statement sound (bare _ guarded (by decide) (by decide)))
  · refine here _ (.bind reads_pass fun _ _ => .bind reads_end_statement fun _ _ => ?_)
    exact .pure ⟨trivial, rfl, List.forall_mem_nil _⟩
  · refine .bind .get fun now same => ?_
    subst same
    split
    · next label =>
      obtain ⟨named, colon⟩ := Bool.and_eq_true_iff.mp label
      exact leads_labeled_statement sound ready (beq_iff_eq.mp named) (beq_iff_eq.mp colon)
    · refine here _ (.bind (reads_expression sound false) fun e holds => ?_)
      exact .bind reads_end_statement fun _ _ => .pure ⟨trivial, rfl, List.forall_mem_singleton.mpr holds⟩

theorem sound_statement : ReadsStatement (statement rules) := by
  intro place known outer s stmt next done ready
  have reads : Leads (· = s) (fun _ => ReadingState.Reached (known :: outer)) (statement rules)
      (SoundStatement place) := by
    refine .bind leads_peek fun token same => ?_
    subst same
    refine .ite ?_ (.bind (leads_statement_form sound ready) fun form holds => ?_)
    · intro before code after done same
      exact reads_function_declaration sound place before code after done (same ▸ ready.reached)
    · exact .bind (reads_span_from _) fun span _ => .pure (holds.sound span)
  exact reads s stmt next done rfl

theorem leads_item : ReadsItem (item rules) := by
  intro place known outer bare fits names
  refine .bind reads_peek fun token _ => ?_
  split
  · next constant _ =>
    refine .bind reads_pass fun _ _ => ?_
    refine .bind (leads_lexical_declarators sound constant _ names) fun declarators holds => ?_
    refine .bind reads_end_statement fun _ _ => .bind (reads_span_from _) fun span _ => ?_
    exact .give (fun _ => id) (.intro trivial (sound_declarators holds))
  · intro s stmt next done reached
    obtain ⟨after, holds⟩ := sound_statement sound place (known.inBlock names) outer s stmt next done
      (ready_bare bare (fits_in_block fits names) reached)
    refine ⟨?_, holds.sound⟩
    dsimp only
    rwa [holds.declared, List.append_nil]

end

end ScriptEngine.Grammar

namespace ScriptEngine

/-! ## Programs -/

namespace Grammar

/-- The rules for any number of levels read what is sound. -/
theorem sound_rules (levels : Nat) : (rulesFor levels).Sound := by
  induction levels with
  | zero =>
    exact {
      assignment := fun _ _ => .broken
      binary := fun _ _ _ => .broken
      unary := fun _ => .broken
      newExpression := fun _ => .broken
      statement := fun _ _ _ => .broken
      item := fun _ _ _ _ _ _ => .broken }
  | succ levels ih =>
    exact {
      assignment := fun _ noIn => reads_assignment ih noIn
      binary := fun _ precedence noIn => reads_binary ih precedence noIn
      unary := fun _ => reads_unary ih
      newExpression := fun _ => reads_new_expression ih
      statement := sound_statement ih
      item := leads_item ih }

end Grammar

/-- A program has the names that its statements declare, and all its parts are where they may be. -/
structure Program.Sound (p : Program) : Prop where
  names : Declares p.scope.lexical p.body
  inner : ∀ child ∈ p.children, child.Sound

/-- Whatever is read as a program is sound. -/
theorem program_sound_of_tokens {source : List Char} {strict : Bool} {tokens : List Token} {p : Program}
    (accepted : Program.ofTokens source strict tokens = .ok p) : p.Sound := by
  cases tokens with
  | nil => cases accepted
  | cons first rest =>
    let start : Grammar.ReadingState := ⟨source, first, first, rest, .start false strict, []⟩
    let levels := Grammar.levelsFor (first :: rest)
    have steps : (Grammar.programBody levels start >>= fun read =>
        .ok (⟨read.1, read.2.body.strict, read.2.body.names⟩ : Program)) = .ok p := accepted
    have begins : start.Reached [Grammar.BodyOutline.start.inBlock []] := by
      refine ⟨rfl, ?_, List.forall_mem_singleton.mpr (List.forall_mem_nil _)⟩
      exact List.forall_mem_singleton.mpr (List.forall_mem_singleton.mpr List.nodup_nil)
    have fits : Grammar.Fits .script .start [] :=
      Grammar.fits_start _ _ fun nested => absurd rfl nested
    have reads := Grammar.leads_body_items (Grammar.sound_rules levels) rfl fits levels .endOfInput true
      (List.forall_mem_nil _)
    cases read : Grammar.programBody levels start with
    | error d =>
      rw [read] at steps
      cases steps
    | ok ended =>
      rw [read] at steps
      cases steps
      obtain ⟨reached, body⟩ := reads start ended.1 ended.2 read begins
      have blocks : ended.2.body.blocks = [declaredNames ended.1] :=
        congrArg Grammar.BodyOutline.blocks (Grammar.body_outline reached)
      have lexical : ended.2.body.names.lexical = declaredNames ended.1 := by
        rw [Grammar.BodyState.names, blocks]
        rfl
      refine ⟨⟨lexical, ?_⟩, List.forall_mem_append.mpr ⟨Grammar.sound_statements body, ?_⟩⟩
      · exact lexical ▸ reached.distinct _ (.head _) _ (.head _)
      · exact List.forall_mem_map.mpr (reached.functions _ (.head _))

theorem program_sound_of_source {source : String} {strict : Bool} {p : Program}
    (accepted : Program.ofSource source strict = .ok p) : p.Sound := by
  have steps : (Scanning.tokensOf source >>= Program.ofTokens source.toList strict) = .ok p := accepted
  cases scanned : Scanning.tokensOf source with
  | error d =>
    rw [scanned] at steps
    cases steps
  | ok tokens =>
    rw [scanned] at steps
    exact program_sound_of_tokens steps

theorem sound_of_source {source : String} {strict : Bool} {p : Program}
    (accepted : Program.ofSource source strict = .ok p) {n : Node} (contained : p.Contains n) :
    n.Sound := by
  obtain ⟨outer, direct, within⟩ := contained
  exact ((program_sound_of_source accepted).inner outer direct).within within

end ScriptEngine
