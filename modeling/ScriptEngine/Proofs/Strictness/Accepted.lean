import ScriptEngine.Proofs.Hoisting.Accepted
import ScriptEngine.Proofs.Scanning.Escapes
import ScriptEngine.Proofs.Strictness.ReadStatement

/-!
What the strict code of accepted programs does not have: names that are ruled out there, and numbers and strings of
the older octal forms. Two kinds of names slip through, and two kinds of octal tokens. The name of a function is held
against the code around the function alone, and words that strict code reserves may be read as expressions. An octal
token may be the name of a property, or a directive before the one that makes the code strict.
-/

namespace ScriptEngine

open Grammar

namespace Grammar.Script

variable {script : Script}

/-- The rules for any number of levels find what they read. -/
theorem covered_rules (levels : Nat) : script.Covered (rulesFor levels) := by
  induction levels with
  | zero =>
    exact {
      assignment := fun _ _ _ _ => .broken
      binary := fun _ _ _ _ _ => .broken
      unary := fun _ _ _ => .broken
      newExpression := fun _ _ _ _ => .broken
      statement := fun _ _ _ => .broken
      item := fun _ _ _ => .broken }
  | succ levels ih =>
    exact {
      assignment := fun _ _ _ noIn => covers_assignment ih noIn
      binary := fun _ _ _ precedence noIn => covers_binary ih precedence noIn
      unary := fun _ _ _ => covers_unary ih
      newExpression := fun _ _ _ keyword => covers_new_expression ih keyword
      statement := fun _ _ _ => covers_statement ih
      item := fun _ _ _ => covers_item ih }

/-- A program that was read is found between the first and the last token of its script. -/
theorem found_program {strict : Bool} {p : Program}
    (accepted : Program.ofTokens script.source strict script.tokens = .ok p) :
    script.FoundBody .script strict p.strict true 0 (script.size - 1) p.body := by
  cases tokens : script.tokens with
  | nil =>
    rw [tokens] at accepted
    cases accepted
  | cons first rest =>
    rw [tokens] at accepted
    let start : ReadingState := ⟨script.source, first, first, rest, .start false strict, []⟩
    let levels := levelsFor (first :: rest)
    have steps : (programBody levels start >>= fun read =>
        .ok (⟨read.1, read.2.body.strict, read.2.body.names⟩ : Program)) = .ok p := accepted
    have place : script.At [(0, 0)] 0 start := ⟨rfl, by rw [tokens]; rfl, by rw [tokens]; rfl, rfl⟩
    have here : script.Stands [strict] 0 start := ⟨⟨_, place⟩, rfl⟩
    cases read : programBody levels start with
    | error d =>
      rw [read] at steps
      cases steps
    | ok ended =>
      rw [read] at steps
      cases steps
      have items := leads_body_items (fun strict i => (covered_rules levels).item strict [] i) .script _ _ _ start
        ended.1 ended.2 read here
      obtain ⟨⟨flag, j, there, stops, body, same, found⟩, -⟩ := items
      obtain rfl : ended.1 = body := same
      obtain rfl : ended.2.body.strict = flag := (List.cons.inj there.codes).1
      have last := (end_of_input_iff (List.getElem?_eq_some_iff.mp there.current).1).mp (stops.elim id id)
      rwa [← last, Nat.add_sub_cancel]

end Grammar.Script

/-! ## Parts of accepted programs -/

section

variable {p : Program} {strict : Bool} {t : Stmt}

theorem child_of_inner {place : Place} {s : Stmt} (inner : t ∈ s.form.inner) : ∃ other, .stmt other t ∈ s.form.children place := by
  have same := collect_stmt_children (fun s => [s]) place s.form
  rw [List.flatMap_singleton'] at same
  rw [← same] at inner
  obtain ⟨n, direct, mem⟩ := List.mem_flatMap.mp inner
  cases n with
  | stmt other u =>
    obtain rfl := List.mem_singleton.mp mem
    exact ⟨other, direct⟩
  | expr e => cases mem
  | code code => cases mem

theorem Program.Holds.parts {place : Place} {s : Stmt} (holds : p.Holds strict (.stmt place s)) (part : t ∈ s.parts) :
    ∃ other, p.Holds strict (.stmt other t) := by
  rw [parts_eq] at part
  cases part with
  | head => exact ⟨place, holds⟩
  | tail _ deeper =>
    obtain ⟨u, inner, part⟩ := List.mem_flatMap.mp deeper
    obtain ⟨other, direct⟩ := child_of_inner inner
    exact (holds.stmt direct).parts part
termination_by sizeOf s
decreasing_by exact size_of_inner inner

/-- The functions that are bound when a body is entered stand in the body. -/
theorem Program.Holds.bound {place : Place} {body : List Stmt} {scope : ScopeNames} {code : FunctionCode}
    (statements : ∀ s ∈ body, p.Holds strict (.stmt place s)) (hoists : scope.Hoists body)
    (mem : code ∈ scope.functions) : p.Holds strict (.code code) := by
  rw [hoists.functions] at mem
  obtain ⟨t, part, declared⟩ := List.mem_flatMap.mp mem
  obtain ⟨s, direct, part⟩ := List.mem_flatMap.mp part
  obtain ⟨other, holds⟩ := (statements s direct).parts part
  exact holds.stmt (code_mem_children declared)

/-- What lies in a part of a program lies in strict code or not. -/
theorem Program.Holds.within {n outer : Node} (within : n.Within outer) {strict : Bool} (holds : p.Holds strict outer)
    (described : outer.Described) : ∃ other, p.Holds other n := by
  induction within generalizing strict with
  | here => exact ⟨strict, holds⟩
  | @deeper child outer inner direct ih =>
    obtain ⟨here, parts⟩ := (Node.described_iff _).mp described
    have childDescribed := parts child direct
    cases outer with
    | expr e => exact ih (holds.expr direct) childDescribed
    | stmt place s => exact ih (holds.stmt direct) childDescribed
    | code code =>
      have statements : ∀ s ∈ code.body, p.Holds code.strict (.stmt .function s) := fun s mem => holds.code mem
      rcases List.mem_append.mp direct with inBody | bound
      · obtain ⟨s, mem, rfl⟩ := List.mem_map.mp inBody
        exact ih (statements s mem) childDescribed
      · obtain ⟨function, mem, rfl⟩ := List.mem_map.mp bound
        exact ih (.bound statements (here code rfl).names mem) childDescribed

/-- Each part of an accepted program lies in strict code or not. -/
theorem holds_of_contains {source : String} (accepted : Program.ofSource source strict = .ok p) {n : Node}
    (contained : p.Contains n) : ∃ other, p.Holds other n := by
  obtain ⟨outer, direct, within⟩ := contained
  have described := program_described_of_source accepted
  have statements : ∀ s ∈ p.body, p.Holds p.strict (.stmt .script s) := fun s mem => .body mem
  rcases List.mem_append.mp direct with inBody | bound
  · obtain ⟨s, mem, rfl⟩ := List.mem_map.mp inBody
    exact (statements s mem).within within (described.inner _ direct)
  · obtain ⟨code, mem, rfl⟩ := List.mem_map.mp bound
    exact (Program.Holds.bound statements described.names mem).within within (described.inner _ direct)

end

/-! ## Names in strict code -/

/-- What strict code has of names. The name of a function counts as part of the code around the function, whatever the
function is itself, and which names are read as expressions is left open. -/
structure Program.StrictNames (p : Program) : Prop where
  /-- Each part of the program lies in code that is strict or not. -/
  parts : ∀ n, p.Contains n → ∃ strict, p.Holds strict n
  /-- What is in strict code is strict. -/
  inner : ∀ code, p.Holds true (.code code) → code.strict = true
  statements : ∀ place s, p.Holds true (.stmt place s) → s.form.Strict
  expressions : ∀ e, p.Holds true (.expr e) → e.form.Strict
  functions : ∀ around code, p.Holds around (.code code) → code.StrictNames around

/-- A script that is accepted comes with its tokens. -/
theorem script_of_source {source : String} {strict : Bool} {p : Program}
    (accepted : Program.ofSource source strict = .ok p) :
    ∃ script : Script, script.source = source.toList ∧ Scanning.tokensOf source = .ok script.tokens ∧
      script.FoundBody .script strict p.strict true 0 (script.size - 1) p.body := by
  have steps : (Scanning.tokensOf source >>= Program.ofTokens source.toList strict) = .ok p := accepted
  have layout := Scanning.tokens_of_splits source
  cases scanned : Scanning.tokensOf source with
  | error d =>
    rw [scanned] at steps
    cases steps
  | ok tokens =>
    rw [scanned] at steps layout
    let script : Script := ⟨source.toList, tokens, Scanning.lossless_of_layout layout [] rfl⟩
    exact ⟨script, rfl, rfl, script.found_program steps⟩

/-- Strict code declares and assigns no names that are ruled out there, its functions have distinct parameters, and it
has no `with` statement and deletes no name. -/
theorem strict_names_of_source {source : String} {strict : Bool} {p : Program}
    (accepted : Program.ofSource source strict = .ok p) : p.StrictNames := by
  obtain ⟨script, -, -, found⟩ := script_of_source accepted
  refine ⟨fun n contained => holds_of_contains accepted contained, ?_, ?_, ?_, ?_⟩
  · intro code holds
    cases script.lawful_of_holds found.lawful holds with
    | code names flag inner => exact flag.mpr (.inl rfl)
  · intro place s holds
    cases script.lawful_of_holds found.lawful holds with
    | stmt own accounts inner => exact own rfl
  · intro e holds
    cases script.lawful_of_holds found.lawful holds with
    | expr own accounts inner => exact own rfl
  · intro around code holds
    cases script.lawful_of_holds found.lawful holds with
    | code names flag inner => exact names

/-- A function that makes itself strict behind its name. -/
def lateStrictName : String :=
  "function eval(a, b) \x7b \"use strict\"; var c = a; c = b; return yield \x7d"

/-- The name is kept, as the code around is not strict. -/
theorem late_strict_name_kept :
    ∃ p, Program.ofSource lateStrictName false = .ok p ∧ p.StrictNames ∧
      ∃ code, p.Holds false (.code code) ∧ code.strict = true ∧ code.name = some "eval" := by
  have accepted : (Program.ofSource lateStrictName false).toOption.any (fun p => p.strict == false &&
      p.body.any fun s => s.form.functions.any fun code => code.strict && code.name == some "eval") = true := by
    decide +kernel
  cases read : Program.ofSource lateStrictName false with
  | error d =>
    rw [read] at accepted
    cases accepted
  | ok p =>
    rw [read] at accepted
    obtain ⟨sloppy, someBody⟩ := Bool.and_eq_true_iff.mp accepted
    obtain ⟨s, direct, someCode⟩ := List.any_eq_true.mp someBody
    obtain ⟨code, mem, known⟩ := List.any_eq_true.mp someCode
    obtain ⟨always, name⟩ := Bool.and_eq_true_iff.mp known
    have holds : p.Holds p.strict (.code code) := .stmt (.body direct) (code_mem_children mem)
    rw [beq_iff_eq.mp sloppy] at holds
    exact ⟨p, rfl, strict_names_of_source read, code, holds, always, beq_iff_eq.mp name⟩

/-- Words that strict code reserves are no names that it declares, but they are read as expressions. -/
example : ∀ word ∈ strictReserved, (Program.ofSource ("\"use strict\"; " ++ word) false).isOk = true := by
  decide +kernel

/-! ## Octal tokens in strict code -/

namespace Grammar.Script

variable (script : Script)

/-- A token is the name of a property in an object literal of a program. -/
def NamesProperty (p : Program) (t : Token) : Prop :=
  ∃ strict e, p.Holds strict (.expr e) ∧ script.Keys t e.form

/-- An octal token lies where the code is strict, but is not read as a value there: it is the name of a property, or a
directive of a body in sloppy code, which only a later directive makes strict. -/
def SlipsThrough (p : Program) (around : Bool) (body : List Stmt) (t : Token) : Prop :=
  script.NamesProperty p t ∨ around = false ∧ script.Precedes t body

/-- Which code of a program is strict, and which octal tokens of the script it has. -/
structure StrictCode (strict : Bool) (p : Program) : Prop where
  /-- A program is strict if it is read so, or if it makes itself strict. -/
  program : p.strict = true ↔ strict = true ∨ script.MakesStrict p.body
  /-- A function is strict if the code around it is, or if it makes itself strict. -/
  functions : ∀ around code, p.Holds around (.code code) →
    (code.strict = true ↔ around = true ∨ script.MakesStrict code.body)
  inProgram : p.strict = true → ∀ t ∈ script.tokens, t.IsOctal → script.SlipsThrough p strict p.body t
  inFunctions : ∀ around code, p.Holds around (.code code) → code.strict = true →
    ∀ t ∈ script.tokens, t.IsOctal → t.LiesIn code.span → script.SlipsThrough p around code.body t

variable {script}

/-- A function is accounted for where it stands. -/
theorem Lawful.accounts {p : Program} {around : Bool} {code : FunctionCode}
    (body : ∀ s ∈ p.body, script.Lawful p.strict (.stmt .script s)) (holds : p.Holds around (.code code)) :
    script.Accounts around code (script.NamesProperty p) := by
  intro t known octal inside
  cases holds with
  | @expr _ e _ outer direct =>
    cases lawful_of_holds body outer with
    | expr own accounts inner =>
      refine (accounts code (code_mem_expr direct) t known octal inside).imp id fun keys => ?_
      exact ⟨around, e, outer, keys⟩
  | @stmt _ place s _ outer direct =>
    cases lawful_of_holds body outer with
    | stmt own accounts inner => exact (accounts code (code_mem_stmt direct) t known octal inside).imp id False.elim

/-- What leads in to a strict body is followed by what makes it strict. -/
theorem slips_through_of_leads_in {p : Program} {around strict : Bool} {body : List Stmt} {t : Token}
    (escaped : t.kind = .string → ¬ script.SaysStrict t) (flag : strict = true ↔ around = true ∨ script.MakesStrict body)
    (always : strict = true) (sloppy : around = false) (leads : script.LeadsIn t body) :
    script.SlipsThrough p around body t := by
  have makes : script.MakesStrict body := (flag.mp always).resolve_left (by simp [sloppy])
  exact .inr ⟨sloppy, precedes_of_leads_in leads makes (escaped (kind_of_leads_in leads))⟩

theorem strict_code_of_found {strict : Bool} {p : Program}
    (found : script.FoundBody .script strict p.strict true 0 (script.size - 1) p.body)
    (escaped : ∀ t ∈ script.tokens, t.IsOctal → t.kind = .string → ¬ script.SaysStrict t) :
    script.StrictCode strict p := by
  have flag : p.strict = true ↔ strict = true ∨ script.MakesStrict p.body := by simpa using found.flag
  refine ⟨flag, ?_, ?_, ?_⟩
  · intro around code holds
    cases lawful_of_holds found.lawful holds with
    | code names flag inner => exact flag
  · intro always t known octal
    obtain ⟨k, there⟩ := List.getElem?_of_mem known
    have bound : k < script.size := (List.getElem?_eq_some_iff.mp there).1
    have goesOn : k + 1 ≠ script.size := by
      rw [Ne, ← end_of_input_iff bound, kind_at there]
      exact fun ended => octal.goes_on (Option.some.inj ended)
    rcases found.between.octal k t (Nat.zero_le k) (by omega) there octal with ⟨s, direct, places⟩ | ⟨-, sloppy, leads⟩
    · obtain ⟨e, within, keys⟩ := places.keys found.lawful (.body direct) always
      exact .inl ⟨true, e, within, keys⟩
    · exact slips_through_of_leads_in (escaped t known octal) flag always sloppy leads
  · intro around code holds always t known octal inside
    have lawful := lawful_of_holds found.lawful holds
    rcases Lawful.accounts found.lawful holds t known octal inside with places | names
    · cases lawful with
      | code names flag inner =>
        cases places with
        | directive leads => exact slips_through_of_leads_in (escaped t known octal) flag always rfl leads
        | code direct places =>
          obtain ⟨e, there, keys⟩ := places.keys found.lawful (holds.code direct) always
          exact .inl ⟨true, e, there, keys⟩
    · exact .inl names

end Grammar.Script

/-- Strict code has no octal numbers and no octal escapes but as names of properties, and in directives before the one
that makes it strict. -/
theorem strict_code_of_source {source : String} {strict : Bool} {p : Program}
    (accepted : Program.ofSource source strict = .ok p) :
    ∃ script : Script, script.source = source.toList ∧ Scanning.tokensOf source = .ok script.tokens ∧
      script.StrictCode strict p := by
  obtain ⟨script, text, scanned, found⟩ := script_of_source accepted
  refine ⟨script, text, scanned, Script.strict_code_of_found found ?_⟩
  rintro t known octal kind ⟨quote, quotes, slice⟩
  have backslash := Scanning.backslash_of_octal (Scanning.scanned_of_tokens_of scanned t known) kind octal.2
    (text ▸ slice)
  rcases quotes with rfl | rfl
  · revert backslash
    decide
  · revert backslash
    decide

/-- An octal escape before the directive that makes the script strict, and octal numbers that name properties. -/
def octalNames : String :=
  "'\\07'; 'use strict'; (\x7b 010: 1, get 011() \x7b return 2 \x7d \x7d)"

/-- The script is read as strict code, in which it has octal tokens. -/
theorem octal_names_slip_through :
    ∃ p, Program.ofSource octalNames false = .ok p ∧ p.strict = true ∧
      ∃ script : Script, Scanning.tokensOf octalNames = .ok script.tokens ∧ script.StrictCode false p ∧
        ∃ t ∈ script.tokens, t.IsOctal := by
  have accepted : (Program.ofSource octalNames false).toOption.any (·.strict) = true := by decide +kernel
  have octal : (Scanning.tokensOf octalNames).toOption.any
      (fun tokens => tokens.any fun t => t.kind == .number && t.legacyOctal) = true := by
    decide +kernel
  cases read : Program.ofSource octalNames false with
  | error d =>
    rw [read] at accepted
    cases accepted
  | ok p =>
    rw [read] at accepted
    obtain ⟨script, -, scanned, code⟩ := strict_code_of_source read
    rw [scanned] at octal
    obtain ⟨t, known, form⟩ := List.any_eq_true.mp octal
    obtain ⟨number, legacy⟩ := Bool.and_eq_true_iff.mp form
    exact ⟨p, rfl, accepted, script, scanned, code, t, known, .inl (beq_iff_eq.mp number), legacy⟩

/-- In strict code itself an octal number is refused. -/
example : (Program.ofSource "'use strict'; 010" false).isOk = false := by
  decide +kernel

end ScriptEngine
