import ScriptEngine.Proofs.Hoisting.Declared
import ScriptEngine.Proofs.Reading.Position
import ScriptEngine.Syntax.Grammar.Expression

/-!
What strict code does not have, told from trees and tokens. A tree tells which names its strict functions declare and
assign, and which directives make them strict. Whether the older octal forms stay out of strict code cannot be told
from a tree, which does not keep how a number or a string was written. It is told from the tokens: each of the octal
ones has a place in the tree, which is a literal of sloppy code unless the reader has let it through.
-/

namespace ScriptEngine

open Grammar

/-! ## Names -/

/-- The names that a statement itself declares, by `var`, `let` or `const` or for a handler. -/
def StmtForm.bindings : StmtForm → List String
  | var declarators | lexical _ declarators | forLoop (some (.vars declarators)) _ _ _
  | forLoop (some (.lexical _ declarators)) _ _ _ => declarators.map (·.name)
  | forIn (.var name) _ _ | forIn (.lexical _ name) _ _ => [name]
  | attempt _ (some handler) _ => [handler.parameter]
  | _ => []

/-- What a statement itself assigns to. -/
def StmtForm.target? : StmtForm → Option Expr
  | forIn (.expr e) _ _ => some e
  | _ => none

/-- The statement is a `with` statement. -/
def StmtForm.isWith : StmtForm → Bool
  | withObject _ _ => true
  | _ => false

/-- What an expression itself assigns to. -/
def ExprForm.target? : ExprForm → Option Expr
  | assign _ target _ | update _ _ target => some target
  | _ => none

/-- The expression is `eval` or `arguments`. -/
def Expr.Restricted (e : Expr) : Prop :=
  ∃ name, e.form = .identifier name ∧ isRestrictedName name = true

/-- What a statement of strict code may be. -/
structure StmtForm.Strict (form : StmtForm) : Prop where
  bindings : ∀ name ∈ form.bindings, isStrictForbidden name = false
  target : ∀ e ∈ form.target?, ¬ e.Restricted
  noWith : form.isWith = false

/-- Declarations may be in strict code if their names may. -/
theorem StmtForm.Strict.of_names {form : StmtForm} (allowed : ∀ name ∈ form.bindings, isStrictForbidden name = false)
    (noTarget : form.target? = none) (noWith : form.isWith = false) : form.Strict :=
  ⟨allowed, by simp [noTarget], noWith⟩

/-- What neither declares nor assigns itself may be in strict code. -/
theorem StmtForm.Strict.of_bare {form : StmtForm} (noNames : form.bindings = []) (noTarget : form.target? = none)
    (noWith : form.isWith = false) : form.Strict :=
  .of_names (by simp [noNames]) noTarget noWith

/-- What an expression of strict code may be. -/
structure ExprForm.Strict (form : ExprForm) : Prop where
  target : ∀ e ∈ form.target?, ¬ e.Restricted
  noDelete : ∀ name span, form ≠ .unary .delete ⟨.identifier name, span⟩

/-- What a function may be called, and its parameters. The name counts as part of the code around. -/
structure FunctionCode.StrictNames (around : Bool) (code : FunctionCode) : Prop where
  name : around = true → ∀ name ∈ code.name, isStrictForbidden name = false
  parameters : code.strict = true → ∀ name ∈ code.parameters, isStrictForbidden name = false
  distinct : code.strict = true → code.parameters.Nodup

/-! ## Functions in an expression -/

/-- The function of an accessor. -/
def EntryValue.code? : EntryValue → Option FunctionCode
  | value _ => none
  | getter code | setter code => some code

/-- The functions that an expression itself completes. -/
def ExprForm.functions : ExprForm → List FunctionCode
  | function code => [code]
  | object entries => entries.filterMap (·.value.code?)
  | _ => []

theorem code_mem_expr {form : ExprForm} {code : FunctionCode} (direct : .code code ∈ form.children) :
    code ∈ form.functions := by
  cases form with
  | function other =>
    obtain ⟨⟩ : Node.code code = .code other := List.mem_singleton.mp direct
    exact .head _
  | object entries =>
    obtain ⟨entry, mem, same⟩ := List.mem_map.mp direct
    refine List.mem_filterMap.mpr ⟨entry, mem, ?_⟩
    cases value : entry.value with
    | value e =>
      rw [value] at same
      cases same
    | getter other | setter other =>
      rw [value] at same
      obtain ⟨⟩ := same
      rfl
  | _ => simp [ExprForm.children] at direct

theorem code_mem_stmt {place : Place} {form : StmtForm} {code : FunctionCode}
    (direct : .code code ∈ form.children place) : code ∈ form.functions := by
  have none (declarators : List Declarator) : Node.code code ∉ declaratorNodes declarators := by
    simp [declaratorNodes]
  cases form with
  | function other =>
    obtain ⟨⟩ : Node.code code = .code other := List.mem_singleton.mp direct
    exact .head _
  | forLoop init test update body =>
    rcases init with _ | ⟨declarators⟩ | ⟨constant, declarators⟩ | e <;>
      simp [StmtForm.children, ForInit.nodes, none] at direct
  | forIn target object body =>
    cases target <;> simp [StmtForm.children, ForInTarget.nodes] at direct
  | _ => simp [StmtForm.children, Place.nodes, SwitchClause.nodes, none] at direct

theorem code_mem_children {place : Place} {form : StmtForm} {code : FunctionCode} (mem : code ∈ form.functions) :
    .code code ∈ form.children place := by
  cases form with
  | function other =>
    obtain rfl := List.mem_singleton.mp mem
    exact .head _
  | _ => cases mem

/-! ## Code -/

/-- A part of a program lies in code that is strict or not. For a function this is the code around it. -/
inductive Program.Holds (p : Program) : Bool → Node → Prop where
  | body {s : Stmt} (direct : s ∈ p.body) : Holds p p.strict (.stmt .script s)
  | expr {strict : Bool} {e : Expr} {n : Node} (outer : Holds p strict (.expr e)) (direct : n ∈ e.form.children) :
      Holds p strict n
  | stmt {strict : Bool} {place : Place} {s : Stmt} {n : Node} (outer : Holds p strict (.stmt place s))
      (direct : n ∈ s.form.children place) : Holds p strict n
  | code {strict : Bool} {code : FunctionCode} {s : Stmt} (outer : Holds p strict (.code code))
      (direct : s ∈ code.body) : Holds p code.strict (.stmt .function s)

/-- The token is a number or a string of an older octal form. -/
def Token.IsOctal (t : Token) : Prop :=
  (t.kind = .number ∨ t.kind = .string) ∧ t.legacyOctal = true

theorem Token.IsOctal.goes_on {t : Token} (octal : t.IsOctal) : t.kind ≠ .endOfInput := by
  rcases octal.1 with number | string
  · simp [number]
  · simp [string]

/-- The token lies in a part of a script. -/
def Token.LiesIn (t : Token) (span : Span) : Prop :=
  span.start ≤ t.span.start ∧ t.span.stop ≤ span.stop

namespace Grammar.Script

variable (script : Script)

/-- A statement is a string and nothing else. -/
def Directs (s : Stmt) (t : Token) : Prop :=
  t ∈ script.tokens ∧ t.kind = .string ∧ s.span.start = t.span.start ∧
    ∃ value, s.form = .expr ⟨.literal (.string value), t.span⟩

/-- A string is the directive that makes code strict, written without escapes. -/
def SaysStrict (t : Token) : Prop :=
  ∃ quote, (quote = '"' ∨ quote = '\'') ∧
    t.span.slice? script.source = some (quote :: (strictDirective ++ [quote]))

/-- One of the directives at the front of a body makes it strict. -/
def MakesStrict : List Stmt → Prop
  | [] => False
  | s :: later => ∃ t, script.Directs s t ∧ (script.SaysStrict t ∨ MakesStrict later)

/-- A token is a directive at the front of a body, and none before it makes the body strict. -/
def LeadsIn (t : Token) : List Stmt → Prop
  | [] => False
  | s :: later => script.Directs s t ∨ (∃ d, script.Directs s d ∧ ¬ script.SaysStrict d) ∧ LeadsIn t later

/-- A token is a directive at the front of a body, and the first one that makes the body strict is behind it. -/
def Precedes (t : Token) : List Stmt → Prop
  | [] => False
  | s :: later => script.Directs s t ∧ script.MakesStrict later ∨
    (∃ d, script.Directs s d ∧ ¬ script.SaysStrict d) ∧ Precedes t later

/-- A token is the name of a property in an object literal; in an accessor it follows the word that begins it. -/
def Names (t : Token) (entry : Entry) : Prop :=
  match entry.value with
  | .value _ => t.span.start = entry.span.start
  | .getter _ | .setter _ => ∃ i first, script.tokens[i]? = some first ∧ first.span.start = entry.span.start ∧
    script.tokens[i + 1]? = some t

/-- A token is the name of a property in an expression. -/
def Keys (t : Token) (form : ExprForm) : Prop :=
  ∃ entries, form = .object entries ∧ ∃ entry ∈ entries, script.Names t entry

/-- A token of an octal form has a place in a part of a program, the code of which is strict or not. It is a literal
of sloppy code, the name of a property, or a directive of a body that begins in sloppy code. -/
inductive Places (t : Token) : Bool → Node → Prop where
  | literal {value : Literal} : Places t false (.expr ⟨.literal value, t.span⟩)
  | key {strict : Bool} {e : Expr} (keys : script.Keys t e.form) : Places t strict (.expr e)
  | directive {code : FunctionCode} (first : script.LeadsIn t code.body) : Places t false (.code code)
  | expr {strict : Bool} {e : Expr} {n : Node} (direct : n ∈ e.form.children) (inner : Places t strict n) :
      Places t strict (.expr e)
  | stmt {strict : Bool} {place : Place} {s : Stmt} {n : Node} (direct : n ∈ s.form.children place)
      (inner : Places t strict n) : Places t strict (.stmt place s)
  | code {strict : Bool} {code : FunctionCode} {s : Stmt} (direct : s ∈ code.body)
      (inner : Places t code.strict (.stmt .function s)) : Places t strict (.code code)

/-- The octal tokens in the text of a function have their places in it, apart from some. -/
def Accounts (strict : Bool) (code : FunctionCode) (other : Token → Prop) : Prop :=
  ∀ t ∈ script.tokens, t.IsOctal → t.LiesIn code.span → script.Places t strict (.code code) ∨ other t

/-- All parts of a part of a program, which lies in strict code or not, are what they may be there. -/
inductive Lawful : Bool → Node → Prop where
  | expr {strict : Bool} {e : Expr} (own : strict = true → e.form.Strict)
      (accounts : ∀ code ∈ e.form.functions, script.Accounts strict code (script.Keys · e.form))
      (inner : ∀ n ∈ e.form.children, Lawful strict n) : Lawful strict (.expr e)
  | stmt {strict : Bool} {place : Place} {s : Stmt} (own : strict = true → s.form.Strict)
      (accounts : ∀ code ∈ s.form.functions, script.Accounts strict code fun _ => False)
      (inner : ∀ n ∈ s.form.children place, Lawful strict n) : Lawful strict (.stmt place s)
  | code {strict : Bool} {code : FunctionCode} (names : code.StrictNames strict)
      (flag : code.strict = true ↔ strict = true ∨ script.MakesStrict code.body)
      (inner : ∀ s ∈ code.body, Lawful code.strict (.stmt .function s)) : Lawful strict (.code code)

variable {script}

/-! ## Directives -/

/-- Tokens that begin at one byte are one token. -/
theorem token_of_start {t u : Token} (left : t ∈ script.tokens) (right : u ∈ script.tokens)
    (same : t.span.start = u.span.start) (tokenKind : t.kind ≠ .endOfInput) (otherKind : u.kind ≠ .endOfInput) :
    t = u := by
  have firstTaken := script.lossless.nonempty _ left tokenKind
  have otherTaken := script.lossless.nonempty _ right otherKind
  have ordered := List.pairwise_iff_getElem.mp script.lossless.ordered
  obtain ⟨i, here, rfl⟩ := List.getElem_of_mem left
  obtain ⟨j, there, rfl⟩ := List.getElem_of_mem right
  rcases Nat.lt_trichotomy i j with before | rfl | behind
  · have apart := ordered i j here there before
    omega
  · rfl
  · have apart := ordered j i there here behind
    omega

section

variable {place : Place} {s : Stmt} {t d : Token} {strict : Bool}

/-- A statement is one directive at most. -/
theorem Directs.unique (first : script.Directs s t) (second : script.Directs s d) : t = d :=
  token_of_start first.1 second.1 (first.2.2.1.symm.trans second.2.2.1) (by simp [first.2.1]) (by simp [second.2.1])

/-- A directive is what it may be in any code. -/
theorem Directs.lawful (directs : script.Directs s d) : script.Lawful strict (.stmt place s) := by
  obtain ⟨-, -, -, value, form⟩ := directs
  have plain : ExprForm.Strict (.literal (.string value)) := ⟨nofun, nofun⟩
  refine .stmt (fun _ => ?_) ?_ ?_
  · rw [form]
    exact .of_bare rfl rfl rfl
  · rw [form]
    exact List.forall_mem_nil _
  · rw [form]
    exact List.forall_mem_singleton.mpr (.expr (fun _ => plain) (List.forall_mem_nil _) (List.forall_mem_nil _))

/-- Only the token of a directive itself has its place there, and that only in sloppy code. -/
theorem Directs.places (directs : script.Directs s d) (known : t ∈ script.tokens) (octal : t.IsOctal)
    (places : script.Places t strict (.stmt place s)) : strict = false ∧ t = d := by
  obtain ⟨among, kind, -, value, form⟩ := directs
  cases places with
  | stmt direct inner =>
    rw [form] at direct
    obtain rfl := List.mem_singleton.mp direct
    generalize located : d.span = span at inner
    cases inner with
    | literal =>
      exact ⟨rfl, token_of_start known among (by rw [located]) octal.goes_on (by simp [kind])⟩
    | key keys =>
      obtain ⟨entries, same, -⟩ := keys
      cases same
    | expr direct inner => cases direct

theorem kind_of_leads_in {body : List Stmt} (leads : script.LeadsIn t body) : t.kind = .string := by
  induction body with
  | nil => exact leads.elim
  | cons s later ih => exact leads.elim (fun directs => directs.2.1) fun behind => ih behind.2

/-- What makes a body strict is behind the directives that lead in and do not. -/
theorem precedes_of_leads_in {body : List Stmt} (leads : script.LeadsIn t body) (makes : script.MakesStrict body)
    (other : ¬ script.SaysStrict t) : script.Precedes t body := by
  induction body with
  | nil => exact leads
  | cons s later ih =>
    obtain ⟨d, directs, told | makes⟩ := makes
    · rcases leads with here | ⟨⟨other', directs', sloppy⟩, -⟩
      · exact absurd (directs.unique here ▸ told) other
      · exact absurd (directs.unique directs' ▸ told) sloppy
    · rcases leads with here | ⟨before, leads⟩
      · exact .inl ⟨here, makes⟩
      · exact .inr ⟨before, ih leads makes⟩

end

/-! ## Parts of a lawful tree -/

section

variable {p : Program} {strict : Bool} {n : Node}

/-- What lies in a program is what it may be if its statements are. -/
theorem lawful_of_holds (body : ∀ s ∈ p.body, script.Lawful p.strict (.stmt .script s)) (holds : p.Holds strict n) :
    script.Lawful strict n := by
  induction holds with
  | body direct => exact body _ direct
  | expr outer direct ih =>
    cases ih with
    | expr own accounts inner => exact inner _ direct
  | stmt outer direct ih =>
    cases ih with
    | stmt own accounts inner => exact inner _ direct
  | code outer direct ih =>
    cases ih with
    | code names flag inner => exact inner _ direct

/-- In strict code only the name of a property is a place for an octal token. -/
theorem Places.keys {t : Token} (places : script.Places t strict n)
    (body : ∀ s ∈ p.body, script.Lawful p.strict (.stmt .script s)) (holds : p.Holds strict n)
    (always : strict = true) : ∃ e, p.Holds true (.expr e) ∧ script.Keys t e.form := by
  induction places with
  | literal | directive => cases always
  | key keys => exact ⟨_, always ▸ holds, keys⟩
  | expr direct inner ih => exact ih (holds.expr direct) always
  | stmt direct inner ih => exact ih (holds.stmt direct) always
  | code direct inner ih =>
    cases lawful_of_holds body holds with
    | code names flag lawful => exact ih (holds.code direct) (flag.mpr (.inl always))

end

end Grammar.Script
end ScriptEngine
