import ScriptEngine.Proofs.Jumps.ReadStatement

/-!
Which names a statement initializes in the environment where it stands. Some statements run others where
they stand themselves, without an environment in between; a statement of a program that was read initializes
there only what it declares itself.
-/

namespace ScriptEngine

/-- The statements of a block without names run where the block stands. -/
def Block.sharing (b : Block) : List Stmt :=
  if b.lexical.isEmpty then b.body else []

/-- The statements directly inside a statement that run in the same environment as it does. -/
def StmtForm.sharing : StmtForm → List Stmt
  | block b => b.sharing
  | cond _ yes no => yes :: no.toList
  | whileLoop _ body | doWhile body _ | labeled _ body => [body]
  | forLoop init _ _ body =>
    match init with
    | some (.lexical ..) => []
    | _ => [body]
  | forIn target _ body =>
    match target with
    | .lexical .. => []
    | _ => [body]
  | attempt guarded _ finalizer => guarded.sharing ++ finalizer.toList.flatMap Block.sharing
  | switch _ clauses names => if names.isEmpty then clauses.flatMap SwitchClause.body else []
  | _ => []

/-- A name is initialized in the environment where a statement runs. -/
inductive StmtForm.Introduces : StmtForm → String → Prop where
  | declared {constant : Bool} {declarators : List Declarator} {d : Declarator}
    (among : d ∈ declarators) : Introduces (.lexical constant declarators) d.name
  | inside {form : StmtForm} {s : Stmt} {name : String} (shared : s ∈ form.sharing)
    (inner : Introduces s.form name) : Introduces form name

/-! ## Statements of programs that were read -/

variable {place : Place}

/-- Statements without declared names between them declare none themselves. -/
theorem declared_nil {body : List Stmt} (none : declaredNames body = []) :
    ∀ s ∈ body, s.form.declared = [] :=
  List.flatMap_eq_nil_iff.mp none

theorem sharing_block {b : Block} (inPlace : b.InPlace) {s : Stmt} (shared : s ∈ b.sharing) :
    s ∈ b.body ∧ s.form.declared = [] := by
  unfold Block.sharing at shared
  split at shared
  · next empty =>
    exact ⟨shared, declared_nil (inPlace.same ▸ List.isEmpty_iff.mp empty) s shared⟩
  · cases shared

/-- What a sound statement runs where it stands is sound too, and declares nothing there. -/
theorem sharing_sound {form : StmtForm} {span : Span} (sound : (Node.stmt place ⟨form, span⟩).Sound)
    {s : Stmt} (shared : s ∈ form.sharing) :
    (∃ inner, (Node.stmt inner s).Sound) ∧ s.form.declared = [] := by
  obtain ⟨inPlace, inner⟩ := (Node.sound_iff _).mp sound
  have member {around : Place} {body : List Stmt} (mem : s ∈ body) : Node.stmt around s ∈ around.nodes body :=
    List.mem_map_of_mem mem
  cases form with
  | block b =>
    obtain ⟨mem, plain⟩ := sharing_block inPlace shared
    exact ⟨⟨_, inner _ (member mem)⟩, plain⟩
  | cond test yes no =>
    refine ⟨⟨_, inner _ (.tail _ (member shared))⟩, ?_⟩
    cases shared with
    | head => exact inPlace.1
    | tail _ mem => exact inPlace.2 s (Option.mem_toList.mp mem)
  | whileLoop test body | doWhile body test =>
    obtain rfl := List.mem_singleton.mp shared
    exact ⟨⟨_, inner _ (.tail _ (.head _))⟩, inPlace⟩
  | labeled label body =>
    obtain rfl := List.mem_singleton.mp shared
    exact ⟨⟨_, inner _ (.head _)⟩, inPlace⟩
  | forLoop init test update body =>
    have same : s = body := by
      simp only [StmtForm.sharing] at shared
      split at shared
      · cases shared
      · exact List.mem_singleton.mp shared
    subst same
    exact ⟨⟨_, inner _ (List.mem_append_right _ (.head _))⟩, inPlace⟩
  | forIn target object body =>
    have same : s = body := by
      simp only [StmtForm.sharing] at shared
      split at shared
      · cases shared
      · exact List.mem_singleton.mp shared
    subst same
    exact ⟨⟨_, inner _ (List.mem_append_right _ (.tail _ (.head _)))⟩, inPlace⟩
  | attempt guarded handler finalizer =>
    rcases List.mem_append.mp shared with inGuarded | inFinalizer
    · obtain ⟨mem, plain⟩ := sharing_block inPlace.1 inGuarded
      exact ⟨⟨_, inner _ (List.mem_append_left _ (List.mem_append_left _ (member mem)))⟩, plain⟩
    · obtain ⟨b, last, shared⟩ := List.mem_flatMap.mp inFinalizer
      obtain ⟨mem, plain⟩ := sharing_block (inPlace.2.2 b (Option.mem_toList.mp last)) shared
      have child : Node.stmt place.inside s ∈ finalizer.toList.flatMap (place.inside.nodes ·.body) :=
        List.mem_flatMap.mpr ⟨b, last, member mem⟩
      exact ⟨⟨_, inner _ (List.mem_append_right _ child)⟩, plain⟩
  | switch discriminant clauses names =>
    simp only [StmtForm.sharing] at shared
    split at shared
    · next empty =>
      have plain := declared_nil (inPlace.same ▸ List.isEmpty_iff.mp empty) s shared
      obtain ⟨clause, among, mem⟩ := List.mem_flatMap.mp shared
      have child : Node.stmt place.inChoice s ∈ clauses.flatMap (SwitchClause.nodes place.inChoice) :=
        List.mem_flatMap.mpr ⟨clause, among, List.mem_append_right _ (member mem)⟩
      exact ⟨⟨_, inner _ (.tail _ child)⟩, plain⟩
    · cases shared
  | _ => cases shared

/-- A sound statement initializes where it stands only what it declares there. -/
theorem declared_of_introduces {s : Stmt} {name : String} (introduces : s.form.Introduces name)
    (sound : (Node.stmt place s).Sound) : ∃ n ∈ s.form.declared, n.name = name := by
  obtain ⟨form, span⟩ := s
  dsimp only at introduces
  induction introduces generalizing place span with
  | declared among => exact ⟨_, List.mem_map_of_mem among, rfl⟩
  | @inside form s name shared inner ih =>
    obtain ⟨⟨within, holds⟩, plain⟩ := sharing_sound sound shared
    obtain ⟨form, span⟩ := s
    obtain ⟨n, declared, -⟩ := ih span holds
    rw [plain] at declared
    cases declared

/-- The statements of a program initialize, where it runs, only names that it declares. -/
def Program.Covered (p : Program) : Prop :=
  ∀ s ∈ p.body, ∀ name, s.form.Introduces name → ∃ n ∈ p.scope.lexical, n.name = name

theorem covered_of_sound {p : Program} (sound : p.Sound) : p.Covered := by
  intro s mem name introduces
  have holds : (Node.stmt .script s).Sound :=
    sound.inner _ (List.mem_append_left _ (List.mem_map_of_mem mem))
  obtain ⟨n, declared, same⟩ := declared_of_introduces introduces holds
  refine ⟨n, ?_, same⟩
  rw [sound.names.same]
  exact List.mem_flatMap.mpr ⟨s, mem, declared⟩

/-! ## Where names are declared -/

/-- The blocks directly inside a statement. -/
def StmtForm.blocks : StmtForm → List Block
  | block b => [b]
  | attempt guarded handler finalizer => guarded :: (handler.toList.map Handler.body ++ finalizer.toList)
  | _ => []

/-- The lists of statements directly inside a part of a program. -/
def Node.lists : Node → List (List Stmt)
  | code c => [c.body]
  | stmt _ ⟨.switch _ clauses _, _⟩ => clauses.map SwitchClause.body
  | stmt _ s => s.form.blocks.map Block.body
  | expr _ => []

theorem mem_of_nodes {place other : Place} {body : List Stmt} {s : Stmt}
    (mem : Node.stmt place s ∈ other.nodes body) : s ∈ body := by
  obtain ⟨same, among, equal⟩ := List.mem_map.mp mem
  cases equal
  exact among

section Standing

variable {s : Stmt}

theorem no_statement_among {α : Type} {node : α → Node} {items : List α}
    (other : ∀ a, node a ≠ .stmt place s) : Node.stmt place s ∉ items.map node := by
  intro mem
  obtain ⟨a, -, same⟩ := List.mem_map.mp mem
  exact other a same

theorem no_statement_in_declarators {declarators : List Declarator} :
    Node.stmt place s ∉ declaratorNodes declarators := by
  intro mem
  obtain ⟨d, -, same⟩ := List.mem_filterMap.mp mem
  obtain ⟨e, -, no⟩ := Option.map_eq_some_iff.mp same
  cases no

/-- The parts directly inside an expression are no statements. -/
theorem no_statement_in_expression (e : ExprForm) : Node.stmt place s ∉ e.children := by
  cases e with
  | array elements =>
    intro mem
    obtain ⟨element, -, same⟩ := List.mem_filterMap.mp mem
    obtain ⟨e, -, no⟩ := Option.map_eq_some_iff.mp same
    cases no
  | object entries =>
    refine no_statement_among fun entry => ?_
    cases entry.value <;> exact nofun
  | sequence items => exact no_statement_among nofun
  | call callee arguments | construct callee arguments =>
    exact fun mem => (List.mem_cons.mp mem).elim nofun (no_statement_among nofun)
  | _ => simp [ExprForm.children]

/-- A statement that declares names stands in a list of statements, and not alone. -/
theorem listed_of_declares {parent : Node} (inPlace : parent.InPlace)
    (direct : Node.stmt place s ∈ parent.children) (declares : s.form.declared ≠ []) :
    ∃ body ∈ parent.lists, s ∈ body := by
  cases parent with
  | expr e => exact absurd direct (no_statement_in_expression e.form)
  | code c =>
    refine ⟨c.body, .head _, ?_⟩
    exact (List.mem_append.mp direct).elim mem_of_nodes fun mem => absurd mem (no_statement_among nofun)
  | stmt around parent =>
    obtain ⟨form, span⟩ := parent
    have alone {inner : Place} {body : Stmt} (bare : body.form.declared = []) :
        Node.stmt place s ≠ .stmt inner body := by
      rintro ⟨⟩
      exact declares bare
    cases form with
    | var ds | lexical constant ds => exact absurd direct no_statement_in_declarators
    | block b => exact ⟨b.body, .head _, mem_of_nodes direct⟩
    | cond test yes no =>
      have among := mem_of_nodes ((List.mem_cons.mp direct).resolve_left nofun)
      have bare : ∀ body ∈ yes :: no.toList, body.form.declared = [] :=
        List.forall_mem_cons.mpr ⟨inPlace.1, fun body mem => inPlace.2 body (Option.mem_toList.mp mem)⟩
      exact absurd (bare s among) declares
    | whileLoop test body | doWhile body test | withObject object body =>
      have same := List.mem_singleton.mp ((List.mem_cons.mp direct).resolve_left nofun)
      exact absurd same (alone inPlace)
    | labeled label body => exact absurd (List.mem_singleton.mp direct) (alone inPlace)
    | forLoop init test update body =>
      rcases List.mem_append.mp direct with inHead | same
      · rcases List.mem_append.mp inHead with inInit | inTests
        · obtain ⟨i, -, mem⟩ := List.mem_flatMap.mp inInit
          cases i with
          | vars ds | lexical constant ds => exact absurd mem no_statement_in_declarators
          | expr e => exact nomatch List.mem_singleton.mp mem
        · exact absurd inTests (no_statement_among nofun)
      · exact absurd (List.mem_singleton.mp same) (alone inPlace)
    | forIn target object body =>
      rcases List.mem_append.mp direct with inTarget | rest
      · cases target with
        | expr e => exact nomatch List.mem_singleton.mp inTarget
        | _ => cases inTarget
      · have same := List.mem_singleton.mp ((List.mem_cons.mp rest).resolve_left nofun)
        exact absurd same (alone inPlace)
    | attempt guarded handler finalizer =>
      have listed {b : Block} (mem : b ∈ StmtForm.blocks (.attempt guarded handler finalizer))
          (inside : Node.stmt place s ∈ around.inside.nodes b.body) :
          ∃ body ∈ Node.lists (.stmt around ⟨.attempt guarded handler finalizer, span⟩), s ∈ body :=
        ⟨b.body, List.mem_map_of_mem mem, mem_of_nodes inside⟩
      rcases List.mem_append.mp direct with early | inFinalizer
      · rcases List.mem_append.mp early with inGuarded | inHandler
        · exact listed (.head _) inGuarded
        · obtain ⟨h, mem, inside⟩ := List.mem_flatMap.mp inHandler
          exact listed (.tail _ (List.mem_append_left _ (List.mem_map_of_mem mem))) inside
      · obtain ⟨b, mem, inside⟩ := List.mem_flatMap.mp inFinalizer
        exact listed (.tail _ (List.mem_append_right _ mem)) inside
    | switch discriminant clauses names =>
      obtain ⟨clause, mem, inside⟩ := List.mem_flatMap.mp ((List.mem_cons.mp direct).resolve_left nofun)
      refine ⟨clause.body, List.mem_map_of_mem mem, ?_⟩
      exact (List.mem_append.mp inside).elim (fun no => absurd no (no_statement_among nofun)) mem_of_nodes
    | function code | expr e | throw e => exact nomatch List.mem_singleton.mp direct
    | ret value => exact absurd direct (no_statement_among nofun)
    | empty | debugger | breakTo label | continueTo label => cases direct

end Standing

/-- A part that lies in another one is this part, or directly inside a part that lies in it. -/
theorem parent_of_within {n outer : Node} (within : n.Within outer) :
    n = outer ∨ ∃ parent : Node, parent.Within outer ∧ n ∈ parent.children := by
  induction within with
  | here => exact .inl rfl
  | deeper inner direct ih =>
    rcases ih with rfl | ⟨parent, within, among⟩
    · exact .inr ⟨_, .here _, direct⟩
    · exact .inr ⟨parent, .deeper within direct, among⟩

/-- A statement of a program that declares names stands in a list of statements. -/
theorem listed_in_program {p : Program} (sound : p.Sound) {place : Place} {s : Stmt}
    (contained : p.Contains (.stmt place s)) (declares : s.form.declared ≠ []) :
    s ∈ p.body ∨ ∃ n, p.Contains n ∧ ∃ body ∈ n.lists, s ∈ body := by
  obtain ⟨outer, direct, within⟩ := contained
  rcases parent_of_within within with rfl | ⟨parent, inside, among⟩
  · exact .inl ((List.mem_append.mp direct).elim mem_of_nodes fun mem => absurd mem (no_statement_among nofun))
  · have holds := (Node.sound_iff _).mp ((sound.inner outer direct).within inside)
    exact .inr ⟨parent, ⟨outer, direct, inside⟩, listed_of_declares holds.1 among declares⟩

end ScriptEngine
