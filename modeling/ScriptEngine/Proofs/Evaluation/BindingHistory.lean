import ScriptEngine.Proofs.Evaluation.Restoration

/-!
What a run does to bindings. Those that were there before a run stay, unless they may be deleted; none is taken
back, and one that is immutable keeps its first value. If it is known which names each script initializes, then
a statement gives first values to nothing but names that it introduces where it stands.
-/

namespace ScriptEngine

/-! ## What rights come to -/

/-- The bindings that an action with some rights may give their first value. -/
def Rights.begins (own : Rights) (t : Terms) (m : Machine) (id : EnvironmentId) (name : String) : Prop :=
  t.named → own.entered id ∨ (id = m.context.lexical ∧ own.names name)

/-- Where an action enters an environment that was made for it, it may give first values there anyway. -/
theorem Rights.begins_inside {own : Rights} {t : Terms} {m entered : Machine}
    (made : own.entered entered.context.lexical) (id : EnvironmentId) (name : String)
    (_ : id.index < m.environments.environments.size) (_ : (m.environments.get id).binding? name ≠ Option.none)
    (begins : own.inside.begins t entered id name) : own.begins t m id name := by
  intro named
  rcases begins named with inside | ⟨rfl, -⟩
  · exact .inl inside
  · exact .inl made

/-- What becomes of bindings, and of the place where names are looked up, when an action with some rights
runs. What all scripts share is still the same. -/
structure Machine.Continues (t : Terms) (own : Rights) (before after : Machine) : Prop where
  realm : after.realm = before.realm
  environments : before.environments.Keeps own.building (own.begins t before) after.environments
  lexical : after.context.lexical = before.context.lexical ∨ own.entered after.context.lexical ∨
    before.environments.environments.size ≤ after.context.lexical.index

variable {t : Terms} {max : Nat} {own : Rights} {moves : Bool} {α : Type} {m : Machine}

namespace Machine

/-- Nothing happened to environments and contexts. -/
theorem continues_of_same {after : Machine} (realm : after.realm = m.realm)
    (environments : after.environments = m.environments) (context : after.context = m.context) :
    m.Continues t own after where
  realm := realm
  environments := by
    rw [environments]
    exact EnvironmentStore.keeps_refl ..
  lexical := .inl (by rw [context])

theorem continues_trans {first second third : Machine} (early : first.Continues t own second)
    (late : second.Continues t own third) : first.Continues t own third where
  realm := late.realm.trans early.realm
  environments := by
    refine EnvironmentStore.keeps_trans early.environments late.environments (fun _ _ also => also) ?_
    intro id name there _ begins named
    rcases begins named with entered | ⟨rfl, among⟩
    · exact .inl entered
    · rcases early.lexical with same | entered | new
      · exact .inr ⟨same, among⟩
      · exact .inl entered
      · exact absurd there (Nat.not_lt.2 new)
  lexical := by
    rcases late.lexical with same | entered | new
    · rw [same]
      exact early.lexical
    · exact .inr (.inl entered)
    · exact .inr (.inr (Nat.le_trans early.environments.size new))

/-- Rights only matter as far as they concern environments that were there. -/
theorem continues_mono {wider : Rights} {after : Machine}
    (building : ∀ id, id.index < m.environments.environments.size → wider.building id → own.building id)
    (entered : ∀ id, id.index < m.environments.environments.size → wider.entered id → own.entered id)
    (names : t.named → ∀ name, wider.names name → own.names name) (continues : m.Continues t wider after) :
    m.Continues t own after where
  realm := continues.realm
  environments := by
    refine EnvironmentStore.keeps_mono building (fun id name there _ begins named => ?_) continues.environments
    exact (begins named).imp (entered id there) (And.imp_right (names named name))
  lexical := by
    rcases continues.lexical with same | inside | new
    · exact .inl same
    · rcases Nat.lt_or_ge after.context.lexical.index m.environments.environments.size with there | new
      · exact .inr (.inl (entered _ there inside))
      · exact .inr (.inr new)
    · exact .inr (.inr new)

/-- What an action without rights does may be done by all. -/
theorem continues_of_none {after : Machine} (continues : m.Continues t .none after) :
    m.Continues t own after :=
  continues_mono (fun _ _ no => False.elim no) (fun _ _ no => False.elim no)
    (fun _ _ no => False.elim no) continues

/-- An environment is changed, by one who builds it or as it may be. -/
theorem continues_modify {id : EnvironmentId} {f : Environment → Environment}
    (change : own.building id ∨
      (m.environments.get id).Keeps (own.begins t m id) (f (m.environments.get id)))
    (firm : (m.environments.get id).Firm → (f (m.environments.get id)).Firm) :
    m.Continues t own (m.run (modifyEnvironment id f)).2 where
  realm := rfl
  environments := EnvironmentStore.keeps_set change firm
  lexical := .inl rfl

theorem continues_bind {β : Type} {first : Eval α} {rest : α → Eval β}
    (early : m.Continues t own (m.run first).2) (fit : (m.run first).2.Fit t max)
    (late : ∀ a {after : Machine}, after.Fit t max → after.Continues t own (after.run (rest a)).2) :
    m.Continues t own (m.run (first >>= rest)).2 := by
  rw [run_bind]
  cases ended : m.run first with
  | mk outcome after =>
    rw [ended] at early fit
    cases outcome with
    | ok a => exact continues_trans early (late a fit)
    | error e => exact early

/-- Whoever makes an environment may build and enter it: neither concerns one that was there before. -/
theorem continues_from_new {e : Environment} (firm : e.Firm) {after : Machine}
    (continues : ({ m with environments := (m.environments.add e).2 } : Machine).Continues t
      ((own.constructing (m.environments.add e).1).entering (m.environments.add e).1) after) :
    m.Continues t own after := by
  have beyond : ∀ id : EnvironmentId, id.index < m.environments.environments.size →
      id ≠ (m.environments.add e).1 := by
    rintro id there rfl
    exact Nat.lt_irrefl _ there
  have added : m.Continues t ((own.constructing (m.environments.add e).1).entering (m.environments.add e).1)
      { m with environments := (m.environments.add e).2 } :=
    ⟨rfl, EnvironmentStore.keeps_add _ _ _ firm, .inl rfl⟩
  refine continues_mono ?_ ?_ ?_ (continues_trans added continues)
  · exact fun id there also => also.resolve_right (beyond id there)
  · exact fun id there also => also.resolve_right (beyond id there)
  · exact fun _ _ also => also

/-- Names that are declared while they are free are no bindings that were there before, so that it does not count
which of them are initialized. -/
theorem keeps_declared {c : Context} {names : List LexicalName} {final : Machine}
    (free : ¬(m.taken? c.lexical names).isSome = true)
    (continues : ({ m with
        environments := m.environments.set c.lexical ((m.environments.get c.lexical).createLexical names)
        context := c
        callers := m.context :: m.callers } : Machine).Continues t
      (own.naming fun name => ∃ n ∈ names, n.name = name) final) :
    m.environments.Keeps own.building (own.begins t m) final.environments := by
  have unbound := unbound_of_free free
  refine EnvironmentStore.keeps_trans (EnvironmentStore.keeps_set ?_ ?_) continues.environments
    (fun _ _ also => also) fun id name there bound begins named => ?_
  · exact .inr (Environment.keeps_create_lexical unbound)
  · exact fun firm => Environment.firm_create_lexical firm names
  · rcases begins named with inside | ⟨rfl, n, among, rfl⟩
    · exact .inl inside
    · exact absurd (unbound n among) bound

/-- What is done in a context of its own is done where that context is. -/
theorem continues_in_context {c : Context} {action : Eval α}
    (callers : (({ m with context := c, callers := m.context :: m.callers } : Machine).run action).2.callers =
      m.context :: m.callers)
    (realm : (({ m with context := c, callers := m.context :: m.callers } : Machine).run action).2.realm = m.realm)
    (keeps : m.environments.Keeps own.building (own.begins t m)
      (({ m with context := c, callers := m.context :: m.callers } : Machine).run action).2.environments) :
    m.Continues t own (m.run (inContext c action)).2 := by
  rw [run_in_context]
  dsimp only
  rw [run_pop_context callers]
  exact ⟨realm, keeps, .inl rfl⟩

end Machine

/-! ## Engines -/

/-- All actions of an engine continue what was begun. Statements initialize what they introduce. -/
structure Engine.KeepsBindings (t : Terms) (E : Engine) : Prop where
  evaluate : ∀ e (m : Machine), m.Continues t .none (m.run (E.evaluate e)).2
  execute : ∀ labels (s : Stmt) (m : Machine),
    m.Continues t (Rights.none.naming s.form.Introduces) (m.run (E.execute labels s)).2
  call : ∀ f this arguments (m : Machine), m.Continues t .none (m.run (E.call f this arguments)).2
  construct : ∀ f arguments (m : Machine), m.Continues t .none (m.run (E.construct f arguments)).2

/-- An orderly action continues what was begun if the engine does that it goes back to. -/
theorem Orderly.continues {action : Engine → Eval α} {E : Engine} (engines : E.Alike t max E)
    (bound : t.reported max) (keeps : E.KeepsBindings t) (orderly : Orderly t own moves action)
    (fit : m.Fit t max) : m.Continues t own (m.run (action E)).2 := by
  induction orderly generalizing m with
  | pure | raise | read | newObject | change | changeOwn | printLine => exact Machine.continues_of_same rfl rfl rfl
  | bind first next ihFirst ihNext =>
    exact Machine.continues_bind (ihFirst fit) (alike_of_orderly engines bound first m fit).fit ihNext
  | attempt tried ended failed passed ihTried ihEnded ihFailed =>
    have ends := alike_of_orderly engines bound tried m fit
    rw [Machine.run_bind_ok (Machine.run_attempt ..)]
    refine Machine.continues_trans (ihTried fit) ?_
    cases outcome : (m.run _).1 with
    | ok a => exact ihEnded a ends.fit
    | error e => exact ihFailed e (ends.reported e outcome) ends.fit
  | here next ih =>
    have continues := ih m.context.lexical fit
    exact ⟨continues.realm, continues.environments, continues.lexical⟩
  | find ask place blind found next ih =>
    have continues := ih (ask m) fit
    exact ⟨continues.realm, continues.environments, continues.lexical⟩
  | consult next ih =>
    rw [Machine.run_bind_ok (Machine.run_ask ..)]
    exact ih m.heap fit.known fit
  | aim target next ih =>
    rw [Machine.run_bind_ok (Machine.run_ask ..)]
    have continues := ih (m.heap.callable? (.object target)) fit
    exact ⟨continues.realm, continues.environments, continues.lexical⟩
  | rounds loop each ih => exact ih E.rounds fit
  | make o proper next ih =>
    rw [Machine.run_bind_ok (Machine.run_new_object ..)]
    have grown : Machine.Fit t max { m with heap := (m.heap.add o).2 } :=
      ⟨known_add fit.known proper.known, fit.limit, fit.depth⟩
    exact ⟨(ih _ grown).realm, (ih _ grown).environments, (ih _ grown).lexical⟩
  | build e firm inside made next ihMade ihNext =>
    rw [Machine.run_bind_ok (Machine.run_new_environment ..)]
    refine Machine.continues_from_new firm ?_
    have fits : Machine.Fit t max { m with environments := (m.environments.add e).2 } :=
      ⟨fit.known, fit.limit, fit.depth⟩
    have making := alike_of_orderly engines bound (made (m.environments.add e).1) _ fits
    refine Machine.continues_bind ?_ making.fit fun b after fit => ?_
    · refine Machine.continues_mono ?_ ?_ ?_ (ihMade _ fits)
      · exact fun _ _ also => also
      · exact fun _ _ => .inl
      · exact fun _ _ also => also
    · refine Machine.continues_mono ?_ ?_ ?_ (ihNext _ b fit)
      · exact fun _ _ => .inl
      · exact fun _ _ also => also
      · exact fun _ _ also => also
  | construction id f mine firm outer => exact Machine.continues_modify (.inl mine) (firm _)
  | alter id f reached lawful firm =>
    refine Machine.continues_modify (.inr ?_) (firm _)
    exact Environment.keeps_mono (fun _ _ no => no.elim) (lawful _)
  | firstValue name value allowed =>
    rw [Machine.run_bind_ok (rfl : m.run lexicalEnvironment = (.ok m.context.lexical, m))]
    refine Machine.continues_modify (.inr ?_) fun firm => Environment.firm_first_value firm value
    exact Environment.keeps_first_value (fun named => .inr ⟨rfl, allowed named⟩) _ value
  | inContext c made body ih =>
    have entered : Machine.Fit t max { m with context := c, callers := m.context :: m.callers } :=
      ⟨fit.known, fit.limit, fit.depth⟩
    refine Machine.continues_in_context (alike_of_orderly engines bound body _ entered).settles.callers
      (ih entered).realm ?_
    exact EnvironmentStore.keeps_mono (fun _ _ also => also) (Rights.begins_inside made) (ih entered).environments
  | inEnvironment id made body ih =>
    have entered : Machine.Fit t max { m with context := { m.context with lexical := id } } :=
      ⟨fit.known, fit.limit, fit.depth⟩
    rw [Machine.run_in_environment]
    refine ⟨(ih entered).realm, ?_, .inl rfl⟩
    exact EnvironmentStore.keeps_mono (fun _ _ also => also) (Rights.begins_inside made) (ih entered).environments
  | script c names reached refused begun ihRefused ihBegun =>
    have entered : Machine.Fit t max { m with context := c, callers := m.context :: m.callers } :=
      ⟨fit.known, fit.limit, fit.depth⟩
    have declared : ∀ environments, Machine.Fit t max
        { m with environments, context := c, callers := m.context :: m.callers } :=
      fun environments => ⟨fit.known, fit.limit, fit.depth⟩
    refine Machine.continues_in_context ?_ ?_ ?_ <;> rw [Machine.run_declare_in]
    · split
      · exact (alike_of_orderly engines bound refused _ entered).settles.callers
      · exact (alike_of_orderly engines bound begun _ (declared _)).settles.callers
    · split
      · exact (ihRefused entered).realm
      · exact (ihBegun (declared _)).realm
    · split
      · refine EnvironmentStore.keeps_mono (fun _ _ also => also) (fun id name _ _ begins named => ?_)
          (ihRefused entered).environments
        exact .inl ((begins named).resolve_right fun no => no.2)
      · next free => exact Machine.keeps_declared free (ihBegun (declared _))
  | setLexicalEnvironment id made => exact ⟨rfl, EnvironmentStore.keeps_refl .., .inr (.inl made)⟩
  | nested body ih =>
    rcases Nat.lt_or_ge m.callDepth m.options.maxCallDepth with room | full
    · have deeper : Machine.Fit t max { m with callDepth := m.callDepth + 1 } :=
        ⟨fit.known, fit.limit, .inl (fit.limit ▸ room)⟩
      rw [Machine.run_nested room]
      exact ⟨(ih deeper).realm, (ih deeper).environments, (ih deeper).lexical⟩
    · rw [Machine.run_nested_refused full]
      exact Machine.continues_of_same rfl rfl rfl
  | evaluate e => exact Machine.continues_of_none (keeps.evaluate e m)
  | execute labels s covers =>
    exact Machine.continues_mono (fun _ _ no => False.elim no) (fun _ _ no => False.elim no)
      (fun named => covers named) (keeps.execute labels s m)
  | call f this arguments => exact Machine.continues_of_none (keeps.call f this arguments m)
  | construct f arguments => exact Machine.continues_of_none (keeps.construct f arguments m)

/-! ## Engines that restore and continue -/

/-- Terms under which nothing is asked of functions and reports. -/
structure Terms.Lenient (t : Terms) : Prop where
  known : ∀ f, t.known f
  reported : ∀ depth, t.reported depth

theorem Terms.lenient_any : Terms.any.Lenient := ⟨Terms.known_any, fun _ => trivial⟩

/-- Nothing is taken as given but that scripts initialize only the names that they declare. -/
def Terms.naming : Terms := { Terms.any with named := True }

theorem Terms.lenient_naming : Terms.naming.Lenient :=
  ⟨Terms.known_of_lenient trivial (fun _ => trivial) trivial, fun _ => trivial⟩

theorem Machine.fit_of_lenient (lenient : t.Lenient) (m : Machine) : m.Fit t m.options.maxCallDepth :=
  ⟨fun _ f _ => lenient.known f, rfl, .inr lenient.reported⟩

/-- An engine restores what it should and continues what was begun. -/
structure Engine.Steady (t : Terms) (E : Engine) : Prop where
  restores : ∀ max, E.Alike t max E
  keeps : E.KeepsBindings t

namespace Orderly

variable {action : Engine → Eval α} {E : Engine}

theorem continues_steady (lenient : t.Lenient) (steady : E.Steady t) (orderly : Orderly t own moves action)
    (m : Machine) : m.Continues t own (m.run (action E)).2 :=
  orderly.continues (steady.restores _) (lenient.reported _) steady.keeps (m.fit_of_lenient lenient)

theorem settles_steady (lenient : t.Lenient) (steady : E.Steady t) (orderly : Orderly t own moves action)
    (m : Machine) : m.Settles moves (m.run (action E)).2 :=
  (alike_of_orderly (steady.restores _) (lenient.reported _) orderly m (m.fit_of_lenient lenient)).settles

end Orderly

theorem steady_spent (t : Terms) : Engine.spent.Steady t := by
  have nothing {β : Type} {own : Rights} (m : Machine) :
      m.Continues t own (m.run (throw .exhausted : Eval β)).2 :=
    Machine.continues_of_same rfl rfl rfl
  exact ⟨alike_spent t, fun _ => nothing, fun _ _ => nothing, fun _ _ _ => nothing, fun _ _ => nothing⟩

theorem steady_next {E : Engine} (lenient : t.Lenient) (steady : E.Steady t) (rounds : Nat) :
    (E.next rounds).Steady t where
  restores max := alike_next (lenient.reported max) (steady.restores max) rounds
  keeps := by
    have runs {β : Type} {own : Rights} {action : Engine → Eval β} (orderly : Orderly t own false action)
        (m : Machine) : m.Continues t own (m.run (action E)).2 :=
      orderly.continues_steady lenient steady m
    constructor
    · exact fun e => runs (orderly_evaluate_form e.form)
    · exact fun labels s => runs (orderly_execute_form labels fun _ _ introduces => introduces)
    · exact fun f this arguments => runs (orderly_call_value (fun _ => trivial) f this arguments)
    · exact fun f arguments => runs (orderly_construct_value (fun _ => trivial) f arguments)

/-- The engine with any number of steps restores what it should and continues what was begun. -/
theorem engine_steady (lenient : t.Lenient) (steps : Nat) : (engineAt steps).Steady t := by
  induction steps with
  | zero => exact steady_spent t
  | succ steps ih => exact steady_next lenient ih steps

end ScriptEngine
