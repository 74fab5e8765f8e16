import ScriptEngine.Proofs.Environment.Scope

/-!
The rounds of a `for` loop that binds names by `let`. Each has an environment of its own, which encloses all that is
made in it from then on and which no other round comes to. Between two rounds the names are bound anew, with the
values that they have when the body has ended and before the update is run.
-/

namespace ScriptEngine

open EnvironmentStore (nothing)

/-! ## Copies -/

namespace Environment

/-- An environment binds some names only, each with the value that it has in another environment. -/
def Copies (copy source : Environment) (names : List String) : Prop :=
  ∀ name, (name ∈ names → ∃ b, source.binding? name = some b ∧ b.initialized = true ∧
      copy.binding? name = some ⟨b.value, true, true, false, false⟩) ∧
    (name ∉ names → copy.binding? name = none)

/-- What is copied has the same values if there are any. -/
theorem copies_copy_names {source : Environment} {names : List String} (outer : EnvironmentId)
    (ready : ∀ name ∈ names, ∃ b, source.binding? name = some b ∧ b.initialized = true) :
    (copyNames source (.declarative (some outer)) names).Copies source names := by
  intro name
  rw [binding_copy_names rfl]
  constructor
  · intro among
    obtain ⟨b, found, initialized⟩ := ready name among
    exact ⟨b, found, initialized, by rw [if_pos among, found]; rfl⟩
  · intro foreign
    rw [if_neg foreign]
    rfl

end Environment

/-! ## Rounds -/

/-- A loop with some labels goes on after its body. -/
inductive Completion.GoesOn (labels : List String) : Completion → Prop
  | normal (value : Option Value) : GoesOn labels (.normal value)
  | continued {label : Option String} (value : Option Value) (owned : Completion.owns labels label = true) :
    GoesOn labels (.continued label value)

theorem loop_step_next_iff {labels : List String} {value : Option Value} {c : Completion} :
    (∃ next, loopStep labels value c = .next next) ↔ c.GoesOn labels := by
  constructor
  · rintro ⟨next, steps⟩
    unfold loopStep at steps
    split at steps
    · exact .normal _
    · split at steps
      · next owned => exact .continued _ owned
      · cases steps
    · split at steps <;> cases steps
    · cases steps
  · intro goesOn
    cases goesOn with
    | normal => exact ⟨_, rfl⟩
    | continued produced owned => exact ⟨_, if_pos owned⟩

namespace ForLoop

/-- What is done before the test of a round: the update of the loop, but not in the first round. -/
def advance (l : ForLoop) (E : Engine) (i : Nat) : Eval Unit :=
  if i = 0 then pure () else l.update.forM fun e => discard (E.evaluate e)

/-- A round of a loop, in which the body is run if the test holds. -/
def round (l : ForLoop) (E : Engine) (i : Nat) : Eval (Option Completion) := do
  l.advance E i
  if ← testHolds E l.test then some <$> E.execute [] l.body else return none

/-- The states in which the rounds of a loop begin, each in an environment of its own, and the value that was left
last before each. -/
inductive Begins (l : ForLoop) (E : Engine) (entered : Machine) : Nat → Option Value → Machine → Prop
  | first {start : Machine} (fresh : entered.run (freshIteration l.names l.outer) = (.ok (), start)) :
    Begins l E entered 0 none start
  | next {i : Nat} {value after : Option Value} {start ended again : Machine} {c : Completion}
    (begins : Begins l E entered i value start) (ran : start.run (l.round E i) = (.ok (some c), ended))
    (goesOn : loopStep l.labels value c = .next after)
    (fresh : ended.run (freshIteration l.names l.outer) = (.ok (), again)) :
    Begins l E entered (i + 1) after again

variable {l : ForLoop} {E : Engine} {entered : Machine} {i j : Nat} {value other : Option Value}
  {start last : Machine}

theorem begins_unique (begins : l.Begins E entered i value start) (again : l.Begins E entered i other last) :
    value = other ∧ start = last := by
  induction begins generalizing other last with
  | first fresh =>
    cases again with
    | first also => exact ⟨rfl, congrArg Prod.snd (fresh.symm.trans also)⟩
  | next begins ran goesOn fresh ih =>
    cases again with
    | next also ranToo goesToo freshToo =>
      obtain ⟨rfl, rfl⟩ := ih also
      obtain ⟨same, rfl⟩ := Prod.mk.inj (ran.symm.trans ranToo)
      cases same
      exact ⟨LoopStep.next.inj (goesOn.symm.trans goesToo), congrArg Prod.snd (fresh.symm.trans freshToo)⟩

/-- A round after which the loop goes on is followed by the next one. -/
theorem run_round {n : Nat} {after : Option Value} {ended again : Machine} {c : Completion}
    (ran : start.run (l.round E i) = (.ok (some c), ended)) (goesOn : loopStep l.labels value c = .next after)
    (fresh : ended.run (freshIteration l.names l.outer) = (.ok (), again)) :
    start.run (l.advance E i >>= fun _ => forRounds E l value (n + 1)) =
      again.run (l.advance E (i + 1) >>= fun _ => forRounds E l after n) := by
  obtain ⟨_, updated, advanced, ran⟩ := Machine.ran_bind ran
  obtain ⟨holds, tested, met, ran⟩ := Machine.ran_bind ran
  cases holds with
  | false => cases ran
  | true =>
    have executed : tested.run (E.execute [] l.body) = (.ok c, ended) := by
      have mapped : tested.run (some <$> E.execute [] l.body) = (.ok (some c), ended) := ran
      rw [Machine.run_map] at mapped
      cases body : tested.run (E.execute [] l.body) with
      | mk outcome final =>
        rw [body] at mapped
        cases outcome with
        | ok produced => cases mapped; rfl
        | error e => cases mapped
    rw [Machine.run_bind_ok advanced, forRounds, Machine.run_bind_ok met, if_pos rfl, Machine.run_bind_ok executed,
      goesOn]
    exact Machine.run_bind_ok fresh _

/-- A loop that came to a round goes on with it. -/
theorem run_from_round (begins : l.Begins E entered i value start) (enough : i ≤ E.rounds) :
    entered.run (runForLoop E l) = start.run (l.advance E i >>= fun _ => forRounds E l value (E.rounds - i)) := by
  induction begins with
  | first fresh => exact (Machine.run_bind_ok fresh fun _ => forRounds E l none E.rounds).trans rfl
  | @next i value after start ended again c begins ran goesOn fresh ih =>
    have more : E.rounds - i = E.rounds - (i + 1) + 1 := by omega
    rw [ih (Nat.le_of_succ_le enough), more]
    exact run_round ran goesOn fresh

/-! ## Environments of rounds -/

/-- A loop that binds names is entered inside the environment that its rounds are to be in. -/
structure Enters (l : ForLoop) (entered : Machine) : Prop where
  rooted : entered.Rooted
  around : entered.environments.Clear nothing l.outer
  named : l.names ≠ []

/-- An environment was made for a round of a loop after it was entered. -/
structure Owns (l : ForLoop) (entered : Machine) (e : EnvironmentId) (m : Machine) : Prop where
  later : entered.Later m
  new : entered.environments.environments.size ≤ e.index
  there : e.index < m.environments.environments.size
  outer : (m.environments.get e).outer = some l.outer

variable {e also : EnvironmentId} {m after : Machine}

theorem Owns.stays (owns : l.Owns entered e m) (later : m.Later after) : l.Owns entered e after where
  later := Machine.later_trans owns.later later
  new := owns.new
  there := Nat.lt_of_lt_of_le owns.there later.grows.size
  outer := (later.grows.outer e owns.there).trans owns.outer

/-- The environments of two rounds do not lie within each other. -/
theorem Owns.apart (owns : l.Owns entered e m) (enters : l.Enters entered)
    (new : entered.environments.environments.size ≤ also.index) (other : e ≠ also) :
    ¬m.environments.Within e also := by
  intro within
  cases within with
  | same => exact other rfl
  | inside around within =>
    obtain rfl := Option.some.inj (around.symm.trans owns.outer)
    exact owns.later.not_within_new enters.around new within

/-- Whole scripts do not run in the environment of a round. -/
theorem Owns.unshared (owns : l.Owns entered e m) (enters : l.Enters entered) :
    ¬m.environments.Within m.realm.scriptEnvironment e := by
  rw [owns.later.realm]
  exact owns.later.not_within_new enters.rooted.shared owns.new

theorem Owns.encloses (owns : l.Owns entered e m) (enters : l.Enters entered) (steps : Nat) : m.Encloses e steps :=
  encloses_of_rooted owns.later.rooted owns.there (owns.unshared enters) steps

/-- What begins a round is an environment that is made for it, behind all others. -/
theorem owns_fresh (enters : l.Enters entered) (later : entered.Later m)
    (fresh : m.run (freshIteration l.names l.outer) = (.ok (), after)) :
    m.Later after ∧ l.Owns entered after.context.lexical after ∧
      after.context.lexical.index = m.environments.environments.size := by
  have orderly : Orderly .any (Rights.confined.standing l.outer) true fun _ => freshIteration l.names l.outer :=
    orderly_fresh_iteration (.inr ⟨rfl, Rights.stands_new ..⟩)
  have goesOn := orderly.later rfl (fun _ no => no) later.rooted
    ((Rights.clear_confined ..).standing (enters.around.grows later.grows)) (fun _ => false) 0
  rw [run_fresh_iteration enters.named] at fresh goesOn
  obtain rfl := congrArg Prod.snd fresh
  have outer : ((m.environments.add (copyNames (m.environments.get m.context.lexical)
      (.declarative (some l.outer)) l.names)).2.get ⟨m.environments.environments.size⟩).outer = some l.outer := by
    rw [show (⟨m.environments.environments.size⟩ : EnvironmentId) = (m.environments.add _).1 from rfl,
      EnvironmentStore.get_add_self]
    exact Environment.outer_copy_names ..
  refine ⟨goesOn, ⟨Machine.later_trans later goesOn, later.grows.size, ?_, outer⟩, rfl⟩
  simp [Machine.inNew, EnvironmentStore.add]

/-! ## From round to round -/

theorem orderly_advance {t : Terms} {own : Rights} {moves : Bool} (l : ForLoop) (i : Nat) :
    Orderly t own moves fun E => l.advance E i := by
  unfold advance
  split
  · exact .pure ()
  · exact orderly_run_update l.update

theorem orderly_round {t : Terms} {own : Rights} {moves : Bool} {l : ForLoop} (covers : own.Covers t l.body.form)
    (i : Nat) : Orderly t own moves fun E => l.round E i := by
  refine .bind (orderly_advance l i) fun _ => .bind (orderly_test_holds l.test) fun holds => .ite ?_ (.pure _)
  exact .map _ (.execute [] l.body covers)

section Engine

variable {steps : Nat}

/-- A round ends where it began, and the names of the loop have kept values. -/
theorem later_of_round {c : Option Completion} {ended : Machine} (rooted : start.Rooted)
    (ready : ∀ name ∈ l.names, start.Ready name)
    (ran : start.run (l.round (engineAt steps) i) = (.ok c, ended)) :
    start.Later ended ∧ ended.context.lexical = start.context.lexical ∧ ∀ name ∈ l.names, ended.Ready name := by
  have orderly : Orderly .any .confined false fun E => l.round E i :=
    orderly_round (t := .any) (fun named => named.elim) i
  have goes := orderly.later_here rooted steps
  rw [ran] at goes
  have naming : Orderly .naming Rights.none.inside false fun E => l.round E i :=
    orderly_round (Rights.none.covers_inside _) i
  exact ⟨goes.1, goes.2, ready_of_orderly (engine_steady Terms.lenient_naming steps) naming ran ready⟩

/-- Each round begins in an environment that was made for it, where all names of the loop have values. -/
theorem owns_of_begins (enters : l.Enters entered) (begins : l.Begins (engineAt steps) entered i value start) :
    l.Owns entered start.context.lexical start ∧ ∀ name ∈ l.names, start.Ready name := by
  induction begins with
  | first fresh =>
    exact ⟨(owns_fresh enters (Machine.later_refl enters.rooted) fresh).2.1, ready_of_fresh_iteration fresh⟩
  | next begins ran goesOn fresh ih =>
    obtain ⟨owns, ready⟩ := ih
    have goes := later_of_round owns.later.rooted ready ran
    have later := Machine.later_trans owns.later goes.1
    exact ⟨(owns_fresh enters later fresh).2.1, ready_of_fresh_iteration fresh⟩

/-- A round begins later than those before it. -/
theorem later_of_begins (enters : l.Enters entered) (begins : l.Begins (engineAt steps) entered i value start)
    (again : l.Begins (engineAt steps) entered j other last) (order : i ≤ j) : start.Later last := by
  -- By induction on the later round; where both are the same one, their states are the same too.
  induction again with
  | first fresh =>
    obtain rfl := Nat.le_zero.1 order
    obtain ⟨-, rfl⟩ := begins_unique begins (.first fresh)
    exact Machine.later_refl (owns_of_begins enters begins).1.later.rooted
  | next again ran goesOn fresh ih =>
    rcases Nat.lt_or_eq_of_le order with earlier | rfl
    · obtain ⟨owns, ready⟩ := owns_of_begins enters again
      have goes := later_of_round owns.later.rooted ready ran
      have begun := owns_fresh enters (Machine.later_trans owns.later goes.1) fresh
      exact Machine.later_trans (ih (Nat.le_of_lt_succ earlier)) (Machine.later_trans goes.1 begun.1)
    · obtain ⟨-, rfl⟩ := begins_unique begins (.next again ran goesOn fresh)
      exact Machine.later_refl (owns_of_begins enters begins).1.later.rooted

/-- The environment of a round is newer than all that there was when an earlier one began. -/
theorem newer_of_begins (enters : l.Enters entered) (begins : l.Begins (engineAt steps) entered i value start)
    (again : l.Begins (engineAt steps) entered j other last) (order : i < j) :
    start.environments.environments.size ≤ last.context.lexical.index := by
  cases again with
  | first fresh => exact absurd order (Nat.not_lt_zero i)
  | next again ran goesOn fresh =>
    obtain ⟨owns, ready⟩ := owns_of_begins enters again
    have goes := later_of_round owns.later.rooted ready ran
    have sofar := Machine.later_trans (later_of_begins enters begins again (Nat.le_of_lt_succ order)) goes.1
    rw [(owns_fresh enters (Machine.later_trans owns.later goes.1) fresh).2.2]
    exact sofar.grows.size

theorem distinct_of_begins (enters : l.Enters entered) (begins : l.Begins (engineAt steps) entered i value start)
    (again : l.Begins (engineAt steps) entered j other last) (different : i ≠ j) :
    start.context.lexical ≠ last.context.lexical := by
  intro same
  rcases Nat.lt_or_gt_of_ne different with order | order
  · have newer := newer_of_begins enters begins again order
    rw [← same] at newer
    exact Nat.lt_irrefl _ (Nat.lt_of_lt_of_le (owns_of_begins enters begins).1.there newer)
  · have newer := newer_of_begins enters again begins order
    rw [same] at newer
    exact Nat.lt_irrefl _ (Nat.lt_of_lt_of_le (owns_of_begins enters again).1.there newer)

end Engine

/-- What it means that a round of a loop has bindings of its own, from its beginning on. -/
structure Iterates (l : ForLoop) (steps : Nat) (entered : Machine) (i : Nat) (value : Option Value)
    (start : Machine) : Prop where
  /-- The loop goes on from here. -/
  run : i ≤ (engineAt steps).rounds →
    entered.run (runForLoop (engineAt steps) l) =
      start.run (l.advance (engineAt steps) i >>= fun _ =>
        forRounds (engineAt steps) l value ((engineAt steps).rounds - i))
  /-- The environment was made after the loop was entered. -/
  owns : l.Owns entered start.context.lexical start
  /-- The test and the body are run in it. -/
  test : ∀ updated, start.run (l.advance (engineAt steps) i) = (.ok (), updated) →
    start.Later updated ∧ updated.context.lexical = start.context.lexical
  body : ∀ updated holds tested, start.run (l.advance (engineAt steps) i) = (.ok (), updated) →
    updated.run (testHolds (engineAt steps) l.test) = (.ok holds, tested) →
      start.Later tested ∧ tested.context.lexical = start.context.lexical
  /-- From then on it encloses what is made inside it, and each name of the loop has a value there. -/
  encloses : ∀ after, start.Later after → after.Encloses start.context.lexical steps
  bound : ∀ after, start.Later after → ∀ name ∈ l.names,
    ∃ b, (after.environments.get start.context.lexical).binding? name = some b ∧ b.initialized = true
  /-- No code that there was around the loop runs inside it. -/
  outside : ∀ after, start.Later after → ∀ id, entered.environments.Clear nothing id →
    ¬after.environments.Within id start.context.lexical
  /-- Every other round has another environment, which never lies inside this one. -/
  apart : ∀ j other last, l.Begins (engineAt steps) entered j other last → i ≠ j →
    start.context.lexical ≠ last.context.lexical ∧
      ∀ after, start.Later after → last.Later after →
        ¬after.environments.Within last.context.lexical start.context.lexical
  /-- The later rounds, with their updates, come to this one by functions that were made inside it only. -/
  others : ∀ j other last, l.Begins (engineAt steps) entered j other last → i < j → start.Later last ∧
    last.Seals start.context.lexical steps (fun E => l.round E j) ∧
    ∀ rounds, last.Seals start.context.lexical steps fun E => l.advance E j >>= fun _ => forRounds E l other rounds
  /-- However the body completes so that the loop goes on, the next round begins with a copy of the environment as
  the body has left it. -/
  next : ∀ c ended, start.run (l.round (engineAt steps) i) = (.ok (some c), ended) → c.GoesOn l.labels →
    start.Later ended ∧ ended.context.lexical = start.context.lexical ∧ ∃ after copy,
      loopStep l.labels value c = .next after ∧ copy.outer = some l.outer ∧
      copy.Copies (ended.environments.get start.context.lexical) l.names ∧
      l.Begins (engineAt steps) entered (i + 1) after (ended.inNew copy)

theorem iterates_of_begins {steps : Nat} (enters : l.Enters entered)
    (begins : l.Begins (engineAt steps) entered i value start) : l.Iterates steps entered i value start := by
  obtain ⟨owns, ready⟩ := owns_of_begins enters begins
  have advances : Orderly .any .confined false fun E => l.advance E i := orderly_advance l i
  have advanced := advances.later_here owns.later.rooted steps
  constructor
  case run => exact run_from_round begins
  case owns => exact owns
  case test =>
    intro updated ran
    rwa [ran] at advanced
  case body =>
    intro updated holds tested ran met
    rw [ran] at advanced
    have tests : Orderly .any .confined false fun E => testHolds E l.test := orderly_test_holds l.test
    have goes := tests.later_here advanced.1.rooted steps
    rw [met] at goes
    exact ⟨Machine.later_trans advanced.1 goes.1, goes.2.trans advanced.2⟩
  case encloses => exact fun after later => (owns.stays later).encloses enters steps
  case bound =>
    intro after later name among
    obtain ⟨b, found, forGood, initialized⟩ := ready name among
    obtain ⟨kept, still, lasts⟩ := EnvironmentStore.binding_of_lasts later.environments found forGood
    exact ⟨kept, still, lasts.initialized initialized⟩
  case outside =>
    intro after later id clear
    exact (Machine.later_trans owns.later later).not_within_new clear owns.new
  case apart =>
    intro j other last again different
    have distinct := distinct_of_begins enters begins again different
    refine ⟨distinct, fun after _ later => ?_⟩
    exact ((owns_of_begins enters again).1.stays later).apart enters owns.new (Ne.symm distinct)
  case others =>
    intro j other last again order
    have later := later_of_begins enters begins again (Nat.le_of_lt order)
    have mine := owns.stays later
    have away := (owns_of_begins enters again).1.apart enters owns.new
      (Ne.symm (distinct_of_begins enters begins again (Nat.ne_of_lt order)))
    have outside {id : EnvironmentId} (clear : entered.environments.Clear nothing id) :
        last.environments.Clear (· = start.context.lexical) id := by
      apply EnvironmentStore.clear_of_not_within (clear.grows mine.later.grows)
      rintro _ rfl
      exact mine.later.not_within_new clear owns.new
    have unshared := mine.unshared enters
    -- Further rounds are made inside the environment around the loop, which is outside of this one.
    refine ⟨later, ?_, fun rounds => ?_⟩
    · have orderly : Orderly .any .confined false fun E => l.round E j :=
        orderly_round (t := .any) (fun named => named.elim) j
      exact orderly.seals later.rooted mine.there away unshared (Rights.clear_confined ..) steps
    · have orderly : Orderly .any (Rights.confined.standing l.outer) true fun E =>
          l.advance E j >>= fun _ => forRounds E l other rounds :=
        .bind (orderly_advance l j) fun _ =>
          orderly_for_rounds (t := .any) (fun named => named.elim) (.inr ⟨rfl, Rights.stands_new ..⟩) other rounds
      exact orderly.seals later.rooted mine.there away unshared
        ((Rights.clear_confined ..).standing (outside enters.around)) steps
  case next =>
    intro c ended ran goesOn
    obtain ⟨later, same, kept⟩ := later_of_round owns.later.rooted ready ran
    obtain ⟨after, steps⟩ := loop_step_next_iff.2 goesOn
    refine ⟨later, same, after, _, steps, ?_, ?_, .next begins ran steps (run_fresh_iteration enters.named ..)⟩
    · exact Environment.outer_copy_names ..
    · rw [same]
      refine Environment.copies_copy_names l.outer fun name among => ?_
      obtain ⟨b, found, -, initialized⟩ := kept name among
      unfold Machine.bound? at found
      rw [same] at found
      exact ⟨b, found, initialized⟩

end ForLoop

/-! ## Loops of `let` -/

/-- Declares the names of a loop in a block of their own and gives them their first values. -/
def declareLoop (E : Engine) (declarators : List Declarator) : Eval EnvironmentId := do
  let block ← newBlockEnvironment ((declarators.map Declarator.name).map (⟨·, false⟩))
  inEnvironment block (executeLexical E declarators)
  return block

variable {E : Engine} {declarators : List Declarator} {m before : Machine} {block : EnvironmentId} {steps : Nat}

/-- In the block of its names a loop runs all its rounds. -/
theorem execute_for_let (labels : List String) (test update : Option Expr) (body : Stmt) :
    executeFor E labels (some (.lexical false declarators)) test update body =
      lexicalEnvironment >>= fun outer => declareLoop E declarators >>= fun block =>
        inEnvironment block
          (runForLoop E ⟨labels, test, update, body, declarators.map Declarator.name, outer⟩) := by
  simp only [executeFor, declareLoop, bind_assoc, pure_bind]
  rfl

theorem rooted_in_new (rooted : m.Rooted) {e : Environment} {outer : EnvironmentId} (inside : e.outer = some outer)
    (clear : m.environments.Clear nothing outer) : (m.inNew e).Rooted := by
  have outside : m.Outside nothing fun _ => True := Machine.outside_nothing rooted
  have added : m.StaysOutside nothing (fun _ => True) false { m with environments := (m.environments.add e).2 } :=
    Machine.stays_outside_add outside e
  refine ⟨added.outside.functions, ?_, added.outside.shared⟩
  exact EnvironmentStore.clear_add (fun _ no => no.elim) inside clear

/-- The rounds are entered from the block. -/
theorem enters_of_declared {l : ForLoop} (rooted : m.Rooted) (named : l.names ≠ []) (around : l.outer = m.context.lexical)
    (declared : m.run (declareLoop (engineAt steps) declarators) = (.ok block, before)) :
    l.Enters { before with context := { before.context with lexical := block } } ∧
      before.context.lexical = m.context.lexical := by
  let e := Environment.ofBlock m.context.lexical ((declarators.map Declarator.name).map (⟨·, false⟩))
  obtain ⟨id, made, adds, ran⟩ := Machine.ran_bind declared
  obtain ⟨rfl, rfl⟩ : (m.environments.add e).1 = id ∧ { m with environments := (m.environments.add e).2 } = made :=
    ⟨Except.ok.inj (congrArg Prod.fst adds), congrArg Prod.snd adds⟩
  obtain ⟨_, left, initialized, ends⟩ := Machine.ran_bind ran
  obtain ⟨final, inside, rfl⟩ := Machine.ran_in_environment initialized
  obtain ⟨rfl, rfl⟩ : (m.environments.add e).1 = block ∧ _ = before :=
    ⟨Except.ok.inj (congrArg Prod.fst ends), congrArg Prod.snd ends⟩
  have new : (m.inNew e).Rooted := rooted_in_new rooted (Environment.outer_create_lexical ..) rooted.lexical
  have orderly : Orderly .any .confined false fun E => executeLexical E declarators :=
    orderly_execute_lexical fun named => named.elim
  obtain ⟨later, same⟩ := orderly.later_here new steps
  rw [show (m.inNew e).run (executeLexical (engineAt steps) declarators) = (.ok (), final) from inside] at later same
  refine ⟨⟨⟨later.rooted.functions, ?_, later.rooted.shared⟩, ?_, named⟩, rfl⟩
  · have clear := later.rooted.lexical
    rw [same] at clear
    exact clear
  · rw [around]
    exact (rooted.lexical.grows (EnvironmentStore.grows_add m.environments e)).grows later.grows

/-- Each round of a `for` loop over names of `let` has bindings of its own. Its test and its body are run in an
environment that no other round has; the functions that they make find the names there and are the only ones by
which it is changed once the body has ended; and the next round begins, before the update is run, with a copy of
what the body has left. It is only asked that the state is rooted: a new engine is (`new_engine_rooted`), and so is
every state that code is run in from there on (`Machine.runs_rooted`). -/
theorem rounds_have_own_bindings (labels : List String) (test update : Option Expr) (body : Stmt)
    (named : declarators ≠ []) (rooted : m.Rooted)
    (declared : m.run (declareLoop (engineAt steps) declarators) = (.ok block, before)) :
    let l : ForLoop := ⟨labels, test, update, body, declarators.map Declarator.name, m.context.lexical⟩
    let entered : Machine := { before with context := { before.context with lexical := block } }
    let ended := entered.run (runForLoop (engineAt steps) l)
    m.run (executeFor (engineAt steps) labels (some (.lexical false declarators)) test update body) =
        (ended.1, { ended.2 with context := { ended.2.context with lexical := m.context.lexical } }) ∧
      (∃ start, l.Begins (engineAt steps) entered 0 none start) ∧
      ∀ i value start, l.Begins (engineAt steps) entered i value start → l.Iterates steps entered i value start := by
  intro l entered ended
  obtain ⟨enters, same⟩ := enters_of_declared (l := l) rooted (by simpa [l] using named) rfl declared
  refine ⟨?_, ?_, fun i value start => ForLoop.iterates_of_begins enters⟩
  · rw [execute_for_let, Machine.run_bind_ok (rfl : m.run lexicalEnvironment = (.ok m.context.lexical, m)),
      Machine.run_bind_ok declared, Machine.run_in_environment, same]
  · exact ⟨_, .first (run_fresh_iteration enters.named ..)⟩

/-- An arrow function that gives the variable of a loop around it. -/
def givesVariable : FunctionCode :=
  ⟨none, .arrow, [], [⟨.ret (some ⟨.identifier "i", default⟩), default⟩], false, ⟨[], [], []⟩, false, "() => i", default⟩

/-- The variable of the loop, which is zero at first. -/
def loopVariable : Declarator := ⟨"i", some ⟨.literal (.number (.ofNat 0)), default⟩, default⟩

/-- The rounds of the loop `for (let i = 0;; i++) () => i` inside some environment. -/
def closingLoop (outer : EnvironmentId) : ForLoop where
  labels := []
  test := none
  update := some ⟨.update .increment false ⟨.identifier "i", default⟩, default⟩
  body := ⟨.expr ⟨.function givesVariable, default⟩, default⟩
  names := ["i"]
  outer

/-- The first round of the loop makes a function in the environment of the round. -/
theorem run_closing_round (outer : EnvironmentId) (m : Machine) :
    ∃ f ended, m.run ((closingLoop outer).round (engineAt 3) 0) = (.ok (some (.normal (some (.object f)))), ended) ∧
      (ended.heap.get f).callable? = some (.script ⟨givesVariable, m.context.lexical, some m.context.this⟩) := by
  refine ⟨_, _, rfl, ?_⟩
  exact congrArg Object.callable? (Heap.get_add_self _ _)

/-- In a new engine the first two rounds of the loop have bindings of their own, and the function that is made in the
first one is made inside its environment. -/
theorem closing_loop_has_own_bindings :
    ([loopVariable] ≠ [] ∧ (Machine.new {}).Rooted) ∧
      ∃ block before, (Machine.new {}).run (declareLoop (engineAt 3) [loopVariable]) = (.ok block, before) ∧
        ∃ start again after f ended,
          let l := closingLoop (Machine.new {}).context.lexical
          let entered : Machine := { before with context := { before.context with lexical := block } }
          l.Iterates 3 entered 0 none start ∧
            start.run (l.round (engineAt 3) 0) = (.ok (some (.normal (some (.object f)))), ended) ∧
            (ended.heap.get f).callable? =
              some (.script ⟨givesVariable, start.context.lexical, some start.context.this⟩) ∧
            l.Begins (engineAt 3) entered 1 after again ∧ l.Iterates 3 entered 1 after again := by
  have declares (m : Machine) : ∃ block before,
      m.run (declareLoop (engineAt 3) [loopVariable]) = (.ok block, before) := ⟨_, _, rfl⟩
  obtain ⟨block, before, declared⟩ := declares (Machine.new {})
  have named : [loopVariable] ≠ [] := List.cons_ne_nil _ _
  have rooted := new_engine_rooted {}
  let l := closingLoop (Machine.new {}).context.lexical
  obtain ⟨-, ⟨start, begins⟩, rounds⟩ :=
    rounds_have_own_bindings [] none l.update l.body named rooted declared
  have first := rounds 0 none start begins
  obtain ⟨f, ended, ran, made⟩ := run_closing_round (Machine.new {}).context.lexical start
  obtain ⟨-, -, after, copy, -, -, -, again⟩ := first.next _ ended ran (.normal _)
  exact ⟨⟨named, rooted⟩, block, before, declared, start, _, after, f, ended, first, ran, made, again, rounds 1 _ _ again⟩

end ScriptEngine
