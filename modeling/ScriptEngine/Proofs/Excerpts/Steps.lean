import ScriptEngine.Proofs.Excerpts.Echo

/-!
Readers of single tokens in two scripts that share some, and readers that keep a record of the functions they are in.
-/

namespace ScriptEngine.Grammar.Excerpt

variable {α β γ δ : Type} {x : Excerpt} {statements : Bool} {depth k l m more : Nat} {view : α → γ} {seen : β → δ}
  {t u : Token} {read read' other : Reader α} {rest rest' : α → Reader β}

/-! ## Tokens -/

namespace Echoes

section

variable {then_ then' : Token → Reader α} {chosen chosen' : Bool → Reader α} {kind : TokenKind}

/-- The token that comes next is looked at, and passed later. -/
theorem peek (each : ∀ t u, x.whole.tokens[x.first + k]? = some t → x.Twins k t u →
      x.Echoes statements depth k (more + 1) view (then_ t) (then' u)) :
    x.Echoes statements depth k (more + 1) view (Grammar.peek >>= then_) (Grammar.peek >>= then') where
  progress s a t here done := by
    obtain ⟨u, twin, -⟩ := exists_twin here.current
    exact (each s.current u here.current twin).progress s a t here done
  echo s s' a t l here done there reached := by
    obtain ⟨u, twin, shared⟩ := exists_twin here.whole.current
    obtain ⟨n, order, place⟩ := (each s.current u here.whole.current twin).progress s a t here.whole done
    have same := there.unique place
    have inside := reached.inside
    have found := shared (by omega)
    obtain rfl : s'.current = u := Option.some.inj (here.part.current.symm.trans found)
    exact (each _ _ here.whole.current twin).echo s s' a t l here done there reached

/-- The token that comes next is looked at, and it may be the one behind those that are shared. -/
theorem peek_edge (each : ∀ t u, x.whole.tokens[x.first + k]? = some t → x.Twins k t u →
      (k < x.count → x.part.tokens[x.place + k]? = some u) →
      x.Echoes statements depth k more view (then_ t) (then' u))
    (edge : ∀ t u, x.whole.tokens[x.first + k]? = some t → k = x.count → u.kind ∈ closing statements →
      x.Echoes statements depth k more view (then_ t) (then' u)) :
    x.Echoes statements depth k more view (Grammar.peek >>= then_) (Grammar.peek >>= then') where
  progress s a t here done := by
    obtain ⟨u, twin, shared⟩ := exists_twin here.current
    exact (each s.current u here.current twin shared).progress s a t here done
  echo s s' a t l here done there reached := by
    rcases Nat.lt_or_eq_of_le here.inside with shared | last
    · have twin := here.current shared
      exact (each _ _ here.whole.current twin fun _ => here.part.current).echo s s' a t l here done there reached
    · obtain ⟨u, twin, shared⟩ := exists_twin here.whole.current
      obtain ⟨n, order, place⟩ := (each s.current u here.whole.current twin shared).progress s a t here.whole done
      have same := there.unique place
      have closes := here.edge (reached.earlier (by omega)) last
      exact (edge _ s'.current here.whole.current last closes).echo s s' a t l here done there reached

/-- The two tokens that come next are looked at, and the first is passed later. The second one may be the one behind
those that are shared. -/
theorem look_ahead {then_ then' : Token → Token → Reader α}
    (each : ∀ t next u next', x.whole.tokens[x.first + k]? = some t → x.Twins k t u →
      (t.kind ≠ .endOfInput → x.whole.tokens[x.first + k + 1]? = some next) →
      next'.kind = next.kind ∨ x.count < k + 2 ∧ next'.kind ∈ closing statements →
      x.Echoes statements depth k (more + 1) view (then_ t next) (then' u next')) :
    x.Echoes statements depth k (more + 1) view (do let s ← get; then_ s.current (s.tokenAt 1))
      (do let s ← get; then' s.current (s.tokenAt 1)) where
  progress s a t here done := by
    obtain ⟨u, twin, -⟩ := exists_twin here.current
    exact (each s.current (s.tokenAt 1) u (s.tokenAt 1) here.current twin here.second (.inl rfl)).progress s a t
      here done
  echo s s' a t l here done there reached := by
    have known := here.whole.current
    obtain ⟨u, ghost, -⟩ := exists_twin known
    obtain ⟨n, order, place⟩ := (each s.current (s.tokenAt 1) u (s.tokenAt 1) known ghost
      here.whole.second (.inl rfl)).progress s a t here.whole done
    have same := there.unique place
    have inside := reached.inside
    have shared : k < x.count := by omega
    have twin := here.current shared
    have goesOn := goes_on shared known
    have next := here.whole.second goesOn
    have next' := here.part.second (by rw [twin.kind]; exact goesOn)
    rw [Nat.add_assoc] at next next'
    have alike : (s'.tokenAt 1).kind = (s.tokenAt 1).kind ∨
        x.count < k + 2 ∧ (s'.tokenAt 1).kind ∈ closing statements := by
      rcases Nat.lt_or_eq_of_le (Nat.succ_le_of_lt shared) with before | last
      · obtain ⟨u, twin, found⟩ := exists_twin next
        obtain rfl := Option.some.inj (next'.symm.trans (found before))
        exact .inl twin.kind
      · obtain ⟨u, found, closes⟩ := (reached.earlier (k := k + 1) (by omega)).ended last
        rw [← last] at found
        obtain rfl := Option.some.inj (next'.symm.trans found)
        exact .inr ⟨by omega, closes⟩
    exact (each _ _ _ _ known twin here.whole.second alike).echo s s' a t l here done there reached

/-- Whether a token comes next is asked where more is passed later. -/
theorem check_inner (each : ∀ found, (found = true ↔ x.whole.kindAt (x.first + k) = some kind) →
      x.Echoes statements depth k (more + 1) view (chosen found) (chosen' found)) :
    x.Echoes statements depth k (more + 1) view (check kind >>= chosen) (check kind >>= chosen') := by
  have asked {t : Token} (found : x.whole.tokens[x.first + k]? = some t) :
      (t.kind == kind) = true ↔ x.whole.kindAt (x.first + k) = some kind := by
    rw [Script.kind_at found, beq_iff_eq, Option.some.injEq]
  have looks : x.Echoes statements depth k (more + 1) view (Grammar.peek >>= fun t => chosen (t.kind == kind))
      (Grammar.peek >>= fun t => chosen' (t.kind == kind)) := by
    refine peek fun t u found twin => ?_
    rw [twin.kind]
    exact each _ (asked found)
  exact looks

/-- The way to go on depends on the token that comes next, which is passed later if it is one of those asked for. -/
theorem ask (asks : TokenKind → Bool) {yes yes' no no' : Reader α}
    (stops : ∀ kind ∈ closing statements, asks kind = false)
    (taken : ∀ t, x.whole.tokens[x.first + k]? = some t → asks t.kind = true →
      x.Echoes statements depth k 1 view yes yes')
    (left : x.Echoes statements depth k 0 view no no') :
    x.Echoes statements depth k 0 view (Grammar.peek >>= fun t => if asks t.kind then yes else no)
      (Grammar.peek >>= fun t => if asks t.kind then yes' else no') := by
  refine peek_edge (fun t u found twin _ => ?_) fun t u found last closes => ?_
  · exact ite (by rw [twin.kind]) (fun asked => (taken t found asked).idle) fun _ => left
  · rw [stops u.kind closes]
    by_cases asked : asks t.kind = true
    · rw [if_pos asked]
      exact ((taken t found asked).past (by omega)).idle
    · rw [if_neg asked]
      exact left

/-- The state tells no more of the way to go on than the token that comes next. -/
theorem ask_state {wanted : ReadingState → Bool} (asks : TokenKind → Bool) {yes yes' no no' : Reader α}
    (asked : ∀ s, wanted s = asks s.current.kind) (stops : ∀ kind ∈ closing statements, asks kind = false)
    (taken : ∀ t, x.whole.tokens[x.first + k]? = some t → asks t.kind = true →
      x.Echoes statements depth k 1 view yes yes')
    (left : x.Echoes statements depth k 0 view no no') :
    x.Echoes statements depth k 0 view (do if wanted (← get) then yes else no)
      (do if wanted (← get) then yes' else no') := by
  have same : wanted = fun s => asks s.current.kind := funext asked
  subst same
  have looks := ask asks stops taken left
  exact looks

/-- Whether a token comes next is asked, and passed later if it does. -/
theorem check (open_ : kind ∉ closing false) (yes : x.whole.kindAt (x.first + k) = some kind →
      x.Echoes statements depth k 1 view (chosen true) (chosen' true))
    (no : x.Echoes statements depth k 0 view (chosen false) (chosen' false)) :
    x.Echoes statements depth k 0 view (check kind >>= chosen) (check kind >>= chosen') := by
  have steps (chosen : Bool → Reader α) : (Grammar.check kind >>= chosen) =
      (Grammar.peek >>= fun t => if t.kind == kind then chosen true else chosen false) := by
    funext s
    have asked : (Grammar.check kind >>= chosen) s = chosen (s.current.kind == kind) s := rfl
    have looked : (Grammar.peek >>= fun t => if t.kind == kind then chosen true else chosen false) s =
        (if s.current.kind == kind then chosen true else chosen false) s := rfl
    rw [asked, looked]
    cases s.current.kind == kind <;> rfl
  let asks (other : TokenKind) : Bool := other == kind
  have stops : ∀ other ∈ closing statements, asks other = false := by
    intro other closes
    refine beq_eq_false_iff_ne.mpr ?_
    rintro rfl
    exact open_ (mem_closing closes)
  rw [steps, steps]
  refine ask asks stops (fun t found same => yes ?_) no
  rw [Script.kind_at found, beq_iff_eq.mp same]

/-- A token that is known is passed and given. -/
theorem take (found : x.whole.tokens[x.first + k]? = some t) (goesOn : t.kind ≠ .endOfInput)
    (each : ∀ u, x.Twins k t u → x.Echoes statements depth (k + 1) more view (then_ t) (then' u)) :
    x.Echoes statements depth k (more + 1) view (advance >>= then_) (advance >>= then') where
  progress s a v here done := by
    obtain rfl : s.current = t := Option.some.inj (here.current.symm.trans found)
    have same := here.pass_previous goesOn
    have rest : then_ s.pass.previous s.pass = .ok (a, v) := done
    rw [same] at rest
    obtain ⟨u, twin, -⟩ := exists_twin found
    obtain ⟨l, order, there⟩ := (each u twin).progress s.pass a v (here.pass goesOn) rest
    exact ⟨l, by omega, there⟩
  echo s s' a v l here done there reached := by
    obtain rfl : s.current = t := Option.some.inj (here.whole.current.symm.trans found)
    have same := here.whole.pass_previous goesOn
    have rest : then_ s.pass.previous s.pass = .ok (a, v) := done
    rw [same] at rest
    obtain ⟨u, twin, shared⟩ := exists_twin found
    obtain ⟨n, order, place⟩ := (each u twin).progress s.pass a v (here.whole.pass goesOn) rest
    have reach := there.unique place
    have inside := reached.inside
    have next := shared (by omega)
    obtain rfl : s'.current = u := Option.some.inj (here.part.current.symm.trans next)
    have passed := here.pass (by omega)
    have same' := here.part.pass_previous (by rw [twin.kind]; exact goesOn)
    have ends := (each s'.current twin).echo s.pass s'.pass a v l passed rest there reached
    have steps : (advance >>= then') s' = then' s'.pass.previous s'.pass := rfl
    rw [steps, same']
    exact ends

theorem pass (found : x.whole.tokens[x.first + k]? = some t) (goesOn : t.kind ≠ .endOfInput) {next next' : Reader α}
    (each : x.Echoes statements depth (k + 1) more view next next') :
    x.Echoes statements depth k (more + 1) view (discard advance >>= fun _ => next)
      (discard advance >>= fun _ => next') := by
  have taken : x.Echoes statements depth k (more + 1) view (advance >>= fun _ => next) (advance >>= fun _ => next') :=
    take found goesOn fun _ _ => each
  exact taken

/-- A token is passed that does not end the input, since the token before is not what is read. -/
theorem take_proper (each : ∀ t u, x.whole.tokens[x.first + k]? = some t → x.Twins k t u →
      x.Echoes statements depth (k + 1) more view (then_ t) (then' u))
    (ended : ∀ t s a v, x.whole.tokens[x.first + k - 1]? = some t → then_ t s ≠ .ok (a, v)) :
    x.Echoes statements depth k (more + 1) view (advance >>= then_) (advance >>= then') := by
  have proper (s : ReadingState) (a : α) (v : ReadingState) (here : x.whole.Comes (x.first + k) s)
      (done : (advance >>= then_) s = .ok (a, v)) : s.current.kind ≠ .endOfInput := by
    intro last
    have rest : then_ s.pass.previous s.pass = .ok (a, v) := done
    rw [here.stays last] at rest
    exact ended s.previous s a v here.previous rest
  constructor
  · intro s a v here done
    exact (take here.current (proper s a v here done) fun u twin => each _ u here.current twin).progress s a v here done
  · intro s s' a v l here done there reached
    have found := here.whole.current
    exact (take found (proper s a v here.whole done) fun u twin => each _ u found twin).echo s s' a v l here done there
      reached

/-- A token is passed, whatever it is, and more behind it. At the end of the input the previous one is given. -/
theorem advance_inner (each : ∀ l t u, k ≤ l → x.whole.tokens[x.first + l - 1]? = some t → t.face = u.face →
      x.Echoes statements depth l (more + 1) view (then_ t) (then' u)) :
    x.Echoes statements depth k (more + 1) view (advance >>= then_) (advance >>= then') where
  progress s a v here done := by
    have rest : then_ s.pass.previous s.pass = .ok (a, v) := done
    by_cases ended : s.current.kind = .endOfInput
    · rw [here.stays ended] at rest
      exact (each k s.previous s.previous (Nat.le_refl k) here.previous rfl).progress s a v here rest
    · have passed := here.pass ended
      obtain ⟨l, order, there⟩ := (each (k + 1) s.pass.previous s.pass.previous (Nat.le_succ k) passed.previous
        rfl).progress s.pass a v passed rest
      exact ⟨l, by omega, there⟩
  echo s s' a v l here done there reached := by
    by_cases ended : s.current.kind = .endOfInput
    · have rest : then_ s.pass.previous s.pass = .ok (a, v) := done
      rw [here.whole.stays ended] at rest
      obtain ⟨n, order, place⟩ := (each k s.previous s.previous (Nat.le_refl k) here.whole.previous
        rfl).progress s a v here.whole rest
      have reach := there.unique place
      have inside := reached.inside
      exact absurd ended (goes_on (by omega) here.whole.current)
    · have taken : x.Echoes statements depth k (more + 1 + 1) view (advance >>= then_) (advance >>= then') :=
        take here.whole.current ended fun u twin =>
          each (k + 1) s.current u (Nat.le_succ k) here.whole.current twin.face
      exact taken.echo s s' a v l here done there reached

/-- A token that may be left out is passed before the one or the other way to go on is taken. -/
theorem accept_steps (kind : TokenKind) (chosen : Bool → Reader α) :
    (accept kind >>= chosen) = (Grammar.check kind >>= fun found =>
      if found then discard advance >>= fun _ => chosen true else chosen false) := by
  funext s
  have left : (accept kind >>= chosen) s =
      ((if s.current.kind == kind then do discard advance; return true else return false : Reader Bool) >>= chosen) s :=
    rfl
  have right : (Grammar.check kind >>= fun found =>
      if found then discard advance >>= fun _ => chosen true else chosen false) s =
        (if s.current.kind == kind then discard advance >>= fun _ => chosen true else chosen false) s := rfl
  rw [left, right]
  cases s.current.kind == kind <;> rfl

/-- A token is passed if it is there, where more is passed later if it is not. -/
theorem accept_inner (proper : kind ≠ .endOfInput)
    (yes : x.whole.kindAt (x.first + k) = some kind →
      x.Echoes statements depth (k + 1) more view (chosen true) (chosen' true))
    (no : x.Echoes statements depth k (more + 1) view (chosen false) (chosen' false)) :
    x.Echoes statements depth k (more + 1) view (accept kind >>= chosen) (accept kind >>= chosen') := by
  rw [accept_steps, accept_steps]
  refine check_inner fun found known => ite Iff.rfl (fun holds => ?_) fun _ => no
  obtain ⟨t, there, same⟩ := Option.map_eq_some_iff.mp (known.mp holds)
  exact pass there (same ▸ proper) (yes (known.mp holds))

/-- A token is passed if it is there. -/
theorem accept (open_ : kind ∉ closing false)
    (yes : x.whole.kindAt (x.first + k) = some kind →
      x.Echoes statements depth (k + 1) 0 view (chosen true) (chosen' true))
    (no : x.Echoes statements depth k 0 view (chosen false) (chosen' false)) :
    x.Echoes statements depth k 0 view (Grammar.accept kind >>= chosen) (Grammar.accept kind >>= chosen') := by
  rw [accept_steps, accept_steps]
  refine check open_ (fun known => ?_) no
  obtain ⟨t, there, same⟩ := Option.map_eq_some_iff.mp known
  have goesOn : t.kind ≠ .endOfInput := fun ended => open_ (by rw [← same, ended]; decide)
  exact pass there goesOn (yes known)

/-- It does not matter what a token is for that is passed. -/
theorem discard_then (read : Reader α) (rest : Reader β) :
    (discard read >>= fun _ => rest) = read >>= fun _ => rest := by
  funext s
  have left : (discard read >>= fun _ => rest) s = (read s >>= fun p => .ok ((), p.2)) >>= fun p => rest p.2 := rfl
  have right : (read >>= fun _ => rest) s = read s >>= fun p => rest p.2 := rfl
  rw [left, right]
  cases read s <;> rfl

/-- A token has to be there. -/
theorem expect (proper : kind ≠ .endOfInput) (what : String) :
    x.Echoes statements depth k 1 (fun _ => ()) (expect kind what) (expect kind what) :=
  accept_inner proper (fun _ => give rfl) (fail_here _)

end

end Echoes

/-! ## Readers that pass nothing -/

/-- A reader that passes nothing is followed by another one. -/
structure Stays (x : Excerpt) (depth : Nat) (view : α → γ) (read read' : Reader α) : Prop where
  place : ∀ i s a t, x.whole.Comes i s → read s = .ok (a, t) → x.whole.Comes i t
  echo : ∀ k s s' a t, x.Mirrors depth k s s' → read s = .ok (a, t) →
    Gives (read' s') fun a' t' => view a = view a' ∧ x.Mirrors depth k t t'

theorem Echoes.stay (stays : x.Stays depth view read read')
    (then_ : ∀ a a', view a = view a' → x.Echoes statements depth k more seen (rest a) (rest' a')) :
    x.Echoes statements depth k more seen (read >>= rest) (read' >>= rest') where
  progress s b t here done := by
    obtain ⟨a, u, begun, ended⟩ := ok_of_steps done
    exact (then_ a a rfl).progress u b t (stays.place _ s a u here begun) ended
  echo s s' b t l here done there reached := by
    obtain ⟨a, u, begun, ended⟩ := ok_of_steps done
    refine (stays.echo k s s' a u here begun).bind fun a' u' goal => ?_
    exact (then_ a a' goal.1).echo u u' b t l goal.2 ended there reached

/-- A reader that passes nothing may be the last one. -/
theorem Stays.echoes (stays : x.Stays depth view read read') : x.Echoes statements depth k 0 view read read' := by
  have whole : x.Echoes statements depth k 0 view (read >>= pure) (read' >>= pure) :=
    .stay stays fun _ _ same => .give same
  rwa [bind_pure, bind_pure] at whole

namespace Stays

theorem bind (first : x.Stays depth view read read')
    (then_ : ∀ a a', view a = view a' → x.Stays depth seen (rest a) (rest' a')) :
    x.Stays depth seen (read >>= rest) (read' >>= rest') where
  place i s b t here done := by
    obtain ⟨a, u, begun, ended⟩ := ok_of_steps done
    exact (then_ a a rfl).place i u b t (first.place i s a u here begun) ended
  echo k s s' b t here done := by
    obtain ⟨a, u, begun, ended⟩ := ok_of_steps done
    refine (first.echo k s s' a u here begun).bind fun a' u' goal => ?_
    exact (then_ a a' goal.1).echo k u u' b t goal.2 ended

theorem give {a a' : α} (same : view a = view a') : x.Stays depth view (pure a) (pure a') where
  place i s b t here done := by
    cases done
    exact here
  echo k s s' b t here done := by
    cases done
    exact .inr ⟨a', s', rfl, same, here⟩

theorem of_fails (fails : ∀ s a t, read s ≠ .ok (a, t)) : x.Stays depth view read other :=
  ⟨fun _ s a t _ done => absurd done (fails s a t), fun _ s _ a t _ done => absurd done (fails s a t)⟩

theorem fail (span : Span) (fault : SyntaxFault) : x.Stays depth view (failAt span fault) other :=
  of_fails fun _ _ _ done => by cases done

theorem fail_then (span : Span) (fault : SyntaxFault) {other : Reader β} :
    x.Stays depth seen (failAt span fault >>= rest) other :=
  of_fails fun _ _ _ done => by cases done

theorem fail_here (fault : SyntaxFault) : x.Stays depth view (failHere fault) other :=
  of_fails fun _ _ _ done => by cases done

theorem ite {c c' : Prop} [Decidable c] [Decidable c'] {yes yes' no no' : Reader α} (same : c ↔ c')
    (taken : c → x.Stays depth view yes yes') (left : ¬ c → x.Stays depth view no no') :
    x.Stays depth view (if c then yes else no) (if c' then yes' else no') := by
  by_cases holds : c
  · rw [if_pos holds, if_pos (same.mp holds)]
    exact taken holds
  · rw [if_neg holds, if_neg (mt same.mpr holds)]
    exact left holds

/-- Whether the code is strict is known of the innermost function. -/
theorem is_strict : x.Stays depth id isStrict isStrict where
  place i s a t here done := by
    cases done
    exact here
  echo k s s' a t here done := by
    cases done
    obtain ⟨b, outer, b', outer', one, two, same⟩ := here.bodies.strict
    obtain ⟨rfl, -⟩ := List.cons.inj one
    obtain ⟨rfl, -⟩ := List.cons.inj two
    exact .inr ⟨_, s', rfl, same, here⟩

theorem span_from (start start' : Nat) : x.Stays depth (fun _ => ()) (spanFrom start) (spanFrom start') where
  place i s a t here done := by
    cases done
    exact here
  echo k s s' a t here done := by
    cases done
    exact .inr ⟨_, s', rfl, rfl, here⟩

theorem modify_body {f f' : BodyState → BodyState}
    (same : ∀ b b', b.unplaced = b'.unplaced → (f b).unplaced = (f' b').unplaced) :
    x.Stays (depth + 1) (fun _ => ()) (modifyBody f) (modifyBody f') where
  place i s a t here done := by
    cases done
    exact here.with_bodies _ _
  echo k s s' a t here done := by
    cases done
    refine .inr ⟨_, _, rfl, rfl, here.inside, here.whole.with_bodies _ _, here.part.with_bodies _ _, ?_⟩
    exact .inside (same _ _ here.bodies.innermost) here.bodies.outside

/-- What is noted of the innermost function does not depend on places. -/
theorem note {f : BodyState → BodyState} (commutes : ∀ b, (f b).unplaced = f b.unplaced) :
    x.Stays (depth + 1) (fun _ => ()) (modifyBody f) (modifyBody f) :=
  modify_body fun b b' same => by rw [commutes, commutes, same]

/-- What is known of the innermost function is asked, and whether there is one. -/
theorem look : x.Stays (depth + 1) (fun s => (s.body.unplaced, s.outerBodies.isEmpty)) get get where
  place i s a t here done := by
    cases done
    exact here
  echo k s s' a t here done := by
    cases done
    obtain ⟨b, outer, b', outer', one, two, -⟩ := here.bodies.outside.strict
    refine .inr ⟨s', s', rfl, Prod.ext here.bodies.innermost ?_, here⟩
    dsimp only
    rw [one, two]
    rfl

theorem alike_note_arguments {bodies bodies' : List BodyState} (alike : AlikeTo depth bodies bodies') :
    AlikeTo depth (noteArguments bodies) (noteArguments bodies') := by
  induction alike with
  | @around b b' outer outer' strict =>
    unfold noteArguments
    split
    · split
      · exact .around strict
      · exact .around strict
    · split
      · exact .around strict
      · exact .around strict
  | @inside depth b b' outer outer' same further ih =>
    have unplaced : b.unplaced.isArrow = b'.unplaced.isArrow := congrArg BodyState.isArrow same
    have arrows : b.isArrow = b'.isArrow := unplaced
    by_cases arrow : b'.isArrow = true
    · rw [noteArguments, noteArguments, if_pos arrow, if_pos (arrows.trans arrow)]
      exact .inside same ih
    · rw [noteArguments, noteArguments, if_neg arrow, if_neg fun holds => arrow (arrows.symm.trans holds)]
      have noted : ({ b.unplaced with usesArguments := true } : BodyState) =
          { b'.unplaced with usesArguments := true } := by rw [same]
      exact .inside noted further

theorem run_mention_arguments (s : ReadingState) : ∃ body outer,
    noteArguments (s.body :: s.outerBodies) = body :: outer ∧
    mentionArguments s = .ok ((), { s with body := body, outerBodies := outer }) := by
  cases noted : noteArguments (s.body :: s.outerBodies) with
  | nil =>
    unfold noteArguments at noted
    split at noted <;> cases noted
  | cons body outer =>
    refine ⟨body, outer, rfl, ?_⟩
    unfold mentionArguments
    dsimp only [modify, modifyGet, MonadStateOf.modifyGet, StateT.modifyGet, pure, Except.pure]
    rw [noted]

theorem mention_arguments : x.Stays depth (fun _ => ()) mentionArguments mentionArguments where
  place i s a t here done := by
    obtain ⟨body, outer, -, run⟩ := run_mention_arguments s
    rw [run] at done
    cases done
    exact here.with_bodies _ _
  echo k s s' a t here done := by
    obtain ⟨body, outer, same, run⟩ := run_mention_arguments s
    obtain ⟨body', outer', same', run'⟩ := run_mention_arguments s'
    have alike := alike_note_arguments here.bodies
    rw [same, same'] at alike
    rw [run] at done
    cases done
    rw [run']
    exact .inr ⟨_, _, rfl, rfl, here.inside, here.whole.with_bodies _ _, here.part.with_bodies _ _, alike⟩

end Stays

/-! ## Bodies -/

namespace Echoes

/-- A body is left. -/
def leftBody (s : ReadingState) : ReadingState :=
  match s.outerBodies with
  | [] => s
  | body :: outer => { s with body := body, outerBodies := outer }

theorem comes_left_body {script : Script} {i : Nat} {s : ReadingState} (here : script.Comes i s) :
    script.Comes i (leftBody s) := by
  unfold leftBody
  split
  · exact here
  · exact here.with_bodies _ _

/-- A new body is entered and left again. What is known of it at its end comes with the result. -/
theorem with_body {isArrow strict strict' : Bool} (flag : strict = strict')
    (inner : x.Echoes statements (depth + 1) k more view read read') :
    x.Echoes statements depth k more (fun r => (view r.1, r.2.unplaced)) (withBody isArrow strict read)
      (withBody isArrow strict' read') := by
  subst flag
  let entered := fun s : ReadingState =>
    { s with body := BodyState.start isArrow strict, outerBodies := s.body :: s.outerBodies }
  have steps (read : Reader α) (s : ReadingState) : withBody isArrow strict read s =
      read (entered s) >>= fun p => .ok ((p.1, p.2.body), leftBody p.2) := rfl
  constructor
  · intro s r t here done
    rw [steps] at done
    cases begun : read (entered s) with
    | error d =>
      rw [begun] at done
      cases done
    | ok p =>
      rw [begun] at done
      cases done
      obtain ⟨l, order, there⟩ := inner.progress _ p.1 p.2 (here.with_bodies _ _) begun
      exact ⟨l, order, comes_left_body there⟩
  · intro s s' r t l here done there reached
    rw [steps] at done
    cases begun : read (entered s) with
    | error d =>
      rw [begun] at done
      cases done
    | ok p =>
      rw [begun] at done
      cases done
      obtain ⟨n, order, place⟩ := inner.progress _ p.1 p.2 (here.whole.with_bodies _ _) begun
      have same := (comes_left_body place).unique there
      obtain rfl : n = l := by omega
      have begins : x.Mirrors (depth + 1) k (entered s) (entered s') :=
        ⟨here.inside, here.whole.with_bodies _ _, here.part.with_bodies _ _, .inside rfl here.bodies⟩
      rw [steps]
      rcases inner.echo _ _ p.1 p.2 n begins begun place reached with ⟨d, failed, fault⟩ | ⟨a', u', ended, alike, ends⟩
      · rw [failed]
        exact .inl ⟨d, rfl, fault⟩
      · rw [ended]
        refine .inr ⟨_, _, rfl, ?_⟩
        obtain ⟨body, outer, body', outer', one, two, -⟩ := ends.bodies.outside.strict
        have left : leftBody p.2 = { p.2 with body := body, outerBodies := outer } := by
          unfold leftBody
          rw [one]
        have left' : leftBody u' = { u' with body := body', outerBodies := outer' } := by
          unfold leftBody
          rw [two]
        have further := ends.bodies.outside
        rw [one, two] at further
        refine ⟨Prod.ext alike ends.bodies.innermost, ends.inside, comes_left_body ends.whole,
          comes_left_body ends.part, ?_⟩
        rw [left, left']
        exact further

/-- So is a block of the innermost body. -/
theorem with_block (inner : x.Echoes statements (depth + 1) k more view read read') :
    x.Echoes statements (depth + 1) k more (fun r => (view r.1, r.2)) (withBlock read) (withBlock read') := by
  refine .stay (.note fun _ => rfl) fun _ _ _ => .bind_first inner fun a a' l _ same => ?_
  refine Stays.echoes (.bind .look fun t t' alike => .bind (.note fun _ => rfl) fun _ _ _ => .give ?_)
  have names : t.body.unplaced.innerBlock = t'.body.unplaced.innerBlock := congrArg (fun r => r.1.innerBlock) alike
  exact Prod.ext same names

/-- Readers that stand at the same shared token go on alike, whatever they know of it and of those behind. -/
theorem look_here {use use' : ReadingState → Reader α} (shared : k < x.count)
    (each : ∀ s s', x.whole.Comes (x.first + k) s → x.part.Comes (x.place + k) s' → s.body.unplaced = s'.body.unplaced →
      x.Echoes statements (depth + 1) k more view (use s) (use' s')) :
    x.Echoes statements (depth + 1) k more view (get >>= use) (get >>= use') where
  progress s a t here done := by
    obtain ⟨u, -, found⟩ := exists_twin here.current
    obtain ⟨s', there, same⟩ := Script.exists_comes (found shared) s.body
    exact (each s s' here there (congrArg BodyState.unplaced same.symm)).progress s a t here done
  echo s s' a t l here done there reached :=
    (each s s' here.whole here.part here.bodies.innermost).echo s s' a t l here done there reached

/-- What is known of the innermost function is asked together with the token that comes next, which may be the one
behind those that are shared. -/
theorem look_edge {use use' : ReadingState → Reader α}
    (each : ∀ s s', s.outerBodies.isEmpty = s'.outerBodies.isEmpty → x.whole.tokens[x.first + k]? = some s.current →
      x.Twins k s.current s'.current ∨ k = x.count ∧ s'.current.kind ∈ closing statements →
      x.Echoes statements (depth + 1) k more view (use s) (use' s')) :
    x.Echoes statements (depth + 1) k more view (get >>= use) (get >>= use') where
  progress s a t here done := by
    obtain ⟨u, twin, -⟩ := exists_twin here.current
    exact (each s { s with current := u } rfl here.current (.inl twin)).progress s a t here done
  echo s s' a t l here done there reached := by
    have known := here.whole.current
    obtain ⟨u, ghost, -⟩ := exists_twin known
    obtain ⟨n, order, place⟩ := (each s { s with current := u } rfl known (.inl ghost)).progress s a t here.whole done
    have same := there.unique place
    obtain ⟨b, outer, b', outer', one, two, -⟩ := here.bodies.outside.strict
    have around : s.outerBodies.isEmpty = s'.outerBodies.isEmpty := by rw [one, two]; rfl
    have next : x.Twins k s.current s'.current ∨ k = x.count ∧ s'.current.kind ∈ closing statements := by
      rcases Nat.lt_or_eq_of_le here.inside with shared | last
      · exact .inl (here.current shared)
      · exact .inr ⟨last, here.edge (reached.earlier (by omega)) last⟩
    exact (each s s' around known next).echo s s' a t l here done there reached

/-! ## Texts -/

/-- The text of a part that is read is the same in both scripts. -/
theorem source_from {start start' : Nat} (begins : x.Same start start') (behind : 0 < k) :
    x.Echoes statements depth k 0 id (sourceFrom start) (sourceFrom start') := by
  constructor
  · intro s a t here done
    obtain ⟨rfl, -⟩ := slice_of_source_from done
    exact ⟨k, Nat.le_refl k, here⟩
  · intro s s' a t l here done there _
    obtain ⟨rfl, part, slice, rfl⟩ := slice_of_source_from done
    have place := here.whole.unique there
    obtain rfl : k = l := by omega
    obtain ⟨twin, within⟩ := here.previous behind
    rw [here.whole.source] at slice
    have same := slice_shared begins twin.stop within slice
    rw [← here.part.source] at same
    exact .inr ⟨String.ofList part, s', source_from_some same, rfl, here⟩

/-- A directive says the same in both scripts. -/
theorem obey_directive {n : Nat} (found : x.whole.tokens[x.first + n]? = some t) (twin : x.Twins n t u)
    (passed : n < k) :
    x.Echoes statements (depth + 1) k 0 (fun _ => ()) (obeyDirective t) (obeyDirective u) := by
  let told (text : List Char) : Reader Unit :=
    if text == strictDirective then modifyBody fun b => { b with strict := true } else pure ()
  have tells (text : List Char) : x.Stays (depth + 1) (fun _ => ()) (told text) (told text) :=
    .ite Iff.rfl (fun _ => .note fun _ => rfl) fun _ => .give rfl
  have cut {s s' a : ReadingState} (done : obeyDirective t s = .ok ((), s')) :
      ∃ part text, t.span.slice? s.source = some part ∧ directiveText? part = some text ∧
        told text s = .ok ((), s') := by
    rw [obey_directive_eq] at done
    cases whole : (t.span.slice? s.source).bind directiveText? with
    | none =>
      rw [whole] at done
      cases done
    | some text =>
      rw [whole] at done
      obtain ⟨part, slice, inner⟩ := Option.bind_eq_some_iff.mp whole
      exact ⟨part, text, slice, inner, done⟩
  constructor
  · intro s a s' here done
    obtain ⟨part, text, -, -, ended⟩ := cut (a := s) done
    exact ⟨k, Nat.le_refl k, (tells text).place _ s () s' here ended⟩
  · intro s s' a v l here done there _
    obtain ⟨part, text, slice, inner, ended⟩ := cut (a := s) done
    have place := ((tells text).place _ s () v here.whole ended).unique there
    obtain rfl : k = l := by omega
    have inside := here.inside
    obtain ⟨within, -⟩ := x.twins n t (by omega) found
    rw [here.whole.source] at slice
    have same := slice_shared twin.start twin.stop within slice
    rw [← here.part.source] at same
    rw [obey_directive_eq, same, Option.bind_some, inner]
    exact (tells text).echo k s s' () v here ended

/-! ## Repetition -/

section

variable {item item' : Reader α}

theorem separated (each : ∀ l, k ≤ l → x.Echoes statements depth l 1 view item item') (fuel fuel' : Nat)
    (done done' : List α) (same : done.map view = done'.map view) :
    x.Echoes statements depth k 1 (List.map view) (readSeparated fuel item done) (readSeparated fuel' item' done') := by
  induction fuel generalizing k fuel' done done' with
  | zero => exact .broken
  | succ fuel ih =>
    refine of_fuel (fun fuel' => readSeparated fuel' item' done') rfl (fun fuel' => ?_) fuel'
    refine .bind_first (each k (Nat.le_refl k)) fun a a' l order alike => ?_
    extract_lets more more'
    have further : more.map view = more'.map view := congrArg₂ List.cons alike same
    refine .accept (by decide) (fun _ => ?_) (.give ?_)
    · exact (ih (fun n later => each n (by omega)) fuel' more more' further).idle
    · rw [List.map_reverse, List.map_reverse, further]

/-- Items are read as long as the state asks for one, which depends on the next token alone. -/
theorem while_wanted {wanted : ReadingState → Bool} (asks : TokenKind → Bool)
    (asked : ∀ s, wanted s = asks s.current.kind) (stops : ∀ kind ∈ closing statements, asks kind = false)
    (each : ∀ l, k ≤ l → x.Echoes statements depth l 1 view item item') (fuel fuel' : Nat)
    (done done' : List α) (same : done.map view = done'.map view) :
    x.Echoes statements depth k 0 (List.map view) (readWhile fuel wanted item done)
      (readWhile fuel' wanted item' done') := by
  induction fuel generalizing k fuel' done done' with
  | zero => exact .broken
  | succ fuel ih =>
    refine of_fuel (fun fuel' => readWhile fuel' wanted item' done') rfl (fun fuel' => ?_) fuel'
    have goesOn : x.Echoes statements depth k 1 (List.map view) (do readWhile fuel wanted item ((← item) :: done))
        (do readWhile fuel' wanted item' ((← item') :: done')) := by
      refine .bind_first (each k (Nat.le_refl k)) fun a a' l order alike => ?_
      have further : (a :: done).map view = (a' :: done').map view := congrArg₂ List.cons alike same
      exact ih (fun n later => each n (by omega)) fuel' _ _ further
    have ends : x.Echoes statements depth k 0 (List.map view) (pure done.reverse) (pure done'.reverse) := by
      refine .give ?_
      rw [List.map_reverse, List.map_reverse, same]
    exact .ask_state asks asked stops (fun _ _ _ => goesOn) ends

end

/-! ## Names and ends of statements -/

theorem binding_name (what : String) :
    x.Echoes statements depth k 1 id (bindingName what) (bindingName what) := by
  refine .peek fun t u found twin => ?_
  extract_lets finish accepted finish' accepted'
  refine .ite (by rw [twin.kind]) (fun named => ?_) fun _ => .fail_then _ _
  have goesOn : t.kind ≠ .endOfInput := by simp [beq_iff_eq.mp named]
  refine .pass found goesOn (.stay .is_strict fun strict strict' same => ?_)
  obtain rfl : strict = strict' := same
  refine .ite (by rw [twin.lexeme]) (fun _ => .fail_then _ _) fun _ => .give ?_
  exact twin.lexeme.symm

/-- A statement may end before the token without a semicolon. -/
def endsBefore (t : Token) : Bool :=
  t.kind == .mark .semicolon || t.kind == .mark .closeBrace || t.kind == .endOfInput || t.newlineBefore

theorem ends_before_of_twin {before other : List Char} (twin : Twin before other k t u) (behind : 0 < k) :
    endsBefore u = endsBefore t := by
  unfold endsBefore
  rw [twin.kind, twin.newline behind]

theorem ends_before_closing {kind : TokenKind} (closes : kind ∈ closing true) (same : u.kind = kind) :
    endsBefore u = true := by
  unfold endsBefore
  rw [same]
  simp only [closing, if_true, List.mem_cons, List.not_mem_nil, or_false] at closes
  rcases closes with rfl | rfl <;> rfl

/-- A statement ends with the same token in both scripts, or it ends without one. -/
theorem end_statement (behind : 0 < k) : x.Echoes true depth k 0 (fun _ => ()) endStatement endStatement := by
  refine .accept (by decide) (fun _ => .give rfl) ?_
  have ends : x.Echoes true depth k 0 (fun _ => ())
      (Grammar.peek >>= fun t => if endsBefore t then pure () else failAt t.span (.unexpectedToken t.lexeme))
      (Grammar.peek >>= fun t => if endsBefore t then pure () else failAt t.span (.unexpectedToken t.lexeme)) := by
    refine .peek_edge (fun t u found twin _ => ?_) fun t u found last closes => ?_
    · exact .ite (by rw [ends_before_of_twin twin behind]) (fun _ => .give rfl) fun _ => .fail _ _
    · rw [ends_before_closing closes rfl]
      by_cases done : endsBefore t = true
      · rw [if_pos done]
        exact .give rfl
      · rw [if_neg done]
        exact .fail _ _
  exact ends

end Echoes

end ScriptEngine.Grammar.Excerpt
