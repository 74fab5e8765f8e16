import ScriptEngine.Proofs.Excerpts.Unplaced
import ScriptEngine.Proofs.Scanning.Boundaries
import ScriptEngine.Proofs.Strictness.Standing
import ScriptEngine.Syntax.Grammar.Expression

/-!
Two scripts that have some tokens in common. What a reader makes of these in one script, it makes of them in the other
one as well, but for places: it depends on nothing but the tokens that it passes and on the functions that it is in, the
outermost only by being strict or not. The token behind those that are shared may be another one in the two scripts, as
long as nothing goes on with it. The rules that compose readers are here; those for tokens and for the grammar follow.
-/

namespace ScriptEngine

/-- What a token says wherever it stands. -/
def Token.face (t : Token) : TokenKind × String × Bool :=
  (t.kind, t.lexeme, t.legacyOctal)

namespace Grammar

variable {α β γ δ : Type}

/-- The tokens that nothing goes on with: they close what was opened before, or end the input. Statements do not end
before a parenthesis. -/
def closing (statements : Bool) : List TokenKind :=
  if statements then [.mark .closeBrace, .endOfInput] else [.mark .closeParen, .mark .closeBrace, .endOfInput]

theorem mem_closing {statements : Bool} {kind : TokenKind} (closes : kind ∈ closing statements) :
    kind ∈ closing false := by
  cases statements with
  | false => exact closes
  | true => exact List.mem_cons_of_mem _ closes

/-- Where a reader stands in its script, whatever is around. -/
def Script.Comes (script : Script) (i : Nat) (s : ReadingState) : Prop :=
  ∃ depths, script.At depths i s

/-- A token of one script says the same as one of another script, as far as it lies behind other text. The line break
before the first of such tokens is not told of. -/
structure Twin (before other : List Char) (k : Nat) (t u : Token) : Prop where
  kind : u.kind = t.kind
  lexeme : u.lexeme = t.lexeme
  legacyOctal : u.legacyOctal = t.legacyOctal
  newline : 0 < k → u.newlineBefore = t.newlineBefore
  start : ∃ n, t.span.start = byteLength before + n ∧ u.span.start = byteLength other + n
  stop : ∃ n, t.span.stop = byteLength before + n ∧ u.span.stop = byteLength other + n

theorem Twin.face {before other : List Char} {k : Nat} {t u : Token} (twin : Twin before other k t u) :
    t.face = u.face := by
  unfold Token.face
  rw [twin.kind, twin.lexeme, twin.legacyOctal]

/-- A text that two scripts share, and the tokens of it. -/
structure Excerpt where
  whole : Script
  part : Script
  text : List Char
  before : List Char
  behind : List Char
  before' : List Char
  behind' : List Char
  first : Nat
  place : Nat
  count : Nat
  source : whole.source = before ++ (text ++ behind)
  source' : part.source = before' ++ (text ++ behind')
  begins : byteLength before ≤ whole.startAt first
  twins : ∀ k t, k < count → whole.tokens[first + k]? = some t →
    t.span.stop ≤ byteLength before + byteLength text ∧
      ∃ u, part.tokens[place + k]? = some u ∧ Twin before before' k t u
  goesOn : first + count < whole.size
  edge : ∃ u, part.tokens[place + count]? = some u ∧ u.kind ∈ closing false

/-- What is known of functions under way, from the innermost outward, is the same in two scripts for some of them. Of
the next one it is the same whether it is strict. -/
inductive AlikeTo : Nat → List BodyState → List BodyState → Prop where
  | around {b b' : BodyState} {outer outer' : List BodyState} (strict : b.strict = b'.strict) :
      AlikeTo 0 (b :: outer) (b' :: outer')
  | inside {depth : Nat} {b b' : BodyState} {outer outer' : List BodyState} (same : b.unplaced = b'.unplaced)
      (further : AlikeTo depth outer outer') : AlikeTo (depth + 1) (b :: outer) (b' :: outer')

/-- A reader gives what is wanted, unless it breaks. -/
def Gives (result : Except Diagnostic (α × ReadingState)) (goal : α → ReadingState → Prop) : Prop :=
  (∃ d, result = .error d ∧ d.fault = .brokenReader) ∨ ∃ a t, result = .ok (a, t) ∧ goal a t

namespace Excerpt

variable (x : Excerpt)

/-- A token of the whole script and one of the part say the same. -/
abbrev Twins (k : Nat) (t u : Token) : Prop :=
  Twin x.before x.before' k t u

/-- A place in the part is that of one in the whole script. -/
def Same (n m : Nat) : Prop :=
  ∃ offset, n = byteLength x.before + offset ∧ m = byteLength x.before' + offset

/-- A reader has passed shared tokens only. If it has passed all of them, nothing goes on with the token behind. -/
structure Reaches (statements : Bool) (k : Nat) : Prop where
  inside : k ≤ x.count
  ended : k = x.count → ∃ u, x.part.tokens[x.place + x.count]? = some u ∧ u.kind ∈ closing statements

/-- Two readers stand at the same of the shared tokens. -/
structure Mirrors (depth k : Nat) (s s' : ReadingState) : Prop where
  inside : k ≤ x.count
  whole : x.whole.Comes (x.first + k) s
  part : x.part.Comes (x.place + k) s'
  bodies : AlikeTo depth (s.body :: s.outerBodies) (s'.body :: s'.outerBodies)

/-- A reader that passes tokens of the whole script is followed by another one in the part. It passes as many tokens at
least as is told here. -/
structure Echoes (statements : Bool) (depth k more : Nat) (view : α → β) (read read' : Reader α) : Prop where
  progress : ∀ s a t, x.whole.Comes (x.first + k) s → read s = .ok (a, t) →
    ∃ l, k + more ≤ l ∧ x.whole.Comes (x.first + l) t
  echo : ∀ s s' a t l, x.Mirrors depth k s s' → read s = .ok (a, t) → x.whole.Comes (x.first + l) t →
    x.Reaches statements l → Gives (read' s') fun a' t' => view a = view a' ∧ x.Mirrors depth l t t'

end Excerpt

/-! ## Places -/

section

variable {script : Script} {i j : Nat} {s : ReadingState} {t : Token}

theorem Script.Comes.current (here : script.Comes i s) : script.tokens[i]? = some s.current :=
  here.elim fun _ place => place.current

theorem Script.Comes.inside (here : script.Comes i s) : i < script.size :=
  here.elim fun _ place => place.inside

theorem Script.Comes.left (here : script.Comes i s) : script.tokens.drop i = s.current :: s.upcoming :=
  here.elim fun _ place => place.left

theorem Script.Comes.source (here : script.Comes i s) : s.source = script.source :=
  here.elim fun _ place => place.source

theorem Script.Comes.previous (here : script.Comes i s) : script.tokens[i - 1]? = some s.previous :=
  here.elim fun _ place => place.previous

/-- A reader stands at one token only. -/
theorem Script.Comes.unique (here : script.Comes i s) (there : script.Comes j s) : i = j := by
  have lengths := congrArg List.length (here.left.trans there.left.symm)
  have inside := here.inside
  have inside' := there.inside
  rw [List.length_drop, List.length_drop] at lengths
  rw [Script.size] at inside inside'
  omega

/-- Where a reader stands depends on the tokens that are left, and not on the functions around. -/
theorem Script.Comes.with_bodies (here : script.Comes i s) (body : BodyState) (outer : List BodyState) :
    script.Comes i { s with body := body, outerBodies := outer } := by
  obtain ⟨depths, place⟩ := here
  exact ⟨_, place.source, place.left, place.previous, rfl⟩

theorem Script.Comes.pass (here : script.Comes i s) (goesOn : s.current.kind ≠ .endOfInput) :
    script.Comes (i + 1) s.pass := by
  obtain ⟨depths, place⟩ := here
  exact ⟨depths, place.pass (by rw [place.kind]; simpa using goesOn)⟩

theorem pass_body (s : ReadingState) : s.pass.body = s.body := by
  obtain ⟨source, previous, current, upcoming, body, outerBodies⟩ := s
  cases upcoming <;> rfl

theorem pass_outer_bodies (s : ReadingState) : s.pass.outerBodies = s.outerBodies := by
  obtain ⟨source, previous, current, upcoming, body, outerBodies⟩ := s
  cases upcoming <;> rfl

theorem Script.Comes.stays (here : script.Comes i s) (ended : s.current.kind = .endOfInput) : s.pass = s := by
  obtain ⟨depths, place⟩ := here
  exact place.stays (by rw [place.kind, ended])

theorem Script.Comes.pass_previous (here : script.Comes i s) (goesOn : s.current.kind ≠ .endOfInput) :
    s.pass.previous = s.current :=
  Option.some.inj ((here.pass goesOn).previous.symm.trans here.current)

/-- The token behind the next one. -/
theorem Script.Comes.second (here : script.Comes i s) (goesOn : s.current.kind ≠ .endOfInput) :
    script.tokens[i + 1]? = some (s.tokenAt 1) := by
  obtain ⟨depths, place⟩ := here
  have stands : script.Stands s.codes i s := ⟨⟨depths, place⟩, rfl⟩
  exact stands.behind goesOn

/-- A reader may stand at any token. -/
theorem Script.exists_comes (found : script.tokens[i]? = some t) (body : BodyState) :
    ∃ s, script.Comes i s ∧ s.body = body := by
  have inside : i < script.size := (List.getElem?_eq_some_iff.mp found).1
  have before : i - 1 < script.size := Nat.lt_of_le_of_lt (Nat.sub_le i 1) inside
  obtain ⟨previous, last⟩ := Script.exists_token before
  have left : script.tokens.drop i = t :: script.tokens.drop (i + 1) := by
    obtain ⟨_, rfl⟩ := List.getElem?_eq_some_iff.mp found
    exact List.drop_eq_getElem_cons inside
  exact ⟨⟨script.source, previous, t, script.tokens.drop (i + 1), body, []⟩, ⟨_, rfl, left, last, rfl⟩, rfl⟩

end

/-! ## Composing readers -/

theorem Gives.bind {goal : α → ReadingState → Prop} {last : β → ReadingState → Prop} {read : Reader α}
    {rest : α → Reader β} {s : ReadingState} (first : Gives (read s) goal)
    (then_ : ∀ a t, goal a t → Gives (rest a t) last) : Gives ((read >>= rest) s) last := by
  have steps : (read >>= rest) s = read s >>= fun p => rest p.1 p.2 := rfl
  rw [steps]
  rcases first with ⟨d, same, fault⟩ | ⟨a, t, same, holds⟩
  · rw [same]
    exact .inl ⟨d, rfl, fault⟩
  · rw [same]
    exact then_ a t holds

/-- A run of two readers is one of the first and one of the second. -/
theorem ok_of_steps {read : Reader α} {rest : α → Reader β} {s t : ReadingState} {b : β}
    (done : (read >>= rest) s = .ok (b, t)) : ∃ a u, read s = .ok (a, u) ∧ rest a u = .ok (b, t) := by
  have steps : (read >>= rest) s = read s >>= fun p => rest p.1 p.2 := rfl
  rw [steps] at done
  cases first : read s with
  | error d =>
    rw [first] at done
    cases done
  | ok middle =>
    rw [first] at done
    exact ⟨middle.1, middle.2, rfl, done⟩

/-- The text up to the token passed last is given if it can be cut. -/
theorem source_from_some {start : Nat} {s : ReadingState} {part : List Char}
    (slice : Span.slice? ⟨start, s.previous.span.stop⟩ s.source = some part) :
    sourceFrom start s = .ok (String.ofList part, s) := by
  unfold sourceFrom
  dsimp only [bind, StateT.bind, get, getThe, MonadStateOf.get, StateT.get, pure, Except.pure, Except.bind]
  rw [slice]
  rfl

theorem slice_of_source_from {start : Nat} {s t : ReadingState} {text : String}
    (done : sourceFrom start s = .ok (text, t)) :
    s = t ∧ ∃ part, Span.slice? ⟨start, s.previous.span.stop⟩ s.source = some part ∧ text = String.ofList part := by
  cases slice : Span.slice? ⟨start, s.previous.span.stop⟩ s.source with
  | none =>
    unfold sourceFrom at done
    dsimp only [bind, StateT.bind, get, getThe, MonadStateOf.get, StateT.get, pure, Except.pure, Except.bind] at done
    rw [slice] at done
    cases done
  | some part =>
    rw [source_from_some slice] at done
    cases done
    exact ⟨rfl, part, rfl, rfl⟩

/-- A directive makes the code strict if it says so, once its text is cut. -/
theorem obey_directive_eq (t : Token) (s : ReadingState) : obeyDirective t s =
    ((t.span.slice? s.source).bind directiveText?).elim (broken s) fun text =>
      (if text == strictDirective then modifyBody fun b => { b with strict := true } else pure () : Reader Unit) s := by
  unfold obeyDirective
  dsimp only [bind, StateT.bind, get, getThe, MonadStateOf.get, StateT.get, pure, Except.pure, Except.bind]
  cases (t.span.slice? s.source).bind directiveText? <;> rfl

theorem AlikeTo.strict {depth : Nat} {bodies bodies' : List BodyState} (alike : AlikeTo depth bodies bodies') :
    ∃ b outer b' outer', bodies = b :: outer ∧ bodies' = b' :: outer' ∧ b.strict = b'.strict := by
  cases alike with
  | around strict => exact ⟨_, _, _, _, rfl, rfl, strict⟩
  | @inside _ b b' _ _ same _ =>
    have strict : b.unplaced.strict = b'.unplaced.strict := congrArg BodyState.strict same
    exact ⟨_, _, _, _, rfl, rfl, strict⟩

theorem AlikeTo.innermost {depth : Nat} {b b' : BodyState} {outer outer' : List BodyState}
    (alike : AlikeTo (depth + 1) (b :: outer) (b' :: outer')) : b.unplaced = b'.unplaced := by
  cases alike with
  | inside same further => exact same

theorem AlikeTo.outside {depth : Nat} {b b' : BodyState} {outer outer' : List BodyState}
    (alike : AlikeTo (depth + 1) (b :: outer) (b' :: outer')) : AlikeTo depth outer outer' := by
  cases alike with
  | inside same further => exact further

namespace Excerpt

variable {x : Excerpt} {statements : Bool} {depth k l m more : Nat} {view : α → γ} {seen : β → δ} {t u : Token}

theorem Reaches.earlier (reached : x.Reaches statements l) (order : k ≤ l) : x.Reaches statements k where
  inside := Nat.le_trans order reached.inside
  ended last := reached.ended (Nat.le_antisymm reached.inside (last ▸ order))

theorem reaches_inside (shared : k < x.count) : x.Reaches statements k :=
  ⟨Nat.le_of_lt shared, fun last => absurd shared (by omega)⟩

/-- Each token of the whole script from the first shared one on has a twin, which is the token of the part as far as
tokens are shared. -/
theorem exists_twin (found : x.whole.tokens[x.first + k]? = some t) :
    ∃ u, x.Twins k t u ∧ (k < x.count → x.part.tokens[x.place + k]? = some u) := by
  by_cases shared : k < x.count
  · obtain ⟨-, u, there, twin⟩ := x.twins k t shared found
    exact ⟨u, twin, fun _ => there⟩
  · have inside : x.first + k < x.whole.size := (List.getElem?_eq_some_iff.mp found).1
    have begins := Nat.le_trans x.begins (Script.start_mono (Nat.le_add_right x.first k) inside)
    rw [Script.start_at found] at begins
    have ordered := (Script.token_fits found).ordered
    let offset := fun n => byteLength x.before' + (n - byteLength x.before)
    let ghost : Token := { t with span := ⟨offset t.span.start, offset t.span.stop⟩ }
    refine ⟨ghost, ⟨rfl, rfl, rfl, fun _ => rfl, ?_, ?_⟩, fun within => absurd within shared⟩
    · exact ⟨t.span.start - byteLength x.before, by omega, rfl⟩
    · exact ⟨t.span.stop - byteLength x.before, by omega, rfl⟩

theorem Mirrors.current {s s' : ReadingState} (here : x.Mirrors depth k s s') (shared : k < x.count) :
    x.Twins k s.current s'.current := by
  obtain ⟨u, twin, there⟩ := exists_twin here.whole.current
  obtain rfl := Option.some.inj ((there shared).symm.trans here.part.current)
  exact twin

/-- No shared token ends the input. -/
theorem goes_on (shared : k < x.count) (found : x.whole.tokens[x.first + k]? = some t) : t.kind ≠ .endOfInput := by
  intro ended
  have inside : x.first + k < x.whole.size := (List.getElem?_eq_some_iff.mp found).1
  have last := (Script.end_of_input_iff inside).mp (by rw [Script.kind_at found, ended])
  have more := x.goesOn
  omega

/-- A shared token is passed in both scripts. -/
theorem Mirrors.pass {s s' : ReadingState} (here : x.Mirrors depth k s s') (shared : k < x.count) :
    x.Mirrors depth (k + 1) s.pass s'.pass := by
  have goesOn := goes_on shared here.whole.current
  have goesOn' : s'.current.kind ≠ .endOfInput := by
    rw [(here.current shared).kind]
    exact goesOn
  refine ⟨shared, here.whole.pass goesOn, here.part.pass goesOn', ?_⟩
  rw [pass_body, pass_outer_bodies, pass_body, pass_outer_bodies]
  exact here.bodies

theorem Mirrors.edge {s s' : ReadingState} (here : x.Mirrors depth k s s') (reached : x.Reaches statements k)
    (last : k = x.count) : s'.current.kind ∈ closing statements := by
  obtain ⟨u, there, closes⟩ := reached.ended last
  subst last
  obtain rfl := Option.some.inj (there.symm.trans here.part.current)
  exact closes

/-- The token passed last is a shared one. -/
theorem Mirrors.previous {s s' : ReadingState} (here : x.Mirrors depth k s s') (behind : 0 < k) :
    x.Twins (k - 1) s.previous s'.previous ∧ s.previous.span.stop ≤ byteLength x.before + byteLength x.text := by
  have inside := here.inside
  have whole := here.whole.previous
  have part := here.part.previous
  have one : x.first + k - 1 = x.first + (k - 1) := by omega
  have two : x.place + k - 1 = x.place + (k - 1) := by omega
  rw [one] at whole
  rw [two] at part
  obtain ⟨within, u, there, twin⟩ := x.twins (k - 1) s.previous (by omega) whole
  obtain rfl := Option.some.inj (there.symm.trans part)
  exact ⟨twin, within⟩

/-- The shared text is cut in both scripts alike. -/
theorem slice_shared {n m n' m' : Nat} {part : List Char} (start : x.Same n n') (stop : x.Same m m')
    (inside : m ≤ byteLength x.before + byteLength x.text)
    (slice : Span.slice? ⟨n, m⟩ x.whole.source = some part) : Span.slice? ⟨n', m'⟩ x.part.source = some part := by
  have fits : Span.Fits x.whole.source ⟨n, m⟩ := slice_is_some.mp (by rw [slice]; rfl)
  obtain ⟨front, cut, rest, same, place⟩ := fits_iff.mp fits
  obtain ⟨rfl, rfl⟩ := Span.mk.inj place
  obtain ⟨offset, counted, rfl⟩ := start
  obtain ⟨further, counted', rfl⟩ := stop
  rw [same, slice_of_parts, Option.some.injEq] at slice
  subst slice
  rw [x.source] at same
  obtain ⟨inner, rfl⟩ := exists_between same (by omega)
  rw [List.append_assoc, List.append_cancel_left_eq] at same
  rw [byteLength_append] at counted counted' inside
  have joined : (inner ++ cut) ++ rest = x.text ++ x.behind := by rw [List.append_assoc, same]
  obtain ⟨later, text⟩ := exists_between joined (by rw [byteLength_append]; omega)
  have source : x.part.source = (x.before' ++ inner) ++ (cut ++ (later ++ x.behind')) := by
    rw [x.source', text]
    simp only [List.append_assoc]
  have starts : byteLength x.before' + offset = byteLength (x.before' ++ inner) := by
    rw [byteLength_append]
    omega
  have stops : byteLength x.before' + further = byteLength (x.before' ++ inner) + byteLength cut := by
    rw [byteLength_append]
    omega
  rw [source, starts, stops, slice_of_parts]

namespace Echoes

variable {read read' other : Reader α} {rest rest' : α → Reader β}

theorem fewer {less : Nat} (order : less ≤ more) (echoes : x.Echoes statements depth k more view read read') :
    x.Echoes statements depth k less view read read' where
  progress s a t here done := by
    obtain ⟨l, further, there⟩ := echoes.progress s a t here done
    exact ⟨l, by omega, there⟩
  echo := echoes.echo

theorem idle (echoes : x.Echoes statements depth k more view read read') :
    x.Echoes statements depth k 0 view read read' :=
  echoes.fewer (Nat.zero_le more)

/-- What takes a token at least takes none at least. -/
theorem moving (echoes : x.Echoes statements depth k 1 view read read') :
    x.Echoes statements depth k 0 view read read' :=
  echoes.idle

/-- What is told wherever shared tokens end is told where statements end. -/
theorem lax (echoes : x.Echoes false depth k more view read read') :
    x.Echoes statements depth k more view read read' where
  progress := echoes.progress
  echo s s' a t l here done there reached :=
    echoes.echo s s' a t l here done there ⟨reached.inside, fun _ => x.edge⟩

/-- What is passed is passed by both readers together. -/
theorem bind_both {passed : Nat} (first : x.Echoes statements depth k passed view read read')
    (then_ : ∀ a a' l, k + passed ≤ l → view a = view a' → x.Echoes statements depth l more seen (rest a) (rest' a')) :
    x.Echoes statements depth k (passed + more) seen (read >>= rest) (read' >>= rest') where
  progress s b t here done := by
    obtain ⟨a, u, begun, ended⟩ := ok_of_steps done
    obtain ⟨l, order, there⟩ := first.progress s a u here begun
    obtain ⟨m, further, last⟩ := (then_ a a l order rfl).progress u b t there ended
    exact ⟨m, by omega, last⟩
  echo s s' b t m here done last reached := by
    obtain ⟨a, u, begun, ended⟩ := ok_of_steps done
    obtain ⟨l, order, there⟩ := first.progress s a u here.whole begun
    obtain ⟨n, further, place⟩ := (then_ a a l order rfl).progress u b t there ended
    have same := place.unique last
    have before : l ≤ m := by omega
    refine (first.echo s s' a u l here begun there (reached.earlier before)).bind fun a' u' goal => ?_
    exact (then_ a a' l order goal.1).echo u u' b t m goal.2 ended last reached

theorem bind {passed : Nat} (first : x.Echoes statements depth k passed view read read')
    (then_ : ∀ a a' l, k + passed ≤ l → view a = view a' → x.Echoes statements depth l more seen (rest a) (rest' a')) :
    x.Echoes statements depth k more seen (read >>= rest) (read' >>= rest') where
  progress s b t here done := by
    obtain ⟨l, order, there⟩ := (bind_both first then_).progress s b t here done
    exact ⟨l, by omega, there⟩
  echo := (bind_both first then_).echo

/-- Each of the readers passes a token. -/
theorem bind_two (first : x.Echoes statements depth k 1 view read read')
    (then_ : ∀ a a' l, k + 1 ≤ l → view a = view a' → x.Echoes statements depth l 1 seen (rest a) (rest' a')) :
    x.Echoes statements depth k 2 seen (read >>= rest) (read' >>= rest') :=
  bind_both first then_

/-- What the first reader passes is enough. -/
theorem bind_first (first : x.Echoes statements depth k more view read read')
    (then_ : ∀ a a' l, k + more ≤ l → view a = view a' → x.Echoes statements depth l 0 seen (rest a) (rest' a')) :
    x.Echoes statements depth k more seen (read >>= rest) (read' >>= rest') :=
  bind_both first then_

/-- What is known of the run of each reader may be used behind it. -/
theorem bind_where (first : x.Echoes statements depth k more view read read') (known known' : α → Prop)
    (whole : ∀ s a t, x.whole.Comes (x.first + k) s → read s = .ok (a, t) → known a)
    (part : k + more ≤ x.count → ∀ s a t, x.part.Comes (x.place + k) s → read' s = .ok (a, t) → known' a)
    (twin : ∀ a, ∃ a', view a = view a' ∧ known' a')
    (then_ : ∀ a a' l, k + more ≤ l → view a = view a' → known a → known' a' →
      x.Echoes statements depth l 0 seen (rest a) (rest' a')) :
    x.Echoes statements depth k more seen (read >>= rest) (read' >>= rest') where
  progress s b t here done := by
    obtain ⟨a, u, begun, ended⟩ := ok_of_steps done
    obtain ⟨l, order, there⟩ := first.progress s a u here begun
    obtain ⟨a', same, holds⟩ := twin a
    obtain ⟨m, further, last⟩ := (then_ a a' l order same (whole s a u here begun) holds).progress u b t there ended
    exact ⟨m, by omega, last⟩
  echo s s' b t m here done last reached := by
    obtain ⟨a, u, begun, ended⟩ := ok_of_steps done
    have holds := whole s a u here.whole begun
    obtain ⟨l, order, there⟩ := first.progress s a u here.whole begun
    obtain ⟨a₂, same₂, holds₂⟩ := twin a
    obtain ⟨n, further, place⟩ := (then_ a a₂ l order same₂ holds holds₂).progress u b t there ended
    have same := place.unique last
    have before : l ≤ m := by omega
    have steps : (read' >>= rest') s' = read' s' >>= fun p => rest' p.1 p.2 := rfl
    rw [steps]
    have echo := first.echo s s' a u l here begun there (reached.earlier before)
    rcases echo with ⟨d, failed, fault⟩ | ⟨a', u', passes, goal⟩
    · rw [failed]
      exact .inl ⟨d, rfl, fault⟩
    · rw [passes]
      have inside := reached.inside
      have holds' := part (by omega) s' a' u' here.part passes
      exact (then_ a a' l order goal.1 holds holds').echo u u' b t m goal.2 ended last reached

/-- What the first reader passes may be statements that are enclosed by what the second one passes. -/
theorem bind_inside {passed : Nat} (first : x.Echoes true depth k passed view read read')
    (then_ : ∀ a a' l, k + passed ≤ l → view a = view a' →
      x.Echoes statements depth l (more + 1) seen (rest a) (rest' a')) :
    x.Echoes statements depth k (more + 1) seen (read >>= rest) (read' >>= rest') where
  progress s b t here done := by
    obtain ⟨a, u, begun, ended⟩ := ok_of_steps done
    obtain ⟨l, order, there⟩ := first.progress s a u here begun
    obtain ⟨m, further, last⟩ := (then_ a a l order rfl).progress u b t there ended
    exact ⟨m, by omega, last⟩
  echo s s' b t m here done last reached := by
    obtain ⟨a, u, begun, ended⟩ := ok_of_steps done
    obtain ⟨l, order, there⟩ := first.progress s a u here.whole begun
    obtain ⟨n, further, place⟩ := (then_ a a l order rfl).progress u b t there ended
    have same := place.unique last
    have inside := reached.inside
    refine (first.echo s s' a u l here begun there (reaches_inside (by omega))).bind fun a' u' goal => ?_
    exact (then_ a a' l order goal.1).echo u u' b t m goal.2 ended last reached

theorem give {a a' : α} (same : view a = view a') : x.Echoes statements depth k 0 view (pure a) (pure a') where
  progress s b t here done := by
    cases done
    exact ⟨k, Nat.le_refl k, here⟩
  echo s s' b t l here done there _ := by
    cases done
    have place := here.whole.unique there
    obtain rfl : k = l := by omega
    exact .inr ⟨a', s', rfl, same, here⟩

theorem map {f : α → β} (echoes : x.Echoes statements depth k more view read read')
    (same : ∀ a a', view a = view a' → seen (f a) = seen (f a')) :
    x.Echoes statements depth k more seen (f <$> read) (f <$> read') := by
  rw [map_eq_pure_bind, map_eq_pure_bind]
  exact echoes.bind_first fun a a' _ _ alike => give (same a a' alike)

/-- Nothing is said of what is not read. -/
theorem of_fails (fails : ∀ s a t, read s ≠ .ok (a, t)) : x.Echoes statements depth k more view read other :=
  ⟨fun s a t _ done => absurd done (fails s a t), fun s _ a t _ _ done => absurd done (fails s a t)⟩

theorem fail (span : Span) (fault : SyntaxFault) : x.Echoes statements depth k more view (failAt span fault) other :=
  of_fails fun _ _ _ done => by cases done

theorem fail_then (span : Span) (fault : SyntaxFault) {other : Reader β} :
    x.Echoes statements depth k more seen (failAt span fault >>= rest) other :=
  of_fails fun _ _ _ done => by cases done

theorem fail_here (fault : SyntaxFault) : x.Echoes statements depth k more view (failHere fault) other :=
  of_fails fun _ _ _ done => by cases done

theorem fail_here_then (fault : SyntaxFault) {other : Reader β} :
    x.Echoes statements depth k more seen (failHere fault >>= rest) other :=
  of_fails fun _ _ _ done => by cases done

theorem broken : x.Echoes statements depth k more view broken other :=
  fail_here _

/-- A reader that breaks may follow any other. -/
theorem breaks (echoes : x.Echoes statements depth k more view read read') :
    x.Echoes statements depth k more view read Grammar.broken where
  progress := echoes.progress
  echo _ s' _ _ _ _ _ _ _ := .inl ⟨⟨.parsing, .brokenReader, s'.current.span, []⟩, rfl, rfl⟩

/-- A list is read with a bound on its length, which breaks the reader if it is too small. -/
theorem of_fuel (bounded : Nat → Reader α) (zero : bounded 0 = Grammar.broken)
    (succ : ∀ fuel, x.Echoes statements depth k more view read (bounded (fuel + 1))) (fuel : Nat) :
    x.Echoes statements depth k more view read (bounded fuel) := by
  cases fuel with
  | zero =>
    rw [zero]
    exact (succ 0).breaks
  | succ fuel => exact succ fuel

/-- Behind the shared tokens any reader may follow. -/
theorem past (echoes : x.Echoes statements depth k more view read read') (beyond : x.count < k + more) :
    x.Echoes statements depth k more view read other where
  progress := echoes.progress
  echo s s' a t l here done there reached := by
    obtain ⟨n, order, place⟩ := echoes.progress s a t here.whole done
    have same := there.unique place
    have inside := reached.inside
    omega

theorem ite {c c' : Prop} [Decidable c] [Decidable c'] {yes yes' no no' : Reader α} (same : c ↔ c')
    (taken : c → x.Echoes statements depth k more view yes yes')
    (left : ¬ c → x.Echoes statements depth k more view no no') :
    x.Echoes statements depth k more view (if c then yes else no) (if c' then yes' else no') := by
  by_cases holds : c
  · rw [if_pos holds, if_pos (same.mp holds)]
    exact taken holds
  · rw [if_neg holds, if_neg (mt same.mpr holds)]
    exact left holds

/-- What is known of the end of the run may be used before. -/
theorem foresee (goal : Nat → Prop)
    (covers : ∀ s a t, x.whole.Comes (x.first + k) s → read s = .ok (a, t) →
      ∃ l, k + more ≤ l ∧ x.whole.Comes (x.first + l) t ∧ goal l)
    (echoes : ∀ l, goal l → x.Reaches statements l → x.Echoes statements depth k m view read read') :
    x.Echoes statements depth k more view read read' where
  progress s a t here done := by
    obtain ⟨l, order, there, -⟩ := covers s a t here done
    exact ⟨l, order, there⟩
  echo s s' a t l here done there reached := by
    obtain ⟨n, -, place, holds⟩ := covers s a t here.whole done
    have same := there.unique place
    obtain rfl : l = n := by omega
    exact (echoes l holds reached).echo s s' a t l here done there reached

end Echoes

end Excerpt
end Grammar
end ScriptEngine
