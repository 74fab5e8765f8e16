import ScriptEngine.Proofs.Strictness.Standing

/-!
The front of a body and what it makes of the rest. The strings that stand alone at the front of a body are read before
it is known whether one of them makes the body strict, so that an octal one among them has its place as a directive
and not as a literal. Behind the front the body stays what it is.
-/

namespace ScriptEngine.Grammar.Script

open Scanning

variable {script : Script}

/-! ## The text of a directive -/

theorem directive_text_quoted {quote : Char} (inside : List Char) (quotes : quote = '"' ∨ quote = '\'') :
    directiveText? (quote :: (inside ++ [quote])) = some inside := by
  have one : byteLength [quote] = 1 := by
    rcases quotes with rfl | rfl <;> rfl
  have parts := slice_of_parts [quote] inside [quote]
  have length : byteLength (quote :: (inside ++ [quote])) = 2 + byteLength inside := by
    rw [← List.singleton_append, byteLength_append, byteLength_append, one]
    omega
  rw [one] at parts
  rw [directiveText?, if_neg (by omega), length, ← List.singleton_append]
  convert parts using 3
  omega

/-- The text between the quotes of a string decides whether it makes code strict. -/
theorem says_strict_iff {t : Token} (known : t ∈ script.tokens) (kind : t.kind = .string) :
    ∃ inside, (t.span.slice? script.source).bind directiveText? = some inside ∧
      (script.SaysStrict t ↔ inside = strictDirective) := by
  obtain ⟨quote, inside, quotes, slice⟩ := script.lossless.strings t known kind
  refine ⟨inside, ?_, ?_⟩
  · rw [slice, Option.bind_some, directive_text_quoted inside quotes]
  · constructor
    · rintro ⟨other, -, same⟩
      rw [slice] at same
      obtain ⟨rfl, rest⟩ := List.cons.inj (Option.some.inj same)
      exact List.append_cancel_right rest
    · rintro rfl
      exact ⟨quote, quotes, slice⟩

section

variable {strict : Bool} {outer : List Bool} {i : Nat} {t : Token}

/-- The directive that is written so makes the innermost function strict, and no other one does. -/
theorem leads_obey_directive (known : t ∈ script.tokens) (kind : t.kind = .string) :
    Leads (script.Stands (strict :: outer) i)
      (fun _ s => ∃ ended, script.Stands (ended :: outer) i s ∧
        (ended = true ↔ strict = true ∨ script.SaysStrict t)) (obeyDirective t) fun _ => True := by
  obtain ⟨inside, text, told⟩ := says_strict_iff known kind
  refine .bind .get fun s here => ?_
  obtain ⟨depths, place⟩ := here.place
  rw [place.source, text]
  by_cases strictly : inside = strictDirective
  · simp only [strictly, BEq.rfl, if_true]
    refine .modify fun s here => ⟨true, ?_, by simp [told.mpr strictly]⟩
    obtain ⟨depths, place⟩ := here.place
    exact ⟨⟨_, place.source, place.left, place.previous, rfl⟩, congrArg (true :: ·) (List.cons.inj here.codes).2⟩
  · simp only [beq_iff_eq, strictly, if_false]
    exact .give (fun s here => ⟨strict, here, by simp [mt told.mp strictly]⟩) trivial

end

/-! ## Bodies -/

/-- A statement was read that begins at a token, wherever it stands. -/
structure FoundStmt (script : Script) (strict : Bool) (i : Nat) (s : Stmt) (j : Nat) : Prop where
  start : s.span.start = script.startAt i
  found : ∀ place, script.Found strict i j [.stmt place s]

/-- The rest of a body was read, at the front of the body or behind it. It was begun in code that is strict or not,
and has ended as such code. -/
structure FoundBody (script : Script) (place : Place) (strict ended inFront : Bool) (i j : Nat)
    (body : List Stmt) : Prop where
  flag : ended = true ↔ strict = true ∨ inFront = true ∧ script.MakesStrict body
  lawful : ∀ s ∈ body, script.Lawful ended (.stmt place s)
  between : script.Between i j fun t => (∃ s ∈ body, script.Places t ended (.stmt place s)) ∨
    inFront = true ∧ strict = false ∧ script.LeadsIn t body

section

variable {place : Place} {strict now ended inFront : Bool} {i j k : Nat} {s : Stmt} {body : List Stmt} {t : Token}

theorem found_no_body : script.FoundBody place strict strict inFront i i [] where
  flag := by simp [MakesStrict]
  lawful := List.forall_mem_nil _
  between := between_here

/-- A string that is a whole statement is a directive. -/
theorem directs_of_is_directive (found : script.tokens[i]? = some t) (first : script.FoundStmt strict i s j)
    (kind : t.kind = .string) (directive : isDirective t s = true) : script.Directs s t := by
  refine ⟨List.mem_of_getElem? found, kind, first.start.trans (start_at found), ?_⟩
  unfold isDirective at directive
  split at directive
  · next value span form =>
    obtain rfl := beq_iff_eq.mp directive
    exact ⟨value, form⟩
  · cases directive

/-- A directive is the string with which it begins. -/
theorem is_directive_of_directs {d : Token} (found : script.tokens[i]? = some t) (goesOn : t.kind ≠ .endOfInput)
    (first : script.FoundStmt strict i s j) (directs : script.Directs s d) :
    t = d ∧ isDirective t s = true := by
  obtain ⟨known, kind, start, value, form⟩ := directs
  obtain rfl : t = d := by
    refine token_of_start (List.mem_of_getElem? found) known ?_ goesOn (by simp [kind])
    rw [← start, first.start, start_at found]
  refine ⟨rfl, ?_⟩
  simp [isDirective, form]

/-- Behind the front of a body nothing changes. -/
theorem FoundBody.behind (first : script.FoundStmt strict i s j) (rest : script.FoundBody place strict ended false j k body)
    (other : inFront = true → ∀ d, ¬ script.Directs s d) :
    script.FoundBody place strict ended inFront i k (s :: body) := by
  obtain rfl : ended = strict := Bool.eq_iff_iff.mpr (by simpa using rest.flag)
  have here := first.found place
  refine ⟨?_, List.forall_mem_cons.mpr ⟨here.lawful _ (.head _), rest.lawful⟩, ?_⟩
  · refine ⟨.inl, fun strict => strict.elim id ?_⟩
    rintro ⟨front, d, directs, -⟩
    exact absurd directs (other front d)
  · refine (here.between.and rest.between).weaken fun t _ _ places => .inl ?_
    rcases places with ⟨n, mem, places⟩ | ⟨next, mem, places⟩ | ⟨front, -⟩
    · obtain rfl := List.mem_singleton.mp mem
      exact ⟨s, .head _, places⟩
    · exact ⟨next, .tail _ mem, places⟩
    · cases front

/-- A directive may change what the body is. -/
theorem FoundBody.directive (directs : script.Directs s t) (first : script.FoundStmt strict i s j)
    (obeyed : now = true ↔ strict = true ∨ script.SaysStrict t)
    (rest : script.FoundBody place now ended true j k body) :
    script.FoundBody place strict ended true i k (s :: body) := by
  refine ⟨?_, List.forall_mem_cons.mpr ⟨directs.lawful, rest.lawful⟩, ?_⟩
  · rw [rest.flag, obeyed]
    constructor
    · rintro ((before | told) | ⟨-, later⟩)
      · exact .inl before
      · exact .inr ⟨rfl, t, directs, .inl told⟩
      · exact .inr ⟨rfl, t, directs, .inr later⟩
    · rintro (before | ⟨-, d, same, told | later⟩)
      · exact .inl (.inl before)
      · exact .inl (.inr (directs.unique same ▸ told))
      · exact .inr ⟨rfl, later⟩
  · refine ((first.found place).between.and rest.between).weaken fun u known octal places => ?_
    rcases places with ⟨n, mem, places⟩ | ⟨next, mem, places⟩ | ⟨-, sloppy, leads⟩
    · obtain rfl := List.mem_singleton.mp mem
      obtain ⟨sloppy, rfl⟩ := directs.places known octal places
      exact .inr ⟨rfl, sloppy, .inl directs⟩
    · exact .inl ⟨next, .tail _ mem, places⟩
    · have neither := mt obeyed.mpr (Bool.eq_false_iff.mp sloppy)
      rw [not_or, Bool.not_eq_true] at neither
      exact .inr ⟨rfl, neither.1, .inr ⟨⟨t, directs, neither.2⟩, leads⟩⟩

variable {rules : Rules} {outer : List Bool}

/-- The statements of a body are read up to its end. -/
theorem leads_body_items (item : ∀ strict i, script.Covers (strict :: outer) i rules.item (script.FoundStmt strict i))
    (place : Place) (fuel : Nat) (stop : TokenKind) (done : List Stmt) :
    Leads (script.Stands (strict :: outer) i)
      (fun body s => ∃ ended j, script.Stands (ended :: outer) j s ∧
        (script.kindAt j = some stop ∨ script.kindAt j = some .endOfInput) ∧
        ∃ later, body = done.reverse ++ later ∧ script.FoundBody place strict ended inFront i j later)
      (bodyItems rules fuel stop inFront done) fun _ => True := by
  induction fuel generalizing strict inFront i done with
  | zero => exact .broken
  | succ fuel ih =>
    refine covers_peek.leads fun token j there => ?_
    obtain ⟨rfl, found⟩ := there
    split
    · next stops =>
      rw [Bool.or_eq_true, beq_iff_eq, beq_iff_eq] at stops
      have kinds : script.kindAt j = some stop ∨ script.kindAt j = some .endOfInput := by
        simpa only [kind_at found, Option.some.injEq] using stops
      exact .give (fun s here => ⟨strict, j, here, kinds, [], by simp, found_no_body⟩) trivial
    · next goesOn =>
      refine (item strict j).leads fun s k first => ?_
      extract_lets directive rest
      rw [Bool.or_eq_true, beq_iff_eq, beq_iff_eq, not_or] at goesOn
      -- What holds of the rest, whatever the body is by then and whether its front goes on, holds of the whole.
      have later {now inFront' : Bool} (adds : ∀ ended l later, script.FoundBody place now ended inFront' k l later →
          script.FoundBody place strict ended inFront j l (s :: later)) :
          Leads (script.Stands (now :: outer) k)
            (fun body s => ∃ ended l, script.Stands (ended :: outer) l s ∧
              (script.kindAt l = some stop ∨ script.kindAt l = some .endOfInput) ∧
              ∃ later, body = done.reverse ++ later ∧ script.FoundBody place strict ended inFront j l later)
            (bodyItems rules fuel stop inFront' (s :: done)) fun _ => True := by
        intro state body next read here
        obtain ⟨⟨ended, l, there, kinds, later, rfl, others⟩, -⟩ := ih (s :: done) state body next read here
        exact ⟨⟨ended, l, there, kinds, s :: later, by simp, adds ended l later others⟩, trivial⟩
      by_cases directed : directive = true
      · rw [if_pos directed]
        have parts := directed
        rw [Bool.and_eq_true, Bool.and_eq_true, beq_iff_eq] at parts
        obtain ⟨⟨front, kind⟩, whole⟩ := parts
        have directs := directs_of_is_directive found first kind whole
        refine (leads_obey_directive directs.1 kind).bind fun _ _ state body next read there => ?_
        obtain ⟨now, here, obeyed⟩ := there
        refine later (fun ended l later others => ?_) state body next read here
        rw [directed] at others
        exact front ▸ .directive directs first obeyed others
      · rw [if_neg directed]
        refine later fun ended l later others => ?_
        rw [Bool.eq_false_iff.mpr directed] at others
        refine .behind first others fun front d directs => directed ?_
        obtain ⟨rfl, whole⟩ := is_directive_of_directs found goesOn.2 first directs
        rw [Bool.and_eq_true, Bool.and_eq_true, beq_iff_eq]
        exact ⟨⟨front, directs.2.1⟩, whole⟩

end

end ScriptEngine.Grammar.Script
