import ScriptEngine.Proofs.Jumps.Reading
import ScriptEngine.Proofs.Reading.Position
import ScriptEngine.Syntax.Grammar.Expression

/-!
Parentheses that are closed again. Whether an arrow function begins at a parenthesis is decided by the token behind the
one that closes it, and this is found by counting. Tokens that are read as a part of a program leave the count as it
is, whatever it is and whatever follows them.
-/

namespace ScriptEngine

/-- The token neither opens nor closes a parenthesis, nor ends the input. -/
structure TokenKind.IsFlat (kind : TokenKind) : Prop where
  opens : kind ≠ .mark .openParen
  closes : kind ≠ .mark .closeParen
  ends : kind ≠ .endOfInput

instance {kind : TokenKind} : Decidable kind.IsFlat :=
  decidable_of_iff (kind ≠ .mark .openParen ∧ kind ≠ .mark .closeParen ∧ kind ≠ .endOfInput)
    ⟨fun ⟨opens, closes, ends⟩ => ⟨opens, closes, ends⟩, fun flat => ⟨flat.opens, flat.closes, flat.ends⟩⟩

namespace Grammar

/-- How many parentheses are open behind tokens, some of which were before. There is no answer if the last one is
closed, or if the input ends. -/
def openBehind (depth : Nat) : List TokenKind → Option Nat
  | [] => some depth
  | kind :: rest =>
    if kind = .mark .openParen then openBehind (depth + 1) rest
    else if kind = .mark .closeParen then if depth ≤ 1 then none else openBehind (depth - 1) rest
    else if kind = .endOfInput then none
    else openBehind depth rest

/-! ## Counting -/

theorem open_behind_append (depth : Nat) (kinds rest : List TokenKind) :
    openBehind depth (kinds ++ rest) = (openBehind depth kinds).bind fun depth => openBehind depth rest := by
  induction kinds generalizing depth with
  | nil => rfl
  | cons kind kinds ih =>
    simp only [List.cons_append, openBehind, ih]
    split
    · rfl
    · split
      · split <;> rfl
      · split <;> rfl

theorem open_behind_flat {kind : TokenKind} (flat : kind.IsFlat) (depth : Nat) :
    openBehind depth [kind] = some depth := by
  simp [openBehind, flat.opens, flat.closes, flat.ends]

/-- Tokens between parentheses leave the count as it is if the ones inside do. -/
theorem open_behind_enclosed {kinds : List TokenKind}
    (inside : ∀ depth, openBehind (depth + 1) kinds = some (depth + 1)) (depth : Nat) :
    openBehind depth (.mark .openParen :: (kinds ++ [.mark .closeParen])) =
      if depth = 0 then none else some depth := by
  rw [openBehind, if_pos rfl, open_behind_append, inside]
  by_cases outside : depth = 0
  · subst outside
    rfl
  · have deep : ¬ depth + 1 ≤ 1 := by omega
    simp [openBehind, outside]

section

variable {t : Token}

theorem arrow_follows_open (opens : t.kind = .mark .openParen) (depth : Nat) (rest : List Token) :
    arrowFollows? depth (t :: rest) = arrowFollows? (depth + 1) rest := by
  conv_lhs => unfold arrowFollows?
  simp only [opens]

theorem arrow_follows_close (closes : t.kind = .mark .closeParen) (depth : Nat) (rest : List Token) :
    arrowFollows? (depth + 2) (t :: rest) = arrowFollows? (depth + 1) rest := by
  conv_lhs => unfold arrowFollows?
  simp only [closes]

/-- The token behind the last parenthesis decides. -/
theorem arrow_follows_last (closes : t.kind = .mark .closeParen) (rest : List Token) :
    arrowFollows? 1 (t :: rest) =
      some (rest.head?.any fun next => next.kind == .mark .arrow && !next.newlineBefore) := by
  conv_lhs => unfold arrowFollows?
  simp only [closes]

theorem arrow_follows_flat (flat : t.kind.IsFlat) (depth : Nat) (rest : List Token) :
    arrowFollows? depth (t :: rest) = arrowFollows? depth rest := by
  conv_lhs => unfold arrowFollows?
  split
  · exact absurd ‹t.kind = .mark .openParen› flat.opens
  · exact absurd ‹t.kind = .mark .closeParen› flat.closes
  · exact absurd ‹t.kind = .mark .closeParen› flat.closes
  · exact absurd ‹t.kind = .mark .closeParen› flat.closes
  · exact absurd ‹t.kind = .endOfInput› flat.ends
  · rfl

end

/-- The search for an arrow goes on behind tokens that leave parentheses open. -/
theorem arrow_follows_behind {depth left : Nat} {passed : List Token}
    (counted : openBehind (depth + 1) (passed.map (·.kind)) = some left) (rest : List Token) :
    arrowFollows? (depth + 1) (passed ++ rest) = arrowFollows? left rest := by
  induction passed generalizing depth with
  | nil =>
    cases counted
    rfl
  | cons t passed ih =>
    simp only [List.map_cons, openBehind] at counted
    rw [List.cons_append]
    by_cases opens : t.kind = .mark .openParen
    · rw [if_pos opens] at counted
      rw [arrow_follows_open opens, ih counted]
    rw [if_neg opens] at counted
    by_cases closes : t.kind = .mark .closeParen
    · rw [if_pos closes] at counted
      cases depth with
      | zero => cases counted
      | succ depth =>
        rw [if_neg (by omega)] at counted
        rw [arrow_follows_close closes, ih counted]
    rw [if_neg closes] at counted
    by_cases ends : t.kind = .endOfInput
    · rw [if_pos ends] at counted
      cases counted
    · rw [if_neg ends] at counted
      rw [arrow_follows_flat ⟨opens, closes, ends⟩, ih counted]

/-- Behind parentheses that are closed again the next token decides. -/
theorem arrow_follows_enclosed {opening closing : Token} {inside : List Token}
    (opens : opening.kind = .mark .openParen) (closes : closing.kind = .mark .closeParen)
    (balanced : ∀ depth, openBehind (depth + 1) (inside.map (·.kind)) = some (depth + 1)) (rest : List Token) :
    arrowFollows? 0 (opening :: (inside ++ closing :: rest)) =
      some (rest.head?.any fun next => next.kind == .mark .arrow && !next.newlineBefore) := by
  rw [arrow_follows_open opens, arrow_follows_behind (balanced 0), arrow_follows_last closes]

/-! ## Where an arrow function begins -/

/-- An expression without commas that is no arrow function. -/
def assigned (rules : Rules) (noIn : Bool) (start : Nat) : Reader Expr := do
  let target ← conditional rules noIn
  match assignOp? (← peek).kind with
  | none => return target
  | some op =>
    checkTarget target
    discard advance
    let value ← rules.assignment noIn
    return ⟨.assign op target value, ← spanFrom start⟩

/-- To look for an arrow passes nothing. -/
theorem at_parameter_list_stays {s t : ReadingState} {found : Bool} (looked : atParameterList s = .ok (found, t)) :
    t = s := by
  have stays : Leads (· = s) (fun _ => (· = s)) atParameterList fun _ => True := by
    refine .bind .get fun u _ => .ite ?_ (.pure trivial)
    split
    · exact .pure trivial
    · exact .broken
  exact (stays s found t looked rfl).1

/-- The first tokens tell which kind of expression without commas is read. -/
theorem assignment_eq (rules : Rules) (noIn : Bool) (s : ReadingState) :
    assignment rules noIn s =
      if s.atSingleParameter then
        (do arrowRest rules [(← bindingName "parameter name", s.current)] s.current.span.start : Reader Expr) s
      else match atParameterList s with
        | .error d => .error d
        | .ok (true, t) => (do arrowRest rules (← parameterList rules) s.current.span.start : Reader Expr) t
        | .ok (false, t) => assigned rules noIn s.current.span.start t := by
  have unfolded : assignment rules noIn s =
      (if s.atSingleParameter then do arrowRest rules [(← bindingName "parameter name", s.current)] s.current.span.start
      else do
        if ← atParameterList then arrowRest rules (← parameterList rules) s.current.span.start
        else assigned rules noIn s.current.span.start : Reader Expr) s := rfl
  rw [unfolded]
  split
  · rfl
  · have listed (read : Bool → Reader Expr) : (atParameterList >>= read) s =
        match atParameterList s with
        | .error d => .error d
        | .ok (b, t) => read b t := by
      change (atParameterList s >>= fun p => read p.1 p.2) = _
      cases atParameterList s <;> rfl
    rw [listed]
    rcases atParameterList s with d | ⟨_ | _, t⟩ <;> rfl

/-! ## Tokens of a script -/

namespace Script

variable (script : Script)

/-- The kinds of the tokens from one to another, which is not reached. -/
def kinds (i j : Nat) : List TokenKind :=
  ((script.tokens.drop i).take (j - i)).map (·.kind)

/-- Between two tokens all parentheses are closed that are opened, and no others. -/
structure Balanced (i j : Nat) : Prop where
  forward : i ≤ j
  inside : j < script.size
  closed : ∀ depth, openBehind (depth + 1) (script.kinds i j) = some (depth + 1)

variable {script} {i j k : Nat} {kind : TokenKind}

theorem kinds_here : script.kinds i i = [] := by
  simp [kinds]

theorem kinds_next (found : script.kindAt i = some kind) : script.kinds i (i + 1) = [kind] := by
  obtain ⟨t, there, rfl⟩ := Option.map_eq_some_iff.mp found
  simp [kinds, List.take_one, there]

theorem kinds_append (first : i ≤ j) (second : j ≤ k) : script.kinds i k = script.kinds i j ++ script.kinds j k := by
  obtain ⟨m, rfl⟩ := Nat.exists_eq_add_of_le first
  obtain ⟨n, rfl⟩ := Nat.exists_eq_add_of_le second
  have one : i + m + n - i = m + n := by omega
  have two : i + m - i = m := by omega
  have three : i + m + n - (i + m) = n := by omega
  rw [kinds, kinds, kinds, one, two, three, List.take_add, List.map_append, List.drop_drop]

theorem inside_next (found : script.kindAt i = some kind) (goesOn : kind ≠ .endOfInput) : i + 1 < script.size := by
  obtain ⟨t, there, rfl⟩ := Option.map_eq_some_iff.mp found
  have inside : i < script.size := (List.getElem?_eq_some_iff.mp there).1
  have last := mt (end_of_input_iff inside).mpr
  rw [found, Option.some.injEq] at last
  have next := last goesOn
  omega

theorem balanced_here (inside : i < script.size) : script.Balanced i i :=
  ⟨Nat.le_refl i, inside, fun depth => by rw [kinds_here]; rfl⟩

theorem balanced_next (found : script.kindAt i = some kind) (flat : kind.IsFlat) : script.Balanced i (i + 1) where
  forward := Nat.le_succ i
  inside := inside_next found flat.ends
  closed depth := by rw [kinds_next found, open_behind_flat flat]

theorem Balanced.and (first : script.Balanced i j) (second : script.Balanced j k) : script.Balanced i k where
  forward := Nat.le_trans first.forward second.forward
  inside := second.inside
  closed depth := by
    rw [kinds_append first.forward second.forward, open_behind_append, first.closed, Option.bind_some, second.closed]

/-- The tokens from a parenthesis on that is opened to the one that closes it. -/
theorem kinds_enclosed (opens : script.kindAt i = some (.mark .openParen)) (inside : script.Balanced (i + 1) j)
    (closes : script.kindAt j = some (.mark .closeParen)) :
    script.kinds i (j + 1) = .mark .openParen :: (script.kinds (i + 1) j ++ [.mark .closeParen]) := by
  have forward := inside.forward
  rw [kinds_append (Nat.le_succ i) (by omega : i + 1 ≤ j + 1), kinds_append forward (Nat.le_succ j), kinds_next opens,
    kinds_next closes]
  rfl

theorem Balanced.enclosed (inside : script.Balanced (i + 1) j) (opens : script.kindAt i = some (.mark .openParen))
    (closes : script.kindAt j = some (.mark .closeParen)) : script.Balanced i (j + 1) where
  forward := Nat.le_trans (Nat.le_succ i) (Nat.le_trans inside.forward (Nat.le_succ j))
  inside := inside_next closes (by simp)
  closed depth := by
    rw [kinds_enclosed opens inside closes, open_behind_enclosed inside.closed, if_neg (Nat.succ_ne_zero depth)]

end Script
end Grammar
end ScriptEngine
