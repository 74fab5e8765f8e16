import ScriptEngine.Proofs.Excerpts.ReadExpression

/-!
Arrow functions begin at the same of the tokens that two scripts share. Where a list of parameters stands is told by the
token behind the parenthesis that closes it. The text read goes on with this token, so that it is a shared one, or
nothing goes on with it in either script.
-/

namespace ScriptEngine.Grammar

/-- The token is an arrow on the same line. -/
def arrowNext (next : Token) : Bool :=
  next.kind == .mark .arrow && !next.newlineBefore

theorem at_single_parameter_eq (s : ReadingState) :
    s.atSingleParameter = (s.current.kind == .identifier && arrowNext (s.tokenAt 1)) := by
  unfold ReadingState.atSingleParameter arrowNext
  rw [Bool.and_assoc]

/-- Behind parentheses that are closed again the next token decides. -/
theorem Script.Encloses.looks {script : Script} {i m : Nat} {s : ReadingState} {next : Token}
    (encloses : script.Encloses i m) (here : script.Comes i s) (found : script.tokens[m + 1]? = some next) :
    atParameterList s = .ok (arrowNext next, s) := by
  obtain ⟨opening, first, opens⟩ := Option.map_eq_some_iff.mp encloses.opens
  obtain ⟨closing, last, closes⟩ := Option.map_eq_some_iff.mp encloses.closes
  obtain rfl := Option.some.inj (first.symm.trans here.current)
  have forward := encloses.inside.forward
  have rest : script.tokens.drop (m + 1) = next :: script.tokens.drop (m + 2) := by
    obtain ⟨inside, rfl⟩ := List.getElem?_eq_some_iff.mp found
    exact List.drop_eq_getElem_cons inside
  have behind : script.tokens.drop m = closing :: next :: script.tokens.drop (m + 2) := by
    obtain ⟨inside, rfl⟩ := List.getElem?_eq_some_iff.mp last
    rw [List.drop_eq_getElem_cons inside, rest]
  have upcoming : s.upcoming = (script.tokens.drop (i + 1)).take (m - (i + 1)) ++
      closing :: next :: script.tokens.drop (m + 2) := by
    have tail := congrArg List.tail here.left
    rw [List.tail_drop, List.tail_cons] at tail
    rw [← tail, ← behind]
    have split := List.take_append_drop (m - (i + 1)) (script.tokens.drop (i + 1))
    rw [List.drop_drop] at split
    have place : i + 1 + (m - (i + 1)) = m := by omega
    rw [place] at split
    exact split.symm
  have follows := arrow_follows_enclosed opens closes encloses.inside.closed (next :: script.tokens.drop (m + 2))
  rw [← upcoming] at follows
  unfold atParameterList
  dsimp only [bind, StateT.bind, get, getThe, MonadStateOf.get, StateT.get, pure, Except.pure, Except.bind]
  rw [opens, follows]
  rfl

/-- Elsewhere no list of parameters is found. -/
theorem no_parameter_list {s : ReadingState} (other : s.current.kind ≠ .mark .openParen) :
    atParameterList s = .ok (false, s) := by
  unfold atParameterList
  dsimp only [bind, StateT.bind, get, getThe, MonadStateOf.get, StateT.get, pure, Except.pure, Except.bind]
  rw [if_neg (by simpa using other)]
  rfl

namespace Excerpt

variable {x : Excerpt} {rules rules' : Rules} {depth k l m : Nat}

theorem kinds_shared (within : l ≤ x.count) :
    x.part.kinds (x.place + k) (x.place + l) = x.whole.kinds (x.first + k) (x.first + l) := by
  unfold Script.kinds
  have one : x.place + l - (x.place + k) = l - k := by omega
  have two : x.first + l - (x.first + k) = l - k := by omega
  rw [one, two]
  refine List.ext_getElem? fun n => ?_
  rw [List.getElem?_map, List.getElem?_map, List.getElem?_take, List.getElem?_take]
  by_cases inside : n < l - k
  · rw [if_pos inside, if_pos inside, List.getElem?_drop, List.getElem?_drop, Nat.add_assoc, Nat.add_assoc]
    have more := x.goesOn
    have within' : x.first + (k + n) < x.whole.size := by omega
    obtain ⟨t, found⟩ := Script.exists_token within'
    obtain ⟨u, twin, shared⟩ := exists_twin found
    rw [found, shared (by omega), Option.map_some, Option.map_some, twin.kind]
  · rw [if_neg inside, if_neg inside]

theorem kind_shared (within : k < x.count) : x.part.kindAt (x.place + k) = x.whole.kindAt (x.first + k) := by
  have more := x.goesOn
  have inside : x.first + k < x.whole.size := by omega
  obtain ⟨t, found⟩ := Script.exists_token inside
  obtain ⟨u, twin, shared⟩ := exists_twin found
  rw [Script.kind_at found, Script.kind_at (shared within), twin.kind]

/-- Shared parentheses are closed again in both scripts. -/
theorem encloses_shared (encloses : x.whole.Encloses (x.first + k) (x.first + m)) (within : m < x.count) :
    x.part.Encloses (x.place + k) (x.place + m) := by
  have forward := encloses.inside.forward
  have order : k < m := by omega
  refine ⟨?_, ⟨by omega, ?_, fun depth => ?_⟩, ?_⟩
  · rw [kind_shared (by omega), encloses.opens]
  · have closes := encloses.closes
    rw [← kind_shared within] at closes
    obtain ⟨u, found, -⟩ := Option.map_eq_some_iff.mp closes
    exact (List.getElem?_eq_some_iff.mp found).1
  · rw [Nat.add_assoc, kinds_shared (Nat.le_of_lt within), ← Nat.add_assoc]
    exact encloses.inside.closed depth
  · rw [kind_shared within, encloses.closes]

/-- An arrow is seen in both scripts, unless it comes behind the shared tokens. -/
theorem arrow_shared {next next' : Token} (found : x.whole.tokens[x.first + k]? = some next)
    (found' : x.part.tokens[x.place + k]? = some next') (behind : 0 < k) (inside : k ≤ x.count)
    (last : k = x.count → arrowNext next = false) : arrowNext next' = arrowNext next := by
  unfold arrowNext at last ⊢
  rcases Nat.lt_or_eq_of_le inside with shared | ended
  · obtain ⟨u, twin, there⟩ := exists_twin found
    obtain rfl := Option.some.inj (found'.symm.trans (there shared))
    rw [twin.kind, twin.newline behind]
  · obtain ⟨u, there, closes⟩ := x.edge
    rw [← ended] at there
    obtain rfl := Option.some.inj (found'.symm.trans there)
    rw [last ended]
    have other : (next'.kind == .mark .arrow) = false := by
      refine beq_eq_false_iff_ne.mpr fun same => ?_
      rw [same] at closes
      revert closes
      decide
    rw [other, Bool.false_and]

/-- A list of parameters is found in both scripts where its parentheses are shared, unless only the token behind them
tells. -/
theorem parameter_list_shared {s s' : ReadingState} {list : Bool} (here : x.Mirrors depth k s s')
    (encloses : x.whole.Encloses (x.first + k) (x.first + m)) (within : m < x.count)
    (last : m + 1 = x.count → list = false) (looked : atParameterList s = .ok (list, s)) :
    atParameterList s' = .ok (list, s') := by
  have more := x.goesOn
  have inside : x.first + (m + 1) < x.whole.size := by omega
  obtain ⟨next, found⟩ := Script.exists_token inside
  have there : ∃ u, x.part.tokens[x.place + (m + 1)]? = some u := by
    rcases Nat.lt_or_eq_of_le (Nat.succ_le_of_lt within) with shared | ended
    · obtain ⟨u, -, there⟩ := exists_twin found
      exact ⟨u, there shared⟩
    · obtain ⟨u, there, -⟩ := x.edge
      rw [← ended] at there
      exact ⟨u, there⟩
  obtain ⟨next', found'⟩ := there
  have looks := encloses.looks here.whole found
  rw [looked] at looks
  obtain rfl : list = arrowNext next := by cases looks; rfl
  rw [(encloses_shared encloses within).looks here.part found', arrow_shared found found' (Nat.succ_pos m) within last]

variable (echoed : x.Echoed rules rules')

include echoed

theorem echoes_single_parameter {t u : Token} (twin : x.Twins k t u) :
    x.Echoes false depth k 2 Expr.unplaced
      (do arrowRest rules [(← bindingName "parameter name", t)] t.span.start)
      (do arrowRest rules' [(← bindingName "parameter name", u)] u.span.start) := by
  refine .bind_two (.binding_name _) fun _ _ _ _ same => ?_
  exact echoes_arrow_rest echoed (congrArg ([·]) same) twin.start

theorem echoes_listed_parameters {start start' : Nat} (begins : x.Same start start') :
    x.Echoes false depth k 2 Expr.unplaced (do arrowRest rules (← parameterList rules) start)
      (do arrowRest rules' (← parameterList rules') start') :=
  .bind_two echoes_parameter_list fun _ _ _ _ same => echoes_arrow_rest echoed same begins

section

variable {s s' t : ReadingState} {e : Expr} {noIn : Bool}

/-- An arrow function begins with its only parameter in both scripts. -/
theorem echo_single_parameter (noIn' : Bool) (here : x.Mirrors depth k s s') (single : s.atSingleParameter = true)
    (done : assignment rules noIn s = .ok (e, t)) (there : x.whole.Comes (x.first + l) t)
    (reached : x.Reaches false l) :
    Gives (assignment rules' noIn' s') fun e' t' => e.unplaced = e'.unplaced ∧ x.Mirrors depth l t t' := by
  rw [assignment_eq, if_pos single] at done
  have goesOn : s.current.kind ≠ .endOfInput := by
    have begun := single
    rw [at_single_parameter_eq, Bool.and_eq_true, beq_iff_eq] at begun
    rw [begun.1]
    decide
  obtain ⟨u, twin, same⟩ := exists_twin here.whole.current
  have arrow (u : Token) (twin : x.Twins k s.current u) :
      x.Echoes false depth k 2 Expr.unplaced
        (do arrowRest rules [(← bindingName "parameter name", s.current)] s.current.span.start)
        (do arrowRest rules' [(← bindingName "parameter name", u)] u.span.start) := echoes_single_parameter echoed twin
  obtain ⟨m, later, place⟩ := (arrow u twin).progress s e t here.whole done
  have last := place.unique there
  have inside := reached.inside
  have twin := here.current (by omega)
  have next := here.whole.second goesOn
  have next' := here.part.second (by rw [twin.kind]; exact goesOn)
  have shared := arrow_shared next next' (Nat.succ_pos k) (by omega) fun ended => absurd ended (by omega)
  have single' : s'.atSingleParameter = true := by
    rw [at_single_parameter_eq, twin.kind, shared, ← at_single_parameter_eq]
    exact single
  rw [assignment_eq, if_pos single']
  exact (arrow _ twin).echo s s' e t l here done there reached

/-- An arrow function begins with a list of parameters in both scripts. -/
theorem echo_listed_parameters (noIn' : Bool) (here : x.Mirrors depth k s s') (single : ¬ s.atSingleParameter = true)
    (looked : atParameterList s = .ok (true, s)) (done : assignment rules noIn s = .ok (e, t))
    (there : x.whole.Comes (x.first + l) t) (reached : x.Reaches false l) :
    Gives (assignment rules' noIn' s') fun e' t' => e.unplaced = e'.unplaced ∧ x.Mirrors depth l t t' := by
  rw [assignment_eq, if_neg single, looked] at done
  dsimp only at done
  have opens : s.current.kind = .mark .openParen := by
    by_contra other
    have none := no_parameter_list other
    rw [looked] at none
    cases none
  obtain ⟨parameters, v, listed, rest⟩ := ok_of_steps done
  obtain ⟨_, j, ended, -, _, m, rfl, encloses⟩ := run_of_covers (fun _ _ => Script.nests_parameter_list rules)
    here.whole listed
  obtain ⟨n, rfl⟩ : ∃ n, m = x.first + n := ⟨m - x.first, by have forward := encloses.inside.forward; omega⟩
  obtain ⟨u, twin, -⟩ := exists_twin here.whole.current
  have arrow : x.Echoes false depth (n + 1) 1 Expr.unplaced (arrowRest rules parameters s.current.span.start)
      (arrowRest rules' parameters u.span.start) := echoes_arrow_rest echoed rfl twin.start
  obtain ⟨l', later, place⟩ := arrow.progress v e t ended rest
  have same := place.unique there
  have inside := reached.inside
  have forward := encloses.inside.forward
  have twin := here.current (by omega)
  have opens' : s'.current.kind = .mark .openParen := by rw [twin.kind, opens]
  have single' : ¬ s'.atSingleParameter = true := by
    simp [ReadingState.atSingleParameter, opens']
  have looked' := parameter_list_shared here encloses (by omega) (fun last => absurd last (by omega)) looked
  rw [assignment_eq, if_neg single', looked']
  exact (echoes_listed_parameters echoed twin.start).echo s s' e t l here done there reached

/-- An expression that begins with a parameter list in neither script. -/
theorem echo_assigned (here : x.Mirrors (depth + 1) k s s') (single : ¬ s.atSingleParameter = true)
    (looked : atParameterList s = .ok (false, s)) (done : assignment rules noIn s = .ok (e, t))
    (there : x.whole.Comes (x.first + l) t) {strict : Bool} (row : x.whole.ExprRow strict (x.first + k) e (x.first + l))
    (reached : x.Reaches false l) :
    Gives (assignment rules' noIn s') fun e' t' => e.unplaced = e'.unplaced ∧ x.Mirrors (depth + 1) l t t' := by
  have order := row.order
  have inside := reached.inside
  have found := here.whole.current
  have twin := here.current (by omega)
  have goesOn := goes_on (by omega) found
  have next := here.whole.second goesOn
  have next' := here.part.second (by rw [twin.kind]; exact goesOn)
  have single' : ¬ s'.atSingleParameter = true := by
    rw [at_single_parameter_eq] at single ⊢
    rw [twin.kind]
    by_cases name : (s.current.kind == .identifier) = true
    · rw [name, Bool.true_and, Bool.not_eq_true] at single
      rw [arrow_shared next next' (Nat.succ_pos k) (by omega) (fun _ => single), single, Bool.and_false]
      exact Bool.false_ne_true
    · rw [Bool.eq_false_iff.mpr name, Bool.false_and]
      exact Bool.false_ne_true
  have looked' : atParameterList s' = .ok (false, s') := by
    by_cases opens : s.current.kind = .mark .openParen
    · obtain ⟨m, before, encloses⟩ := row.opens (by rw [Script.kind_at found, opens])
      have forward := encloses.inside.forward
      obtain ⟨n, rfl⟩ : ∃ n, m = x.first + n := ⟨m - x.first, by omega⟩
      exact parameter_list_shared here encloses (by omega) (fun _ => rfl) looked
    · exact no_parameter_list (by rw [twin.kind]; exact opens)
  rw [assignment_eq, if_neg single, looked] at done
  rw [assignment_eq, if_neg single', looked']
  exact (echoes_assigned echoed noIn _ _).echo _ s' e t l here done there reached

end

theorem echoes_assignment (noIn : Bool) :
    x.Echoes false (depth + 1) k 1 Expr.unplaced (assignment rules noIn) (assignment rules' noIn) where
  progress s a t here done := by
    obtain ⟨_, j, there, row⟩ := run_of_covers (fun _ _ => Script.nests_assignment echoed.nests noIn) here done
    have order := row.order
    obtain ⟨l, rfl⟩ := Nat.exists_eq_add_of_le (Nat.le_trans (Nat.le_add_right x.first k) (Nat.le_of_lt order))
    exact ⟨l, by omega, there⟩
  echo s s' a t l here done there reached := by
    by_cases single : s.atSingleParameter = true
    · exact echo_single_parameter echoed noIn here single done there reached
    cases looked : atParameterList s with
    | error d =>
      rw [assignment_eq, if_neg single, looked] at done
      cases done
    | ok answer =>
      obtain ⟨list, u⟩ := answer
      obtain rfl : s = u := (at_parameter_list_stays looked).symm
      cases list with
      | true => exact echo_listed_parameters echoed noIn here single looked done there reached
      | false =>
        obtain ⟨strict, j, place, row⟩ := run_of_covers (fun _ _ => Script.nests_assignment echoed.nests noIn)
          here.whole done
        obtain rfl := place.unique there
        exact echo_assigned echoed here single looked done there row reached

end Excerpt
end ScriptEngine.Grammar
