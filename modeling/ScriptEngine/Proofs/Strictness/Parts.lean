import ScriptEngine.Proofs.Strictness.Prologue

/-!
What is found of a part of a program from what was found of the parts in it. A function is found with the tokens at
which its text begins and ends, so that all octal tokens in the text are accounted for, and a property with the token
of its name.
-/

namespace ScriptEngine.Grammar.Script

/-- An expression was read between two tokens. -/
abbrev FoundExpr (script : Script) (strict : Bool) (i : Nat) (e : Expr) (j : Nat) : Prop :=
  script.Found strict i j [.expr e]

/-- Expressions were read between two tokens. -/
abbrev FoundExprs (script : Script) (strict : Bool) (i : Nat) (items : List Expr) (j : Nat) : Prop :=
  script.Found strict i j (items.map .expr)

/-- A function was read between two tokens, and the octal tokens in its text are accounted for, apart from some. -/
structure FoundCode (script : Script) (other : Token → Prop) (strict : Bool) (i : Nat) (code : FunctionCode)
    (j : Nat) : Prop where
  found : script.Found strict i j [.code code]
  accounts : script.Accounts strict code other

/-- Properties of an object literal were read between two tokens. An octal token may be the name of one. -/
structure FoundEntries (script : Script) (strict : Bool) (i : Nat) (entries : List Entry) (j : Nat) : Prop where
  between : script.Between i j fun t => ∃ entry ∈ entries,
    script.Names t entry ∨ script.Places t strict entry.value.node
  lawful : ∀ entry ∈ entries, script.Lawful strict entry.value.node
  accounts : ∀ entry ∈ entries, ∀ code ∈ entry.value.code?, script.Accounts strict code (script.Names · entry)

variable {script : Script} {strict : Bool} {i j k : Nat} {t : Token}

/-! ## What parts make together -/

theorem found_expr {form : ExprForm} {span : Span} (found : script.Found strict i j form.children)
    (own : strict = true → form.Strict)
    (accounts : ∀ code ∈ form.functions, script.Accounts strict code (script.Keys · form)) :
    script.FoundExpr strict i ⟨form, span⟩ j where
  between := found.between.weaken fun _ _ _ ⟨_, direct, places⟩ => ⟨_, .head _, .expr direct places⟩
  lawful := List.forall_mem_singleton.mpr (.expr own accounts found.lawful)

/-- An expression that assigns nothing, completes no function and is no operation on one operand. -/
theorem found_plain {form : ExprForm} {span : Span} (found : script.Found strict i j form.children)
    (noTarget : form.target? = none) (noFunctions : form.functions = []) (noUnary : ∀ op e, form ≠ .unary op e) :
    script.FoundExpr strict i ⟨form, span⟩ j := by
  refine found_expr found (fun _ => ⟨?_, fun name span => noUnary _ _⟩) ?_
  · rw [noTarget]
    exact nofun
  · rw [noFunctions]
    exact List.forall_mem_nil _

/-- An expression that assigns something. -/
theorem found_assigning {form : ExprForm} {span : Span} {target : Expr}
    (found : script.Found strict i j form.children) (assigns : form.target? = some target)
    (allowed : strict = true → ¬ target.Restricted) (noFunctions : form.functions = [])
    (noUnary : ∀ op e, form ≠ .unary op e) : script.FoundExpr strict i ⟨form, span⟩ j := by
  refine found_expr found (fun always => ⟨?_, fun name span => noUnary _ _⟩) ?_
  · rw [assigns]
    rintro e ⟨⟩
    exact allowed always
  · rw [noFunctions]
    exact List.forall_mem_nil _

/-- A number or a string of an octal form is a literal of sloppy code. -/
theorem found_literal {value : Literal} (found : script.tokens[i]? = some t) (sloppy : t.IsOctal → strict = false) :
    script.FoundExpr strict i ⟨.literal value, t.span⟩ (i + 1) where
  between := between_next found fun octal => ⟨_, .head _, sloppy octal ▸ .literal⟩
  lawful := List.forall_mem_singleton.mpr
    (.expr (fun _ => ⟨nofun, nofun⟩) (List.forall_mem_nil _) (List.forall_mem_nil _))

theorem found_operation {op : InfixOp} {left right : Expr} (first : script.FoundExpr strict i left j)
    (second : script.FoundExpr strict j right k) : script.FoundExpr strict i (op.apply left right) k := by
  cases op <;> exact found_plain (first.and second) rfl rfl nofun

theorem found_stmt {place : Place} {form : StmtForm} {span : Span}
    (found : script.Found strict i j (form.children place)) (own : strict = true → form.Strict)
    (accounts : ∀ code ∈ form.functions, script.Accounts strict code fun _ => False) :
    script.Found strict i j [.stmt place ⟨form, span⟩] where
  between := found.between.weaken fun _ _ _ ⟨_, direct, places⟩ => ⟨_, .head _, .stmt direct places⟩
  lawful := List.forall_mem_singleton.mpr (.stmt own accounts found.lawful)

/-- An expression that a function returns is its body. -/
theorem found_return {place : Place} {inFront : Bool} {value : Expr} (found : script.FoundExpr strict i value j) :
    script.FoundBody place strict strict inFront i j [⟨.ret (some value), value.span⟩] := by
  have returns : script.Found strict i j [.stmt place ⟨.ret (some value), value.span⟩] :=
    found_stmt found (fun _ => .of_bare rfl rfl rfl) (List.forall_mem_nil _)
  refine ⟨?_, List.forall_mem_singleton.mpr (returns.lawful _ (.head _)), returns.between.weaken fun t _ _ placed => ?_⟩
  · simp [MakesStrict, Directs]
  · obtain ⟨n, mem, places⟩ := placed
    obtain rfl := List.mem_singleton.mp mem
    exact .inl ⟨_, .head _, places⟩

/-- What was read of the body of a function is told of the function to those around it. -/
theorem FoundBody.code {code : FunctionCode}
    (found : script.FoundBody .function strict code.strict true i j code.body) (names : code.StrictNames strict) :
    script.Found strict i j [.code code] where
  between := found.between.weaken fun t _ _ placed => by
    refine ⟨_, .head _, ?_⟩
    rcases placed with ⟨s, direct, places⟩ | ⟨-, rfl, leads⟩
    · exact .code direct places
    · exact .directive leads
  lawful := List.forall_mem_singleton.mpr (.code names (by simpa using found.flag) found.lawful)

/-- The text of a function lies between the tokens at which it begins and ends. -/
theorem accounts_of_found {first : Nat} {opening : Token} {code : FunctionCode} {other : Token → Prop}
    (begins : script.tokens[first]? = some opening) (order : first < i) (front : script.Between first i other)
    (found : script.Found strict i j [.code code])
    (span : code.span = ⟨opening.span.start, max (script.stopAt (j - 1)) opening.span.start⟩) :
    script.Accounts strict code other := by
  intro t known octal inside
  obtain ⟨k, there⟩ := List.getElem?_of_mem known
  rw [span] at inside
  obtain ⟨lower, upper⟩ :=
    index_of_lies_in begins (Nat.lt_of_lt_of_le order found.between.forward) there octal inside.1 inside.2
  rcases (front.and found.between).octal k t lower upper there octal with early | ⟨n, mem, places⟩
  · exact .inr early
  · obtain rfl := List.mem_singleton.mp mem
    exact .inl places

/-- A function is found with the tokens at which its text begins and ends. -/
theorem found_code {first m : Nat} {opening : Token} {code : FunctionCode} {other : Token → Prop}
    (begins : script.tokens[first]? = some opening) (order : first < i) (front : script.Between first i other)
    (opens : script.Plain i j) (body : script.FoundBody .function strict code.strict true j k code.body)
    (closes : script.Plain k m) (names : code.StrictNames strict)
    (span : code.span = ⟨opening.span.start, max (script.stopAt (m - 1)) opening.span.start⟩) :
    script.FoundCode other strict i code m := by
  have found := ((body.code names).behind opens).before closes
  exact ⟨found, accounts_of_found begins order front found span⟩

theorem found_function {code : FunctionCode} {span : Span}
    (found : script.FoundCode (fun _ => False) strict i code j) :
    script.FoundExpr strict i ⟨.function code, span⟩ j := by
  refine found_expr found.found (fun _ => ⟨nofun, nofun⟩) (List.forall_mem_singleton.mpr ?_)
  exact fun t known octal inside => (found.accounts t known octal inside).imp id False.elim

/-! ## Properties of object literals -/

theorem found_no_entries : script.FoundEntries strict i [] i :=
  ⟨between_here, List.forall_mem_nil _, List.forall_mem_nil _⟩

theorem FoundEntries.and {first rest : List Entry} (found : script.FoundEntries strict i first j)
    (others : script.FoundEntries strict j rest k) : script.FoundEntries strict i (first ++ rest) k where
  between := (found.between.and others.between).weaken fun t _ _ placed => by
    simpa only [List.mem_append, or_and_right, exists_or] using placed
  lawful entry mem := (List.mem_append.mp mem).elim (found.lawful entry) (others.lawful entry)
  accounts entry mem := (List.mem_append.mp mem).elim (found.accounts entry) (others.accounts entry)

theorem FoundEntries.behind {entries : List Entry} (found : script.FoundEntries strict j entries k)
    (plain : script.Plain i j) : script.FoundEntries strict i entries k :=
  ⟨found.between.behind plain, found.lawful, found.accounts⟩

theorem FoundEntries.before {entries : List Entry} (found : script.FoundEntries strict i entries j)
    (plain : script.Plain j k) : script.FoundEntries strict i entries k :=
  ⟨found.between.before plain, found.lawful, found.accounts⟩

theorem found_object {entries : List Entry} {span : Span} (found : script.FoundEntries strict i entries j) :
    script.FoundExpr strict i ⟨.object entries, span⟩ j where
  between := found.between.weaken fun t _ _ placed => by
    obtain ⟨entry, among, names | places⟩ := placed
    · exact ⟨_, .head _, .key ⟨entries, rfl, entry, among, names⟩⟩
    · exact ⟨_, .head _, .expr (List.mem_map_of_mem (f := fun entry : Entry => entry.value.node) among) places⟩
  lawful := by
    refine List.forall_mem_singleton.mpr (.expr (fun _ => ⟨nofun, nofun⟩) ?_ ?_)
    · intro code mem t known octal inside
      obtain ⟨entry, among, value⟩ := List.mem_filterMap.mp mem
      refine (found.accounts entry among code value t known octal inside).imp id fun names => ?_
      exact ⟨entries, rfl, entry, among, names⟩
    · intro n mem
      obtain ⟨entry, among, rfl⟩ := List.mem_map.mp mem
      exact found.lawful entry among

/-- A property with a value begins with its name. -/
theorem found_value_entry {key : String} {value : Expr} {span : Span} (found : script.tokens[i]? = some t)
    (starts : span.start = t.span.start) (name : script.Between i j fun u => u = t)
    (given : script.FoundExpr strict j value k) : script.FoundEntries strict i [⟨key, .value value, span⟩] k := by
  refine ⟨(name.and given.between).weaken fun u _ _ placed => ⟨_, .head _, ?_⟩, ?_, ?_⟩
  · rcases placed with rfl | ⟨n, mem, places⟩
    · exact .inl starts.symm
    · obtain rfl := List.mem_singleton.mp mem
      exact .inr places
  · exact List.forall_mem_singleton.mpr (given.lawful _ (.head _))
  · exact List.forall_mem_singleton.mpr nofun

/-- An accessor begins with a word before its name. -/
theorem found_accessor {key : String} {code : FunctionCode} {value : EntryValue} {span : Span}
    (accessor : value = .getter code ∨ value = .setter code) (found : script.tokens[i]? = some t)
    (starts : span.start = t.span.start) (front : script.Between i j fun u => script.tokens[i + 1]? = some u)
    (given : script.FoundCode (fun u => script.tokens[i + 1]? = some u) strict j code k) :
    script.FoundEntries strict i [⟨key, value, span⟩] k := by
  have names (u : Token) (next : script.tokens[i + 1]? = some u) : script.Names u ⟨key, value, span⟩ := by
    rcases accessor with rfl | rfl
    · exact ⟨i, t, found, starts.symm, next⟩
    · exact ⟨i, t, found, starts.symm, next⟩
  have node : value.node = .code code := by
    rcases accessor with rfl | rfl <;> rfl
  have inner : ∀ other ∈ value.code?, other = code := by
    rcases accessor with rfl | rfl
    · exact fun other same => (Option.some.inj same).symm
    · exact fun other same => (Option.some.inj same).symm
  refine ⟨(front.and given.found.between).weaken fun u _ _ placed => ⟨_, .head _, ?_⟩, ?_, ?_⟩
  · rcases placed with next | ⟨n, mem, places⟩
    · exact .inl (names u next)
    · refine .inr (node ▸ List.mem_singleton.mp mem ▸ places)
  · exact List.forall_mem_singleton.mpr (node ▸ given.found.lawful _ (.head _))
  · refine List.forall_mem_singleton.mpr fun other same u known octal inside => ?_
    obtain rfl := inner other same
    exact (given.accounts u known octal inside).imp id (names u)

end ScriptEngine.Grammar.Script
