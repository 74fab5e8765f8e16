import ScriptEngine.Proofs.Excerpts.Enclosed
import ScriptEngine.Proofs.Scanning.Lines

/-!
The text that a function is made of: a list of parameters and a body, with known text around them. Each of the two ends
in front of a line break, so that the whole is scanned as they are on their own, unless a comment is left open in the
first one. What is read off the body can then be compared in two scripts, the one that is made and the body alone, each
of which has the body in common with the other.
-/

namespace ScriptEngine

open Text Scanning

namespace Scanning

variable {offset stop : Nat} {front back text : List Char} {t : Token} {tokens later items : List Token}

/-! ## Known tokens -/

/-- If the scanner reads known tokens off the front of a text, the others are those of the rest. -/
theorem scans_front_iff (count : Nat) (reads : ∀ fuel,
      tokensFrom (fuel + count) [] ⟨offset, front ++ text⟩ = tokensFrom fuel tokens.reverse ⟨stop, text⟩) :
    Scans offset (front ++ text) items ↔ ∃ later, items = tokens ++ later ∧ Scans stop text later := by
  constructor
  · intro scans
    have read := scans.tokens_from ((front ++ text).length + 1 + count) (by omega) []
    rw [reads] at read
    obtain ⟨later, same, behind⟩ := scans_of_tokens_from _ read
    rw [List.reverse_nil, List.nil_append, List.reverse_reverse] at same
    exact ⟨later, same, behind⟩
  · rintro ⟨later, rfl, behind⟩
    have read := (reads (text.length + 1)).trans (behind.tokens_from _ (Nat.lt_succ_self _) _)
    rw [List.reverse_reverse] at read
    obtain ⟨others, same, scans⟩ := scans_of_tokens_from _ read
    rw [List.reverse_nil, List.nil_append] at same
    exact same ▸ scans

theorem scans_nothing_iff : Scans offset [] items ↔ items = [endToken offset] := by
  constructor
  · intro scans
    generalize none : ([] : List Char) = text at scans
    cases scans with
    | stop separates =>
      subst none
      rfl
    | token first behind => simp [first.nonempty] at none
  · rintro rfl
    exact .stop .nothing

/-- The front of the text that a function is made of, and the tokens of it. -/
def openingText : List Char :=
  "(function anonymous(".toList

def openingTokens : List Token :=
  [parenthesis .openParen "(" 0, ⟨.keyword .function, "function", ⟨1, 9⟩, false, false⟩,
    ⟨.identifier, "anonymous", ⟨10, 19⟩, false, false⟩, parenthesis .openParen "(" 19]

/-- What stands between the parameters and the body. -/
def middleText : List Char :=
  ['\n', ')', ' ', '\x7b']

def middleTokens (offset : Nat) : List Token :=
  [⟨.mark .closeParen, ")", ⟨offset + 1, offset + 2⟩, true, false⟩,
    ⟨.mark .openBrace, "\x7b", ⟨offset + 3, offset + 4⟩, false, false⟩]

/-- What stands behind the body. -/
def closingText : List Char :=
  ['\n', '\x7d', ')']

def closingTokens (offset : Nat) : List Token :=
  [⟨.mark .closeBrace, "\x7d", ⟨offset + 1, offset + 2⟩, true, false⟩,
    ⟨.mark .closeParen, ")", ⟨offset + 2, offset + 3⟩, false, false⟩, endToken (offset + 3)]

theorem scans_opening_iff :
    Scans 0 (openingText ++ text) items ↔ ∃ later, items = openingTokens ++ later ∧ Scans 20 text later :=
  scans_front_iff 4 fun _ => rfl

theorem scans_middle_iff : Scans offset (middleText ++ '\n' :: text) items ↔
    ∃ later, items = middleTokens offset ++ later ∧ Scans (offset + 4) ('\n' :: text) later :=
  scans_front_iff 2 fun _ => rfl

theorem scans_closing_iff : Scans offset closingText items ↔ items = closingTokens offset := by
  have known : Scans offset (closingText ++ []) items ↔
      ∃ later, items = (closingTokens offset).take 2 ++ later ∧ Scans (offset + 3) [] later :=
    scans_front_iff 2 fun _ => rfl
  rw [List.append_nil] at known
  simp only [known, scans_nothing_iff, exists_eq_right]
  rfl

/-! ## Lines -/

/-- Tokens behind a line break. -/
def lined : List Token → List Token
  | [] => []
  | t :: later => { t with newlineBefore := true } :: later

theorem lined_length (items : List Token) : (lined items).length = items.length := by
  cases items <;> rfl

theorem lined_kinds (items : List Token) : (lined items).map (·.kind) = items.map (·.kind) := by
  cases items <;> rfl

/-- Only the first token tells of the line break. -/
theorem lined_get {k : Nat} (found : (lined items)[k]? = some t) :
    ∃ u newline, items[k]? = some u ∧ t = { u with newlineBefore := newline } ∧ (0 < k → newline = u.newlineBefore) := by
  cases items with
  | nil => cases found
  | cons u items =>
    cases k with
    | zero =>
      cases found
      exact ⟨u, true, rfl, rfl, by simp⟩
    | succ k => exact ⟨t, t.newlineBefore, found, rfl, fun _ => rfl⟩

theorem lined_end (items : List Token) (stop : Nat) :
    lined (items ++ [endToken stop]) = lined items ++ [endToken stop] := by
  cases items <;> rfl

theorem separates_line (separates : Separates text ('\n' :: back)) : Separates text back := by
  cases separates with
  | blank _ later => exact later

/-- The tokens of a line are those of its text, but for the line break. -/
theorem scans_line_iff :
    Scans offset ('\n' :: text) items ↔ ∃ tokens, items = lined tokens ∧ Scans (offset + 1) text tokens := by
  have place (gap : List Char) : offset + byteLength ('\n' :: gap) = offset + 1 + byteLength gap := by
    rw [byteLength_cons, ← Nat.add_assoc]
    rfl
  constructor
  · intro scans
    rcases scans.from_line with ⟨separates, rfl⟩ | ⟨gap, piece, rest, t, later, rfl, rfl, first, behind⟩
    · rw [place]
      exact ⟨_, rfl, .stop (separates_line separates)⟩
    · obtain ⟨readOff, newline⟩ := first.read_off
      have inner := first.elsewhere (fun _ => .inl) (offset + 1) (separates_line first.separates)
      rw [place] at behind readOff
      refine ⟨_, ?_, .token inner behind⟩
      have flag : ('\n' :: gap).any isLineTerminator = true := rfl
      rw [flag] at newline
      rw [lined, readAt, ← readOff.span, ← newline]
  · rintro ⟨tokens, rfl, scans⟩
    cases scans with
    | stop separates =>
      have stop : Scans offset ('\n' :: text) _ := .stop (.blank rfl separates)
      rwa [place] at stop
    | @token _ gap piece rest t later first behind =>
      have readOff := first.read_off.1
      have token := Scans.token (first.elsewhere (fun _ => .inl) offset (.blank (c := '\n') rfl first.separates))
        (by rwa [place])
      rwa [readAt, place, ← readOff.span] at token

/-! ## The text that a function is made of -/

/-- A function of these parameters and this body. -/
def madeText (list body : List Char) : List Char :=
  openingText ++ (list ++ (middleText ++ '\n' :: (body ++ closingText)))

/-- Where the body begins in it. -/
def bodyStart (list : List Char) : Nat :=
  20 + byteLength list + 5

/-- The tokens of it are known ones around those of the parameters and those of the body. -/
def madeTokens (list body : List Char) (names items : List Token) : List Token :=
  openingTokens ++ (names ++ (middleTokens (20 + byteLength list) ++
    (lined items ++ closingTokens (bodyStart list + byteLength body))))

variable {list body : List Char} {names : List Token} {last : Nat}

theorem line_start (list body : List Char) :
    20 + byteLength list + 4 + byteLength ('\n' :: body) = bodyStart list + byteLength body := by
  have break_ : '\n'.utf8Size = 1 := rfl
  rw [byteLength_cons, break_, bodyStart]
  omega

/-- No string goes on behind the line break that ends the parameters or the body. -/
theorem leaves_strings_open (rest : List Char) :
    LeavesStringsOpen (middleText.tail ++ '\n' :: rest) ∧ LeavesStringsOpen closingText.tail := by
  constructor
  · rintro quote units octal offset (rfl | rfl) <;> exact ⟨_, rfl⟩
  · rintro quote units octal offset (rfl | rfl) <;> exact ⟨_, rfl⟩

/-- The text that a function is made of is scanned as the list of its parameters and its body are, if it is scanned at
all, unless a comment goes on from the former to the latter. -/
theorem made_of_scans (scans : Scans 0 (madeText list body) tokens) :
    LeavesComment list ∨ ∃ names items last stop, tokens = madeTokens list body names items ∧
      Scans 20 list (names ++ [endToken last]) ∧ Scans (bodyStart list) body (items ++ [endToken stop]) := by
  obtain ⟨behind, rfl, rest⟩ := scans_opening_iff.mp scans
  obtain ⟨open_, open'⟩ := leaves_strings_open (body ++ closingText)
  rcases rest.split (rfl : _ = list ++ '\n' :: _) open_ with ⟨names, last, later, rfl, parameters, second⟩ | ⟨leaves, -⟩
  · obtain ⟨further, rfl, third⟩ := scans_middle_iff.mp second
    rcases third.split (rfl : _ = ('\n' :: body) ++ '\n' :: _) open' with
      ⟨inner, stop, ending, rfl, inside, fourth⟩ | ⟨-, slash⟩
    · rw [line_start] at fourth
      obtain rfl := scans_closing_iff.mp fourth
      obtain ⟨all, same, alone⟩ := scans_line_iff.mp inside
      obtain ⟨items, stop', rfl⟩ := alone.ends
      rw [lined_end] at same
      obtain rfl := List.append_inj_left' same rfl
      exact .inr ⟨names, items, last, stop', rfl, parameters, alone⟩
    · exact absurd slash (by decide)
  · exact .inl leaves

theorem scans_made (parameters : Scans 20 list (names ++ [endToken last]))
    (inside : Scans (bodyStart list) body (items ++ [endToken stop])) :
    Scans 0 (madeText list body) (madeTokens list body names items) := by
  have line : Scans (20 + byteLength list + 4) ('\n' :: body) (lined items ++ [endToken stop]) := by
    rw [← lined_end]
    exact scans_line_iff.mpr ⟨_, rfl, inside⟩
  have closing : Scans (20 + byteLength list + 4 + byteLength ('\n' :: body)) closingText
      (closingTokens (bodyStart list + byteLength body)) := by
    rw [line_start]
    exact scans_closing_iff.mpr rfl
  exact scans_opening_iff.mpr ⟨_, rfl, parameters.join (scans_middle_iff.mpr ⟨_, rfl, line.join closing⟩)⟩

end Scanning

/-! ## The scripts of a function and of its body -/

/-- Texts of parameters and of a body, scanned each on its own, at the places where a function is made of them. -/
structure Making where
  list : List Char
  body : List Char
  names : List Token
  items : List Token
  last : Nat
  stop : Nat
  parameters : Scans 20 list (names ++ [endToken last])
  inside : Scans (bodyStart list) body (items ++ [endToken stop])

namespace Making

variable (m : Making)

/-- The script that the function is made of. -/
def script : Grammar.Script :=
  ⟨madeText m.list m.body, madeTokens m.list m.body m.names m.items, (scans_made m.parameters m.inside).lossless⟩

/-- The body as a script of its own. -/
def bodyScript : Grammar.Script :=
  ⟨m.body, (m.items ++ [endToken m.stop]).map (moved (bodyStart m.list) 0), (m.inside.moves 0).lossless⟩

/-- Where the tokens of the body begin. -/
def bodyIndex : Nat :=
  m.names.length + 6

/-- The text in front of the body. -/
def front : List Char :=
  openingText ++ (m.list ++ (middleText ++ ['\n']))

theorem front_length : byteLength m.front = bodyStart m.list := by
  have opening : byteLength openingText = 20 := rfl
  have middle : byteLength (middleText ++ ['\n']) = 5 := rfl
  rw [front, byteLength_append, byteLength_append, opening, middle, bodyStart, Nat.add_assoc]

theorem source_eq : m.script.source = m.front ++ (m.body ++ closingText) := by
  change madeText m.list m.body = _
  simp [madeText, front]

theorem tokens_eq : m.script.tokens = (openingTokens ++ (m.names ++ middleTokens (20 + byteLength m.list))) ++
    (lined m.items ++ closingTokens (bodyStart m.list + byteLength m.body)) := by
  change madeTokens m.list m.body m.names m.items = _
  simp [madeTokens]

theorem body_tokens_eq : m.bodyScript.tokens = m.items.map (moved (bodyStart m.list) 0) ++
    [moved (bodyStart m.list) 0 (endToken m.stop)] :=
  List.map_append

theorem front_tokens_length :
    (openingTokens ++ (m.names ++ middleTokens (20 + byteLength m.list))).length = m.bodyIndex := by
  simp [openingTokens, middleTokens, bodyIndex]

theorem script_size : m.script.size = m.bodyIndex + m.items.length + 3 := by
  rw [Grammar.Script.size, tokens_eq, List.length_append, front_tokens_length, List.length_append,
    lined_length]
  simp [closingTokens, Nat.add_assoc]

theorem body_size : m.bodyScript.size = m.items.length + 1 := by
  rw [Grammar.Script.size, body_tokens_eq, List.length_append, List.length_map, List.length_singleton]

theorem body_start_le (u : Token) (mem : u ∈ m.items) : bodyStart m.list ≤ u.span.start ∧
    u.span.start ≤ u.span.stop ∧ u.span.stop ≤ bodyStart m.list + byteLength m.body :=
  m.inside.within u (List.mem_append_left _ mem)

/-- A token of the body says the same in both scripts. -/
theorem item_twins {k : Nat} {t u : Token} (found : (lined m.items)[k]? = some t)
    (found' : (m.items.map (moved (bodyStart m.list) 0))[k]? = some u) :
    t.span.stop ≤ byteLength m.front + byteLength m.body ∧ u.span.stop ≤ byteLength m.body ∧
      Grammar.Twin m.front [] k t u ∧ Grammar.Twin [] m.front k u t := by
  obtain ⟨v, newline, same, rfl, flag⟩ := lined_get found
  rw [List.getElem?_map, same] at found'
  cases found'
  obtain ⟨start, ordered, stop⟩ := m.body_start_le v (List.mem_of_getElem? same)
  have begins : v.span.start = byteLength m.front + (v.span.start - bodyStart m.list) ∧
      v.span.stop = byteLength m.front + (v.span.stop - bodyStart m.list) := by
    rw [front_length]
    omega
  refine ⟨by rwa [front_length], ?_, ?_, ?_⟩
  · simp only [moved]
    omega
  · exact ⟨rfl, rfl, rfl, fun behind => (flag behind).symm, ⟨_, begins.1, rfl⟩, ⟨_, begins.2, rfl⟩⟩
  · exact ⟨rfl, rfl, rfl, flag, ⟨_, rfl, begins.1⟩, ⟨_, rfl, begins.2⟩⟩

theorem token_behind (k : Nat) : m.script.tokens[m.bodyIndex + k]? =
    (lined m.items ++ closingTokens (bodyStart m.list + byteLength m.body))[k]? := by
  rw [tokens_eq, ← front_tokens_length, List.getElem?_append_right (Nat.le_add_right ..), Nat.add_sub_cancel_left]

theorem closing_token (k : Nat) : m.script.tokens[m.bodyIndex + m.items.length + k]? =
    (closingTokens (bodyStart m.list + byteLength m.body))[k]? := by
  have inside := Nat.le_add_right m.items.length k
  have length := lined_length m.items
  rw [Nat.add_assoc, token_behind, List.getElem?_append_right (by omega), length, Nat.add_sub_cancel_left]

theorem front_before : byteLength m.front ≤ m.script.startAt m.bodyIndex := by
  rw [front_length]
  have known := m.token_behind 0
  rw [Nat.add_zero] at known
  cases items : m.items with
  | nil =>
    rw [items] at known
    rw [Grammar.Script.start_at known]
    dsimp only
    omega
  | cons u later =>
    rw [items] at known
    rw [Grammar.Script.start_at known]
    exact (m.body_start_le u (by rw [items]; exact List.mem_cons_self ..)).1

/-- The body is an excerpt of what is made of it. -/
theorem exists_body : ∃ x : Grammar.Excerpt, x.whole = m.script ∧ x.part = m.bodyScript ∧ x.first = m.bodyIndex ∧
    x.place = 0 ∧ x.count = m.items.length ∧ x.Reaches true x.count := by
  have source : m.bodyScript.source = [] ++ (m.body ++ []) := (List.append_nil m.body).symm
  have listed : m.bodyScript.tokens = [] ++ (m.items.map (moved (bodyStart m.list) 0) ++
    [moved (bodyStart m.list) 0 (endToken m.stop)]) := m.body_tokens_eq
  let x : Grammar.Excerpt := .between m.script m.bodyScript m.source_eq source m.tokens_eq listed
    (by simp [lined_length])
    (fun k t u found found' => ⟨(m.item_twins found found').1, (m.item_twins found found').2.2.1⟩)
    (by rw [front_tokens_length]; exact m.front_before) (by simp [closingTokens])
    ⟨_, rfl, by simp [moved, endToken, Grammar.closing]⟩
  have count : x.count = m.items.length := lined_length m.items
  refine ⟨x, rfl, rfl, m.front_tokens_length, rfl, count, Nat.le_refl _, fun _ => ?_⟩
  refine ⟨moved (bodyStart m.list) 0 (endToken m.stop), ?_, by simp [moved, endToken, Grammar.closing]⟩
  change m.bodyScript.tokens[0 + x.count]? = _
  rw [count, Nat.zero_add, body_tokens_eq]
  simp

/-- What is made of a body is an excerpt of it, up to the brace behind it. -/
theorem exists_made : ∃ x : Grammar.Excerpt, x.whole = m.bodyScript ∧ x.part = m.script ∧ x.first = 0 ∧
    x.place = m.bodyIndex ∧ x.count = m.items.length ∧ x.Reaches true x.count := by
  have source : m.bodyScript.source = [] ++ (m.body ++ []) := (List.append_nil m.body).symm
  have listed : m.bodyScript.tokens = [] ++ (m.items.map (moved (bodyStart m.list) 0) ++
    [moved (bodyStart m.list) 0 (endToken m.stop)]) := m.body_tokens_eq
  let x : Grammar.Excerpt := .between m.bodyScript m.script source m.source_eq listed m.tokens_eq
    (by simp [lined_length])
    (fun k t u found found' =>
      ⟨(Nat.zero_add _).symm ▸ (m.item_twins found' found).2.1, (m.item_twins found' found).2.2.2⟩)
    (Nat.zero_le _) (by simp) ⟨_, rfl, by simp [Grammar.closing]⟩
  have count : x.count = m.items.length := List.length_map _
  have place : x.place = m.bodyIndex := m.front_tokens_length
  refine ⟨x, rfl, rfl, rfl, place, count, Nat.le_refl _, fun _ => ?_⟩
  rw [place, count]
  exact ⟨_, m.closing_token 0, by simp [Grammar.closing]⟩

end Making
end ScriptEngine
