import ScriptEngine.Proofs.Scanning.Layout

/-!
Only escapes make a string one of the older octal form. Each token can be scanned again from the place in the script
at which it begins, and a string that is scanned without a backslash in it keeps what is noted of octal escapes.
-/

namespace ScriptEngine.Scanning

/-- A token is what the scanner finds at some place in a script. -/
def ScannedIn (source : List Char) (t : Token) : Prop :=
  ∃ passed rest newline next, source = passed ++ rest ∧
    scanToken newline (byteLength passed) rest = .ok (t, next)

/-- Tokens are scanned one behind the other. -/
theorem scanned_of_tokens_from {source : List Char} {fuel : Nat} {done tokens : List Token} {place : Place}
    (passed : List Char) (same : source = passed ++ place.rest) (counted : place.offset = byteLength passed)
    (scanned : tokensFrom fuel done place = .ok tokens) (before : ∀ t ∈ done, ScannedIn source t) :
    ∀ t ∈ tokens, ScannedIn source t := by
  induction fuel generalizing done place passed with
  | zero => cases scanned
  | succ fuel ih =>
    obtain ⟨offset, rest⟩ := place
    dsimp only at same counted
    subst counted
    simp only [tokensFrom] at scanned
    cases skipped : skipGap .open false (byteLength passed) rest with
    | error fault =>
      rw [skipped] at scanned
      cases scanned
    | ok gapped =>
      obtain ⟨newline, start⟩ := gapped
      have awaits : Gap.open.Awaits rest := trivial
      obtain ⟨gap, rfl, counted, -, -⟩ := skip_gap_passes rest awaits skipped
      obtain ⟨offset, rest⟩ := start
      dsimp only at same counted skipped
      rw [← byteLength_append] at counted
      rw [← List.append_assoc] at same
      subst counted
      rw [skipped] at scanned
      dsimp only [bind, Except.bind] at scanned
      cases read : scanToken newline (byteLength (passed ++ gap)) rest with
      | error fault =>
        rw [read] at scanned
        cases scanned
      | ok token =>
        obtain ⟨t, next⟩ := token
        rw [read] at scanned
        dsimp only at scanned
        have here : ScannedIn source t := ⟨passed ++ gap, rest, newline, next, same, read⟩
        have known : ∀ u ∈ t :: done, ScannedIn source u := List.forall_mem_cons.mpr ⟨here, before⟩
        by_cases ended : t.kind = .endOfInput
        · rw [if_pos (beq_iff_eq.mpr ended)] at scanned
          cases scanned
          exact fun u mem => known u (List.mem_reverse.mp mem)
        · rw [if_neg (by simpa using ended)] at scanned
          have full : rest ≠ [] := by
            rintro rfl
            cases read
            exact ended rfl
          have splits := scan_token_splits full newline (byteLength (passed ++ gap))
          rw [read] at splits
          obtain ⟨piece, parts, counted, -, -⟩ := splits
          refine ih (passed ++ gap ++ piece) ?_ ?_ scanned known
          · simp only [same, parts, List.append_assoc]
          · rw [counted, byteLength_append (passed ++ gap)]

theorem scanned_of_tokens_of {source : String} {tokens : List Token} (read : tokensOf source = .ok tokens) :
    ∀ t ∈ tokens, ScannedIn source.toList t := by
  unfold tokensOf at read
  dsimp only at read
  cases scanned : tokensFrom (source.toList.length + 1) [] ⟨0, source.toList⟩ with
  | error fault =>
    rw [scanned] at read
    cases read
  | ok found =>
    rw [scanned] at read
    cases read
    exact scanned_of_tokens_from [] rfl rfl scanned (List.forall_mem_nil _)

/-! ## Strings without escapes -/

/-- Among plain characters only a backslash begins an escape. -/
theorem plain_step {quote c : Char} {s later : StringState} (plain : s.mode = .plain)
    (stepped : s.step quote c = .next later) :
    c ≠ quote ∧ (c ≠ '\\' → later.mode = .plain ∧ later.octal = s.octal) := by
  unfold StringState.step at stepped
  rw [plain] at stepped
  dsimp only at stepped
  unfold StringState.stepPlain at stepped
  split at stepped
  · cases stepped
  · next other =>
    refine ⟨by simpa using other, fun unescaped => ?_⟩
    split at stepped
    · cases stepped
    · rw [if_neg (by simpa using unescaped)] at stepped
      cases stepped
      exact ⟨rfl, rfl⟩

/-- A string that is scanned from among plain characters has a backslash in it, or it stays as octal as it is. -/
theorem octal_of_scan_string {quote : Char} {text : List Char} {s ended : StringState} {offset : Nat} {place : Place}
    (plain : s.mode = .plain) (scanned : scanString quote s offset text = .ok (ended, place)) :
    ∃ inside, text = inside ++ quote :: place.rest ∧ ('\\' ∉ inside → ended.octal = s.octal) := by
  induction text generalizing s offset with
  | nil => cases scanned
  | cons c text ih =>
    have splits := scan_string_splits quote (c :: text) s offset
    rw [scanned] at splits
    unfold scanString at scanned
    dsimp only at scanned
    cases stepped : s.step quote c with
    | closed =>
      rw [stepped] at scanned
      cases scanned
      refine ⟨[], by rw [step_closed stepped]; rfl, fun _ => ?_⟩
      simp only [StringState.close, plain]
    | fault f =>
      rw [stepped] at scanned
      cases scanned
    | next later =>
      rw [stepped] at scanned
      dsimp only at scanned
      obtain ⟨other, unescaped⟩ := plain_step plain stepped
      by_cases escape : c = '\\'
      · obtain ⟨inside, parts, -⟩ := splits
        refine ⟨inside, parts, fun none => absurd ?_ none⟩
        cases inside with
        | nil => exact absurd (List.cons.inj parts).1 other
        | cons first inside =>
          obtain ⟨rfl, -⟩ := List.cons.inj parts
          exact escape ▸ .head _
      · obtain ⟨stays, octal⟩ := unescaped escape
        obtain ⟨inside, parts, kept⟩ := ih stays scanned
        refine ⟨c :: inside, by rw [parts]; rfl, fun none => ?_⟩
        rw [kept fun mem => none (.tail _ mem), octal]

/-- A string of the older octal form has a backslash in its text. -/
theorem backslash_of_octal {source : List Char} {t : Token} (scanned : ScannedIn source t) (kind : t.kind = .string)
    (octal : t.legacyOctal = true) {text : List Char} (found : t.span.slice? source = some text) : '\\' ∈ text := by
  obtain ⟨passed, rest, newline, next, rfl, read⟩ := scanned
  have full : rest ≠ [] := by
    rintro rfl
    cases read
    cases kind
  have splits := scan_token_splits full newline (byteLength passed)
  rw [read] at splits
  obtain ⟨piece, parts, -, readOff, -⟩ := splits
  obtain ⟨c, rest, rfl⟩ := List.exists_cons_of_ne_nil full
  have slice := slice_of_parts passed piece next.rest
  rw [← parts, ← readOff.span, found] at slice
  obtain rfl := Option.some.inj slice
  cases scan_token_iff.mp read with
  | word => exact absurd kind (word_kind _).2
  | number => cases kind
  | mark => cases kind
  | string noWord noNumber quoted string =>
    obtain ⟨inside, same, kept⟩ := octal_of_scan_string rfl string
    by_contra none
    have whole : text ++ next.rest = c :: (inside ++ [c]) ++ next.rest := by
      rw [← parts, same]
      simp
    have unescaped : '\\' ∉ inside := by
      intro mem
      rw [List.append_cancel_right whole] at none
      exact none (.tail _ (List.mem_append_left _ mem))
    exact absurd octal (Bool.eq_false_iff.mp (kept unescaped))

end ScriptEngine.Scanning
