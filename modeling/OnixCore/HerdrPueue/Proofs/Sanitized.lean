import OnixCore.HerdrPueue.Overview

/-!
# What is drawn of a text

A text that was sanitized holds no control character, fits its columns and four characters for each
of them, and has no white space around it (`Clean`). The texts that are like this are the ones that
sanitizing leaves alone, and what it makes of any text depends on what stands outside the escape
sequences (`visible`).

Of a command, no part with an equals sign is shown, neither with its task nor in the sidebar.
-/

namespace OnixCore.HerdrPueue

section

variable (unicode : UnicodeWidth)

def columnsOf (t : Text) : ℕ := (t.map (displayWidth unicode)).sum

structure Clean (maxColumns : ℕ) (t : Text) : Prop where
  plain : ∀ c ∈ t, Text.isControl c = false
  fits : columnsOf unicode t ≤ maxColumns
  short : t.length ≤ saturatingMul maxColumns maxOutputCharactersPerColumn
  trimmed : Text.trim t = t

/-- What the counts of an output say. -/
structure Output.Counted (bounds : TextBounds) (o : Output) : Prop where
  plain : ∀ c ∈ o.reversed, Text.isControl c = false
  columns : o.columns = columnsOf unicode o.reversed
  characters : o.characters = o.reversed.length
  fits : o.columns ≤ bounds.columns
  short : o.characters ≤ bounds.characters

/-- Bounds that the counts cannot overflow. -/
structure TextBounds.Sane (bounds : TextBounds) : Prop where
  columns : bounds.columns < maxU32
  characters : bounds.characters ≤ maxU32

end

section

variable {unicode : UnicodeWidth} {bounds : TextBounds} {o : Output} {c : Char} {t : Text}
  {maxColumns : ℕ} {state : EscapeState}

theorem displayWidth_space : displayWidth unicode ' ' = 1 := by
  simp [displayWidth, unicode.space, maxU32]

theorem displayWidth_ellipsis : displayWidth unicode ellipsis = 1 := by
  simp [displayWidth, ellipsis, unicode.ellipsis, maxU32]

theorem columnsOf_cons :
    columnsOf unicode (c :: t) = displayWidth unicode c + columnsOf unicode t := by
  simp [columnsOf]

theorem columnsOf_reverse : columnsOf unicode t.reverse = columnsOf unicode t := by
  simp [columnsOf, List.sum_reverse]

theorem columnsOf_sublist {t' : Text} (h : t'.Sublist t) :
    columnsOf unicode t' ≤ columnsOf unicode t := by
  induction h with
  | slnil => exact Nat.le_refl _
  | cons c _ ih =>
    rw [columnsOf_cons]
    omega
  | cons_cons c _ ih =>
    rw [columnsOf_cons, columnsOf_cons]
    omega

/-! ### Writing -/

theorem saturatingAdd_eq {a b : ℕ} (h : saturatingAdd a b < maxU32) :
    saturatingAdd a b = a + b := by
  unfold saturatingAdd at *
  omega

/-- A character that fits is counted. -/
theorem Output.Counted.push (ho : o.Counted unicode bounds) (hsane : bounds.Sane)
    (hc : Text.isControl c = false)
    (hcolumns : saturatingAdd o.columns (displayWidth unicode c) ≤ bounds.columns)
    (hcharacters : o.characters < bounds.characters) :
    (o.push c (displayWidth unicode c)).Counted unicode bounds := by
  have hsum := saturatingAdd_eq (hcolumns.trans_lt hsane.columns)
  have hcount : saturatingAdd o.characters 1 = o.characters + 1 := by
    have := hsane.characters
    unfold saturatingAdd
    omega
  constructor
  · exact List.forall_mem_cons.2 ⟨hc, ho.plain⟩
  · change saturatingAdd o.columns _ = _
    rw [hsum, ho.columns, Output.push, columnsOf_cons, Nat.add_comm]
  · change saturatingAdd o.characters 1 = _
    rw [hcount, ho.characters]
    rfl
  · exact hcolumns
  · change saturatingAdd o.characters 1 ≤ _
    omega

theorem Output.Counted.appendSpace (ho : o.Counted unicode bounds) (hsane : bounds.Sane) :
    (appendSpace bounds o).Counted unicode bounds := by
  unfold HerdrPueue.appendSpace
  split_ifs with hskip hfull
  · exact ho
  · exact ho
  · have hcolumns : saturatingAdd o.columns (displayWidth unicode ' ') ≤ bounds.columns := by
      simp only [not_or, not_le] at hskip
      have := hskip.2.2
      rw [displayWidth_space, saturatingAdd]
      omega
    have hpush := ho.push hsane (c := ' ') (by decide) hcolumns (not_le.1 hfull)
    rwa [displayWidth_space] at hpush

theorem sanitizeFrom_counted (hsane : bounds.Sane) :
    ∀ (t : Text) (state : EscapeState) (o : Output), o.Counted unicode bounds →
      (sanitizeFrom unicode bounds state o t).1.Counted unicode bounds
  | [], _, _, ho => ho
  | c :: cs, state, o, ho => by
    rw [sanitizeFrom]
    split_ifs with hstate hintroducer hcontrol hspace hwide hfull
    · exact sanitizeFrom_counted hsane cs _ o ho
    · exact sanitizeFrom_counted hsane cs _ o ho
    · exact sanitizeFrom_counted hsane cs _ _ (ho.appendSpace hsane)
    · exact sanitizeFrom_counted hsane cs _ o ho
    · exact ho
    · exact ho
    · exact sanitizeFrom_counted hsane cs _ _
        (ho.push hsane (by simpa using hcontrol) (not_lt.1 hwide) (not_le.1 hfull))

/-- The ellipsis has room after what is left. -/
theorem makeRoom_eq_some (hsane : bounds.Sane) : ∀ {t r : Text},
    makeRoom unicode bounds t (columnsOf unicode t) t.length = some r →
      r.Sublist t ∧ columnsOf unicode r + 1 ≤ bounds.columns ∧ r.length < bounds.characters := by
  have hroom : ∀ t : Text, ¬ (bounds.columns < saturatingAdd (columnsOf unicode t) ellipsisColumns
      ∨ bounds.characters ≤ t.length) →
        columnsOf unicode t + 1 ≤ bounds.columns ∧ t.length < bounds.characters := by
    intro t h
    simp only [not_or, not_lt, not_le] at h
    have hsum := saturatingAdd_eq (h.1.trans_lt hsane.columns)
    rw [hsum, ellipsisColumns] at h
    exact h
  intro t
  induction t with
  | nil =>
    intro r h
    unfold makeRoom at h
    split_ifs at h with hfull
    cases h
    exact ⟨List.Sublist.refl _, hroom [] hfull⟩
  | cons last rest ih =>
    intro r h
    unfold makeRoom at h
    split_ifs at h with hfull
    · rw [columnsOf_cons, Nat.add_sub_cancel_left, List.length_cons, Nat.add_sub_cancel] at h
      obtain ⟨hsub, hr⟩ := ih h
      exact ⟨hsub.cons _, hr⟩
    · cases h
      exact ⟨List.Sublist.refl _, hroom (last :: rest) hfull⟩

/-- What is written of a text, before it is trimmed. -/
theorem written_counted (hsane : bounds.Sane) (ho : o.Counted unicode bounds) :
    (∀ c ∈ appendEllipsis unicode bounds o, Text.isControl c = false)
      ∧ columnsOf unicode (appendEllipsis unicode bounds o) ≤ bounds.columns
      ∧ (appendEllipsis unicode bounds o).length ≤ bounds.characters := by
  unfold appendEllipsis
  rw [ho.columns, ho.characters]
  split
  · simp [columnsOf]
  next r hr =>
    obtain ⟨hsub, hcolumns, hcharacters⟩ := makeRoom_eq_some hsane hr
    have hdrop := List.dropWhile_sublist (l := r) (· = ' ')
    have hwidth : columnsOf unicode _ ≤ columnsOf unicode r := columnsOf_sublist hdrop
    have hlength := hdrop.length_le
    refine ⟨List.forall_mem_cons.2 ⟨by decide, fun c hc => ho.plain c ?_⟩, ?_, ?_⟩
    · exact hsub.mem (hdrop.mem hc)
    · rw [columnsOf_cons, displayWidth_ellipsis]
      omega
    · rw [List.length_cons]
      omega

theorem saneBounds (hmax : maxColumns < maxU32) :
    TextBounds.Sane ⟨maxColumns, saturatingMul maxColumns maxOutputCharactersPerColumn⟩ :=
  ⟨hmax, Nat.min_le_right _ _⟩

/-- What was sanitized is clean. -/
theorem sanitize_clean (hmax : maxColumns < maxU32) (t : Text) :
    Clean unicode maxColumns (sanitizeTerminalText unicode t maxColumns) := by
  unfold sanitizeTerminalText
  split_ifs with hzero
  · exact ⟨by simp, by simp [columnsOf], by simp, rfl⟩
  have hsane := saneBounds hmax
  have hempty : Output.Counted unicode
      ⟨maxColumns, saturatingMul maxColumns maxOutputCharactersPerColumn⟩ ⟨[], 0, 0⟩ := by
    constructor <;> simp [columnsOf]
  have ho := sanitizeFrom_counted hsane t .ground _ hempty
  have hwritten := written_counted hsane ho
  dsimp only
  generalize sanitizeFrom unicode _ _ _ t = result at ho hwritten ⊢
  obtain ⟨o, wasTruncated⟩ := result
  have hclean : ∀ written : Text, (∀ c ∈ written, Text.isControl c = false) →
      columnsOf unicode written ≤ maxColumns →
      written.length ≤ saturatingMul maxColumns maxOutputCharactersPerColumn →
      Clean unicode maxColumns (Text.trim written.reverse) := by
    intro written hplain hfits hshort
    have hsub := Text.trim_sublist written.reverse
    refine ⟨fun c hc => hplain c (by simpa using hsub.mem hc), ?_, ?_, Text.trim_trim _⟩
    · rw [← columnsOf_reverse] at hfits
      exact (columnsOf_sublist hsub).trans hfits
    · have hlength := hsub.length_le
      rw [List.length_reverse] at hlength
      omega
  cases wasTruncated with
  | true => exact hclean _ hwritten.1 hwritten.2.1 hwritten.2.2
  | false =>
    refine hclean _ ho.plain ?_ ?_
    · exact ho.columns ▸ ho.fits
    · exact ho.characters ▸ ho.short

/-! ### Reading -/

/-- What stands outside the escape sequences. -/
def visibleFrom : EscapeState → Text → Text
  | _, [] => []
  | state, c :: cs =>
    let next := consumeEscapeState state c
    if state = .ground ∧ next = .ground then c :: visibleFrom next cs else visibleFrom next cs

def visible (t : Text) : Text := visibleFrom .ground t

theorem ground_of_plain (hc : Text.isControl c = false) :
    consumeEscapeState .ground c = .ground := by
  have hne : ∀ d, Text.isControl d = true → c ≠ d := by
    rintro d hd rfl
    rw [hd] at hc
    cases hc
  have hescape := hne escape (by decide)
  have hcsi := hne controlSequenceIntroducer (by decide)
  have hosc := hne operatingSystemCommand (by decide)
  simp [consumeEscapeState, hescape, hcsi, hosc]

/-- A text without control characters that fits is written as it is. -/
theorem sanitizeFrom_plain (hsane : bounds.Sane) : ∀ {t : Text} {o : Output},
    o.Counted unicode bounds → (∀ c ∈ t, Text.isControl c = false) →
      o.columns + columnsOf unicode t ≤ bounds.columns →
      o.characters + t.length ≤ bounds.characters →
        ∃ o', sanitizeFrom unicode bounds .ground o t = (o', false)
          ∧ o'.reversed = t.reverse ++ o.reversed
  | [], o, _, _, _, _ => ⟨o, rfl, rfl⟩
  | c :: cs, o, ho, hplain, hfits, hshort => by
    obtain ⟨hc, hcs⟩ := List.forall_mem_cons.1 hplain
    rw [columnsOf_cons] at hfits
    rw [List.length_cons] at hshort
    have hsum : saturatingAdd o.columns (displayWidth unicode c)
        = o.columns + displayWidth unicode c := by
      have := hsane.columns
      unfold saturatingAdd
      omega
    have hcount : saturatingAdd o.characters 1 = o.characters + 1 := by
      have := hsane.characters
      unfold saturatingAdd
      omega
    have hpush := ho.push hsane hc (by omega) (by omega)
    obtain ⟨o', ho', hreversed⟩ := sanitizeFrom_plain hsane hpush hcs
      (by change saturatingAdd _ _ + _ ≤ _; omega) (by change saturatingAdd _ _ + _ ≤ _; omega)
    refine ⟨o', ?_, ?_⟩
    · have hstay : ¬ (EscapeState.ground ≠ .ground ∨ consumeEscapeState .ground c ≠ .ground) := by
        simp [ground_of_plain hc]
      have hne : ¬ (c = escape ∨ c = controlSequenceIntroducer) := by
        rintro (rfl | rfl)
        · cases hc
        · cases hc
      rw [sanitizeFrom, if_neg hstay, if_neg hne, if_neg (by simp [hc]), if_neg (by omega),
        if_neg (by omega)]
      exact ho'
    · rw [hreversed, List.reverse_cons, List.append_assoc]
      rfl

/-- Sanitizing leaves alone exactly the texts that are clean. -/
theorem sanitize_eq_self_iff (hmax : maxColumns < maxU32) :
    sanitizeTerminalText unicode t maxColumns = t ↔ Clean unicode maxColumns t := by
  constructor
  · intro h
    rw [← h]
    exact sanitize_clean hmax t
  · intro h
    unfold sanitizeTerminalText
    split_ifs with hzero
    · have hshort := h.short
      simp only [hzero, saturatingMul, Nat.zero_mul, Nat.zero_min, Nat.le_zero,
        List.length_eq_zero_iff] at hshort
      exact hshort.symm
    have hempty : Output.Counted unicode
        ⟨maxColumns, saturatingMul maxColumns maxOutputCharactersPerColumn⟩ ⟨[], 0, 0⟩ := by
      constructor <;> simp [columnsOf]
    obtain ⟨o, ho, hreversed⟩ := sanitizeFrom_plain (saneBounds hmax) hempty h.plain
      (by simpa using h.fits) (by simpa using h.short)
    dsimp only
    rw [ho, hreversed]
    simpa using h.trimmed

/-- What sanitizing makes of any text is clean, and the texts that are clean it leaves alone. -/
theorem sanitize_canonical (hmax : maxColumns < maxU32) :
    (∀ t, Clean unicode maxColumns (sanitizeTerminalText unicode t maxColumns))
      ∧ ∀ t, sanitizeTerminalText unicode t maxColumns = t ↔ Clean unicode maxColumns t :=
  ⟨sanitize_clean hmax, fun _ => sanitize_eq_self_iff hmax⟩

theorem sanitize_canonical_five :
    (∀ t, Clean plainWidth 5 (sanitizeTerminalText plainWidth t 5))
      ∧ ∀ t, sanitizeTerminalText plainWidth t 5 = t ↔ Clean plainWidth 5 t :=
  sanitize_canonical (by decide)

/-! ### Commands -/

theorem sanitizeFrom_all {P : Char → Prop} (hspace : P ' ') : ∀ {t : Text} {state : EscapeState}
    {o : Output}, (∀ c ∈ t, P c) → (∀ c ∈ o.reversed, P c) →
      ∀ c ∈ (sanitizeFrom unicode bounds state o t).1.reversed, P c
  | [], _, _, _, ho => ho
  | c :: cs, state, o, ht, ho => by
    obtain ⟨hc, hcs⟩ := List.forall_mem_cons.1 ht
    rw [sanitizeFrom]
    split_ifs
    · exact sanitizeFrom_all hspace hcs ho
    · exact sanitizeFrom_all hspace hcs ho
    · refine sanitizeFrom_all hspace hcs ?_
      unfold appendSpace
      split_ifs
      · exact ho
      · exact ho
      · exact List.forall_mem_cons.2 ⟨hspace, ho⟩
    · exact sanitizeFrom_all hspace hcs ho
    · exact ho
    · exact ho
    · exact sanitizeFrom_all hspace hcs (List.forall_mem_cons.2 ⟨hc, ho⟩)

theorem makeRoom_sublist : ∀ {t r : Text} {columns characters : ℕ},
    makeRoom unicode bounds t columns characters = some r → r.Sublist t
  | [], r, _, _, h => by
    unfold makeRoom at h
    split_ifs at h
    cases h
    exact List.Sublist.refl _
  | last :: rest, r, _, _, h => by
    unfold makeRoom at h
    split_ifs at h
    · exact (makeRoom_sublist h).cons _
    · cases h
      exact List.Sublist.refl _

/-- Sanitizing adds spaces and the ellipsis alone. -/
theorem sanitize_all {P : Char → Prop} (hspace : P ' ') (hellipsis : P ellipsis)
    (h : ∀ c ∈ t, P c) : ∀ c ∈ sanitizeTerminalText unicode t maxColumns, P c := by
  unfold sanitizeTerminalText
  split_ifs
  · simp
  have ho : ∀ c ∈ (sanitizeFrom unicode
      ⟨maxColumns, saturatingMul maxColumns maxOutputCharactersPerColumn⟩ .ground ⟨[], 0, 0⟩
        t).1.reversed, P c := sanitizeFrom_all hspace h (by simp)
  dsimp only
  generalize sanitizeFrom unicode _ _ _ t = result at ho ⊢
  obtain ⟨o, wasTruncated⟩ := result
  intro c hc
  have hwritten := (Text.trim_sublist _).mem hc
  rw [List.mem_reverse] at hwritten
  cases wasTruncated with
  | false => exact ho c hwritten
  | true =>
    simp only [if_true, appendEllipsis] at hwritten
    split at hwritten
    · cases hwritten
    next r hr =>
      rcases List.mem_cons.1 hwritten with rfl | hmem
      · exact hellipsis
      · exact ho c ((makeRoom_sublist hr).mem ((List.dropWhile_sublist _).mem hmem))

theorem safeProgramName_noEquals {token name : Text} (h : safeProgramName token = some name) :
    '=' ∉ name := by
  unfold safeProgramName at h
  split_ifs at h with hdash hunsafe
  split at h
  · cases h
  next last hlast =>
    split_ifs at h
    cases h
    intro hmem
    have hpiece := List.mem_of_getLast? hlast
    rw [List.splitOn_eq_splitOnP] at hpiece
    rw [Bool.not_eq_true, Bool.not_eq_false'] at hunsafe
    have hequals := List.all_eq_true.1 hunsafe '=' (Text.mem_of_mem_splitOnP hpiece hmem)
    exact absurd hequals (by decide)

theorem commandPrefix_noEquals {tokens : List Text} (h : ∀ token ∈ tokens, '=' ∉ token) :
    '=' ∉ commandPrefix tokens := by
  unfold commandPrefix
  split
  · decide
  next kept hkept =>
    refine Text.notMem_intercalate (by decide) fun token htoken => h token ?_
    exact (List.rdropWhile_prefix _ _).sublist.mem htoken

theorem environmentWrappedProgram_noEquals (command : Text) :
    '=' ∉ environmentWrappedProgram command := by
  unfold environmentWrappedProgram
  split
  · decide
  next token _ =>
    rcases hname : safeProgramName token with _ | name
    · decide
    · exact safeProgramName_noEquals hname

/-- No part of a command with an equals sign in it is shown. -/
theorem sanitizeCommandDescription_noEquals (command : Text) (maxColumns : ℕ) :
    '=' ∉ sanitizeCommandDescription unicode command maxColumns := by
  unfold sanitizeCommandDescription
  split
  · decide
  next first rest hwords =>
    split_ifs
    · exact environmentWrappedProgram_noEquals command
    dsimp only
    split
    next index hindex =>
      refine commandPrefix_noEquals fun token htoken => ?_
      obtain ⟨i, hi, rfl⟩ := List.mem_take_iff_getElem.1 htoken
      have hbefore := (List.findIdx?_eq_some_iff_getElem.1 hindex).2.2 i (by omega)
      simp only [Bool.not_eq_true, decide_eq_false_iff_not, not_or] at hbefore
      exact hbefore.2
    next hnone =>
      intro hmem
      obtain ⟨token, htoken, hequals⟩ := Text.exists_word hmem (by decide)
      have hsafe := List.findIdx?_eq_none_iff.1 hnone token htoken
      simp only [decide_eq_false_iff_not, not_or] at hsafe
      exact hsafe.2 hequals

/-- A token without the value that it assigns. -/
def hideValue (token : Text) : Text :=
  if '=' ∈ token then token.takeWhile (· ≠ '=') ++ ['='] else token

theorem mem_hideValue {token : Text} : '=' ∈ hideValue token ↔ '=' ∈ token := by
  unfold hideValue
  split_ifs with h
  · simp [h]
  · rfl

theorem hideValue_of_notMem {token : Text} (h : '=' ∉ token) : hideValue token = token := if_neg h

theorem hideValue_eq_env {token : Text} : hideValue token = envProgram ↔ token = envProgram := by
  have henv : '=' ∉ envProgram := by decide
  constructor
  · intro h
    have hnot : '=' ∉ token := fun hmem => henv (h ▸ mem_hideValue.2 hmem)
    rwa [hideValue_of_notMem hnot] at h
  · rintro rfl
    exact hideValue_of_notMem henv

theorem environmentAssignment_hideValue (token : Text) :
    environmentAssignment (hideValue token) = environmentAssignment token := by
  by_cases h : '=' ∈ token
  · have hname : (hideValue token).takeWhile (· ≠ '=') = token.takeWhile (· ≠ '=') := by
      rw [hideValue, if_pos h, List.takeWhile_append_of_pos]
      · simp
      · exact fun c hc => List.mem_takeWhile_imp (p := fun c => decide (c ≠ '=')) hc
    unfold environmentAssignment
    rw [hname]
    simp only [mem_hideValue]
  · rw [hideValue_of_notMem h]

/-- The program that is shown for a command in an environment, by its tokens. -/
theorem environmentWrappedProgram_hideValue (command : Text) :
    environmentWrappedProgram command
      = match (((Text.words command).map hideValue).take maxEnvironmentPrefixTokens).find?
          fun token => !(token = envProgram ∨ '=' ∈ token) with
        | none => unlabeledTaskDescription
        | some token => (safeProgramName token).getD unlabeledTaskDescription := by
  have hfind (tokens : List Text) :
      (tokens.map hideValue).find? (fun token => !(token = envProgram ∨ '=' ∈ token))
        = tokens.find? fun token => !(token = envProgram ∨ '=' ∈ token) := by
    induction tokens with
    | nil => rfl
    | cons token tokens ih =>
      rw [List.map_cons, List.find?_cons, List.find?_cons]
      simp only [hideValue_eq_env, mem_hideValue, ih]
      by_cases h : token = envProgram ∨ '=' ∈ token
      · simp [h]
      · have hnot : '=' ∉ token := fun hmem => h (.inr hmem)
        simp [h, hideValue_of_notMem hnot]
  have htaken := hfind ((Text.words command).take maxEnvironmentPrefixTokens)
  rw [List.map_take] at htaken
  rw [htaken]
  rfl

/-- What is shown of a command that begins with `env` or an assignment does not depend on the values
that are assigned. -/
theorem environment_hidden {command command' first : Text} {rest : List Text}
    (hwords : Text.words command = first :: rest)
    (hfirst : first = envProgram ∨ environmentAssignment first = true)
    (hsame : (Text.words command).map hideValue = (Text.words command').map hideValue)
    (maxColumns : ℕ) : sanitizeCommandDescription unicode command maxColumns
      = sanitizeCommandDescription unicode command' maxColumns := by
  have hwrapped : ∀ {command first : Text} {rest : List Text}, Text.words command = first :: rest →
      (first = envProgram ∨ environmentAssignment first = true) →
        sanitizeCommandDescription unicode command maxColumns
          = environmentWrappedProgram command := by
    intro command first rest hwords hfirst
    unfold sanitizeCommandDescription
    rw [hwords]
    exact if_pos hfirst
  rcases hwords' : Text.words command' with _ | ⟨first', rest'⟩
  · rw [hwords, hwords'] at hsame
    cases hsame
  · have hhead : hideValue first = hideValue first' := by
      rw [hwords, hwords', List.map_cons, List.map_cons] at hsame
      exact (List.cons.inj hsame).1
    have hfirst' : first' = envProgram ∨ environmentAssignment first' = true := by
      rwa [← hideValue_eq_env, ← environmentAssignment_hideValue, hhead, hideValue_eq_env,
        environmentAssignment_hideValue] at hfirst
    rw [hwrapped hwords hfirst, hwrapped hwords' hfirst',
      environmentWrappedProgram_hideValue command, environmentWrappedProgram_hideValue command',
      hsame]

theorem environment_hidden_key :
    sanitizeCommandDescription plainWidth "KEY=one /bin/ls".toList 40
      = sanitizeCommandDescription plainWidth "KEY=two /bin/ls".toList 40 := by
  have hwords : Text.words "KEY=one /bin/ls".toList = ["KEY=one".toList, "/bin/ls".toList] := by
    decide
  exact environment_hidden hwords (.inr (by decide)) (by decide) 40

/-! ### The sidebar -/

theorem number_noEquals (id : TaskId) : '=' ∉ ("#" ++ id.text ++ " ").toList := by
  rw [String.toList_append, String.toList_append, TaskId.text, Nat.toString_eq_repr,
    Nat.toList_repr, List.mem_append, List.mem_append]
  rintro ((hmem | hmem) | hmem)
  · exact absurd hmem (by decide)
  · exact absurd (Nat.isDigit_of_mem_toDigits (by decide) (by decide) hmem) (by decide)
  · exact absurd hmem (by decide)

theorem runningTaskText_noEquals {t : Task} (h : '=' ∈ runningTaskText unicode t) :
    taskLabelIsMeaningful (Text.trim t.label) = true ∧ '=' ∈ t.label := by
  by_contra hlabel
  refine sanitize_all (P := (· ≠ '=')) (by decide) (by decide) ?_ '=' h rfl
  rw [List.forall_mem_append]
  constructor
  · rintro _ hmem rfl
    exact number_noEquals t.id hmem
  · rintro _ hmem rfl
    split_ifs at hmem with hmeaningful
    · exact hlabel ⟨hmeaningful, (Text.trim_sublist _).mem hmem⟩
    · exact sanitizeCommandDescription_noEquals _ _ hmem

/-- The sidebar shows a line for each of the first two running tasks, and the line is clean. It
shows an equals sign only from a label. -/
theorem overview_lines (q : QueueState) :
    List.Forall₂ (fun t line => line = runningTaskText unicode t
        ∧ Clean unicode maxOverviewTaskTextColumns line
        ∧ ('=' ∈ line → taskLabelIsMeaningful (Text.trim t.label) = true ∧ '=' ∈ t.label))
      ((q.tasks.filter (·.state = .running)).take maxOverviewRunningTasks)
      (QueueOverview.fromQueue unicode q).runningTasks := by
  rw [QueueOverview.fromQueue, List.forall₂_map_right_iff, List.forall₂_same]
  exact fun t _ => ⟨rfl, sanitize_clean (by decide) _, runningTaskText_noEquals⟩

end

end OnixCore.HerdrPueue
