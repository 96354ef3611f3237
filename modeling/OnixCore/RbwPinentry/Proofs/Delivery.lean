import OnixCore.Lib.Percent
import OnixCore.RbwPinentry.Pinentry

/-!
# Which passwords the pinentry delivers

The dialog's output is trimmed of white space at both ends and sent as it is, so a password arrives
exactly when it has no white space at its ends and nothing in it is read as an escape
(`yields_typed_iff`). Until another password is entered the key ring holds what it held after the
prompt, or nothing (`keyring_before`), so what it answers later is the password too, unless it
refused to store it and holds another one (`session_delivers_iff`).
-/

namespace OnixCore.RbwPinentry

open NixEvalWarnings (isspace strip)

section Specification

variable (rbwProfile : Text) (keepsStray : Bool)

/-- The data lines among what is printed, without their mark. -/
def dataLines (printed : List Text) : List Text :=
  (printed.flatMap (·.splitOn '\n')).filterMap (Text.stripPrefix "D ".toList)

/-- There is one data line, from which a client gets the password. -/
def Yields (printed : List Text) (password : Text) : Prop :=
  ∃ line, dataLines printed = [line]
    ∧ Text.percentDecode keepsStray line = some (Text.toUtf8 password)

/-- A GETPIN that is answered from the key ring. -/
def FromRing (event : Event) : Prop :=
  command event.line = "GETPIN".toList ∧ event.before.error = []
    ∧ ∃ cached, getCachedPassword event.around event.before = some cached ∧ cached ≠ []

/-- A GETPIN that asks the user. -/
def Prompted (event : Event) : Prop :=
  command event.line = "GETPIN".toList ∧ ¬ FromRing event

/-- The dialog prints the password and a line feed. -/
structure Typed (event : Event) (password : Text) : Prop where
  prompted : Prompted event
  dialog : event.around.zenity (zenityCmd (dialogTitle event.before) event.before.prompt
    (dialogDesc rbwProfile event.before) event.before.error) = .exit 0 (password ++ ['\n'])
  ne_nil : password ≠ []
  noBreak : '\n' ∉ password ∧ '\r' ∉ password

/-- The client gets the password, now and wherever the key ring answers later, until a prompt is
answered with another one. -/
structure Delivered (event : Event) (password : Text) : Prop where
  now : Yields keepsStray event.printed password
  later : ∀ input middle later rest,
    handlePinentrySession rbwProfile event.after input = middle ++ later :: rest →
      (∀ m ∈ middle, Prompted m → dataLines m.printed = []) → FromRing later →
        Yields keepsStray later.printed password

/-- The password has no white space at either end and nothing in it is read as an escape. -/
structure Intact (password : Text) : Prop where
  front : ∀ c, password.head? = some c → isspace c = false
  back : ∀ c, password.getLast? = some c → isspace c = false
  verbatim : Text.Verbatim keepsStray password

/-- The state of the key ring when the dialog is shown. -/
def ringAtPrompt (event : Event) : Option Text :=
  if event.before.error ≠ [] then (clearCachedPassword event.around event.before).keyring
  else event.before.keyring

/-- The key ring stores the password, or holds nothing that is read as another one. -/
def Stored (event : Event) (password : Text) : Prop :=
  event.around.setFails = true → ∀ cached, ringAtPrompt event = some cached → cached ≠ [] →
    Yields keepsStray ["D ".toList ++ cached, "OK".toList] password

end Specification

section Dialog

variable {rbwProfile password : Text} {keepsStray : Bool} {event : Event}

theorem universalNewlines_of_notMem : ∀ {t : Text}, '\r' ∉ t → universalNewlines t = t
  | [], _ => rfl
  | c :: t, h => by
    have hc : c ≠ '\r' := fun hc => h (hc ▸ List.mem_cons_self)
    have ht : '\r' ∉ t := fun ht => h (List.mem_cons_of_mem c ht)
    rw [universalNewlines, universalNewlines_of_notMem ht]
    · rintro _ rfl -
      exact hc rfl
    · rintro rfl
      exact hc rfl

theorem strip_append_feed (t : Text) : strip (t ++ ['\n']) = strip t := by
  have hfeed : isspace '\n' = true := rfl
  unfold strip
  rw [List.dropWhile_append]
  split
  next hall =>
    rw [List.isEmpty_iff.1 hall, List.dropWhile_cons_of_pos hfeed]
    rfl
  next => rw [List.rdropWhile_concat_pos _ _ _ hfeed]

theorem strip_sublist (t : Text) : (strip t).Sublist t :=
  (List.rdropWhile_prefix isspace (t.dropWhile isspace)).sublist.trans (List.dropWhile_sublist _)

theorem strip_eq_self_iff {t : Text} : strip t = t
    ↔ (∀ c, t.head? = some c → isspace c = false) ∧ ∀ c, t.getLast? = some c → isspace c = false := by
  constructor
  · intro h
    have hdrop : t.dropWhile isspace = t := (List.dropWhile_sublist _).eq_of_length_le
      ((congrArg List.length h).symm.le.trans (List.rdropWhile_prefix _ _).length_le)
    rw [strip, hdrop] at h
    constructor
    · intro c hc
      obtain ⟨rest, rfl⟩ := List.head?_eq_some_iff.1 hc
      by_contra hspace
      rw [List.dropWhile_cons_of_pos (by simpa using hspace)] at hdrop
      have hlen := congrArg List.length hdrop
      have hle := (List.dropWhile_sublist isspace (l := rest)).length_le
      rw [List.length_cons] at hlen
      omega
    · intro c hc
      have hne : t ≠ [] := by
        rintro rfl
        cases hc
      rw [List.getLast?_eq_some_getLast hne] at hc
      obtain rfl := Option.some.inj hc
      simpa using List.rdropWhile_eq_self_iff.1 h hne
  · rintro ⟨hfront, hback⟩
    have hdrop : t.dropWhile isspace = t := by
      cases t with
      | nil => rfl
      | cons c rest => exact List.dropWhile_cons_of_neg (by simp [hfront c rfl])
    rw [strip, hdrop, List.rdropWhile_eq_self_iff]
    intro hne
    simp [hback _ (List.getLast?_eq_some_getLast hne)]

/-- What the dialog shown at a GETPIN gives. -/
def shown (rbwProfile : Text) (event : Event) : Option Text :=
  showZenityPasswordDialog event.around (dialogTitle event.before) event.before.prompt
    (dialogDesc rbwProfile event.before) event.before.error

theorem shown_typed (h : Typed rbwProfile event password) :
    shown rbwProfile event = if strip password ≠ [] then some (strip password) else none := by
  obtain ⟨hfeed, hreturn⟩ := h.noBreak
  have hraw : universalNewlines (password ++ ['\n']) = password ++ ['\n'] :=
    universalNewlines_of_notMem (by simp [hreturn])
  have hend : (strip password).rdropWhile (· == '\n') = strip password := by
    refine (List.rdropWhile_eq_self_iff).2 fun hne hlast => hfeed ?_
    have hmem := List.getLast_mem hne
    rw [beq_iff_eq.1 hlast] at hmem
    exact (strip_sublist password).mem hmem
  unfold shown showZenityPasswordDialog
  rw [h.dialog]
  simp only [hraw, strip_append_feed, hend]
  rw [if_pos ⟨trivial, by simp⟩]

end Dialog

section Lines

variable {password : Text} {keepsStray : Bool}

/-- The first line of what is printed of a value is a data line. -/
theorem dataLines_value {value first : Text} {rest : List Text}
    (h : value.splitOn '\n' = first :: rest) :
    dataLines ["D ".toList ++ value, "OK".toList]
      = first :: rest.filterMap (Text.stripPrefix "D ".toList) := by
  have hsplit : ("D ".toList ++ value).splitOn '\n' = ("D ".toList ++ first) :: rest := by
    show ('D' :: ' ' :: value).splitOn '\n' = ('D' :: ' ' :: first) :: rest
    rw [List.splitOn_cons_eq_if_modifyHead, List.splitOn_cons_eq_if_modifyHead, h]
    rfl
  have hok : "OK".toList.splitOn '\n' = ["OK".toList] := by decide
  have hstrip : Text.stripPrefix "D ".toList ("D ".toList ++ first) = some first :=
    Text.stripPrefix_eq_some.2 rfl
  rw [dataLines, List.flatMap_cons, List.flatMap_cons, hsplit, hok, List.cons_append,
    List.filterMap_cons_some hstrip, List.filterMap_append]
  exact congrArg _ (List.append_nil _)

theorem dataLines_secret {value : Text} (h : '\n' ∉ value) :
    dataLines ["D ".toList ++ value, "OK".toList] = [value] :=
  dataLines_value (List.splitOn_eq_singleton h)

theorem dataLines_ne_nil (value : Text) : dataLines ["D ".toList ++ value, "OK".toList] ≠ [] := by
  obtain ⟨first, rest, h⟩ := List.exists_cons_of_ne_nil (List.splitOn_ne_nil '\n' value)
  rw [dataLines_value h]
  exact List.cons_ne_nil _ _

theorem dataLines_ok : dataLines ["OK".toList] = [] := by decide

/-- The trimmed password, sent as it is, is read as the password exactly when it is intact. -/
theorem yields_typed_iff (hbreak : '\n' ∉ password) :
    Yields keepsStray ["D ".toList ++ strip password, "OK".toList] password
      ↔ Intact keepsStray password := by
  have hfeed : '\n' ∉ strip password := fun h => hbreak ((strip_sublist password).mem h)
  rw [Yields, dataLines_secret hfeed]
  constructor
  · rintro ⟨line, hline, hdecode⟩
    obtain rfl := (List.cons.inj hline).1
    have hstrip := Text.eq_of_sublist_of_length (strip_sublist password)
      (Text.length_percentDecode hdecode)
    obtain ⟨hfront, hback⟩ := strip_eq_self_iff.1 hstrip
    rw [hstrip] at hdecode
    exact ⟨hfront, hback, Text.percentDecode_eq_utf8_iff.1 hdecode⟩
  · rintro ⟨hfront, hback, hverbatim⟩
    rw [strip_eq_self_iff.2 ⟨hfront, hback⟩]
    exact ⟨password, rfl, Text.percentDecode_eq_utf8_iff.2 hverbatim⟩

end Lines

section Steps

variable {rbwProfile password : Text} {around : Surroundings} {state : State} {event : Event}

/-- What a GETPIN prints: the password's line where there is one. -/
theorem handleGetpin_eq : handleGetpin rbwProfile around state
    = ((handlePassword rbwProfile around state).1,
      match (handlePassword rbwProfile around state).2 with
      | some value => (if value ≠ [] then ["D ".toList ++ value] else []) ++ ["OK".toList]
      | none => ["OK".toList]) := by
  unfold handleGetpin
  rcases handlePassword rbwProfile around state with ⟨after, _ | value⟩ <;> rfl

theorem keyring_of_cached {cached : Text} (h : getCachedPassword around state = some cached) :
    state.keyring = some cached := by
  unfold getCachedPassword at h
  split at h
  · cases h
  · exact h

theorem handlePassword_ring {cached : Text} (herror : state.error = [])
    (hget : getCachedPassword around state = some cached) (hne : cached ≠ []) :
    handlePassword rbwProfile around state = (state, some cached) := by
  rw [handlePassword, if_neg (not_not.2 herror), hget]
  exact if_pos hne

/-- Where the key ring does not answer, the user is asked, the key ring being cleared first after
an error. -/
theorem handlePassword_prompt
    (h : ¬ (state.error = [] ∧ ∃ cached, getCachedPassword around state = some cached ∧ cached ≠ [])) :
    handlePassword rbwProfile around state = askPassword rbwProfile around
      (if state.error ≠ [] then clearCachedPassword around state else state) := by
  unfold handlePassword
  by_cases herror : state.error = []
  · rw [if_neg (not_not.2 herror), if_neg (not_not.2 herror)]
    rcases hget : getCachedPassword around state with _ | cached
    · rfl
    · have hempty : cached = [] := by
        by_contra hne
        exact h ⟨herror, cached, hget, hne⟩
      rw [hempty]
      rfl
  · rw [if_pos herror, if_pos herror]

theorem processCommand_getpin {line : Text} (h : command line = "GETPIN".toList) :
    processCommand rbwProfile around line state = some (handleGetpin rbwProfile around state) := by
  unfold processCommand
  rw [h]
  rfl

/-- A line that is no GETPIN leaves the key ring alone. -/
theorem processCommand_other {line : Text} {after : State} {printed : List Text}
    (hline : command line ≠ "GETPIN".toList)
    (h : processCommand rbwProfile around line state = some (after, printed)) :
    after.keyring = state.keyring := by
  unfold processCommand at h
  split_ifs at h <;> cases h <;> rfl

/-- The event is what its line does in the state before it. -/
def Done (rbwProfile : Text) (event : Event) : Prop :=
  processCommand rbwProfile event.around event.line event.before
    = some (event.after, event.printed)

/-- The state in which the dialog is shown. -/
def atPrompt (event : Event) : State := { event.before with keyring := ringAtPrompt event }

/-- The dialog does not see the key ring. -/
theorem askPassword_atPrompt : askPassword rbwProfile event.around (atPrompt event)
    = match shown rbwProfile event with
      | some value => (if value ≠ [] then cachePassword event.around value (atPrompt event)
          else atPrompt event, some value)
      | none => (atPrompt event, none) := rfl

/-- A GETPIN that asks is answered by what the dialog gives, the key ring being cleared first after
an error. -/
theorem done_prompted (hdone : Done rbwProfile event) (h : Prompted event) :
    handleGetpin rbwProfile event.around event.before = (event.after, event.printed)
      ∧ handlePassword rbwProfile event.around event.before
        = askPassword rbwProfile event.around (atPrompt event) := by
  have hprompt : (if event.before.error ≠ [] then clearCachedPassword event.around event.before
      else event.before) = atPrompt event := by
    unfold atPrompt ringAtPrompt clearCachedPassword
    split_ifs <;> rfl
  refine ⟨Option.some.inj ((processCommand_getpin h.1).symm.trans hdone), ?_⟩
  rw [handlePassword_prompt fun hring => h.2 ⟨h.1, hring⟩, hprompt]

theorem done_entered {value : Text} (hdone : Done rbwProfile event) (h : Prompted event)
    (hshown : shown rbwProfile event = some value) (hne : value ≠ []) :
    event.after = cachePassword event.around value (atPrompt event)
      ∧ event.printed = ["D ".toList ++ value, "OK".toList] := by
  obtain ⟨hgetpin, hask⟩ := done_prompted hdone h
  have hresult : askPassword rbwProfile event.around (atPrompt event)
      = (cachePassword event.around value (atPrompt event), some value) := by
    rw [askPassword_atPrompt, hshown]
    exact congrArg (·, some value) (if_pos hne)
  rw [handleGetpin_eq, hask, hresult] at hgetpin
  obtain ⟨hafter, hprinted⟩ := Prod.mk.inj hgetpin
  refine ⟨hafter.symm, hprinted.symm.trans ?_⟩
  exact congrArg (· ++ ["OK".toList]) (if_pos hne)

theorem done_cancelled (hdone : Done rbwProfile event) (h : Prompted event)
    (hshown : ∀ value, shown rbwProfile event = some value → value = []) :
    event.after = atPrompt event ∧ event.printed = ["OK".toList] := by
  obtain ⟨hgetpin, hask⟩ := done_prompted hdone h
  rw [handleGetpin_eq, hask, askPassword_atPrompt] at hgetpin
  rcases hresult : shown rbwProfile event with _ | value
  · rw [hresult] at hgetpin
    obtain ⟨hafter, hprinted⟩ := Prod.mk.inj hgetpin
    exact ⟨hafter.symm, hprinted.symm⟩
  · obtain rfl := hshown value hresult
    rw [hresult] at hgetpin
    obtain ⟨hafter, hprinted⟩ := Prod.mk.inj hgetpin
    exact ⟨hafter.symm, hprinted.symm⟩

theorem done_fromRing {cached : Text} (hdone : Done rbwProfile event) (h : FromRing event)
    (hcached : event.before.keyring = some cached) :
    cached ≠ [] ∧ event.after = event.before
      ∧ event.printed = ["D ".toList ++ cached, "OK".toList] := by
  obtain ⟨hline, herror, value, hget, hne⟩ := h
  obtain rfl := Option.some.inj ((keyring_of_cached hget).symm.trans hcached)
  have hget' := Option.some.inj ((processCommand_getpin hline).symm.trans hdone)
  rw [handleGetpin_eq, handlePassword_ring herror hget hne] at hget'
  obtain ⟨hafter, hprinted⟩ := Prod.mk.inj hget'
  refine ⟨hne, hafter.symm, hprinted.symm.trans ?_⟩
  show (if value ≠ [] then ["D ".toList ++ value] else []) ++ ["OK".toList] = _
  rw [if_pos hne]
  rfl

/-- A line that enters no password leaves in the key ring what it held, or nothing. -/
theorem done_quiet (hdone : Done rbwProfile event)
    (hquiet : Prompted event → dataLines event.printed = []) :
    event.after.keyring = none ∨ event.after.keyring = event.before.keyring := by
  by_cases hline : command event.line = "GETPIN".toList
  · by_cases hfrom : FromRing event
    · obtain ⟨cached, hget, -⟩ := hfrom.2.2
      rw [(done_fromRing hdone hfrom (keyring_of_cached hget)).2.1]
      exact .inr rfl
    · have hcancelled : ∀ value, shown rbwProfile event = some value → value = [] := by
        intro value hvalue
        by_contra hne
        have hnone := hquiet ⟨hline, hfrom⟩
        rw [(done_entered hdone ⟨hline, hfrom⟩ hvalue hne).2] at hnone
        exact dataLines_ne_nil value hnone
      rw [(done_cancelled hdone ⟨hline, hfrom⟩ hcancelled).1]
      show ringAtPrompt event = none ∨ ringAtPrompt event = event.before.keyring
      unfold ringAtPrompt clearCachedPassword
      split_ifs
      · exact .inr rfl
      · exact .inl rfl
      · exact .inr rfl
  · exact .inr (processCommand_other hline hdone)

end Steps

section Sessions

variable {rbwProfile password : Text} {keepsStray : Bool} {event : Event}

theorem session_cons {state : State} {input : List (Text × Surroundings)} {events : List Event}
    (h : handlePinentrySession rbwProfile state input = event :: events) :
    Done rbwProfile event ∧ event.before = state
      ∧ ∃ input', events = handlePinentrySession rbwProfile event.after input' := by
  cases input with
  | nil => cases h
  | cons first input =>
    rw [handlePinentrySession] at h
    split at h
    · cases h
    next after printed hdone =>
      obtain ⟨rfl, rfl⟩ := List.cons.inj h
      exact ⟨hdone, rfl, input, rfl⟩

theorem done_of_mem : ∀ {input : List (Text × Surroundings)} {state : State},
    event ∈ handlePinentrySession rbwProfile state input → Done rbwProfile event
  | [], _, h => nomatch h
  | first :: input, state, h => by
    rw [handlePinentrySession] at h
    split at h
    · cases h
    next after printed hdone =>
      rcases List.mem_cons.1 h with rfl | h
      · exact hdone
      · exact done_of_mem h

/-- Until another password is entered the key ring holds what it held, or nothing. -/
theorem keyring_before : ∀ {middle : List Event} {later : Event} {rest : List Event}
    {state : State} {input : List (Text × Surroundings)},
    handlePinentrySession rbwProfile state input = middle ++ later :: rest →
      (∀ m ∈ middle, Prompted m → dataLines m.printed = []) → Done rbwProfile later
        ∧ (later.before.keyring = none ∨ later.before.keyring = state.keyring)
  | [], later, rest, state, input, h, _ => by
    obtain ⟨hdone, hbefore, -⟩ := session_cons h
    exact ⟨hdone, .inr (congrArg State.keyring hbefore)⟩
  | m :: middle, later, rest, state, input, h, hquiet => by
    obtain ⟨hdone, hbefore, input', hrest⟩ := session_cons h
    obtain ⟨hm, hmiddle⟩ := List.forall_mem_cons.1 hquiet
    obtain ⟨hlater, hring⟩ := keyring_before hrest.symm hmiddle
    refine ⟨hlater, ?_⟩
    rcases done_quiet hdone hm with hnone | hsame
    · exact .inl (hring.elim id fun hring => hring.trans hnone)
    · rw [hbefore] at hsame
      exact hring.imp_right fun hring => hring.trans hsame

/-- What the key ring holds after a prompt is what answers the next GETPIN without an error. -/
theorem answered_next {state : State} {cached : Text} (around : Surroundings)
    (hcached : state.keyring = some cached) (hne : cached ≠ []) :
    ∃ cleared later, handlePinentrySession rbwProfile state
        [("SETERROR".toList, around), ("GETPIN".toList, { around with getFails := false })]
          = [cleared] ++ later :: [] ∧ ¬ Prompted cleared ∧ FromRing later
      ∧ later.printed = ["D ".toList ++ cached, "OK".toList] := by
  have hcleared : processCommand rbwProfile around "SETERROR".toList state
      = some ({ state with error := [] }, ["OK".toList]) := rfl
  have hget : getCachedPassword { around with getFails := false } { state with error := [] }
      = some cached := hcached
  have hanswer : processCommand rbwProfile { around with getFails := false } "GETPIN".toList
      { state with error := [] }
      = some ({ state with error := [] }, ["D ".toList ++ cached, "OK".toList]) := by
    rw [processCommand_getpin rfl, handleGetpin_eq, handlePassword_ring rfl hget hne]
    exact congrArg (fun printed => some (_, printed ++ ["OK".toList])) (if_pos hne)
  refine ⟨{ line := "SETERROR".toList, around := around, before := state
            after := { state with error := [] }, printed := ["OK".toList] },
    { line := "GETPIN".toList, around := { around with getFails := false }
      before := { state with error := [] }, after := { state with error := [] }
      printed := ["D ".toList ++ cached, "OK".toList] }, ?_, ?_, ⟨rfl, rfl, cached, hget, hne⟩, rfl⟩
  · simp only [handlePinentrySession, hcleared, hanswer, List.cons_append, List.nil_append]
  · rintro ⟨hline, -⟩
    revert hline
    show command "SETERROR".toList = "GETPIN".toList → False
    decide

/-- What is delivered of a password: it has to be intact, and the key ring has to store it or hold
nothing else. -/
theorem delivered_iff (hdone : Done rbwProfile event) (htyped : Typed rbwProfile event password) :
    Delivered rbwProfile keepsStray event password
      ↔ Intact keepsStray password ∧ Stored keepsStray event password := by
  by_cases hstrip : strip password = []
  · have hshown : ∀ value, shown rbwProfile event = some value → value = [] := by
      rw [shown_typed htyped, if_neg (not_not.2 hstrip)]
      exact nofun
    obtain ⟨-, hprinted⟩ := done_cancelled hdone htyped.prompted hshown
    constructor
    · intro h
      obtain ⟨line, hline, -⟩ := h.now
      rw [hprinted, dataLines_ok] at hline
      cases hline
    · rintro ⟨hintact, -⟩
      rw [strip_eq_self_iff.2 ⟨hintact.front, hintact.back⟩] at hstrip
      exact absurd hstrip htyped.ne_nil
  have hshown : shown rbwProfile event = some (strip password) := by
    rw [shown_typed htyped, if_pos hstrip]
  obtain ⟨hafter, hprinted⟩ := done_entered hdone htyped.prompted hshown hstrip
  have hnow : Yields keepsStray event.printed password ↔ Intact keepsStray password := by
    rw [hprinted]
    exact yields_typed_iff htyped.noBreak.1
  have hring : event.after.keyring
      = if event.around.setFails then ringAtPrompt event else some (strip password) := by
    rw [hafter, cachePassword]
    split_ifs <;> rfl
  constructor
  · intro h
    refine ⟨hnow.1 h.now, fun hfails cached hcached hne => ?_⟩
    rw [if_pos hfails, hcached] at hring
    obtain ⟨cleared, later, hrun, hquiet, hfrom, hanswer⟩ :=
      @answered_next rbwProfile _ _ event.around hring hne
    rw [← hanswer]
    refine h.later _ [cleared] later [] hrun (fun m hm hprompted => ?_) hfrom
    obtain rfl := List.mem_singleton.1 hm
    exact absurd hprompted hquiet
  · rintro ⟨hintact, hstored⟩
    refine ⟨hnow.2 hintact, fun input middle later rest hrun hquiet hfrom => ?_⟩
    obtain ⟨hlater, hkeyring⟩ := keyring_before hrun hquiet
    obtain ⟨cached, hget, hne⟩ := hfrom.2.2
    have hcached := keyring_of_cached hget
    rw [(done_fromRing hlater hfrom hcached).2.2]
    rw [hcached, hring] at hkeyring
    split_ifs at hkeyring with hfails
    · exact hstored hfails cached (hkeyring.resolve_left nofun).symm hne
    · obtain rfl := Option.some.inj (hkeyring.resolve_left nofun)
      exact (yields_typed_iff htyped.noBreak.1).2 hintact

/-- In a session every typed password is delivered exactly when each is intact and the key ring
stores it or holds nothing else. -/
theorem session_delivers_iff (rbwProfile : Text) (keepsStray : Bool) (keyring : Option Text)
    (input : List (Text × Surroundings)) :
    (∀ event ∈ handlePinentrySession rbwProfile (initial keyring) input, ∀ password,
        Typed rbwProfile event password → Delivered rbwProfile keepsStray event password)
      ↔ ∀ event ∈ handlePinentrySession rbwProfile (initial keyring) input, ∀ password,
        Typed rbwProfile event password →
          Intact keepsStray password ∧ Stored keepsStray event password :=
  forall₂_congr fun _ hevent => forall₂_congr fun _ htyped =>
    delivered_iff (done_of_mem hevent) htyped

/-- A dialog that prints one text whatever it is asked, and a key ring without failures. -/
def prints (stdout : String) : Surroundings :=
  ⟨false, false, false, fun _ => .exit 0 stdout.toList⟩

/-- A percent sign in a password that two digits follow. -/
theorem escapedPassword_garbled : ¬ ∀ event ∈ handlePinentrySession "rbw".toList (initial none)
      [("GETPIN".toList, prints "50%20off\n")], ∀ password,
    Typed "rbw".toList event password → Delivered "rbw".toList true event password := by
  intro h
  have hdelivered := h _ List.mem_cons_self "50%20off".toList
    ⟨⟨by decide, fun hring => by simp [FromRing, getCachedPassword, prints, initial] at hring⟩, rfl,
      by decide, by decide⟩
  obtain ⟨line, hline, hdecode⟩ := hdelivered.now
  have hsent : dataLines ["D 50%20off".toList, "OK".toList] = [line] := hline
  obtain rfl : "50%20off".toList = line := by
    have hdata : dataLines ["D 50%20off".toList, "OK".toList] = ["50%20off".toList] := by decide
    exact List.head_eq_of_cons_eq (hdata.symm.trans hsent)
  revert hdecode
  decide

end Sessions

end OnixCore.RbwPinentry
