import OnixCore.HerdrPueue.Proofs.Sanitized
import OnixCore.HerdrPueue.Status

/-!
# Which status is accepted

A status is accepted exactly when it is well formed (`WellFormed`), and then the queue shows each of
its groups and tasks once (`Shows`). That a number is there twice cannot come up: the numbers are
the keys. All texts of the queue are clean, and no command shows an equals sign.
-/

namespace OnixCore.HerdrPueue

section

variable (unicode : UnicodeWidth)

def displayName (rawName : Text) : Text :=
  sanitizeTerminalText unicode rawName maxGroupTextColumns

structure WellFormed (wire : WireState) : Prop where
  groupCount : wire.groups.entries.length ≤ maxGroups
  taskCount : wire.tasks.entries.length ≤ maxTasks
  named : ∀ e ∈ wire.groups.entries, displayName unicode e.1 ≠ []
  unambiguous : (wire.groups.entries.map fun e => displayName unicode e.1).Nodup
  numbered : ∀ e ∈ wire.tasks.entries, e.1 = (toString e.2.id).toList
  grouped : ∀ e ∈ wire.tasks.entries, e.2.group ∈ wire.groups.entries.map Prod.fst

/-- The queue has the groups and the tasks of the status, each under the name that is displayed. -/
structure Shows (wire : WireState) (q : QueueState) : Prop where
  groups : q.groups.Perm (wire.groups.entries.map fun e =>
    ⟨displayName unicode e.1, projectGroupState e.2.status⟩)
  groupsSorted : q.groups.Pairwise fun a b => a.name < b.name
  tasks : q.tasks.Perm (wire.tasks.entries.map fun e =>
    projectTask unicode (displayName unicode e.2.group) e.2)

end

section

variable {unicode : UnicodeWidth} {wire : WireState} {q : QueueState}

/-! ### Groups -/

theorem displayName_nil : displayName unicode [] = [] := rfl

theorem projectGroupsFrom_eq_ok : ∀ (entries : List (Text × WireGroup)) {unique : List Text}
    {groups : List Group} {displayNames : List (Text × Text)},
    projectGroupsFrom unicode unique entries = .ok (groups, displayNames) ↔
      (∀ e ∈ entries, displayName unicode e.1 ≠ [] ∧ displayName unicode e.1 ∉ unique)
        ∧ (entries.map fun e => displayName unicode e.1).Nodup
        ∧ groups = entries.map (fun e => ⟨displayName unicode e.1, projectGroupState e.2.status⟩)
        ∧ displayNames = entries.map fun e => (e.1, displayName unicode e.1)
  | [], unique, groups, displayNames => by
    constructor
    · rintro ⟨⟩
      exact ⟨List.forall_mem_nil _, List.nodup_nil, rfl, rfl⟩
    · rintro ⟨-, -, rfl, rfl⟩
      rfl
  | (rawName, wireGroup) :: rest, unique, groups, displayNames => by
    have hstep : projectGroupsFrom unicode unique ((rawName, wireGroup) :: rest)
          = .ok (groups, displayNames) ↔ (displayName unicode rawName ≠ []
          ∧ displayName unicode rawName ∉ unique) ∧ ∃ groups' displayNames',
            projectGroupsFrom unicode (displayName unicode rawName :: unique) rest
              = .ok (groups', displayNames')
            ∧ groups = ⟨displayName unicode rawName, projectGroupState wireGroup.status⟩ :: groups'
            ∧ displayNames = (rawName, displayName unicode rawName) :: displayNames' := by
      rw [projectGroupsFrom]
      split_ifs with hraw
      · subst hraw
        simp [displayName_nil]
      dsimp only
      split_ifs with hempty hknown
      · exact iff_of_false (by simp) fun h => h.1.1 hempty
      · exact iff_of_false (by simp) fun h => h.1.2 (isOneOf_eq_true.1 hknown)
      · have hfresh : displayName unicode rawName ≠ [] ∧ displayName unicode rawName ∉ unique :=
          ⟨hempty, fun hmem => hknown (isOneOf_eq_true.2 hmem)⟩
        change (projectGroupsFrom unicode (displayName unicode rawName :: unique) rest >>= _) = _
          ↔ _
        cases projectGroupsFrom unicode (displayName unicode rawName :: unique) rest with
        | error e => simp [bind, Except.bind]
        | ok result =>
          constructor
          · rintro ⟨⟩
            exact ⟨hfresh, _, _, rfl, rfl, rfl⟩
          · rintro ⟨-, _, _, ⟨⟩, rfl, rfl⟩
            rfl
    rw [hstep, List.forall_mem_cons, List.map_cons, List.nodup_cons, List.map_cons, List.map_cons]
    simp only [projectGroupsFrom_eq_ok rest, List.mem_cons, not_or, List.mem_map]
    constructor
    · rintro ⟨hfirst, _, _, ⟨hrest, hnodup, rfl, rfl⟩, rfl, rfl⟩
      refine ⟨⟨hfirst, fun e he => ⟨(hrest e he).1, (hrest e he).2.2⟩⟩, ⟨?_, hnodup⟩, rfl, rfl⟩
      rintro ⟨e, he, hname⟩
      exact (hrest e he).2.1 hname
    · rintro ⟨⟨hfirst, hrest⟩, ⟨hnew, hnodup⟩, rfl, rfl⟩
      refine ⟨hfirst, _, _, ⟨fun e he => ⟨(hrest e he).1, ?_, (hrest e he).2⟩, hnodup, rfl, rfl⟩,
        rfl, rfl⟩
      exact fun hname => hnew ⟨e, he, hname⟩

/-- A group is shown under its name, if it is one of the groups. -/
theorem lookup_displayName {g d : Text} : ∀ entries : List (Text × WireGroup),
    (entries.map fun e => (e.1, displayName unicode e.1)).lookup g = some d
      ↔ g ∈ entries.map Prod.fst ∧ d = displayName unicode g
  | [] => by simp
  | e :: rest => by
    rw [List.map_cons, List.map_cons, List.lookup_cons, List.mem_cons]
    by_cases h : g = e.1
    · simp [h, eq_comm]
    · rw [beq_eq_false_iff_ne.2 h, lookup_displayName rest]
      simp only [h, false_or]

theorem projectGroups_eq_ok {groups : List Group} {displayNames : List (Text × Text)} :
    projectGroups unicode wire.groups = .ok (groups, displayNames) ↔
      (∀ e ∈ wire.groups.entries, displayName unicode e.1 ≠ [])
        ∧ (wire.groups.entries.map fun e => displayName unicode e.1).Nodup
        ∧ groups = (wire.groups.entries.map fun e =>
          (⟨displayName unicode e.1, projectGroupState e.2.status⟩ : Group)).mergeSort
            (fun left right => left.name ≤ right.name)
        ∧ displayNames = wire.groups.entries.map fun e => (e.1, displayName unicode e.1) := by
  have hstep : projectGroups unicode wire.groups = .ok (groups, displayNames) ↔ ∃ taken,
      projectGroupsFrom unicode [] wire.groups.entries = .ok (taken, displayNames)
        ∧ groups = taken.mergeSort fun left right => left.name ≤ right.name := by
    unfold projectGroups
    cases projectGroupsFrom unicode [] wire.groups.entries with
    | error e => simp [bind, Except.bind]
    | ok result =>
      constructor
      · rintro ⟨⟩
        exact ⟨_, rfl, rfl⟩
      · rintro ⟨_, ⟨⟩, rfl⟩
        rfl
  rw [hstep]
  simp only [projectGroupsFrom_eq_ok, List.not_mem_nil, not_false_eq_true, and_true]
  constructor
  · rintro ⟨_, ⟨hnamed, hnodup, rfl, rfl⟩, rfl⟩
    exact ⟨hnamed, hnodup, rfl, rfl⟩
  · rintro ⟨hnamed, hnodup, rfl, rfl⟩
    exact ⟨_, ⟨hnamed, hnodup, rfl, rfl⟩, rfl⟩

/-! ### Tasks -/

/-- Numbers that are the keys of a map are different. -/
theorem numbers_nodup (h : ∀ e ∈ wire.tasks.entries, e.1 = (toString e.2.id).toList) :
    (wire.tasks.entries.map fun e => e.2.id).Nodup := by
  rw [List.Nodup, List.pairwise_map]
  refine wire.tasks.sorted.imp_of_mem fun {a b} ha hb hlt heq => ?_
  rw [h a ha, h b hb, heq] at hlt
  exact lt_irrefl _ hlt

theorem forall₂_eq_map {α β : Type} {f : α → β} {xs : List α} {ys : List β} :
    List.Forall₂ (fun x y => y = f x) xs ys ↔ ys = xs.map f := by
  rw [eq_comm, ← List.forall₂_eq_eq_eq, List.forall₂_map_left_iff]
  simp only [eq_comm]

theorem projectTasks_shown {tasks : List Task} :
    projectTasks unicode wire.tasks
        (wire.groups.entries.map fun e => (e.1, displayName unicode e.1)) = .ok tasks
      ↔ (∀ e ∈ wire.tasks.entries, e.1 = (toString e.2.id).toList)
        ∧ (∀ e ∈ wire.tasks.entries, e.2.group ∈ wire.groups.entries.map Prod.fst)
        ∧ tasks = (wire.tasks.entries.map fun e =>
          projectTask unicode (displayName unicode e.2.group) e.2).mergeSort Task.notAfter := by
  have hall (taken : List Task) : List.Forall₂ (fun e t => ∃ displayGroup,
        (wire.groups.entries.map fun e => (e.1, displayName unicode e.1)).lookup e.2.group
          = some displayGroup ∧ t = projectTask unicode displayGroup e.2) wire.tasks.entries taken
      ↔ (∀ e ∈ wire.tasks.entries, e.2.group ∈ wire.groups.entries.map Prod.fst)
        ∧ taken = wire.tasks.entries.map fun e =>
          projectTask unicode (displayName unicode e.2.group) e.2 := by
    rw [← forall₂_eq_map, ← List.forall₂_and_left]
    simp only [lookup_displayName, and_assoc, exists_eq_left, exists_and_left]
  rw [projectTasks_eq_ok]
  simp only [projectTasksFrom_eq_ok, hall, List.not_mem_nil, not_false_eq_true, and_true]
  constructor
  · rintro ⟨_, ⟨hnumbered, -, hgrouped, rfl⟩, rfl⟩
    exact ⟨hnumbered, hgrouped, rfl⟩
  · rintro ⟨hnumbered, hgrouped, rfl⟩
    exact ⟨_, ⟨hnumbered, numbers_nodup hnumbered, hgrouped, rfl⟩, rfl⟩

/-! ### The status -/

theorem projectQueue_eq_ok : projectQueue unicode wire = .ok q ↔
    (∀ e ∈ wire.groups.entries, displayName unicode e.1 ≠ [])
      ∧ (wire.groups.entries.map fun e => displayName unicode e.1).Nodup
      ∧ (∀ e ∈ wire.tasks.entries, e.1 = (toString e.2.id).toList)
      ∧ (∀ e ∈ wire.tasks.entries, e.2.group ∈ wire.groups.entries.map Prod.fst)
      ∧ q.groups = (wire.groups.entries.map fun e =>
          (⟨displayName unicode e.1, projectGroupState e.2.status⟩ : Group)).mergeSort
            (fun left right => left.name ≤ right.name)
      ∧ q.tasks = (wire.tasks.entries.map fun e =>
          projectTask unicode (displayName unicode e.2.group) e.2).mergeSort Task.notAfter := by
  have hstep : projectQueue unicode wire = .ok q ↔ ∃ displayNames,
      projectGroups unicode wire.groups = .ok (q.groups, displayNames)
        ∧ projectTasks unicode wire.tasks displayNames = .ok q.tasks := by
    unfold projectQueue
    split
    next e hgroups => simp [hgroups]
    next groups displayNames hgroups =>
      rw [hgroups]
      split
      next e htasks =>
        refine iff_of_false (by simp) ?_
        rintro ⟨_, ⟨⟩, htasks'⟩
        cases htasks.symm.trans htasks'
      next tasks htasks =>
        constructor
        · rintro ⟨⟩
          exact ⟨displayNames, rfl, htasks⟩
        · rintro ⟨_, heq, htasks'⟩
          cases heq
          cases htasks.symm.trans htasks'
          rfl
  rw [hstep]
  simp only [projectGroups_eq_ok]
  constructor
  · rintro ⟨_, ⟨hnamed, hnodup, hgroups, rfl⟩, htasks⟩
    obtain ⟨hnumbered, hgrouped, htasks⟩ := projectTasks_shown.1 htasks
    exact ⟨hnamed, hnodup, hnumbered, hgrouped, hgroups, htasks⟩
  · rintro ⟨hnamed, hnodup, hnumbered, hgrouped, hgroups, htasks⟩
    exact ⟨_, ⟨hnamed, hnodup, hgroups, rfl⟩, projectTasks_shown.2 ⟨hnumbered, hgrouped, htasks⟩⟩

/-- The list that a sort makes is the one in order with these elements. -/
theorem eq_mergeSort_iff {α : Type} {r : α → α → Prop} {le : α → α → Bool} (xs : List α)
    {ys : List α}
    (hasymm : ∀ a b, r a b → ¬ r b a) (hsorted : (ys.mergeSort le).Pairwise r) :
    xs = ys.mergeSort le ↔ xs.Perm ys ∧ xs.Pairwise r := by
  constructor
  · rintro rfl
    exact ⟨List.mergeSort_perm ys le, hsorted⟩
  · rintro ⟨hperm, hxs⟩
    exact (hperm.trans (List.mergeSort_perm ys le).symm).eq_of_pairwise
      (fun a b _ _ hab hba => absurd hba (hasymm a b hab)) hxs hsorted

theorem groups_sorted (groups : List Group) (h : (groups.map Group.name).Nodup) :
    (groups.mergeSort fun left right => left.name ≤ right.name).Pairwise
      fun a b => a.name < b.name := by
  have hsorted : (groups.mergeSort fun left right => left.name ≤ right.name).Pairwise
      fun left right => decide (left.name ≤ right.name) = true :=
    List.pairwise_mergeSort
      (fun a b c hab hbc => by simpa using le_trans (by simpa using hab) (by simpa using hbc))
      (fun a b => by simpa using le_total a.name b.name) groups
  have hnodup := ((List.mergeSort_perm groups
    fun left right => left.name ≤ right.name).map Group.name).nodup_iff.2 h
  refine (hsorted.and (List.pairwise_map.1 hnodup)).imp ?_
  rintro a b ⟨hle, hne⟩
  exact lt_of_le_of_ne (by simpa using hle) hne

theorem Task.before_asymm (a b : Task) (hab : a.Before b) : ¬ b.Before a := by
  rintro (hba | ⟨hgroup, hba⟩) <;> rcases hab with hab | ⟨hgroup', hab⟩
  · exact lt_asymm hab hba
  · exact lt_irrefl _ (hgroup' ▸ hba)
  · exact lt_irrefl _ (hgroup ▸ hab)
  · exact Nat.lt_asymm hab hba

variable (unicode) in
theorem shown_nodup (h : ∀ e ∈ wire.tasks.entries, e.1 = (toString e.2.id).toList) :
    ((wire.tasks.entries.map fun e =>
      projectTask unicode (displayName unicode e.2.group) e.2).map Task.id).Nodup := by
  have hids := (numbers_nodup h).map (f := TaskId.mk) fun a b hab => congrArg TaskId.value hab
  rwa [List.map_map] at hids ⊢

theorem accepted_iff : (validateCollectionBounds wire = .ok () ∧ projectQueue unicode wire = .ok q)
    ↔ WellFormed unicode wire ∧ Shows unicode wire q := by
  have hbounds : validateCollectionBounds wire = .ok ()
      ↔ wire.groups.entries.length ≤ maxGroups ∧ wire.tasks.entries.length ≤ maxTasks := by
    unfold validateCollectionBounds
    split_ifs with hgroups htasks
    · exact iff_of_false (by simp) fun h => (Nat.not_le.2 hgroups) h.1
    · exact iff_of_false (by simp) fun h => (Nat.not_le.2 htasks) h.2
    · exact iff_of_true rfl ⟨not_lt.1 hgroups, not_lt.1 htasks⟩
  have hgroups (hnodup : (wire.groups.entries.map fun e => displayName unicode e.1).Nodup) :=
    eq_mergeSort_iff q.groups (r := fun a b : Group => a.name < b.name)
      (fun a b => lt_asymm) (groups_sorted (wire.groups.entries.map fun e =>
        ⟨displayName unicode e.1, projectGroupState e.2.status⟩) (by rwa [List.map_map]))
  have htasks (hnumbered : ∀ e ∈ wire.tasks.entries, e.1 = (toString e.2.id).toList) :=
    eq_mergeSort_iff q.tasks Task.before_asymm
      (mergeSort_before (shown_nodup unicode hnumbered))
  rw [hbounds, projectQueue_eq_ok]
  constructor
  · rintro ⟨⟨hgroupCount, htaskCount⟩, hnamed, hnodup, hnumbered, hgrouped, hqgroups, hqtasks⟩
    obtain ⟨hperm, hsorted⟩ := (hgroups hnodup).1 hqgroups
    exact ⟨⟨hgroupCount, htaskCount, hnamed, hnodup, hnumbered, hgrouped⟩, hperm, hsorted,
      ((htasks hnumbered).1 hqtasks).1⟩
  · rintro ⟨⟨hgroupCount, htaskCount, hnamed, hnodup, hnumbered, hgrouped⟩, hperm, hsorted, htperm⟩
    exact ⟨⟨hgroupCount, htaskCount⟩, hnamed, hnodup, hnumbered, hgrouped,
      (hgroups hnodup).2 ⟨hperm, hsorted⟩, (htasks hnumbered).2 ⟨htperm, q.sorted⟩⟩

/-- A status is accepted exactly when it is small enough, read and well formed, and the queue shows
it. -/
theorem parseStatus_eq_ok {fromJson : Text → Option WireState} {statusText : Text} :
    parseStatus unicode fromJson statusText = .ok q ↔
      (statusText.map Char.utf8Size).sum ≤ maxStatusJsonBytes
        ∧ ∃ wire, fromJson statusText = some wire ∧ WellFormed unicode wire
          ∧ Shows unicode wire q := by
  unfold parseStatus
  split_ifs with hlarge
  · exact iff_of_false (by simp) fun h => (Nat.not_le.2 hlarge) h.1
  rw [and_iff_right (Nat.not_lt.1 hlarge)]
  split
  next hnone => simp [hnone]
  next wire hsome =>
    simp only [hsome, Option.some.injEq, exists_eq_left', ← accepted_iff]
    cases validateCollectionBounds wire with
    | error e => simp [bind, Except.bind]
    | ok _ => simp [bind, Except.bind]

theorem parseVersion_eq_ok {semver : Text → Option PueueVersion} {versionText : Text}
    {version : PueueVersion} : parseVersion semver versionText = .ok version ↔
      ∃ value, "pueue ".toList ++ value = Text.trim versionText ∧ semver value = some version
        ∧ version.major = supportedPueueMajor := by
  unfold parseVersion
  split
  next hnone =>
    refine iff_of_false (by simp) ?_
    rintro ⟨value, hvalue, -⟩
    rw [Text.stripPrefix_eq_some.2 hvalue] at hnone
    cases hnone
  next value hsome =>
    have hvalue := Text.stripPrefix_eq_some.1 hsome
    have honly : ∀ value', "pueue ".toList ++ value' = Text.trim versionText → value' = value :=
      fun value' hvalue' => List.append_cancel_left (hvalue'.trans hvalue.symm)
    split
    next hnone =>
      refine iff_of_false (by simp) ?_
      rintro ⟨value', hvalue', hsome', -⟩
      rw [honly value' hvalue', hnone] at hsome'
      cases hsome'
    next version' hversion =>
      split_ifs with hmajor
      · refine iff_of_false (by simp) ?_
        rintro ⟨value', hvalue', hsome', hsupported⟩
        rw [honly value' hvalue', hversion] at hsome'
        cases hsome'
        exact hmajor hsupported
      · constructor
        · rintro ⟨⟩
          exact ⟨value, hvalue, hversion, not_not.1 hmajor⟩
        · rintro ⟨value', hvalue', hsome', -⟩
          rw [honly value' hvalue', hversion] at hsome'
          cases hsome'
          rfl

theorem readQueue_answers {semver : Text → Option PueueVersion} {fromJson : Text → Option WireState}
    {runProcess : List String → Operation → Except Diagnostic Text} :
    readQueue unicode semver fromJson runProcess = .ok q ↔
      ∃ versionText version statusText,
        runProcess ["--version"] .pueueVersion = .ok versionText
          ∧ parseVersion semver versionText = .ok version
          ∧ runProcess ["status", "--json"] .pueueStatus = .ok statusText
          ∧ parseStatus unicode fromJson statusText = .ok q := by
  unfold readQueue
  cases hversionText : runProcess ["--version"] .pueueVersion with
  | error e => simp [bind, Except.bind]
  | ok versionText =>
    simp only [bind, Except.bind, Except.ok.injEq, exists_and_left, exists_eq_left']
    cases parseVersion semver versionText with
    | error e => simp
    | ok version =>
      cases hstatusText : runProcess ["status", "--json"] .pueueStatus with
      | error e => simp
      | ok statusText =>
        simp only [Except.ok.injEq, exists_eq_left']
        cases parseStatus unicode fromJson statusText <;> simp

/-- The dashboard gets a queue exactly when Pueue has a supported version and its status is
accepted; the queue then shows the status. -/
theorem readQueue_eq_ok {semver : Text → Option PueueVersion} {fromJson : Text → Option WireState}
    {runProcess : List String → Operation → Except Diagnostic Text} :
    readQueue unicode semver fromJson runProcess = .ok q ↔
      ∃ versionText version statusText wire,
        runProcess ["--version"] .pueueVersion = .ok versionText
          ∧ parseVersion semver versionText = .ok version
          ∧ runProcess ["status", "--json"] .pueueStatus = .ok statusText
          ∧ (statusText.map Char.utf8Size).sum ≤ maxStatusJsonBytes
          ∧ fromJson statusText = some wire ∧ WellFormed unicode wire ∧ Shows unicode wire q := by
  rw [readQueue_answers]
  simp only [parseStatus_eq_ok, exists_and_left]

/-! ### Texts -/

theorem requiredText_clean {maxColumns : ℕ} (hmax : maxColumns < maxU32) (value : Text) :
    projectRequiredText unicode value maxColumns = missingText
      ∨ Clean unicode maxColumns (projectRequiredText unicode value maxColumns) := by
  unfold projectRequiredText
  dsimp only
  split_ifs
  · exact .inl rfl
  · exact .inr (sanitize_clean hmax value)

theorem optionalText_clean {maxColumns : ℕ} (hmax : maxColumns < maxU32) (value : Option Text) :
    projectOptionalText unicode value maxColumns = missingText
      ∨ Clean unicode maxColumns (projectOptionalText unicode value maxColumns) := by
  unfold projectOptionalText
  cases value with
  | none => exact .inl rfl
  | some text =>
    rw [Option.map_some, Option.filter_some]
    split_ifs
    · exact requiredText_clean hmax text
    · exact .inl rfl

/-- The texts of a task that is drawn. -/
structure Task.Drawable (unicode : UnicodeWidth) (t : Task) : Prop where
  group : Clean unicode maxGroupTextColumns t.group
  label : t.label = missingText ∨ Clean unicode maxLabelTextColumns t.label
  command : t.command = missingText ∨ Clean unicode maxCommandTextColumns t.command
  path : t.path = missingText ∨ Clean unicode maxPathTextColumns t.path
  noEquals : '=' ∉ t.command

theorem projectTask_drawable (wireTask : WireTask) :
    (projectTask unicode (displayName unicode wireTask.group) wireTask).Drawable unicode := by
  constructor
  · exact sanitize_clean (by decide) wireTask.group
  · exact optionalText_clean (by decide) wireTask.label
  · exact requiredText_clean (by decide) _
  · exact requiredText_clean (by decide) wireTask.path
  · change '=' ∉ projectRequiredText unicode _ _
    unfold projectRequiredText
    dsimp only
    split_ifs
    · decide
    · intro hmem
      refine sanitize_all (P := (· ≠ '=')) (by decide) (by decide) ?_ '=' hmem rfl
      rintro c hc rfl
      exact sanitizeCommandDescription_noEquals _ _ hc

/-- All that a queue that was read shows of its tasks can be drawn. -/
theorem readQueue_drawable {semver : Text → Option PueueVersion}
    {fromJson : Text → Option WireState}
    {runProcess : List String → Operation → Except Diagnostic Text}
    (h : readQueue unicode semver fromJson runProcess = .ok q) :
    ∀ t ∈ q.tasks, t.Drawable unicode := by
  obtain ⟨_, _, _, -, -, -, hstatus⟩ := readQueue_answers.1 h
  obtain ⟨-, wire, -, -, hshows⟩ := parseStatus_eq_ok.1 hstatus
  intro t ht
  obtain ⟨e, -, rfl⟩ := List.mem_map.1 (hshows.tasks.mem_iff.1 ht)
  exact projectTask_drawable e.2

/-- One task, with a secret in its command. -/
def exampleWire : WireState where
  tasks := ⟨[(['0'], ⟨0, "env KEY=x /bin/ls".toList, ['/'], ['a'], none, .running⟩)], by simp⟩
  groups := ⟨[(['a'], ⟨.running⟩)], by simp⟩

def exampleShown : QueueState where
  groups := [⟨['a'], .running⟩]
  tasks := [⟨⟨0⟩, ['a'], .running, missingText, "ls".toList, ['/']⟩]
  sorted := by simp
  nodup := by simp

def exampleProcess : List String → Operation → Except Diagnostic Text
  | _, .pueueVersion => .ok "pueue 4.0.4".toList
  | _, _ => .ok []

theorem exampleShown_read :
    readQueue plainWidth (fun _ => some ⟨4, 0, 4⟩) (fun _ => some exampleWire)
    exampleProcess = .ok exampleShown := by
  refine readQueue_answers.2 ⟨_, ⟨4, 0, 4⟩, _, rfl, by decide, rfl, ?_⟩
  refine parseStatus_eq_ok.2 ⟨by decide, exampleWire, rfl, ?_, ?_⟩
  · constructor <;> decide
  · exact ⟨.refl _, by decide, .refl _⟩

theorem readQueue_drawable_example :
    Task.Drawable plainWidth ⟨⟨0⟩, ['a'], .running, missingText, "ls".toList, ['/']⟩ :=
  readQueue_drawable exampleShown_read _ List.mem_cons_self

end

end OnixCore.HerdrPueue
