import Mathlib.Data.Char
import OnixCore.HerdrPueue.Dashboard
import OnixCore.HerdrPueue.Text

/-!
# What Pueue says

The dashboard asks Pueue for its version and for its status, a JSON text. The status is taken only
whole: bounds, group names and task numbers are checked, and each text in it is sanitized. The
reader of JSON is a parameter; it leaves a map's keys in order and each once.
-/

namespace OnixCore.HerdrPueue

inductive CoreError where
  | invalidVersionText
  | unsupportedMajorVersion
  | statusOutputTooLarge
  | invalidStatusData
  | tooManyGroups
  | tooManyTasks
  | invalidTaskIdentity
  | duplicateTaskIdentity
  | unknownTaskGroup
  | invalidGroupName
  | ambiguousGroupDisplay
  deriving DecidableEq, Repr

def supportedPueueMajor : ℕ := 4

def maxStatusJsonBytes : ℕ := 16 * 1024 * 1024

def maxTasks : ℕ := 10000

def maxGroups : ℕ := 1000

def maxGroupTextColumns : ℕ := 48

def maxLabelTextColumns : ℕ := 64

def maxPathTextColumns : ℕ := 96

def missingText : Text := ['—']

structure WireMap (α : Type) where
  entries : List (Text × α)
  sorted : entries.Pairwise fun a b => a.1 < b.1

inductive WireGroupState where
  | running
  | paused
  | reset
  deriving DecidableEq, Repr

structure WireGroup where
  status : WireGroupState

inductive WireTaskResult where
  | success
  | failed (exitCode : ℤ)
  | failedToSpawn
  | killed
  | errored
  | dependencyFailed

/-- Times are read, and not used. -/
inductive WireTaskState where
  | locked (previousStatus : WireTaskState)
  | stashed
  | queued
  | running
  | paused
  | done (result : WireTaskResult)

structure WireTask where
  id : ℕ
  command : Text
  path : Text
  group : Text
  label : Option Text
  status : WireTaskState

structure WireState where
  tasks : WireMap WireTask
  groups : WireMap WireGroup

/-! ## Projections -/

def projectGroupState : WireGroupState → GroupState
  | .running => .running
  | .paused => .paused
  | .reset => .reset

def projectCompletion : WireTaskResult → Completion
  | .success => .success
  | .failed _ => .failed
  | .failedToSpawn => .failedToSpawn
  | .killed => .killed
  | .errored => .errored
  | .dependencyFailed => .dependencyFailed

def projectTaskState : WireTaskState → TaskState
  | .locked _ => .locked
  | .stashed => .stashed
  | .queued => .queued
  | .running => .running
  | .paused => .paused
  | .done result => .completed (projectCompletion result)

section

variable (unicode : UnicodeWidth)

def projectRequiredText (value : Text) (maxColumns : ℕ) : Text :=
  let text := sanitizeTerminalText unicode value maxColumns
  if text = [] then missingText else text

def projectOptionalText (value : Option Text) (maxColumns : ℕ) : Text :=
  ((value.map fun text => projectRequiredText unicode text maxColumns).filter (· ≠ [])).getD
    missingText

/-- The groups, and under what name each is shown. -/
def projectGroupsFrom : List Text → List (Text × WireGroup) →
    Except CoreError (List Group × List (Text × Text))
  | _, [] => .ok ([], [])
  | uniqueDisplayNames, (rawName, wireGroup) :: rest =>
    if rawName = [] then .error .invalidGroupName
    else
      let displayName := sanitizeTerminalText unicode rawName maxGroupTextColumns
      if displayName = [] then .error .invalidGroupName
      else if isOneOf uniqueDisplayNames displayName then .error .ambiguousGroupDisplay
      else do
        let (groups, displayNames) ← projectGroupsFrom (displayName :: uniqueDisplayNames) rest
        return (⟨displayName, projectGroupState wireGroup.status⟩ :: groups,
          (rawName, displayName) :: displayNames)

def projectGroups (wireGroups : WireMap WireGroup) :
    Except CoreError (List Group × List (Text × Text)) := do
  let (groups, displayNames) ← projectGroupsFrom unicode [] wireGroups.entries
  return (groups.mergeSort fun left right => left.name ≤ right.name, displayNames)

def validateTaskIdentity (taskKey : Text) (taskId : ℕ) (taskIds : List ℕ) :
    Except CoreError Unit :=
  if taskKey ≠ (toString taskId).toList then .error .invalidTaskIdentity
  else if taskId ∈ taskIds then .error .duplicateTaskIdentity
  else .ok ()

def projectTask (displayGroup : Text) (wireTask : WireTask) : Task where
  id := ⟨wireTask.id⟩
  group := displayGroup
  state := projectTaskState wireTask.status
  label := projectOptionalText unicode wireTask.label maxLabelTextColumns
  command := projectRequiredText unicode
    (sanitizeCommandDescription unicode wireTask.command maxCommandTextColumns)
    maxCommandTextColumns
  path := projectRequiredText unicode wireTask.path maxPathTextColumns

def projectTasksFrom (displayNames : List (Text × Text)) : List ℕ → List (Text × WireTask) →
    Except CoreError (List Task)
  | _, [] => .ok []
  | taskIds, (taskKey, wireTask) :: rest => do
    validateTaskIdentity taskKey wireTask.id taskIds
    match displayNames.lookup wireTask.group with
    | none => .error .unknownTaskGroup
    | some displayGroup =>
      let tasks ← projectTasksFrom displayNames (wireTask.id :: taskIds) rest
      return projectTask unicode displayGroup wireTask :: tasks

def Task.notAfter (left right : Task) : Bool :=
  left.group < right.group ∨ left.group = right.group ∧ left.id.value ≤ right.id.value

def projectTasks (wireTasks : WireMap WireTask) (displayNames : List (Text × Text)) :
    Except CoreError (List Task) := do
  let tasks ← projectTasksFrom unicode displayNames [] wireTasks.entries
  return tasks.mergeSort Task.notAfter

end

section

variable {unicode : UnicodeWidth} {displayNames : List (Text × Text)}

theorem validateTaskIdentity_eq_ok {taskKey : Text} {taskId : ℕ} {taskIds : List ℕ} :
    validateTaskIdentity taskKey taskId taskIds = .ok ()
      ↔ taskKey = (toString taskId).toList ∧ taskId ∉ taskIds := by
  unfold validateTaskIdentity
  split_ifs with hkey hknown
  · exact iff_of_false (by simp) fun h => hkey h.1
  · exact iff_of_false (by simp) fun h => h.2 hknown
  · exact iff_of_true rfl ⟨not_not.1 hkey, hknown⟩

/-- The tasks that are taken: each has its own number for a key, and is in a group that is known. -/
theorem projectTasksFrom_eq_ok : ∀ (entries : List (Text × WireTask)) {taskIds : List ℕ}
    {tasks : List Task}, projectTasksFrom unicode displayNames taskIds entries = .ok tasks ↔
      (∀ e ∈ entries, e.1 = (toString e.2.id).toList ∧ e.2.id ∉ taskIds)
        ∧ (entries.map fun e => e.2.id).Nodup
        ∧ List.Forall₂ (fun e t => ∃ displayGroup, displayNames.lookup e.2.group = some displayGroup
          ∧ t = projectTask unicode displayGroup e.2) entries tasks
  | [], taskIds, tasks => by
    simp [projectTasksFrom, eq_comm]
  | (taskKey, wireTask) :: rest, taskIds, tasks => by
    have hstep : projectTasksFrom unicode displayNames taskIds ((taskKey, wireTask) :: rest)
          = .ok tasks ↔ validateTaskIdentity taskKey wireTask.id taskIds = .ok ()
        ∧ ∃ displayGroup, displayNames.lookup wireTask.group = some displayGroup
        ∧ ∃ more, projectTasksFrom unicode displayNames (wireTask.id :: taskIds) rest = .ok more
        ∧ tasks = projectTask unicode displayGroup wireTask :: more := by
      rw [projectTasksFrom]
      cases validateTaskIdentity taskKey wireTask.id taskIds with
      | error e => simp [bind, Except.bind]
      | ok _ =>
        cases displayNames.lookup wireTask.group with
        | none => simp [bind, Except.bind]
        | some displayGroup =>
          cases projectTasksFrom unicode displayNames (wireTask.id :: taskIds) rest with
          | error e => simp [bind, Except.bind]
          | ok more => simp [bind, Except.bind, pure, Except.pure, eq_comm]
    rw [hstep, validateTaskIdentity_eq_ok, List.forall_mem_cons, List.map_cons, List.nodup_cons,
      List.forall₂_cons_left_iff]
    simp only [projectTasksFrom_eq_ok rest, List.mem_cons, not_or, List.mem_map]
    constructor
    · rintro ⟨hfirst, displayGroup, hlookup, more, ⟨hrest, hnodup, hmore⟩, rfl⟩
      refine ⟨⟨hfirst, fun e he => ⟨(hrest e he).1, (hrest e he).2.2⟩⟩, ⟨?_, hnodup⟩, _, _,
        ⟨displayGroup, hlookup, rfl⟩, hmore, rfl⟩
      rintro ⟨e, he, hid⟩
      exact (hrest e he).2.1 hid
    · rintro ⟨⟨hfirst, hrest⟩, ⟨hnew, hnodup⟩, _, more, ⟨displayGroup, hlookup, rfl⟩, hmore, rfl⟩
      refine ⟨hfirst, displayGroup, hlookup, more,
        ⟨fun e he => ⟨(hrest e he).1, ?_, (hrest e he).2⟩, hnodup, hmore⟩, rfl⟩
      intro hid
      exact hnew ⟨e, he, hid⟩

theorem Task.notAfter_trans (a b c : Task) (hab : a.notAfter b = true) (hbc : b.notAfter c = true) :
    a.notAfter c = true := by
  simp only [Task.notAfter, decide_eq_true_eq] at *
  rcases hab with hab | ⟨hab, hab'⟩ <;> rcases hbc with hbc | ⟨hbc, hbc'⟩
  · exact .inl (lt_trans hab hbc)
  · exact .inl (hbc ▸ hab)
  · exact .inl (hab ▸ hbc)
  · exact .inr ⟨hab.trans hbc, hab'.trans hbc'⟩

theorem Task.notAfter_total (a b : Task) : (a.notAfter b || b.notAfter a) = true := by
  simp only [Task.notAfter, Bool.or_eq_true, decide_eq_true_eq]
  rcases lt_trichotomy a.group b.group with h | h | h
  · exact .inl (.inl h)
  · rcases Nat.le_total a.id.value b.id.value with hle | hle
    · exact .inl (.inr ⟨h, hle⟩)
    · exact .inr (.inr ⟨h.symm, hle⟩)
  · exact .inr (.inl h)

/-- Sorted tasks with different numbers are in order. -/
theorem mergeSort_before {tasks : List Task} (h : (tasks.map Task.id).Nodup) :
    (tasks.mergeSort Task.notAfter).Pairwise Task.Before := by
  have hsorted := List.pairwise_mergeSort Task.notAfter_trans Task.notAfter_total tasks
  have hperm := (List.mergeSort_perm tasks Task.notAfter).map Task.id
  have hnodup : ((tasks.mergeSort Task.notAfter).map Task.id).Nodup := hperm.nodup_iff.2 h
  refine (hsorted.and (List.pairwise_map.1 hnodup)).imp ?_
  rintro a b ⟨hle, hne⟩
  simp only [Task.notAfter, decide_eq_true_eq] at hle
  rcases hle with hgroup | ⟨hgroup, hle⟩
  · exact .inl hgroup
  · exact .inr ⟨hgroup, lt_of_le_of_ne hle fun heq => hne (congrArg TaskId.mk heq)⟩

theorem projectTasks_eq_ok {wireTasks : WireMap WireTask} {tasks : List Task} :
    projectTasks unicode wireTasks displayNames = .ok tasks ↔ ∃ taken,
      projectTasksFrom unicode displayNames [] wireTasks.entries = .ok taken
        ∧ tasks = taken.mergeSort Task.notAfter := by
  unfold projectTasks
  cases projectTasksFrom unicode displayNames [] wireTasks.entries with
  | error e => simp [bind, Except.bind]
  | ok taken => simp [bind, Except.bind, pure, Except.pure, eq_comm]

theorem projectTasks_nodup {wireTasks : WireMap WireTask} {tasks : List Task}
    (h : projectTasks unicode wireTasks displayNames = .ok tasks) :
    tasks.Pairwise Task.Before ∧ (tasks.map Task.id).Nodup := by
  obtain ⟨taken, htaken, rfl⟩ := projectTasks_eq_ok.1 h
  obtain ⟨-, hnodup, hall⟩ := (projectTasksFrom_eq_ok _).1 htaken
  have hids : taken.map Task.id = wireTasks.entries.map fun e => ⟨e.2.id⟩ := by
    rw [← List.forall₂_eq_eq_eq, List.forall₂_map_left_iff, List.forall₂_map_right_iff]
    refine hall.flip.imp ?_
    rintro t e ⟨displayGroup, -, rfl⟩
    rfl
  have htasks : (taken.map Task.id).Nodup := by
    rw [hids, show (wireTasks.entries.map fun e => (⟨e.2.id⟩ : TaskId))
      = (wireTasks.entries.map fun e => e.2.id).map TaskId.mk by rw [List.map_map]; rfl]
    exact hnodup.map fun a b hab => congrArg TaskId.value hab
  exact ⟨mergeSort_before htasks,
    ((List.mergeSort_perm taken Task.notAfter).map Task.id).nodup_iff.2 htasks⟩

end

def validateCollectionBounds (wire : WireState) : Except CoreError Unit :=
  if maxGroups < wire.groups.entries.length then .error .tooManyGroups
  else if maxTasks < wire.tasks.entries.length then .error .tooManyTasks
  else .ok ()

section

variable (unicode : UnicodeWidth)

/-- The queue of a status that is in bounds. -/
def projectQueue (wire : WireState) : Except CoreError QueueState :=
  match projectGroups unicode wire.groups with
  | .error e => .error e
  | .ok (groups, displayNames) =>
    match h : projectTasks unicode wire.tasks displayNames with
    | .error e => .error e
    | .ok tasks => .ok ⟨groups, tasks, (projectTasks_nodup h).1, (projectTasks_nodup h).2⟩

def parseStatus (fromJson : Text → Option WireState) (statusText : Text) :
    Except CoreError QueueState :=
  if maxStatusJsonBytes < (statusText.map Char.utf8Size).sum then .error .statusOutputTooLarge
  else
    match fromJson statusText with
    | none => .error .invalidStatusData
    | some wire => do
      validateCollectionBounds wire
      projectQueue unicode wire

end

structure PueueVersion where
  major : ℕ
  minor : ℕ
  patch : ℕ
  deriving DecidableEq, Repr

def parseVersion (semver : Text → Option PueueVersion) (versionText : Text) :
    Except CoreError PueueVersion :=
  match Text.stripPrefix "pueue ".toList (Text.trim versionText) with
  | none => .error .invalidVersionText
  | some value =>
    match semver value with
    | none => .error .invalidVersionText
    | some version =>
      if version.major ≠ supportedPueueMajor then .error .unsupportedMajorVersion else .ok version

def coreDiagnostic (operation : Operation) : CoreError → Diagnostic
  | .unsupportedMajorVersion => ⟨operation, .unsupportedVersion⟩
  | .statusOutputTooLarge => ⟨operation, .stdoutLimit⟩
  | _ => ⟨operation, .invalidData⟩

/-- Asks Pueue for its version, and for its status only when the version is supported. -/
def readQueue (unicode : UnicodeWidth) (semver : Text → Option PueueVersion)
    (fromJson : Text → Option WireState) (runProcess : List String → Operation →
      Except Diagnostic Text) : Except Diagnostic QueueState := do
  let versionOutput ← runProcess ["--version"] .pueueVersion
  match parseVersion semver versionOutput with
  | .error e => .error (coreDiagnostic .pueueVersion e)
  | .ok _ =>
    let statusOutput ← runProcess ["status", "--json"] .pueueStatus
    match parseStatus unicode fromJson statusOutput with
    | .error e => .error (coreDiagnostic .pueueStatus e)
    | .ok queue => .ok queue

end OnixCore.HerdrPueue
