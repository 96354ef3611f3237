import Mathlib.Data.List.Lex
import Mathlib.Data.List.Nodup
import OnixCore.Lib.Text

/-!
# The queue of Pueue

What the dashboard knows about Pueue: its groups and its tasks, each task in one state. A state
admits some controls, and some of these ask the user first.

The tasks of a queue are in order, by group and then by number, and no two have one number.
-/

namespace OnixCore.HerdrPueue

structure TaskId where
  value : ℕ
  deriving DecidableEq, Repr

inductive GroupState where
  | running
  | paused
  | reset
  deriving DecidableEq, Repr

structure Group where
  name : Text
  state : GroupState
  deriving DecidableEq, Repr

inductive Completion where
  | success
  | failed
  | failedToSpawn
  | killed
  | errored
  | dependencyFailed
  deriving DecidableEq, Repr

inductive TaskState where
  | locked
  | stashed
  | queued
  | running
  | paused
  | completed (completion : Completion)
  deriving DecidableEq, Repr

structure Task where
  id : TaskId
  group : Text
  state : TaskState
  label : Text
  command : Text
  path : Text
  deriving DecidableEq, Repr

/-- By group, and in a group by number. -/
def Task.Before (a b : Task) : Prop :=
  a.group < b.group ∨ a.group = b.group ∧ a.id.value < b.id.value

instance (a b : Task) : Decidable (a.Before b) := inferInstanceAs (Decidable (_ ∨ _))

/-- The latest position of a number is the one that counts. -/
def insertIndex (indexes : TaskId → Option ℕ) (entry : Task × ℕ) : TaskId → Option ℕ :=
  Function.update indexes entry.1.id (some entry.2)

structure QueueState where
  groups : List Group
  tasks : List Task
  sorted : tasks.Pairwise Task.Before
  nodup : (tasks.map Task.id).Nodup

namespace QueueState

variable (q : QueueState)

/-- The position of each task. -/
def taskIndexes : TaskId → Option ℕ := q.tasks.zipIdx.foldl insertIndex fun _ => none

def taskPosition (id : TaskId) : Option ℕ := q.taskIndexes id

def task (id : TaskId) : Option Task := (q.taskIndexes id).bind fun index => q.tasks[index]?

def firstTaskId : Option TaskId := q.tasks.head?.map Task.id

end QueueState

/-! ## Controls -/

inductive ControlOperation where
  | enqueue
  | resume
  | pause
  | kill
  | restart
  | remove
  deriving DecidableEq, Repr

def ControlOperation.requiresConfirmation : ControlOperation → Bool
  | .kill => true
  | .restart => true
  | .remove => true
  | _ => false

structure PueueRequest where
  operation : ControlOperation
  taskId : TaskId
  deriving DecidableEq, Repr

def TaskId.text (id : TaskId) : String := toString id.value

def PueueRequest.argv (request : PueueRequest) : List String :=
  match request.operation with
  | .enqueue => ["enqueue", request.taskId.text]
  | .resume => ["start", request.taskId.text]
  | .pause => ["pause", request.taskId.text]
  | .kill => ["kill", request.taskId.text]
  | .restart => ["restart", "--in-place", request.taskId.text]
  | .remove => ["remove", request.taskId.text]

/-- A task accepts input only while a process of it is alive. -/
def acceptsInput : TaskState → Bool
  | .running => true
  | .paused => true
  | _ => false

structure SendRequest where
  taskId : TaskId
  input : Text
  deriving DecidableEq, Repr

def SendRequest.argv (request : SendRequest) : List String :=
  ["send", request.taskId.text, String.ofList request.input]

def maxSendInputChars : ℕ := 256

def sendLineTerminator : Char := '\n'

def allowedControls : TaskState → List ControlOperation
  | .stashed => [.enqueue]
  | .running => [.pause, .kill]
  | .paused => [.resume, .kill]
  | .completed _ => [.restart, .remove]
  | .locked => []
  | .queued => []

/-! ## Lookups -/

theorem foldl_insertIndex (id : TaskId) : ∀ (tasks : List Task) (start : ℕ)
    (indexes : TaskId → Option ℕ), (tasks.map Task.id).Nodup →
      (tasks.zipIdx start).foldl insertIndex indexes id
        = ((tasks.findIdx? (·.id = id)).map (· + start)).or (indexes id)
  | [], start, indexes, _ => by simp
  | t :: tasks, start, indexes, hnodup => by
    rw [List.map_cons, List.nodup_cons] at hnodup
    rw [List.zipIdx_cons, List.foldl_cons, foldl_insertIndex id tasks _ _ hnodup.2,
      List.findIdx?_cons]
    by_cases h : t.id = id
    · have hnone : tasks.findIdx? (·.id = id) = none := by
        rw [List.findIdx?_eq_none_iff]
        intro t' ht'
        have hne : t'.id ≠ id := fun heq =>
          hnodup.1 (List.mem_map.2 ⟨t', ht', heq.trans h.symm⟩)
        simpa using hne
      simp [h, hnone, insertIndex]
    · have hcomp : ((· + start) ∘ (· + 1) : ℕ → ℕ) = (· + (start + 1)) :=
        funext fun i => by simp only [Function.comp_apply]; omega
      simp [h, insertIndex, Function.update_of_ne (Ne.symm h), hcomp]

namespace QueueState

variable {q : QueueState} {id : TaskId} {t : Task} {i : ℕ}

theorem taskPosition_eq : q.taskPosition id = q.tasks.findIdx? (·.id = id) := by
  have h := foldl_insertIndex id q.tasks 0 (fun _ => none) q.nodup
  simpa [taskPosition, taskIndexes] using h

theorem position_unique {i j : ℕ} {t t' : Task} (hi : q.tasks[i]? = some t)
    (hj : q.tasks[j]? = some t') (h : t.id = t'.id) : i = j := by
  have hlt : i < (q.tasks.map Task.id).length := by
    rw [List.length_map]
    exact (List.getElem?_eq_some_iff.1 hi).1
  refine (List.getElem?_inj hlt q.nodup).1 ?_
  rw [List.getElem?_map, List.getElem?_map, hi, hj, Option.map_some, Option.map_some, h]

theorem taskPosition_eq_some :
    q.taskPosition id = some i ↔ ∃ t, q.tasks[i]? = some t ∧ t.id = id := by
  rw [taskPosition_eq, List.findIdx?_eq_some_iff_getElem]
  constructor
  · rintro ⟨hi, hid, -⟩
    exact ⟨_, List.getElem?_eq_getElem hi, by simpa using hid⟩
  · rintro ⟨t, ht, hid⟩
    obtain ⟨hi, heq⟩ := List.getElem?_eq_some_iff.1 ht
    refine ⟨hi, by simpa [heq] using hid, fun j hji hj => hji.ne ?_⟩
    have hid' : q.tasks[j].id = id := by simpa using hj
    exact position_unique (List.getElem?_eq_getElem _) ht (hid'.trans hid.symm)

theorem task_eq_some : q.task id = some t ↔ t ∈ q.tasks ∧ t.id = id := by
  have hbind : q.task id = (q.taskPosition id).bind fun i => q.tasks[i]? := rfl
  simp only [hbind, Option.bind_eq_some_iff, taskPosition_eq_some]
  constructor
  · rintro ⟨i, ⟨t', ht', hid⟩, ht⟩
    cases ht'.symm.trans ht
    exact ⟨List.mem_of_getElem? ht, hid⟩
  · rintro ⟨hmem, hid⟩
    obtain ⟨i, hi⟩ := List.mem_iff_getElem?.1 hmem
    exact ⟨i, ⟨t, hi, hid⟩, hi⟩

end QueueState

end OnixCore.HerdrPueue
