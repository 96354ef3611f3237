import OnixCore.HerdrPueue.Proofs.Assertions
import OnixCore.HerdrPueue.Terminal

/-!
# What is drawn, and where a click goes

The window of tasks that is drawn is as long as there is room for, and has the selected task in it.
A click on a row selects the task that is drawn there.
-/

namespace OnixCore.HerdrPueue

/-- A rectangle that ends within sixteen bits, as rectangles of a terminal do. -/
structure Rect.Fits (r : Rect) : Prop where
  right : r.x + r.width ≤ maxU16
  bottom : r.y + r.height ≤ maxU16

section

variable {tasks : List Task} {selected : Option TaskId} {rows : ℕ} {inner : Rect}
  {s : DashboardState} {q : QueueState} {column row : ℕ}

theorem visibleTaskRange_bounds (tasks : List Task) (selected : Option TaskId) (rows : ℕ) :
    (visibleTaskRange tasks selected rows).1 ≤ (visibleTaskRange tasks selected rows).2
      ∧ (visibleTaskRange tasks selected rows).2 ≤ tasks.length
      ∧ (visibleTaskRange tasks selected rows).2 - (visibleTaskRange tasks selected rows).1
        = min tasks.length rows := by
  unfold visibleTaskRange
  split_ifs with hnone hall
  · rcases hnone with rfl | rfl <;> simp
  · refine ⟨Nat.zero_le _, Nat.le_refl _, ?_⟩
    dsimp only
    omega
  · dsimp only
    omega

/-- The window is around the selected task. -/
theorem visibleTaskRange_selected {id : TaskId} {position : ℕ} (hrows : 0 < rows)
    (hposition : tasks.findIdx? (·.id = id) = some position) :
    (visibleTaskRange tasks (some id) rows).1 ≤ position
      ∧ position < (visibleTaskRange tasks (some id) rows).2 := by
  obtain ⟨hlt, -⟩ := List.findIdx?_eq_some_iff_getElem.1 hposition
  have hne : tasks ≠ [] := List.ne_nil_of_length_pos (by omega)
  unfold visibleTaskRange
  rw [if_neg (by simp [hne]; omega)]
  split_ifs with hall
  · exact ⟨Nat.zero_le _, hlt⟩
  · simp only [Option.bind_some, hposition, Option.getD_some, windowCenterDivisor]
    omega

theorem visibleTasks_length (inner : Rect) (q : QueueState) (selected : Option TaskId) :
    (visibleTasks inner q selected).length
      = min q.tasks.length (inner.height - tableHeaderRows) := by
  obtain ⟨hle, hend, hlength⟩ := visibleTaskRange_bounds q.tasks selected
    (inner.height - tableHeaderRows)
  rw [visibleTasks, List.length_drop, List.length_take, Nat.min_eq_left hend, hlength]

/-- The task that a state selects is drawn. -/
theorem selected_drawn {t : Task} (hrows : tableHeaderRows < inner.height) (ht : t ∈ q.tasks) :
    t ∈ visibleTasks inner q (some t.id) := by
  have htask : q.task t.id = some t := QueueState.task_eq_some.2 ⟨ht, rfl⟩
  obtain ⟨position, hi⟩ := List.mem_iff_getElem?.1 ht
  have hposition : q.tasks.findIdx? (·.id = t.id) = some position := by
    rw [← QueueState.taskPosition_eq]
    exact QueueState.taskPosition_eq_some.2 ⟨t, hi, rfl⟩
  obtain ⟨hstart, hend⟩ := visibleTaskRange_selected (Nat.sub_pos_of_lt hrows) hposition
  refine List.mem_iff_getElem?.2 ⟨position - (visibleTaskRange q.tasks (some t.id)
    (inner.height - tableHeaderRows)).1, ?_⟩
  rw [visibleTasks, List.getElem?_drop, Nat.add_sub_cancel' hstart, List.getElem?_take,
    if_pos hend, hi]

def rowOf (inner : Rect) (index : ℕ) : Rect :=
  ⟨inner.x, saturatingAdd16 (saturatingAdd16 inner.y tableHeaderRows) index, inner.width,
    taskRowHeightRows⟩

theorem rowOf_contains (column row : ℕ) {index : ℕ} (hfits : inner.Fits)
    (hbound : inner.y + tableHeaderRows + index < maxU16) :
    rectContains (rowOf inner index) column row = true
      ↔ (inner.x ≤ column ∧ column < inner.x + inner.width)
        ∧ row = inner.y + tableHeaderRows + index := by
  have hright : saturatingAdd16 inner.x inner.width = inner.x + inner.width :=
    Nat.min_eq_left hfits.right
  have htop : saturatingAdd16 inner.y tableHeaderRows = inner.y + tableHeaderRows :=
    Nat.min_eq_left (by omega)
  have hrow : saturatingAdd16 (inner.y + tableHeaderRows) index
      = inner.y + tableHeaderRows + index := Nat.min_eq_left (by omega)
  have hbottom : saturatingAdd16 (inner.y + tableHeaderRows + index) taskRowHeightRows
      = inner.y + tableHeaderRows + index + 1 := Nat.min_eq_left hbound
  unfold rectContains rowOf
  dsimp only
  rw [decide_eq_true_iff, hright, htop, hrow, hbottom]
  omega

theorem find_taskHits (column row : ℕ) (hfits : inner.Fits) :
    ∀ {tasks : List Task} {start : ℕ},
    (∀ k < tasks.length, inner.y + tableHeaderRows + (start + k) < maxU16) →
      (((tasks.zipIdx start).filterMap fun (t, index) =>
          if index ≤ maxU16 then some (⟨rowOf inner index, t.id⟩ : TaskHit) else none).find?
        fun hit => rectContains hit.area column row).map TaskHit.taskId
        = if (inner.x ≤ column ∧ column < inner.x + inner.width)
            ∧ inner.y + tableHeaderRows + start ≤ row then
          (tasks[row - (inner.y + tableHeaderRows + start)]?).map Task.id
        else none
  | [], start, _ => by simp
  | t :: tasks, start, hbound => by
    have hfirst : inner.y + tableHeaderRows + start < maxU16 := by simpa using hbound 0 (by simp)
    have hcontains := rowOf_contains column row hfits hfirst
    have hstart : start ≤ maxU16 := by omega
    have hrest : ∀ k < tasks.length, inner.y + tableHeaderRows + (start + 1 + k) < maxU16 := by
      intro k hk
      have hnext := hbound (k + 1) (by simpa using hk)
      omega
    rw [List.zipIdx_cons, List.filterMap_cons]
    simp only [hstart, if_true]
    rw [List.find?_cons]
    by_cases hhit : rectContains (rowOf inner start) column row = true
    · obtain ⟨hcolumn, hrow⟩ := hcontains.1 hhit
      rw [hhit, if_pos ⟨hcolumn, hrow.ge⟩, hrow, Nat.sub_self]
      rfl
    · have hmiss := fun h => hhit (hcontains.2 h)
      rw [Bool.not_eq_true] at hhit
      simp only [hhit]
      rw [find_taskHits column row hfits hrest]
      by_cases hcolumn : inner.x ≤ column ∧ column < inner.x + inner.width
      · have hne : row ≠ inner.y + tableHeaderRows + start := fun h => hmiss ⟨hcolumn, h⟩
        by_cases hrow : inner.y + tableHeaderRows + (start + 1) ≤ row
        · have hindex : row - (inner.y + tableHeaderRows + start)
              = row - (inner.y + tableHeaderRows + (start + 1)) + 1 := by omega
          rw [if_pos ⟨hcolumn, hrow⟩, if_pos ⟨hcolumn, by omega⟩, hindex, List.getElem?_cons_succ]
        · rw [if_neg fun h => hrow h.2, if_neg fun h => hne (by omega)]
      · rw [if_neg fun h => hcolumn h.1, if_neg fun h => hcolumn h.1]

/-- The task that is drawn at a place on the screen. -/
def DrawnAt (inner : Rect) (s : DashboardState) (column row : ℕ) (t : Task) : Prop :=
  ∃ q k, s.queue = some q ∧ (inner.x ≤ column ∧ column < inner.x + inner.width)
    ∧ row = inner.y + tableHeaderRows + k ∧ (visibleTasks inner q s.selectedTaskId)[k]? = some t

theorem taskAt_eq_some {id : TaskId} (hfits : inner.Fits) :
    (renderTasks inner s).taskAt column row = some id
      ↔ ∃ t, DrawnAt inner s column row t ∧ t.id = id := by
  unfold RenderState.taskAt renderTasks DrawnAt
  rcases hq : s.queue with _ | q
  · simp
  have hlength := visibleTasks_length inner q s.selectedTaskId
  have hbound : ∀ k < (visibleTasks inner q s.selectedTaskId).length,
      inner.y + tableHeaderRows + (0 + k) < maxU16 := by
    intro k hk
    have hbottom := hfits.bottom
    omega
  have hfind := find_taskHits column row hfits hbound
  dsimp only
  rw [taskHits]
  refine (Eq.congr_left hfind).trans ?_
  constructor
  · intro h
    split_ifs at h with hplace
    obtain ⟨t, ht, rfl⟩ := Option.map_eq_some_iff.1 h
    exact ⟨t, ⟨q, _, rfl, hplace.1, (Nat.add_sub_cancel' hplace.2).symm, ht⟩, rfl⟩
  · rintro ⟨t, ⟨_, k, ⟨⟩, hcolumn, rfl, ht⟩, rfl⟩
    rw [if_pos ⟨hcolumn, Nat.le_add_right _ _⟩]
    simp [ht]

/-- A click selects the task that is drawn under the mouse, and does nothing where none is. -/
theorem click_selects (hfits : inner.Fits) :
    (∀ t, DrawnAt inner s column row t →
        Wakeup.event s (.terminal inner (.mouse ⟨.downLeft, column, row⟩)) = some (.selectTask t.id)
          ∧ (reduce s (.selectTask t.id)).state.selectedTaskId = some t.id)
      ∧ ((∀ t, ¬ DrawnAt inner s column row t) →
        Wakeup.event s (.terminal inner (.mouse ⟨.downLeft, column, row⟩)) = none) := by
  constructor
  · intro t ht
    have hat := (taskAt_eq_some hfits).2 ⟨t, ht, rfl⟩
    refine ⟨by simp [Wakeup.event, mapTerminalEvent, mapMouseEvent, hat], ?_⟩
    obtain ⟨q, k, hq, -, -, hk⟩ := ht
    have hmem : t ∈ q.tasks :=
      (List.take_sublist _ _).mem ((List.drop_sublist _ _).mem (List.mem_of_getElem? hk))
    have htask : q.task t.id = some t := QueueState.task_eq_some.2 ⟨hmem, rfl⟩
    simp [reduce, DashboardState.selectTask, hq, htask]
  · intro hnone
    have hat : (renderTasks inner s).taskAt column row = none := by
      rcases hat : (renderTasks inner s).taskAt column row with _ | id
      · rfl
      · obtain ⟨t, ht, -⟩ := (taskAt_eq_some hfits).1 hat
        exact absurd ht (hnone t)
    simp [Wakeup.event, mapTerminalEvent, mapMouseEvent, hat]

theorem click_selects_second :
    (∀ t, DrawnAt ⟨0, 0, 80, 24⟩ (reduce .default (.refreshSucceeded exampleQueue)).state 5 2 t →
        Wakeup.event (reduce .default (.refreshSucceeded exampleQueue)).state
            (.terminal ⟨0, 0, 80, 24⟩ (.mouse ⟨.downLeft, 5, 2⟩)) = some (.selectTask t.id)
          ∧ (reduce (reduce .default (.refreshSucceeded exampleQueue)).state
            (.selectTask t.id)).state.selectedTaskId = some t.id)
      ∧ ((∀ t, ¬ DrawnAt ⟨0, 0, 80, 24⟩
          (reduce .default (.refreshSucceeded exampleQueue)).state 5 2 t) →
        Wakeup.event (reduce .default (.refreshSucceeded exampleQueue)).state
          (.terminal ⟨0, 0, 80, 24⟩ (.mouse ⟨.downLeft, 5, 2⟩)) = none) :=
  click_selects ⟨by decide, by decide⟩

/-- In every state that events lead to, the selected task is drawn, unless there is no room. -/
theorem selection_drawn (events : List DashboardEvent) {s : DashboardState} {id : TaskId}
    (hs : s ∈ visited .default (eventSteps .default events))
    (hselected : s.selectedTaskId = some id)
    (hrows : tableHeaderRows < inner.height) :
    ∃ q t, s.queue = some q ∧ t.id = id ∧ t ∈ visibleTasks inner q s.selectedTaskId := by
  have hsound : Sound s := visited_sound (run_eventSteps _ events) sound_default s hs
  obtain ⟨q, t, hq, ht⟩ := hsound.selected id hselected
  obtain ⟨hmem, rfl⟩ := QueueState.task_eq_some.1 ht
  exact ⟨q, t, hq, rfl, hselected ▸ selected_drawn hrows hmem⟩

theorem selection_drawn_first : ∃ q t,
    (reduce .default (.refreshSucceeded exampleQueue)).state.queue = some q ∧ t.id = ⟨0⟩
      ∧ t ∈ visibleTasks ⟨0, 0, 80, 24⟩ q
        (reduce .default (.refreshSucceeded exampleQueue)).state.selectedTaskId :=
  selection_drawn [.refreshSucceeded exampleQueue] (by simp [visited, eventSteps]) rfl (by decide)

end

end OnixCore.HerdrPueue
