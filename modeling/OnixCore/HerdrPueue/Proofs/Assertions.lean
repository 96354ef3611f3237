import OnixCore.HerdrPueue.Dashboard
import OnixCore.Lib.Runs

/-!
# When the dashboard's assertion holds

Whatever events come, what the dashboard holds fits together (`Sound`): the selected task is in the
queue, a pending control is one that its task admits and that asks first, and an input line is
short, without control characters, and for a task that is alive. The assertion that the code makes
in a debug build says more: that a pending control is the selected task's, and may be run. It fails
exactly after an event that takes one of these away from a pending control (`Disturbs`).
-/

namespace OnixCore.HerdrPueue

/-- The task admits the control. -/
def Admits (q : QueueState) (request : PueueRequest) : Prop :=
  ∃ t, q.task request.taskId = some t ∧ request.operation ∈ allowedControls t.state

/-- A line that may still be typed on. -/
structure InputDraft.Typed (draft : InputDraft) : Prop where
  short : draft.buffer.length ≤ maxSendInputChars
  plain : ∀ c ∈ draft.buffer, Text.isControl c = false

structure Sound (s : DashboardState) : Prop where
  enabled : s.mutationsEnabled = true → ∃ q, s.queue = some q
  selected : ∀ id, s.selectedTaskId = some id → ∃ q t, s.queue = some q ∧ q.task id = some t
  pending : ∀ request, s.pendingConfirmation = some request →
    s.inputDraft = none ∧ request.operation.requiresConfirmation = true
      ∧ ∃ q, s.queue = some q ∧ Admits q request
  draft : ∀ draft, s.inputDraft = some draft →
    draft.Typed ∧ ∃ q, s.queue = some q ∧ DashboardState.taskAcceptsInput q draft.taskId = true

section

variable {s : DashboardState} {operation : ControlOperation} {request : PueueRequest} {id : TaskId}
  {q : QueueState} {direction : Direction} {event : DashboardEvent}

theorem admittedRequest_eq_some : s.admittedRequest operation = some request ↔
    s.mutationsEnabled = true ∧ s.selectedTaskId = some request.taskId
      ∧ request.operation = operation ∧ ∃ q, s.queue = some q ∧ Admits q request := by
  unfold DashboardState.admittedRequest Admits
  split_ifs with henabled
  · simp only [Option.bind_eq_bind, Option.bind_eq_some_iff, henabled, true_and]
    constructor
    · rintro ⟨id, hid, q, hq, t, ht, hrequest⟩
      split_ifs at hrequest with hallowed
      cases hrequest
      exact ⟨hid, rfl, q, hq, t, ht, hallowed⟩
    · rintro ⟨hid, rfl, q, hq, t, ht, hallowed⟩
      exact ⟨_, hid, q, hq, t, ht, if_pos hallowed⟩
  · simp [henabled]

theorem admittedSendTask_eq_some : s.admittedSendTask = some id ↔
    s.mutationsEnabled = true ∧ s.pendingConfirmation = none ∧ s.selectedTaskId = some id
      ∧ ∃ q, s.queue = some q ∧ DashboardState.taskAcceptsInput q id = true := by
  unfold DashboardState.admittedSendTask
  split_ifs with hbusy
  · have hnone : s.mutationsEnabled = true → s.pendingConfirmation ≠ none := by
      rintro henabled hnone
      simp [henabled, hnone] at hbusy
    simpa using fun henabled hpending => absurd hpending (hnone henabled)
  · obtain ⟨henabled, hpending⟩ : s.mutationsEnabled = true ∧ s.pendingConfirmation = none := by
      simpa using hbusy
    simp only [Option.bind_eq_bind, Option.bind_eq_some_iff, henabled, hpending, true_and]
    constructor
    · rintro ⟨id', hid, q, hq, hsend⟩
      split_ifs at hsend with halive
      cases hsend
      exact ⟨hid, q, hq, halive⟩
    · rintro ⟨hid, q, hq, halive⟩
      exact ⟨id, hid, q, hq, if_pos halive⟩

theorem stateIsValid_iff : s.stateIsValid = true ↔
    (s.mutationsEnabled = true → ∃ q, s.queue = some q)
      ∧ (∀ draft, s.inputDraft = some draft → s.pendingConfirmation = none
        ∧ ∃ q, s.queue = some q ∧ DashboardState.taskAcceptsInput q draft.taskId = true)
      ∧ ∀ request, s.pendingConfirmation = some request → s.mutationsEnabled = true
        ∧ s.admittedRequest request.operation = some request := by
  unfold DashboardState.stateIsValid
  rcases s.queue with _ | q <;> rcases s.inputDraft with _ | draft <;>
    rcases s.pendingConfirmation with _ | request <;> rcases s.mutationsEnabled with _ | _ <;> simp

/-! ### What each event keeps -/

theorem Sound.select {x : Option TaskId} (hs : Sound s)
    (hx : ∀ id, x = some id → ∃ q t, s.queue = some q ∧ q.task id = some t) :
    Sound { s with selectedTaskId := x } :=
  ⟨hs.enabled, hx, hs.pending, hs.draft⟩

theorem Sound.diagnose {diagnostic : Option Diagnostic} (hs : Sound s) :
    Sound { s with diagnostic } :=
  ⟨hs.enabled, hs.selected, hs.pending, hs.draft⟩

theorem Sound.settle {enabled : Bool} (hs : Sound s)
    (henabled : enabled = true → ∃ q, s.queue = some q) :
    Sound { s with pendingConfirmation := none, mutationsEnabled := enabled } :=
  ⟨henabled, hs.selected, by simp, hs.draft⟩

theorem Sound.clearDraft {enabled : Bool} (hs : Sound s)
    (henabled : enabled = true → ∃ q, s.queue = some q) :
    Sound { s with inputDraft := none, mutationsEnabled := enabled } :=
  ⟨henabled, hs.selected, fun request hrequest => ⟨rfl, (hs.pending request hrequest).2⟩, by simp⟩

theorem exists_task_of_first (hid : q.firstTaskId = some id) : ∃ t, q.task id = some t := by
  obtain ⟨t, ht, rfl⟩ := Option.map_eq_some_iff.1 hid
  exact ⟨t, QueueState.task_eq_some.2 ⟨List.mem_of_head? ht, rfl⟩⟩

theorem acceptRefresh_sound (hs : Sound s) (q : QueueState) : Sound (s.acceptRefresh q).state := by
  constructor
  · exact fun _ => ⟨q, rfl⟩
  · intro id hid
    rcases Option.or_eq_some_iff.1 hid with hkept | ⟨-, hfirst⟩
    · obtain ⟨-, hthere⟩ := Option.filter_eq_some_iff.1 hkept
      obtain ⟨t, ht⟩ := Option.isSome_iff_exists.1 hthere
      exact ⟨q, t, rfl, ht⟩
    · obtain ⟨t, ht⟩ := exists_task_of_first hfirst
      exact ⟨q, t, rfl, ht⟩
  · simp [DashboardState.acceptRefresh]
  · intro draft hdraft
    obtain ⟨hbefore, halive⟩ := Option.filter_eq_some_iff.1 hdraft
    exact ⟨(hs.draft draft hbefore).1, q, rfl, halive⟩

theorem rejectRefresh_sound (diagnostic : Diagnostic) :
    Sound (DashboardState.rejectRefresh diagnostic).state := by
  constructor <;> simp [DashboardState.rejectRefresh]

/-! ### What an operation makes of the state -/

theorem requestControl_cases (s : DashboardState) (operation : ControlOperation) :
    (s.inputDraft = none → s.admittedRequest operation = none)
        ∧ s.requestControl operation = s.reject (.pueueControl operation)
      ∨ ∃ request, s.inputDraft = none ∧ s.admittedRequest operation = some request
        ∧ (operation.requiresConfirmation = true ∧ s.requestControl operation
              = ⟨{ s with diagnostic := none, pendingConfirmation := some request }, []⟩
          ∨ operation.requiresConfirmation = false ∧ s.requestControl operation
              = ⟨{ s with diagnostic := none, mutationsEnabled := false },
                [.runControl request]⟩) := by
  unfold DashboardState.requestControl
  cases hdraft : s.inputDraft with
  | some draft => exact .inl ⟨by simp, rfl⟩
  | none =>
    cases hadmitted : s.admittedRequest operation with
    | none => exact .inl ⟨fun _ => rfl, rfl⟩
    | some request =>
      refine .inr ⟨request, rfl, rfl, ?_⟩
      cases operation.requiresConfirmation with
      | true => exact .inl ⟨rfl, rfl⟩
      | false => exact .inr ⟨rfl, rfl⟩

theorem confirmControl_cases (s : DashboardState) :
    s.pendingConfirmation = none ∧ s.confirmControl = ⟨s, []⟩
      ∨ ∃ request, s.pendingConfirmation = some request
        ∧ (s.admittedRequest request.operation ≠ some request ∧ s.confirmControl
              = ({ s with pendingConfirmation := none } : DashboardState).reject
                (.pueueControl request.operation)
          ∨ s.admittedRequest request.operation = some request ∧ s.confirmControl
              = ⟨{ s with pendingConfirmation := none, mutationsEnabled := false },
                [.runControl request]⟩) := by
  unfold DashboardState.confirmControl
  cases hpending : s.pendingConfirmation with
  | none => exact .inl ⟨rfl, rfl⟩
  | some request =>
    refine .inr ⟨request, rfl, ?_⟩
    -- What is admitted does not depend on what is pending.
    have hsame : ({ s with pendingConfirmation := none } : DashboardState).admittedRequest
        request.operation = s.admittedRequest request.operation := rfl
    simp only [hsame]
    cases hadmitted : s.admittedRequest request.operation with
    | none => exact .inl ⟨by simp, rfl⟩
    | some admitted =>
      rw [ne_eq, Option.some.injEq]
      dsimp only
      split_ifs with hother
      · exact .inl ⟨hother, rfl⟩
      · exact .inr ⟨not_not.1 hother, rfl⟩

theorem requestSend_cases (s : DashboardState) :
    s.admittedSendTask = none ∧ s.requestSend = s.reject .pueueSendInput
      ∨ ∃ id, s.admittedSendTask = some id
        ∧ s.requestSend = ⟨{ s with diagnostic := none, inputDraft := some ⟨id, []⟩ }, []⟩ := by
  unfold DashboardState.requestSend
  cases hadmitted : s.admittedSendTask with
  | none => exact .inl ⟨rfl, rfl⟩
  | some id => exact .inr ⟨id, rfl, rfl⟩

theorem appendInput_cases (s : DashboardState) (c : Char) :
    (∀ draft, s.inputDraft = some draft →
        Text.isControl c = true ∨ maxSendInputChars ≤ draft.buffer.length)
          ∧ s.appendInput c = ⟨s, []⟩
      ∨ ∃ draft, s.inputDraft = some draft ∧ Text.isControl c = false
        ∧ draft.buffer.length < maxSendInputChars ∧ s.appendInput c
          = ⟨{ s with inputDraft := some { draft with buffer := draft.buffer ++ [c] } }, []⟩ := by
  unfold DashboardState.appendInput
  cases hdraft : s.inputDraft with
  | none => exact .inl ⟨by simp, rfl⟩
  | some draft =>
    simp only [Option.some.injEq, forall_eq']
    split_ifs with hcontrol hfull
    · exact .inl ⟨.inl hcontrol, rfl⟩
    · exact .inl ⟨.inr hfull, rfl⟩
    · exact .inr ⟨draft, rfl, Bool.eq_false_iff.2 hcontrol, not_le.1 hfull, rfl⟩

theorem backspaceInput_cases (s : DashboardState) :
    s.inputDraft = none ∧ s.backspaceInput = ⟨s, []⟩
      ∨ ∃ draft, s.inputDraft = some draft ∧ s.backspaceInput
        = ⟨{ s with inputDraft := some { draft with buffer := draft.buffer.dropLast } }, []⟩ := by
  unfold DashboardState.backspaceInput
  cases hdraft : s.inputDraft with
  | none => exact .inl ⟨rfl, rfl⟩
  | some draft => exact .inr ⟨draft, rfl, rfl⟩

theorem confirmSend_cases (s : DashboardState) :
    (∀ draft, s.inputDraft = some draft → Text.trim draft.buffer = []) ∧ s.confirmSend = ⟨s, []⟩
      ∨ ∃ draft, s.inputDraft = some draft ∧ Text.trim draft.buffer ≠ []
        ∧ (s.admittedSendTask ≠ some draft.taskId ∧ s.confirmSend
              = ({ s with inputDraft := none } : DashboardState).reject .pueueSendInput
          ∨ s.admittedSendTask = some draft.taskId ∧ s.confirmSend
              = ⟨{ s with inputDraft := none, mutationsEnabled := false },
                [.runSend ⟨draft.taskId, draft.buffer ++ [sendLineTerminator]⟩]⟩) := by
  unfold DashboardState.confirmSend
  cases hdraft : s.inputDraft with
  | none => exact .inl ⟨by simp, rfl⟩
  | some draft =>
    simp only [Option.some.injEq, forall_eq']
    split_ifs with hblank hother
    · exact .inl ⟨hblank, rfl⟩
    · exact .inr ⟨draft, rfl, hblank, .inl ⟨hother, rfl⟩⟩
    · exact .inr ⟨draft, rfl, hblank, .inr ⟨not_not.1 hother, rfl⟩⟩

/-- Moving the selection changes the selection, and that to a task of the queue. -/
theorem moveSelection_eq (s : DashboardState) (direction : Direction) :
    ∃ x, s.moveSelection direction = ⟨{ s with selectedTaskId := x }, []⟩ ∧ (x = s.selectedTaskId
      ∨ ∀ id, x = some id → ∃ q t, s.queue = some q ∧ q.task id = some t) := by
  have hfirst : ∀ q, s.queue = some q → ∀ id, q.firstTaskId = some id →
      ∃ q t, s.queue = some q ∧ q.task id = some t := fun q hq id hid =>
    ⟨q, (exists_task_of_first hid).choose, hq, (exists_task_of_first hid).choose_spec⟩
  unfold DashboardState.moveSelection
  split
  · exact ⟨s.selectedTaskId, rfl, .inl rfl⟩
  next q hq =>
    split
    · exact ⟨_, rfl, .inr (hfirst q hq)⟩
    next current hcurrent =>
      split
      · exact ⟨_, rfl, .inr (hfirst q hq)⟩
      next position hposition =>
        refine ⟨_, rfl, .inr fun id hid => ?_⟩
        obtain ⟨t, ht, rfl⟩ := Option.map_eq_some_iff.1 hid
        exact ⟨q, t, hq, QueueState.task_eq_some.2 ⟨List.mem_of_getElem? ht, rfl⟩⟩

/-- And so does selecting a task. -/
theorem selectTask_eq (s : DashboardState) (id : TaskId) :
    ∃ x, s.selectTask id = ⟨{ s with selectedTaskId := x }, []⟩ ∧ (x = s.selectedTaskId
      ∨ ∀ id, x = some id → ∃ q t, s.queue = some q ∧ q.task id = some t) := by
  unfold DashboardState.selectTask
  split_ifs with hknown
  · refine ⟨_, rfl, .inr ?_⟩
    rintro _ ⟨⟩
    obtain ⟨q, hq, hthere⟩ := (Option.any_eq_true _ _).1 hknown
    obtain ⟨t, ht⟩ := Option.isSome_iff_exists.1 hthere
    exact ⟨q, t, hq, ht⟩
  · exact ⟨_, rfl, .inl rfl⟩

theorem Sound.selection {x : Option TaskId} (hs : Sound s) (hx : x = s.selectedTaskId
    ∨ ∀ id, x = some id → ∃ q t, s.queue = some q ∧ q.task id = some t) :
    Sound { s with selectedTaskId := x } := by
  rcases hx with rfl | hx
  · exact hs
  · exact hs.select hx

theorem requestControl_sound (hs : Sound s) : Sound (s.requestControl operation).state := by
  rcases requestControl_cases s operation with
    ⟨-, heq⟩ | ⟨request, hdraft, hadmitted, ⟨hconfirm, heq⟩ | ⟨-, heq⟩⟩
  · rw [heq]
    exact hs.diagnose
  · obtain ⟨-, -, rfl, q, hq, hadmits⟩ := admittedRequest_eq_some.1 hadmitted
    rw [heq]
    refine ⟨hs.enabled, hs.selected, ?_, hs.draft⟩
    rintro _ ⟨⟩
    exact ⟨hdraft, hconfirm, q, hq, hadmits⟩
  · rw [heq]
    exact ⟨by simp, hs.selected, hs.pending, hs.draft⟩

theorem confirmControl_sound (hs : Sound s) : Sound s.confirmControl.state := by
  rcases confirmControl_cases s with ⟨-, heq⟩ | ⟨request, -, ⟨-, heq⟩ | ⟨-, heq⟩⟩
  · rw [heq]
    exact hs
  · rw [heq]
    exact (hs.settle hs.enabled).diagnose
  · rw [heq]
    exact hs.settle (by simp)

theorem requestSend_sound (hs : Sound s) : Sound s.requestSend.state := by
  rcases requestSend_cases s with ⟨-, heq⟩ | ⟨id, hadmitted, heq⟩
  · rw [heq]
    exact hs.diagnose
  · obtain ⟨-, hpending, -, q, hq, halive⟩ := admittedSendTask_eq_some.1 hadmitted
    rw [heq]
    refine ⟨hs.enabled, hs.selected, fun request hrequest => ?_, ?_⟩
    · cases hpending.symm.trans hrequest
    · rintro _ ⟨⟩
      exact ⟨⟨by simp, by simp⟩, q, hq, halive⟩

/-- A draft that changes what was typed. -/
theorem Sound.retype {draft : InputDraft} {buffer : Text} (hs : Sound s)
    (hdraft : s.inputDraft = some draft) (htyped : InputDraft.Typed ⟨draft.taskId, buffer⟩) :
    Sound { s with inputDraft := some { draft with buffer } } := by
  refine ⟨hs.enabled, hs.selected, fun request hrequest => ?_, ?_⟩
  · cases hdraft.symm.trans (hs.pending request hrequest).1
  · rintro _ ⟨⟩
    exact ⟨htyped, (hs.draft draft hdraft).2⟩

theorem appendInput_sound (hs : Sound s) (c : Char) : Sound (s.appendInput c).state := by
  rcases appendInput_cases s c with ⟨-, heq⟩ | ⟨draft, hdraft, hcontrol, hroom, heq⟩
  · rw [heq]
    exact hs
  · obtain ⟨-, hplain⟩ := (hs.draft draft hdraft).1
    rw [heq]
    refine hs.retype hdraft ⟨?_, ?_⟩
    · rw [List.length_append, List.length_singleton]
      omega
    · simp only [List.forall_mem_append, List.forall_mem_singleton]
      exact ⟨hplain, hcontrol⟩

theorem backspaceInput_sound (hs : Sound s) : Sound s.backspaceInput.state := by
  rcases backspaceInput_cases s with ⟨-, heq⟩ | ⟨draft, hdraft, heq⟩
  · rw [heq]
    exact hs
  · obtain ⟨hshort, hplain⟩ := (hs.draft draft hdraft).1
    rw [heq]
    refine hs.retype hdraft ⟨?_, fun c hc => hplain c ((List.dropLast_sublist _).mem hc)⟩
    exact (List.dropLast_sublist _).length_le.trans hshort

theorem confirmSend_sound (hs : Sound s) : Sound s.confirmSend.state := by
  rcases confirmSend_cases s with ⟨-, heq⟩ | ⟨draft, -, -, ⟨-, heq⟩ | ⟨-, heq⟩⟩
  · rw [heq]
    exact hs
  · rw [heq]
    exact (hs.clearDraft hs.enabled).diagnose
  · rw [heq]
    exact hs.clearDraft (by simp)

theorem reduce_sound (hs : Sound s) : ∀ event, Sound (reduce s event).state
  | .refreshRequested => (hs.settle (by simp)).diagnose
  | .refreshSucceeded q => acceptRefresh_sound hs q
  | .refreshFailed diagnostic => rejectRefresh_sound diagnostic
  | .moveSelection direction => by
    obtain ⟨x, heq, hx⟩ := moveSelection_eq s direction
    rw [reduce, heq]
    exact hs.selection hx
  | .selectTask id => by
    obtain ⟨x, heq, hx⟩ := selectTask_eq s id
    rw [reduce, heq]
    exact hs.selection hx
  | .controlRequested operation => requestControl_sound hs
  | .confirmControl => confirmControl_sound hs
  | .cancelControl => hs.settle hs.enabled
  | .controlFinished result => (hs.settle (by simp)).diagnose
  | .sendRequested => requestSend_sound hs
  | .inputAppended c => appendInput_sound hs c
  | .inputBackspaced => backspaceInput_sound hs
  | .sendConfirmed => confirmSend_sound hs
  | .sendCancelled => hs.clearDraft hs.enabled
  | .sendFinished result => (hs.clearDraft (by simp)).diagnose
  | .quit => hs

/-! ### What the assertion says besides -/

theorem Sound.valid_iff (hs : Sound s) : s.stateIsValid = true ↔
    ∀ request, s.pendingConfirmation = some request →
      s.mutationsEnabled = true ∧ s.selectedTaskId = some request.taskId := by
  rw [stateIsValid_iff]
  constructor
  · rintro ⟨-, -, hpending⟩ request hrequest
    obtain ⟨henabled, hadmitted⟩ := hpending request hrequest
    exact ⟨henabled, (admittedRequest_eq_some.1 hadmitted).2.1⟩
  · refine fun h => ⟨hs.enabled, fun draft hdraft => ⟨?_, (hs.draft draft hdraft).2⟩,
      fun request hrequest => ?_⟩
    · rcases hpending : s.pendingConfirmation with _ | request
      · rfl
      · cases hdraft.symm.trans (hs.pending request hpending).1
    · obtain ⟨henabled, hselected⟩ := h request hrequest
      exact ⟨henabled, admittedRequest_eq_some.2
        ⟨henabled, hselected, rfl, (hs.pending request hrequest).2.2⟩⟩

/-- The event leaves a control pending that may not be run any more: it moves the selection to
another task, or something else was done meanwhile. -/
def Disturbs (s : DashboardState) (event : DashboardEvent) : Prop :=
  s.pendingConfirmation ≠ none ∧ ∃ q id, s.queue = some q ∧ s.selectedTaskId = some id ∧
    match event with
    | .moveSelection .previous => q.firstTaskId ≠ some id
    | .moveSelection .next => q.tasks.getLast?.map Task.id ≠ some id
    | .selectTask other => other ≠ id ∧ ∃ t, q.task other = some t
    | .controlRequested operation =>
      operation.requiresConfirmation = false ∧ Admits q ⟨operation, id⟩
    | .sendFinished _ => True
    | _ => False

theorem valid_of_settled (hs : Sound s) (h : s.pendingConfirmation = none) :
    s.stateIsValid = true :=
  hs.valid_iff.2 fun request hrequest => by cases h.symm.trans hrequest

/-- The neighbour that the selection moves to is another task, but at the end of the list. -/
theorem moveSelection_stays (direction : Direction) {i : ℕ} {t : Task}
    (hq : s.queue = some q) (hselected : s.selectedTaskId = some t.id) (hi : q.tasks[i]? = some t) :
    (s.moveSelection direction).state.selectedTaskId = some t.id ↔
      match direction with
      | .previous => q.firstTaskId = some t.id
      | .next => q.tasks.getLast?.map Task.id = some t.id := by
  have hposition : q.taskPosition t.id = some i := QueueState.taskPosition_eq_some.2 ⟨t, hi, rfl⟩
  have hlength := (List.getElem?_eq_some_iff.1 hi).1
  have hsame : ∀ j, (q.tasks[j]?.map Task.id = some t.id) ↔ j = i := fun j => by
    constructor
    · intro h
      obtain ⟨t', ht', hid⟩ := Option.map_eq_some_iff.1 h
      exact q.position_unique ht' hi hid
    · rintro rfl
      rw [hi, Option.map_some]
  have hfirst : q.firstTaskId = q.tasks[0]?.map Task.id := by
    rw [QueueState.firstTaskId, List.head?_eq_getElem?]
  simp only [DashboardState.moveSelection, hq, hselected, hposition]
  cases direction with
  | previous =>
    simp only [hsame, hfirst]
    omega
  | next =>
    simp only [hsame, List.getLast?_eq_getElem?]
    omega

theorem confirmControl_settled : s.confirmControl.state.pendingConfirmation = none := by
  rcases confirmControl_cases s with ⟨hnone, heq⟩ | ⟨request, -, ⟨-, heq⟩ | ⟨-, heq⟩⟩
  · rw [heq]
    exact hnone
  · rw [heq]
    rfl
  · rw [heq]

/-- The assertion is about what is pending, what may be done and what is selected. -/
theorem valid_of_kept {s' : DashboardState} (hs : Sound s) (hvalid : s.stateIsValid = true)
    (hs' : Sound s') (hpending : s'.pendingConfirmation = s.pendingConfirmation)
    (henabled : s'.mutationsEnabled = s.mutationsEnabled)
    (hselected : s'.selectedTaskId = s.selectedTaskId) : s'.stateIsValid = true := by
  rw [hs'.valid_iff, hpending, henabled, hselected]
  exact hs.valid_iff.1 hvalid

/-- Where a control is pending, the assertion is about the selected task. -/
theorem Sound.pending_selected (hs : Sound s) (hvalid : s.stateIsValid = true)
    (hpending : s.pendingConfirmation = some request) :
    s.mutationsEnabled = true ∧ s.inputDraft = none ∧ ∃ (q : QueueState) (i : ℕ) (t : Task),
      s.queue = some q ∧ q.tasks[i]? = some t ∧ s.selectedTaskId = some t.id
        ∧ request.taskId = t.id := by
  obtain ⟨henabled, hselected⟩ := hs.valid_iff.1 hvalid request hpending
  obtain ⟨hdraft, -, q, hq, t, ht, -⟩ := hs.pending request hpending
  obtain ⟨hmem, hid⟩ := QueueState.task_eq_some.1 ht
  obtain ⟨i, hi⟩ := List.mem_iff_getElem?.1 hmem
  exact ⟨henabled, hdraft, q, i, t, hq, hi, hid ▸ hselected, hid.symm⟩

theorem selection_valid_iff {x : Option TaskId} (hs : Sound s)
    (hs' : Sound { s with selectedTaskId := x }) (hvalid : s.stateIsValid = true)
    (hpending : s.pendingConfirmation = some request) :
    ({ s with selectedTaskId := x } : DashboardState).stateIsValid = true
      ↔ x = s.selectedTaskId := by
  obtain ⟨henabled, hselected⟩ := hs.valid_iff.1 hvalid request hpending
  rw [hs'.valid_iff, hselected]
  constructor
  · exact fun h => (h request hpending).2
  · rintro rfl request' hrequest'
    cases hpending.symm.trans hrequest'
    exact ⟨henabled, rfl⟩

theorem moveSelection_valid_iff (hs : Sound s) (hvalid : s.stateIsValid = true) :
    (s.moveSelection direction).state.stateIsValid = true
      ↔ ¬ Disturbs s (.moveSelection direction) := by
  have hnext := reduce_sound hs (.moveSelection direction)
  obtain ⟨x, heq, -⟩ := moveSelection_eq s direction
  rcases hpending : s.pendingConfirmation with _ | request
  · refine iff_of_true ?_ fun h => h.1 hpending
    exact valid_of_settled hnext (by rw [heq]; exact hpending)
  obtain ⟨-, -, q, i, t, hq, hi, hselected, -⟩ := hs.pending_selected hvalid hpending
  have hstays := moveSelection_stays direction hq hselected hi
  rw [reduce, heq] at hnext
  rw [heq] at hstays ⊢
  rw [selection_valid_iff hs hnext hvalid hpending, hselected, hstays]
  simp only [Disturbs, hpending, hq, hselected]
  cases direction <;> simp

theorem selectTask_valid_iff (hs : Sound s) (hvalid : s.stateIsValid = true) :
    (s.selectTask id).state.stateIsValid = true ↔ ¬ Disturbs s (.selectTask id) := by
  have hnext := reduce_sound hs (.selectTask id)
  obtain ⟨x, heq, -⟩ := selectTask_eq s id
  rcases hpending : s.pendingConfirmation with _ | request
  · refine iff_of_true ?_ fun h => h.1 hpending
    exact valid_of_settled hnext (by rw [heq]; exact hpending)
  obtain ⟨-, -, q, i, t, hq, hi, hselected, -⟩ := hs.pending_selected hvalid hpending
  have hx : x = (s.selectTask id).state.selectedTaskId := by rw [heq]
  rw [reduce, heq] at hnext
  rw [heq, selection_valid_iff hs hnext hvalid hpending, hx, DashboardState.selectTask, hq,
    Option.any_some]
  simp only [Disturbs, hpending, hq, hselected, ← Option.isSome_iff_exists]
  by_cases hknown : (q.task id).isSome = true
  · simp [hknown]
  · simp [hknown, hselected]

theorem requestControl_valid_iff (hs : Sound s) (hvalid : s.stateIsValid = true) :
    (s.requestControl operation).state.stateIsValid = true
      ↔ ¬ Disturbs s (.controlRequested operation) := by
  have hnext : Sound (s.requestControl operation).state := requestControl_sound hs
  rcases requestControl_cases s operation with ⟨hnone, heq⟩ | ⟨request, -, hadmitted, hrest⟩
  · rw [heq]
    refine iff_of_true (valid_of_kept hs hvalid hs.diagnose rfl rfl rfl) ?_
    rintro ⟨hpending, q, id, hq, hselected, -, hadmits⟩
    obtain ⟨request, hrequest⟩ := Option.ne_none_iff_exists'.1 hpending
    obtain ⟨henabled, hdraft, -⟩ := hs.pending_selected hvalid hrequest
    have hsome : s.admittedRequest operation = some ⟨operation, id⟩ :=
      admittedRequest_eq_some.2 ⟨henabled, hselected, rfl, q, hq, hadmits⟩
    cases (hnone hdraft).symm.trans hsome
  · obtain ⟨henabled, hselected, rfl, q, hq, hadmits⟩ := admittedRequest_eq_some.1 hadmitted
    rcases hrest with ⟨hconfirm, heq⟩ | ⟨hconfirm, heq⟩
    · rw [heq] at hnext ⊢
      rw [hnext.valid_iff]
      refine iff_of_true ?_ ?_
      · rintro _ ⟨⟩
        exact ⟨henabled, hselected⟩
      · rintro ⟨-, q', id, -, -, hplain, -⟩
        cases hconfirm.symm.trans hplain
    · rw [heq] at hnext ⊢
      rw [hnext.valid_iff]
      simp only [Disturbs, hconfirm, hq, hselected, Bool.false_eq_true, false_and]
      constructor
      · rintro h ⟨hpending, -⟩
        obtain ⟨request', hrequest'⟩ := Option.ne_none_iff_exists'.1 hpending
        exact h request' hrequest'
      · intro h request' hrequest'
        exact h ⟨by simp [hrequest'], q, _, rfl, rfl, trivial, hadmits⟩

theorem sendFinished_valid_iff {result : Except Diagnostic Unit} (hs : Sound s)
    (hvalid : s.stateIsValid = true) :
    (s.finishSend result).state.stateIsValid = true ↔ ¬ Disturbs s (.sendFinished result) := by
  have hnext : Sound (s.finishSend result).state := reduce_sound hs (.sendFinished result)
  rw [hnext.valid_iff]
  constructor
  · rintro h ⟨hpending, -⟩
    obtain ⟨request, hrequest⟩ := Option.ne_none_iff_exists'.1 hpending
    cases (h request hrequest).1
  · intro h request hrequest
    obtain ⟨-, -, q, i, t, hq, -, hselected, -⟩ := hs.pending_selected hvalid hrequest
    have hpending : s.pendingConfirmation = some request := hrequest
    exact absurd ⟨by simp [hpending], q, t.id, hq, hselected, trivial⟩ h

theorem requestSend_valid (hs : Sound s) (hvalid : s.stateIsValid = true) :
    s.requestSend.state.stateIsValid = true := by
  have hnext := requestSend_sound hs
  rcases requestSend_cases s with ⟨-, heq⟩ | ⟨id, hadmitted, heq⟩
  · rw [heq] at hnext ⊢
    exact valid_of_kept hs hvalid hnext rfl rfl rfl
  · rw [heq] at hnext ⊢
    exact valid_of_settled hnext (admittedSendTask_eq_some.1 hadmitted).2.1

theorem confirmSend_valid (hs : Sound s) (hvalid : s.stateIsValid = true) :
    s.confirmSend.state.stateIsValid = true := by
  have hnext := confirmSend_sound hs
  rcases confirmSend_cases s with ⟨-, heq⟩ | ⟨draft, hdraft, -, hrest⟩
  · rwa [heq]
  · have hpending : s.pendingConfirmation = none := by
      obtain ⟨-, hdrafts, -⟩ := stateIsValid_iff.1 hvalid
      exact (hdrafts draft hdraft).1
    rcases hrest with ⟨-, heq⟩ | ⟨-, heq⟩
    · rw [heq] at hnext ⊢
      exact valid_of_settled hnext hpending
    · rw [heq] at hnext ⊢
      exact valid_of_settled hnext hpending

/-- Typing changes the line alone. -/
theorem appendInput_kept (c : Char) :
    (s.appendInput c).state.pendingConfirmation = s.pendingConfirmation
      ∧ (s.appendInput c).state.mutationsEnabled = s.mutationsEnabled
      ∧ (s.appendInput c).state.selectedTaskId = s.selectedTaskId := by
  rcases appendInput_cases s c with ⟨-, heq⟩ | ⟨draft, -, -, -, heq⟩
  · rw [heq]
    exact ⟨rfl, rfl, rfl⟩
  · rw [heq]
    exact ⟨rfl, rfl, rfl⟩

theorem backspaceInput_kept : s.backspaceInput.state.pendingConfirmation = s.pendingConfirmation
    ∧ s.backspaceInput.state.mutationsEnabled = s.mutationsEnabled
    ∧ s.backspaceInput.state.selectedTaskId = s.selectedTaskId := by
  rcases backspaceInput_cases s with ⟨-, heq⟩ | ⟨draft, -, heq⟩
  · rw [heq]
    exact ⟨rfl, rfl, rfl⟩
  · rw [heq]
    exact ⟨rfl, rfl, rfl⟩

theorem not_disturbs (h : match event with
    | .moveSelection _ => False
    | .selectTask _ => False
    | .controlRequested _ => False
    | .sendFinished _ => False
    | _ => True) : ¬ Disturbs s event := by
  rintro ⟨-, q, id, -, -, hdisturbs⟩
  cases event <;> exact absurd ‹_› (by trivial)

/-- The assertion holds on, but where the event disturbs a pending control. -/
theorem reduce_valid_iff (hs : Sound s) (hvalid : s.stateIsValid = true) (event : DashboardEvent) :
    (reduce s event).state.stateIsValid = true ↔ ¬ Disturbs s event := by
  have hnext := reduce_sound hs event
  have hsettled := valid_of_settled hnext
  have hkept := valid_of_kept hs hvalid hnext
  cases event with
  | moveSelection direction => exact moveSelection_valid_iff hs hvalid
  | selectTask id => exact selectTask_valid_iff hs hvalid
  | controlRequested operation => exact requestControl_valid_iff hs hvalid
  | sendFinished result => exact sendFinished_valid_iff hs hvalid
  | refreshRequested => exact iff_of_true (hsettled rfl) (not_disturbs trivial)
  | refreshSucceeded q => exact iff_of_true (hsettled rfl) (not_disturbs trivial)
  | refreshFailed diagnostic => exact iff_of_true (hsettled rfl) (not_disturbs trivial)
  | confirmControl => exact iff_of_true (hsettled confirmControl_settled) (not_disturbs trivial)
  | cancelControl => exact iff_of_true (hsettled rfl) (not_disturbs trivial)
  | controlFinished result => exact iff_of_true (hsettled rfl) (not_disturbs trivial)
  | sendRequested => exact iff_of_true (requestSend_valid hs hvalid) (not_disturbs trivial)
  | inputAppended c =>
    exact iff_of_true (hkept (appendInput_kept c).1 (appendInput_kept c).2.1
      (appendInput_kept c).2.2) (not_disturbs trivial)
  | inputBackspaced =>
    exact iff_of_true (hkept backspaceInput_kept.1 backspaceInput_kept.2.1 backspaceInput_kept.2.2)
      (not_disturbs trivial)
  | sendConfirmed => exact iff_of_true (confirmSend_valid hs hvalid) (not_disturbs trivial)
  | sendCancelled => exact iff_of_true (hkept rfl rfl rfl) (not_disturbs trivial)
  | quit => exact iff_of_true hvalid (not_disturbs trivial)

end

/-! ### Runs -/

theorem sound_default : Sound .default := by
  constructor <;> simp [DashboardState.default]

def EventStep (s : DashboardState) (event : DashboardEvent) (s' : DashboardState) : Prop :=
  s' = (reduce s event).state

/-- The steps of a dashboard that takes one event after the other. -/
def eventSteps : DashboardState → List DashboardEvent → List (DashboardEvent × DashboardState)
  | _, [] => []
  | s, event :: events =>
    (event, (reduce s event).state) :: eventSteps (reduce s event).state events

theorem run_eventSteps : ∀ (s : DashboardState) (events : List DashboardEvent),
    Run EventStep s (eventSteps s events)
  | s, [] => .nil s
  | s, event :: events => .cons rfl (run_eventSteps (reduce s event).state events)

theorem eventStep_sound {s s' : DashboardState} {event : DashboardEvent} (hs : Sound s)
    (hstep : EventStep s event s') : Sound s' := by
  cases hstep
  exact reduce_sound hs event

theorem visited_sound {s : DashboardState} {steps : List (DashboardEvent × DashboardState)}
    (hr : Run EventStep s steps) (hs : Sound s) : ∀ t ∈ visited s steps, Sound t :=
  hr.invariant (I := Sound) (fun _ _ _ => eventStep_sound) hs

/-- Whatever events come, what the dashboard holds fits together. -/
theorem sound_of_events (events : List DashboardEvent) :
    ∀ s ∈ visited .default (eventSteps .default events), Sound s :=
  visited_sound (run_eventSteps _ events) sound_default

/-- A running task, and one that is paused. -/
def exampleQueue : QueueState where
  groups := []
  tasks := [⟨⟨0⟩, [], .running, [], [], []⟩, ⟨⟨1⟩, [], .paused, [], [], []⟩]
  sorted := by decide
  nodup := by decide

theorem sound_of_kill : Sound (finalState .default
    (eventSteps .default [.refreshSucceeded exampleQueue, .controlRequested .kill])) :=
  sound_of_events [.refreshSucceeded exampleQueue, .controlRequested .kill] _
    (.tail _ (.tail _ (.head _)))

/-- Whatever events come, the assertion holds of all the states exactly when no event disturbs a
pending control. -/
theorem assertion_holds_iff (events : List DashboardEvent) :
    (∀ s ∈ visited .default (eventSteps .default events), s.stateIsValid = true)
      ↔ Guarded (fun s event => ¬ Disturbs s event) .default (eventSteps .default events) := by
  refine (run_eventSteps _ events).forall_iff (Q := Sound) ?_ rfl sound_default
  rintro s event _ hvalid hs rfl
  exact ⟨reduce_valid_iff hs hvalid event, fun _ => reduce_sound hs event⟩

-- A control is pending, and then the mouse wheel turns.
example : ((eventSteps .default [.refreshSucceeded exampleQueue, .controlRequested .kill,
    .moveSelection .next]).map fun step => step.2.stateIsValid) = [true, true, false] := by decide

end OnixCore.HerdrPueue
