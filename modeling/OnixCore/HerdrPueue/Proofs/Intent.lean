import OnixCore.HerdrPueue.Proofs.Loop

/-!
# What the user asked for

A control that is run goes back to the key that asked for it, pressed while its task was selected,
and a destructive one to an answer as well: between the two nothing was called and no other answer
given (`Asked`). A line that is sent is what was typed since the key that began it, and nothing was
done meanwhile (`Typed`).
-/

namespace OnixCore.HerdrPueue

/-- The steps that led to a loop, each with the loop it was taken in, the latest first. -/
abbrev Past := List (DashboardLoop × Wakeup × CallLog)

/-- The keys that answer whether to run a pending control. -/
def answers : List KeyCode := [.enter, .esc, .char 'y', .char 'n']

/-- The control's key was pressed while its task was selected, and nothing was called or answered
since. -/
def Asked (past : Past) (request : PueueRequest) : Prop :=
  ∃ later s w earlier, past = later ++ (.running s, w, []) :: earlier
    ∧ Pressed w (.char request.operation.key) ∧ s.selectedTaskId = some request.taskId
    ∧ ∀ step ∈ later, step.2.2 = [] ∧ ∀ code ∈ answers, ¬ Pressed step.2.1 code

/-- What a key makes of the line that is typed. -/
def typeOn (line : Text) : Wakeup → Text
  | .terminal _ (.key key) =>
    if key.kind = .release then line
    else
      match key.code with
      | .backspace => line.dropLast
      | .char c =>
        if key.control ∨ key.super ∨ Text.isControl c ∨ maxSendInputChars ≤ line.length then line
        else line ++ [c]
      | _ => line
  | _ => line

/-- A call that only reads. -/
def Reads : ClientCall → Prop
  | .readQueue => True
  | .report _ => True
  | .control _ => False
  | .sendInput _ => False

/-- The line was begun while its task was selected, and typed since; nothing was done meanwhile. -/
def Typed (past : Past) (draft : InputDraft) : Prop :=
  ∃ later s w earlier, past = later ++ (.running s, w, []) :: earlier
    ∧ Pressed w (.char 'i') ∧ s.selectedTaskId = some draft.taskId
    ∧ draft.buffer = later.foldr (fun step line => typeOn line step.2.1) []
    ∧ ∀ step ∈ later, (∀ call ∈ step.2.2, Reads call.action) ∧ ¬ Pressed step.2.1 .esc

section

variable {unicode : UnicodeWidth} {reporting : Bool} {s : DashboardState} {event : DashboardEvent}
  {request : PueueRequest} {draft : InputDraft} {w : Wakeup} {log : CallLog} {past : Past}
  {l : DashboardLoop}

/-! ### Keys -/

theorem event_of_pressed {code : KeyCode} (hpressed : Pressed w code)
    (hpending : s.pendingConfirmation = some request) : w.event s = confirmationKey code := by
  obtain ⟨inner, key, rfl, rfl, hkind⟩ := hpressed
  simp [Wakeup.event, mapTerminalEvent, mapKeyEvent, hkind, hpending]

/-- While a control is pending, only an answer confirms or cancels it, and all answers do. -/
theorem not_answered (hpending : s.pendingConfirmation = some request)
    (hevent : w.event s ≠ some .confirmControl) (hevent' : w.event s ≠ some .cancelControl) :
    ∀ code ∈ answers, ¬ Pressed w code := by
  intro code hcode hpressed
  rw [event_of_pressed hpressed hpending] at hevent hevent'
  simp only [answers, List.mem_cons, List.not_mem_nil, or_false] at hcode
  rcases hcode with rfl | rfl | rfl | rfl
  · exact hevent rfl
  · exact hevent' rfl
  · exact hevent rfl
  · exact hevent' rfl

/-! ### The steps of the loop -/

/-- How a control comes to be pending. -/
theorem reduce_pending (h : (reduce s event).state.pendingConfirmation = some request) :
    s.pendingConfirmation = some request ∧ event ≠ .confirmControl ∧ event ≠ .cancelControl
      ∨ event = .controlRequested request.operation ∧ s.selectedTaskId = some request.taskId := by
  cases event with
  | refreshRequested => cases h
  | refreshSucceeded queue => cases h
  | refreshFailed diagnostic => cases h
  | moveSelection direction =>
    obtain ⟨x, heq, -⟩ := moveSelection_eq s direction
    rw [reduce, heq] at h
    exact .inl ⟨h, by simp, by simp⟩
  | selectTask id =>
    obtain ⟨x, heq, -⟩ := selectTask_eq s id
    rw [reduce, heq] at h
    exact .inl ⟨h, by simp, by simp⟩
  | controlRequested operation =>
    rcases requestControl_cases s operation with
      ⟨-, heq⟩ | ⟨admitted, -, hadmitted, ⟨-, heq⟩ | ⟨-, heq⟩⟩ <;> rw [reduce, heq] at h
    · exact .inl ⟨h, by simp, by simp⟩
    · obtain ⟨-, hselected, rfl, -⟩ := admittedRequest_eq_some.1 hadmitted
      cases h
      exact .inr ⟨rfl, hselected⟩
    · exact .inl ⟨h, by simp, by simp⟩
  | confirmControl => cases confirmControl_settled.symm.trans h
  | cancelControl => cases h
  | controlFinished result => cases h
  | sendRequested =>
    rcases requestSend_cases s with ⟨-, heq⟩ | ⟨id, -, heq⟩ <;> rw [reduce, heq] at h <;>
      exact .inl ⟨h, by simp, by simp⟩
  | inputAppended c => exact .inl ⟨(appendInput_kept c).1 ▸ h, by simp, by simp⟩
  | inputBackspaced => exact .inl ⟨backspaceInput_kept.1 ▸ h, by simp, by simp⟩
  | sendConfirmed =>
    rcases confirmSend_cases s with
      ⟨-, heq⟩ | ⟨draft, -, -, ⟨-, heq⟩ | ⟨-, heq⟩⟩ <;> rw [reduce, heq] at h <;>
      exact .inl ⟨h, by simp, by simp⟩
  | sendCancelled => exact .inl ⟨h, by simp, by simp⟩
  | sendFinished result => exact .inl ⟨h, by simp, by simp⟩
  | quit => exact .inl ⟨h, by simp, by simp⟩

/-- What an event makes of the line that is typed. -/
def typeEvent (line : Text) : DashboardEvent → Text
  | .inputAppended c =>
    if Text.isControl c ∨ maxSendInputChars ≤ line.length then line else line ++ [c]
  | .inputBackspaced => line.dropLast
  | _ => line

theorem typeOn_eq {line : Text} (hpending : s.pendingConfirmation = none)
    (hdraft : s.inputDraft = some draft) :
    typeOn line w = (w.event s).elim line (typeEvent line) := by
  cases w with
  | deadline => rfl
  | idle => rfl
  | terminal inner terminalEvent =>
    cases terminalEvent with
    | key key =>
      simp only [typeOn, Wakeup.event, mapTerminalEvent, mapKeyEvent, hpending, hdraft,
        Option.isSome_none, Bool.false_eq_true, if_false, Option.isSome_some, if_true]
      split_ifs with hkind
      · rfl
      · rw [inputKey]
        cases key.code with
        | char c => cases key.control <;> cases key.super <;> simp [typeEvent]
        | _ => rfl
    | mouse mouse =>
      simp only [typeOn, Wakeup.event, mapTerminalEvent, mapMouseEvent]
      cases mouse.kind with
      | downLeft => cases (renderTasks inner s).taskAt mouse.column mouse.row <;> rfl
      | _ => rfl
    | other => rfl

/-- How a line comes to be typed. -/
theorem reduce_draft (h : (reduce s event).state.inputDraft = some draft) :
    event = .sendRequested ∧ s.selectedTaskId = some draft.taskId ∧ draft.buffer = []
      ∨ event ≠ .sendCancelled ∧ ∃ line, s.inputDraft = some ⟨draft.taskId, line⟩
        ∧ draft.buffer = typeEvent line event := by
  have hsame (hne : event ≠ .sendCancelled) (hline : typeEvent draft.buffer event = draft.buffer)
      (hs : s.inputDraft = some draft) : event ≠ .sendCancelled ∧ ∃ line,
        s.inputDraft = some ⟨draft.taskId, line⟩ ∧ draft.buffer = typeEvent line event :=
    ⟨hne, draft.buffer, hs, hline.symm⟩
  cases event with
  | refreshRequested => exact .inr (hsame (by simp) rfl h)
  | refreshSucceeded queue =>
    exact .inr (hsame (by simp) rfl (Option.filter_eq_some_iff.1 h).1)
  | refreshFailed diagnostic => cases h
  | moveSelection direction =>
    obtain ⟨x, heq, -⟩ := moveSelection_eq s direction
    rw [reduce, heq] at h
    exact .inr (hsame (by simp) rfl h)
  | selectTask id =>
    obtain ⟨x, heq, -⟩ := selectTask_eq s id
    rw [reduce, heq] at h
    exact .inr (hsame (by simp) rfl h)
  | controlRequested operation =>
    rcases requestControl_cases s operation with
      ⟨-, heq⟩ | ⟨admitted, -, -, ⟨-, heq⟩ | ⟨-, heq⟩⟩ <;> rw [reduce, heq] at h <;>
      exact .inr (hsame (by simp) rfl h)
  | confirmControl =>
    rcases confirmControl_cases s with
      ⟨-, heq⟩ | ⟨pending, -, ⟨-, heq⟩ | ⟨-, heq⟩⟩ <;> rw [reduce, heq] at h <;>
      exact .inr (hsame (by simp) rfl h)
  | cancelControl => exact .inr (hsame (by simp) rfl h)
  | controlFinished result => exact .inr (hsame (by simp) rfl h)
  | sendRequested =>
    rcases requestSend_cases s with ⟨-, heq⟩ | ⟨id, hadmitted, heq⟩ <;> rw [reduce, heq] at h
    · exact .inr (hsame (by simp) rfl h)
    · cases h
      exact .inl ⟨rfl, (admittedSendTask_eq_some.1 hadmitted).2.2.1, rfl⟩
  | inputAppended c =>
    rcases appendInput_cases s c with ⟨hfull, heq⟩ | ⟨old, hold, hcontrol, hroom, heq⟩ <;>
      rw [reduce, heq] at h
    · exact .inr (hsame (by simp) (if_pos (hfull draft h)) h)
    · cases h
      exact .inr ⟨by simp, old.buffer, hold, by simp [typeEvent, hcontrol, hroom]⟩
  | inputBackspaced =>
    rcases backspaceInput_cases s with ⟨hnone, heq⟩ | ⟨old, hold, heq⟩ <;> rw [reduce, heq] at h
    · cases hnone.symm.trans h
    · cases h
      exact .inr ⟨by simp, old.buffer, hold, rfl⟩
  | sendConfirmed =>
    rcases confirmSend_cases s with
      ⟨-, heq⟩ | ⟨old, -, -, ⟨-, heq⟩ | ⟨-, heq⟩⟩ <;> rw [reduce, heq] at h
    · exact .inr (hsame (by simp) rfl h)
    · cases h
    · cases h
  | sendCancelled => cases h
  | sendFinished result => cases h
  | quit => exact .inr (hsame (by simp) rfl h)

/-! ### Runs of the loop -/

/-- What is pending was asked for, and what is typed was typed. -/
def Intended (past : Past) : DashboardLoop → Prop
  | .opening => True
  | .running s => Sound s
      ∧ (∀ request, s.pendingConfirmation = some request → Asked past request)
      ∧ ∀ draft, s.inputDraft = some draft → Typed past draft
  | .closed => True
  | .failed _ => True

/-- After a read nothing is pending, and a line that is kept is the line from before. -/
theorem afterRead_kept (answer : Except Diagnostic QueueState) :
    (s.afterRead answer).pendingConfirmation = none
      ∧ ∀ draft, (s.afterRead answer).inputDraft = some draft → s.inputDraft = some draft := by
  cases answer with
  | ok queue => exact ⟨rfl, fun draft h => (Option.filter_eq_some_iff.1 h).1⟩
  | error diagnostic => exact ⟨rfl, fun draft h => by cases h⟩

theorem afterRead_intended (hs : Sound s)
    (htyped : ∀ draft, s.inputDraft = some draft → Typed past draft)
    (answer : Except Diagnostic QueueState) : Intended past (.running (s.afterRead answer)) := by
  obtain ⟨hnone, hkept⟩ := afterRead_kept (s := s) answer
  refine ⟨afterRead_sound hs answer, fun request hrequest => ?_, fun draft hdraft => ?_⟩
  · cases hnone.symm.trans hrequest
  · exact htyped draft (hkept draft hdraft)

theorem readLog_reads (answer : Except Diagnostic QueueState) :
    ∀ call ∈ readLog unicode reporting answer, Reads call.action := by
  cases answer <;> cases reporting <;> simp [readLog, Reads]

/-- The line after a step that only read is the line before it, as the step typed on it. -/
theorem Intended.typed (hs : Intended past (.running s))
    (hevent : ∀ event, w.event s = some event → event ≠ .sendCancelled) {line : Text}
    (hdraft : s.inputDraft = some ⟨draft.taskId, line⟩)
    (hline : draft.buffer = (w.event s).elim line (typeEvent line))
    (hlog : ∀ call ∈ log, Reads call.action) : Typed ((.running s, w, log) :: past) draft := by
  obtain ⟨hsound, -, htyped⟩ := hs
  have hpending : s.pendingConfirmation = none := by
    rcases hpending : s.pendingConfirmation with _ | request
    · rfl
    · cases hdraft.symm.trans (hsound.pending request hpending).1
  have hesc : ¬ Pressed w .esc := by
    rintro ⟨inner, key, rfl, hcode, hkind⟩
    refine hevent .sendCancelled ?_ rfl
    simp [Wakeup.event, mapTerminalEvent, mapKeyEvent, hkind, hpending, hdraft, inputKey, hcode]
  rw [← typeOn_eq hpending hdraft] at hline
  obtain ⟨later, s', w', earlier, rfl, hpressed, hselected, rfl, hlater⟩ := htyped _ hdraft
  exact ⟨_ :: later, s', w', earlier, rfl, hpressed, hselected, hline,
    List.forall_mem_cons.2 ⟨⟨hlog, hesc⟩, hlater⟩⟩

theorem Intended.asked (hs : Intended past (.running s))
    (hpending : s.pendingConfirmation = some request)
    (hevent : w.event s ≠ some .confirmControl) (hevent' : w.event s ≠ some .cancelControl) :
    Asked ((.running s, w, []) :: past) request := by
  obtain ⟨later, s', w', earlier, rfl, hpressed, hselected, hlater⟩ := hs.2.1 request hpending
  exact ⟨_ :: later, s', w', earlier, rfl, hpressed, hselected,
    List.forall_mem_cons.2 ⟨⟨rfl, not_answered hpending hevent hevent'⟩, hlater⟩⟩

/-- What the event leaves typed, when the step only reads. -/
theorem draft_after (hs : Intended past (.running s)) (hw : w.event s = some event)
    (hlog : ∀ call ∈ log, Reads call.action) (hquiet : event = .sendRequested → log = [])
    (hdraft : (reduce s event).state.inputDraft = some draft) :
    Typed ((.running s, w, log) :: past) draft := by
  rcases reduce_draft hdraft with ⟨rfl, hselected, hempty⟩ | ⟨hne, line, hline, hbuffer⟩
  · rw [hquiet rfl]
    generalize hevent : DashboardEvent.sendRequested = event at hw
    cases woken_of_event hw with
    | commanded hpending hnone hpressed hcommand =>
      cases hcommand with
      | send => exact ⟨[], s, w, past, rfl, hpressed, hselected, hempty, List.forall_mem_nil _⟩
      | _ => cases hevent
    | _ => cases hevent
  · refine hs.typed ?_ hline (by rw [hw]; exact hbuffer) hlog
    rintro event' hw'
    cases hw.symm.trans hw'
    exact hne

theorem pending_after (hs : Intended past (.running s)) (hw : w.event s = some event)
    (hpending : (reduce s event).state.pendingConfirmation = some request) :
    Asked ((.running s, w, []) :: past) request := by
  rcases reduce_pending hpending with ⟨hbefore, hne, hne'⟩ | ⟨hevent, hselected⟩
  · exact hs.asked hbefore (by simpa [hw] using hne) (by simpa [hw] using hne')
  · cases woken_of_event hw with
    | commanded hpending hnone hpressed hcommand =>
      cases hcommand with
      | control operation =>
        cases hevent
        exact ⟨[], s, w, past, rfl, hpressed, hselected, List.forall_mem_nil _⟩
      | _ => cases hevent
    | _ => cases hevent

/-- A control is run with nothing typed. -/
theorem no_draft_of_control (hs : Sound s) (hw : w.event s = some event)
    (heffects : (reduce s event).effects = [.runControl request]) : s.inputDraft = none := by
  cases caused_of_effects heffects with
  | asked hplain hadmitted =>
    generalize hevent : DashboardEvent.controlRequested request.operation = event at hw
    cases woken_of_event hw with
    | commanded hpending hdraft _ _ => exact hdraft
    | _ => cases hevent
  | confirmed hpending hadmitted => exact (hs.pending request hpending).1

theorem applied_intended (hs : Intended past (.running s)) (hw : w.event s = some event)
    (h : Applied unicode reporting s event log l) : Intended ((.running s, w, log) :: past) l := by
  have hnext := reduce_sound hs.1 event
  cases h with
  | quiet heffects =>
    exact ⟨hnext, fun request => pending_after hs hw,
      fun draft => draft_after hs hw (List.forall_mem_nil _) fun _ => rfl⟩
  | read heffects answer =>
    refine afterRead_intended hnext
      (fun draft => draft_after hs hw (readLog_reads answer) ?_) answer
    rintro rfl
    cases caused_of_effects heffects
  | controlled heffects result answer =>
    refine afterRead_intended (reduce_sound hnext (.controlFinished result))
      (fun draft hdraft => ?_) answer
    have hnodraft := no_draft_of_control hs.1 hw heffects
    have hafter : (reduce s event).state.inputDraft = some draft := hdraft
    rcases reduce_draft hafter with ⟨rfl, -⟩ | ⟨-, line, hline, -⟩
    · cases caused_of_effects heffects
    · cases hnodraft.symm.trans hline
  | sent heffects result answer =>
    refine afterRead_intended (reduce_sound hnext (.sendFinished result))
      (fun draft hdraft => ?_) answer
    cases hdraft
  | exited heffects => trivial

theorem step_intended {l' : DashboardLoop} (hs : Intended past l)
    (h : LoopStep unicode reporting l (w, log) l') : Intended ((l, w, log) :: past) l' := by
  rcases loopStep_cases h with ⟨rfl, answer, rfl, rfl⟩ | ⟨s, rfl, hnone, rfl, rfl⟩
    | ⟨s, event, rfl, hw, happlied⟩
  · refine afterRead_intended (reduce_sound sound_default .refreshRequested)
      (fun draft hdraft => ?_) answer
    cases hdraft
  · refine ⟨hs.1, fun request hrequest => ?_, fun draft hdraft => ?_⟩
    · exact hs.asked hrequest (by simp [hnone]) (by simp [hnone])
    · exact hs.typed (by simp [hnone]) hdraft (by rw [hnone]; rfl) (List.forall_mem_nil _)
  · exact applied_intended hs hw happlied

/-- What the user did for a call to be made when the loop woke up. -/
def Meant (past : Past) (l : DashboardLoop) (w : Wakeup) : ClientCall → Prop
  | .readQueue => True
  | .report _ => True
  | .control request => (∃ s, l = .running s ∧ s.selectedTaskId = some request.taskId)
      ∧ (request.operation.requiresConfirmation = false ∧ Pressed w (.char request.operation.key)
        ∨ (Pressed w .enter ∨ Pressed w (.char 'y')) ∧ Asked past request)
  | .sendInput request => ∃ draft, request = ⟨draft.taskId, draft.buffer ++ [sendLineTerminator]⟩
      ∧ (∃ s, l = .running s ∧ s.selectedTaskId = some draft.taskId)
      ∧ Pressed w .enter ∧ Typed past draft

theorem readLog_meant (answer : Except Diagnostic QueueState) :
    ∀ call ∈ readLog unicode reporting answer, Meant past l w call.action := by
  cases answer <;> cases reporting <;> simp [readLog, Meant]

theorem control_meant (hs : Intended past (.running s)) (hw : w.event s = some event)
    (heffects : (reduce s event).effects = [.runControl request]) :
    Meant past (.running s) w (.control request) := by
  cases caused_of_effects heffects with
  | asked hplain hadmitted =>
    refine ⟨⟨s, rfl, (admittedRequest_eq_some.1 hadmitted).2.1⟩, .inl ⟨hplain, ?_⟩⟩
    generalize hevent : DashboardEvent.controlRequested request.operation = event at hw
    cases woken_of_event hw with
    | commanded _ _ hpressed hcommand =>
      cases hcommand with
      | control operation =>
        cases hevent
        exact hpressed
      | _ => cases hevent
    | _ => cases hevent
  | confirmed hpending hadmitted =>
    refine ⟨⟨s, rfl, (admittedRequest_eq_some.1 hadmitted).2.1⟩, .inr ⟨?_, hs.2.1 _ hpending⟩⟩
    generalize hevent : DashboardEvent.confirmControl = event at hw
    cases woken_of_event hw with
    | confirmed hpressed => exact hpressed
    | commanded _ _ _ hcommand => cases hcommand <;> cases hevent
    | _ => cases hevent

theorem send_meant {send : SendRequest} (hs : Intended past (.running s))
    (hw : w.event s = some event) (heffects : (reduce s event).effects = [.runSend send]) :
    Meant past (.running s) w (.sendInput send) := by
  cases caused_of_effects heffects with
  | @typed draft hdraft _ hadmitted =>
    obtain ⟨-, -, hselected, -⟩ := admittedSendTask_eq_some.1 hadmitted
    refine ⟨draft, rfl, ⟨s, rfl, hselected⟩, ?_, hs.2.2 _ hdraft⟩
    generalize hevent : DashboardEvent.sendConfirmed = event at hw
    cases woken_of_event hw with
    | sendConfirmed hpressed => exact hpressed
    | commanded _ _ _ hcommand => cases hcommand <;> cases hevent
    | _ => cases hevent

theorem step_meant {l' : DashboardLoop} (hs : Intended past l)
    (h : LoopStep unicode reporting l (w, log) l') : ∀ call ∈ log, Meant past l w call.action := by
  rcases loopStep_cases h with ⟨rfl, answer, rfl, rfl⟩ | ⟨s, rfl, -, rfl, rfl⟩
    | ⟨s, event, rfl, hw, happlied⟩
  · exact readLog_meant answer
  · exact List.forall_mem_nil _
  · cases happlied with
    | quiet heffects => exact List.forall_mem_nil _
    | read heffects answer => exact readLog_meant answer
    | controlled heffects result answer =>
      exact List.forall_mem_cons.2 ⟨control_meant hs hw heffects, readLog_meant answer⟩
    | sent heffects result answer =>
      exact List.forall_mem_cons.2 ⟨send_meant hs hw heffects, readLog_meant answer⟩
    | exited heffects => exact List.forall_mem_nil _

/-- In every run of the loop, what is done to a task is what the user meant: a control was asked
for with its key while the task was selected, a destructive one was answered too, and a line was
typed. -/
theorem done_as_meant {before after : List ((Wakeup × CallLog) × DashboardLoop)}
    (hr : Run (LoopStep unicode reporting) .opening (before ++ ((w, log), l) :: after)) :
    ∀ call ∈ log, Meant (trail .opening before) (finalState .opening before) w call.action := by
  obtain ⟨hbefore, hstep⟩ := hr.split
  have hintended : Intended (trail .opening before ++ []) (finalState .opening before) :=
    hbefore.trail_invariant (I := Intended) (fun _ _ _ _ hs h => step_intended hs h) trivial
  rw [List.append_nil] at hintended
  exact step_meant hintended hstep

/-- The user kills the first task, and answers that this is meant. -/
theorem killFirst_runs : Run (LoopStep plainWidth false) .opening
    ([((.deadline, readLog plainWidth false (.ok exampleQueue)), .running shownFirst),
        ((press 'k', []), .running (shownFirst.requestControl .kill).state)]
      ++ ((press 'y',
          controlCall ⟨.kill, ⟨0⟩⟩ (.ok ()) :: readLog plainWidth false (.ok exampleQueue)),
        .running (((shownFirst.requestControl .kill).state.confirmControl.state.finishControl
          (.ok ())).state.acceptRefresh exampleQueue).state) :: []) :=
  .cons (.opened (r := .ok (_, ⟨false, true⟩)) (.act trivial (.stop _ _)))
    (.cons (.applied (r := .ok (_, ⟨false, false⟩)) rfl (.stop _ _))
      (.cons (.applied (r := .ok (_, ⟨false, true⟩)) rfl
        (.act trivial (.act trivial (.stop _ _)))) (.nil _)))

theorem done_as_meant_kill : Meant
    (trail .opening
      [((.deadline, readLog plainWidth false (.ok exampleQueue)), .running shownFirst),
        ((press 'k', []), .running (shownFirst.requestControl .kill).state)])
    (finalState .opening
      [((.deadline, readLog plainWidth false (.ok exampleQueue)), .running shownFirst),
        ((press 'k', []), .running (shownFirst.requestControl .kill).state)])
    (press 'y') (.control ⟨.kill, ⟨0⟩⟩) :=
  done_as_meant killFirst_runs (controlCall ⟨.kill, ⟨0⟩⟩ (.ok ())) List.mem_cons_self

end

end OnixCore.HerdrPueue
