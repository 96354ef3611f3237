import OnixCore.HerdrPueue.Proofs.Assertions
import OnixCore.HerdrPueue.Terminal

/-!
# What one event does

Applying an event calls the client at most three times: a control or a line to send, then always a
read of the queue, and a report of what was read (`Applied`). So the chain of effects never runs
out, and what is done rests on what was last read.

The assertion of the dashboard fails in the loop only when the mouse moves the selection away from a
control that is pending.
-/

namespace OnixCore.HerdrPueue

section

variable (unicode : UnicodeWidth) (reporting : Bool)

/-- A read of the queue, and the report of it. -/
def readLog (answer : Except Diagnostic QueueState) : CallLog :=
  ⟨.readQueue, answer, (), ()⟩ ::
    if reporting then
      match answer with
      | .ok queue => [⟨.report (.fromQueue unicode queue), (), (), ()⟩]
      | .error _ => [⟨.report .unavailable, (), (), ()⟩]
    else []

def controlCall (request : PueueRequest) (result : Except Diagnostic Unit) :
    Event ClientCall ClientAnswer Unit :=
  ⟨.control request, result, (), ()⟩

def sendCall (request : SendRequest) (result : Except Diagnostic Unit) :
    Event ClientCall ClientAnswer Unit :=
  ⟨.sendInput request, result, (), ()⟩

def refreshEvent : Except Diagnostic QueueState → DashboardEvent
  | .ok queue => .refreshSucceeded queue
  | .error diagnostic => .refreshFailed diagnostic

/-- The dashboard after a read of the queue. -/
def DashboardState.afterRead (s : DashboardState) : Except Diagnostic QueueState → DashboardState
  | .ok queue => (s.acceptRefresh queue).state
  | .error diagnostic => (DashboardState.rejectRefresh diagnostic).state

/-- What applying an event does, by the effects that the event has. -/
inductive Applied (s : DashboardState) (event : DashboardEvent) : CallLog → DashboardLoop → Prop
  | quiet (heffects : (reduce s event).effects = []) :
      Applied s event [] (.running (reduce s event).state)
  | read (heffects : (reduce s event).effects = [.refresh])
      (answer : Except Diagnostic QueueState) :
      Applied s event (readLog unicode reporting answer)
        (.running ((reduce s event).state.afterRead answer))
  | controlled {request : PueueRequest}
      (heffects : (reduce s event).effects = [.runControl request])
      (result : Except Diagnostic Unit) (answer : Except Diagnostic QueueState) :
      Applied s event (controlCall request result :: readLog unicode reporting answer)
        (.running (((reduce s event).state.finishControl result).state.afterRead answer))
  | sent {request : SendRequest} (heffects : (reduce s event).effects = [.runSend request])
      (result : Except Diagnostic Unit) (answer : Except Diagnostic QueueState) :
      Applied s event (sendCall request result :: readLog unicode reporting answer)
        (.running (((reduce s event).state.finishSend result).state.afterRead answer))
  | exited (heffects : (reduce s event).effects = [.exit]) : Applied s event [] .closed

end

section

variable {unicode : UnicodeWidth} {reporting : Bool} {s : DashboardState} {event : DashboardEvent}
  {operation : ControlOperation} {request : PueueRequest} {log : CallLog} {outcome : EffectOutcome}
  {n : ℕ}

/-! ### The effects of an event -/

/-- What an effect comes from. -/
inductive Caused (s : DashboardState) : DashboardEvent → Effect → Prop
  | requested : Caused s .refreshRequested .refresh
  | finished (result : Except Diagnostic Unit) : Caused s (.controlFinished result) .refresh
  | delivered (result : Except Diagnostic Unit) : Caused s (.sendFinished result) .refresh
  | asked {request : PueueRequest} (hplain : request.operation.requiresConfirmation = false)
      (hadmitted : s.admittedRequest request.operation = some request) :
      Caused s (.controlRequested request.operation) (.runControl request)
  | confirmed {request : PueueRequest} (hpending : s.pendingConfirmation = some request)
      (hadmitted : s.admittedRequest request.operation = some request) :
      Caused s .confirmControl (.runControl request)
  | typed {draft : InputDraft} (hdraft : s.inputDraft = some draft)
      (hblank : Text.trim draft.buffer ≠ [])
      (hadmitted : s.admittedSendTask = some draft.taskId) :
      Caused s .sendConfirmed (.runSend ⟨draft.taskId, draft.buffer ++ [sendLineTerminator]⟩)
  | left : Caused s .quit .exit

/-- A list of effects that come from the event, at most one of them. -/
def CausedAll (s : DashboardState) (event : DashboardEvent) (effects : List Effect) : Prop :=
  effects = [] ∨ ∃ effect, effects = [effect] ∧ Caused s event effect

theorem requestControl_effects :
    CausedAll s (.controlRequested operation) (s.requestControl operation).effects := by
  rcases requestControl_cases s operation with
    ⟨-, heq⟩ | ⟨request, -, hadmitted, ⟨-, heq⟩ | ⟨hplain, heq⟩⟩ <;> rw [heq]
  · exact .inl rfl
  · exact .inl rfl
  · obtain ⟨-, -, rfl, -⟩ := admittedRequest_eq_some.1 hadmitted
    exact .inr ⟨_, rfl, .asked hplain hadmitted⟩

theorem confirmControl_effects : CausedAll s .confirmControl s.confirmControl.effects := by
  rcases confirmControl_cases s with
    ⟨-, heq⟩ | ⟨request, hpending, ⟨-, heq⟩ | ⟨hadmitted, heq⟩⟩ <;> rw [heq]
  · exact .inl rfl
  · exact .inl rfl
  · exact .inr ⟨_, rfl, .confirmed hpending hadmitted⟩

theorem confirmSend_effects : CausedAll s .sendConfirmed s.confirmSend.effects := by
  rcases confirmSend_cases s with
    ⟨-, heq⟩ | ⟨draft, hdraft, hblank, ⟨-, heq⟩ | ⟨hadmitted, heq⟩⟩ <;> rw [heq]
  · exact .inl rfl
  · exact .inl rfl
  · exact .inr ⟨_, rfl, .typed hdraft hblank hadmitted⟩

theorem reduce_effects (s : DashboardState) : ∀ event, CausedAll s event (reduce s event).effects
  | .refreshRequested => .inr ⟨_, rfl, .requested⟩
  | .refreshSucceeded _ => .inl rfl
  | .refreshFailed _ => .inl rfl
  | .moveSelection direction => by
    obtain ⟨x, heq, -⟩ := moveSelection_eq s direction
    exact .inl (by rw [reduce, heq])
  | .selectTask id => by
    obtain ⟨x, heq, -⟩ := selectTask_eq s id
    exact .inl (by rw [reduce, heq])
  | .controlRequested _ => requestControl_effects
  | .confirmControl => confirmControl_effects
  | .cancelControl => .inl rfl
  | .controlFinished result => .inr ⟨_, rfl, .finished result⟩
  | .sendRequested => by
    rcases requestSend_cases s with ⟨-, heq⟩ | ⟨id, -, heq⟩ <;> rw [reduce, heq] <;>
      exact .inl rfl
  | .inputAppended c => by
    rcases appendInput_cases s c with ⟨-, heq⟩ | ⟨draft, -, -, -, heq⟩ <;>
      exact .inl (by rw [reduce, heq])
  | .inputBackspaced => by
    rcases backspaceInput_cases s with ⟨-, heq⟩ | ⟨draft, -, heq⟩ <;>
      exact .inl (by rw [reduce, heq])
  | .sendConfirmed => confirmSend_effects
  | .sendCancelled => .inl rfl
  | .sendFinished result => .inr ⟨_, rfl, .delivered result⟩
  | .quit => .inr ⟨_, rfl, .left⟩

theorem caused_of_effects {effect : Effect} (h : (reduce s event).effects = [effect]) :
    Caused s event effect := by
  rcases reduce_effects s event with hnone | ⟨effect', heffect, hcaused⟩
  · cases hnone.symm.trans h
  · cases heffect.symm.trans h
    exact hcaused

/-! ### Carrying them out -/

theorem reportBestEffort_executes {overview : QueueOverview} {α : Type} {a : α}
    {p : DashboardProg α} (hp : p.ended)
    (h : Prog.Executes anyAnswer (reportBestEffort reporting overview >>= fun _ => Prog.done a) ()
      log p ()) :
    p = .done a ∧ log = if reporting then [⟨.report overview, (), (), ()⟩] else [] := by
  unfold reportBestEffort at h
  cases reporting with
  | false =>
    obtain ⟨rfl, rfl, -⟩ := h.of_done
    exact ⟨rfl, rfl⟩
  | true =>
    obtain ⟨⟨⟩, ⟨⟩, rest, rfl, -, hrest⟩ := Prog.Executes.call_ended hp h
    obtain ⟨rfl, rfl, -⟩ := hrest.of_done
    exact ⟨rfl, rfl⟩

theorem readRefreshEvent_executes {p : DashboardProg DashboardEvent} (hp : p.ended)
    (h : Prog.Executes anyAnswer (readRefreshEvent unicode reporting) () log p ()) :
    ∃ answer, p = .done (refreshEvent answer) ∧ log = readLog unicode reporting answer := by
  obtain ⟨answer, ⟨⟩, rest, rfl, -, hrest⟩ := Prog.Executes.call_ended hp h
  refine ⟨answer, ?_⟩
  cases answer with
  | ok queue =>
    obtain ⟨rfl, rfl⟩ := reportBestEffort_executes hp hrest
    exact ⟨rfl, rfl⟩
  | error diagnostic =>
    obtain ⟨rfl, rfl⟩ := reportBestEffort_executes hp hrest
    exact ⟨rfl, rfl⟩

theorem runEffects_nil : runEffects unicode reporting n s [] outcome = .done (s, outcome) := by
  cases n <;> rfl

theorem runEffects_refresh_eq : runEffects unicode reporting (n + 1) s [.refresh] outcome
    = readRefreshEvent unicode reporting >>= fun event =>
      runEffects unicode reporting n (reduce s event).state (reduce s event).effects
        (outcome.note .refresh) := by
  rw [runEffects, performEffect, Prog.bind_assoc]
  rfl

/-- After a read of the queue nothing is left to do. -/
theorem runEffects_refresh {p : DashboardProg (DashboardState × EffectOutcome)} (hp : p.ended)
    (h : Prog.Executes anyAnswer (runEffects unicode reporting (n + 1) s [.refresh] outcome) () log
      p ()) :
    ∃ answer, p = .done (s.afterRead answer, outcome.note .refresh)
      ∧ log = readLog unicode reporting answer := by
  rw [runEffects_refresh_eq] at h
  rcases Prog.Executes.bind_ended hp h with ⟨e, hread, rfl⟩
    | ⟨event, log₁, log₂, ⟨⟩, rfl, hread, hrest⟩
  · obtain ⟨answer, hdone, -⟩ := readRefreshEvent_executes (p := .fail e) trivial hread
    cases hdone
  obtain ⟨answer, hdone, rfl⟩ := readRefreshEvent_executes (p := .done event) trivial hread
  cases hdone
  refine ⟨answer, ?_⟩
  cases answer with
  | ok queue =>
    obtain ⟨rfl, rfl, -⟩ := Prog.Executes.of_done (runEffects_nil ▸ hrest)
    exact ⟨rfl, List.append_nil _⟩
  | error diagnostic =>
    obtain ⟨rfl, rfl, -⟩ := Prog.Executes.of_done (runEffects_nil ▸ hrest)
    exact ⟨rfl, List.append_nil _⟩

theorem runEffects_control {p : DashboardProg (DashboardState × EffectOutcome)} (hp : p.ended)
    (h : Prog.Executes anyAnswer
      (runEffects unicode reporting (n + 2) s [.runControl request] outcome) () log p ()) :
    ∃ result answer, p = .done ((s.finishControl result).state.afterRead answer,
        outcome.note .refresh)
      ∧ log = controlCall request result :: readLog unicode reporting answer := by
  obtain ⟨result, ⟨⟩, rest, rfl, -, hrest⟩ := Prog.Executes.call_ended hp h
  obtain ⟨answer, rfl, rfl⟩ := runEffects_refresh hp hrest
  exact ⟨result, answer, rfl, rfl⟩

theorem runEffects_send {send : SendRequest} {p : DashboardProg (DashboardState × EffectOutcome)}
    (hp : p.ended)
    (h : Prog.Executes anyAnswer (runEffects unicode reporting (n + 2) s [.runSend send] outcome) ()
      log p ()) :
    ∃ result answer, p = .done ((s.finishSend result).state.afterRead answer,
        outcome.note .refresh)
      ∧ log = sendCall send result :: readLog unicode reporting answer := by
  obtain ⟨result, ⟨⟩, rest, rfl, -, hrest⟩ := Prog.Executes.call_ended hp h
  obtain ⟨answer, rfl, rfl⟩ := runEffects_refresh hp hrest
  exact ⟨result, answer, rfl, rfl⟩

theorem endedWith_ended {α : Type} : ∀ r : Except Diagnostic α, (endedWith r).ended
  | .ok _ => trivial
  | .error _ => trivial

theorem endedWith_eq_done {α : Type} {a : α} : ∀ {r : Except Diagnostic α},
    endedWith r = .done a → r = .ok a
  | .ok _, rfl => rfl

/-- An event is applied in one of five ways; the chain of effects never runs out. -/
theorem applied_of_executes {r : Except Diagnostic (DashboardState × EffectOutcome)}
    (h : Prog.Executes anyAnswer (applyEvent unicode reporting s event) () log (endedWith r) ()) :
    Applied unicode reporting s event log (.after r) := by
  rw [applyEvent, maxEffectChain] at h
  have hr := endedWith_ended r
  rcases reduce_effects s event with heffects | ⟨effect, heffects, -⟩ <;> rw [heffects] at h
  · obtain ⟨rfl, hdone, -⟩ := Prog.Executes.of_done (runEffects_nil ▸ h)
    rw [endedWith_eq_done hdone]
    exact .quiet heffects
  cases effect with
  | refresh =>
    obtain ⟨answer, hdone, rfl⟩ := runEffects_refresh hr h
    rw [endedWith_eq_done hdone]
    exact .read heffects answer
  | runControl request =>
    obtain ⟨result, answer, hdone, rfl⟩ := runEffects_control hr h
    rw [endedWith_eq_done hdone]
    exact .controlled heffects result answer
  | runSend send =>
    obtain ⟨result, answer, hdone, rfl⟩ := runEffects_send hr h
    rw [endedWith_eq_done hdone]
    exact .sent heffects result answer
  | exit =>
    obtain ⟨rfl, hdone, -⟩ := Prog.Executes.of_done h
    rw [endedWith_eq_done hdone]
    exact .exited heffects

/-- The loop opens with a read, or wakes up for nothing, or for an event. -/
theorem loopStep_cases {l l' : DashboardLoop} {w : Wakeup}
    (h : LoopStep unicode reporting l (w, log) l') :
    (l = .opening ∧ ∃ answer, log = readLog unicode reporting answer
        ∧ l' = .running (DashboardState.default.requestRefresh.state.afterRead answer))
      ∨ (∃ s, l = .running s ∧ w.event s = none ∧ log = [] ∧ l' = .running s)
      ∨ ∃ s event, l = .running s ∧ w.event s = some event
        ∧ Applied unicode reporting s event log l' := by
  cases h with
  | opened happlied =>
    refine .inl ⟨rfl, ?_⟩
    generalize hl : DashboardLoop.after _ = l
    cases hl ▸ applied_of_executes happlied with
    | read heffects answer => exact ⟨answer, rfl, rfl⟩
    | quiet heffects => cases heffects
    | controlled heffects => cases heffects
    | sent heffects => cases heffects
    | exited heffects => cases heffects
  | ignored hnone => exact .inr (.inl ⟨_, rfl, hnone, rfl, rfl⟩)
  | applied hsome happlied =>
    exact .inr (.inr ⟨_, _, rfl, hsome, applied_of_executes happlied⟩)

/-! ### What the calls rest on -/

/-- What is known of the queue after a call: what a read tells, and nothing once something was
done. -/
def learn (known : Option QueueState) : Event ClientCall ClientAnswer Unit → Option QueueState
  | ⟨.readQueue, .ok queue, _, _⟩ => some queue
  | ⟨.readQueue, .error _, _, _⟩ => none
  | ⟨.report _, _, _, _⟩ => known
  | ⟨.control _, _, _, _⟩ => none
  | ⟨.sendInput _, _, _, _⟩ => none

/-- A call that is all right when this is known of the queue. -/
def Allowed (unicode : UnicodeWidth) (known : Option QueueState) : ClientCall → Prop
  | .readQueue => True
  | .report overview =>
    overview = match known with
      | some queue => .fromQueue unicode queue
      | none => .unavailable
  | .control request => ∃ queue, known = some queue ∧ Admits queue request
  | .sendInput request => ∃ queue draft, known = some queue
      ∧ DashboardState.taskAcceptsInput queue request.taskId = true ∧ InputDraft.Typed draft
      ∧ Text.trim draft.buffer ≠ []
      ∧ request = ⟨draft.taskId, draft.buffer ++ [sendLineTerminator]⟩

/-- Each call is all right when it is made. -/
def Lawful (unicode : UnicodeWidth) : Option QueueState → CallLog → Prop
  | _, [] => True
  | known, call :: log => Allowed unicode known call.action ∧ Lawful unicode (learn known call) log

theorem lawful_append {known : Option QueueState} {log' : CallLog} :
    Lawful unicode known (log ++ log')
      ↔ Lawful unicode known log ∧ Lawful unicode (log.foldl learn known) log' := by
  induction log generalizing known with
  | nil => simp [Lawful]
  | cons call log ih => rw [List.cons_append, Lawful, Lawful, ih, List.foldl_cons, and_assoc]

theorem readLog_lawful (known : Option QueueState) (answer : Except Diagnostic QueueState) :
    Lawful unicode known (readLog unicode reporting answer) := by
  cases answer <;> cases reporting <;> simp [readLog, Lawful, Allowed, learn]

theorem readLog_learned (known : Option QueueState) : ∀ answer : Except Diagnostic QueueState,
    (readLog unicode reporting answer).foldl learn known
      = match answer with
        | .ok queue => some queue
        | .error _ => none
  | .ok _ => by cases reporting <;> rfl
  | .error _ => by cases reporting <;> rfl

/-- An event that the user or the clock causes, not the client. -/
def FromOutside : DashboardEvent → Prop
  | .refreshSucceeded _ => False
  | .refreshFailed _ => False
  | .controlFinished _ => False
  | .sendFinished _ => False
  | _ => True

/-- The key that asks for a control. -/
def ControlOperation.key : ControlOperation → Char
  | .enqueue => 'e'
  | .resume => 's'
  | .pause => 'p'
  | .kill => 'k'
  | .restart => 'r'
  | .remove => 'd'

/-- What a key commands while nothing is pending. -/
inductive Commanded : KeyCode → DashboardEvent → Prop
  | control (operation : ControlOperation) :
      Commanded (.char operation.key) (.controlRequested operation)
  | send : Commanded (.char 'i') .sendRequested
  | refresh : Commanded (.char 'R') .refreshRequested
  | up : Commanded .up (.moveSelection .previous)
  | down : Commanded .down (.moveSelection .next)
  | quit : Commanded (.char 'q') .quit
  | esc : Commanded .esc .quit

def Pressed (w : Wakeup) (code : KeyCode) : Prop :=
  ∃ inner key, w = .terminal inner (.key key) ∧ key.code = code ∧ key.kind ≠ .release

/-- What the loop wakes up for, and the event that this is. -/
inductive Woken (s : DashboardState) : Wakeup → DashboardEvent → Prop
  | deadline : Woken s .deadline .refreshRequested
  | confirmed {w : Wakeup} (hpressed : Pressed w .enter ∨ Pressed w (.char 'y')) :
      Woken s w .confirmControl
  | cancelled {w : Wakeup} : Woken s w .cancelControl
  | sendConfirmed {w : Wakeup} (hpressed : Pressed w .enter) : Woken s w .sendConfirmed
  | sendCancelled {w : Wakeup} : Woken s w .sendCancelled
  | backspaced {w : Wakeup} : Woken s w .inputBackspaced
  | appended {w : Wakeup} (c : Char) : Woken s w (.inputAppended c)
  | commanded {w : Wakeup} {code : KeyCode} {event : DashboardEvent}
      (hpending : s.pendingConfirmation = none) (hdraft : s.inputDraft = none)
      (hpressed : Pressed w code) (hcommand : Commanded code event) : Woken s w event
  | clicked {inner : Rect} {mouse : MouseEvent} (id : TaskId) :
      Woken s (.terminal inner (.mouse mouse)) (.selectTask id)
  | scrolled {inner : Rect} {mouse : MouseEvent} (direction : Direction) :
      Woken s (.terminal inner (.mouse mouse)) (.moveSelection direction)

theorem commandKey_eq_some {code : KeyCode} (h : commandKey code = some event) :
    Commanded code event := by
  cases code with
  | esc =>
    cases h
    exact .esc
  | up =>
    cases h
    exact .up
  | down =>
    cases h
    exact .down
  | char c =>
    simp only [commandKey] at h
    split_ifs at h with hq hR hi he hs hp hk hr hd <;> cases h
    · exact hq ▸ .quit
    · exact hR ▸ .refresh
    · exact hi ▸ .send
    · exact he ▸ .control .enqueue
    · exact hs ▸ .control .resume
    · exact hp ▸ .control .pause
    · exact hk ▸ .control .kill
    · exact hr ▸ .control .restart
    · exact hd ▸ .control .remove
  | enter => cases h
  | backspace => cases h
  | other => cases h

theorem woken_of_key {inner : Rect} {key : KeyEvent} (h : mapKeyEvent s key = some event) :
    Woken s (.terminal inner (.key key)) event := by
  unfold mapKeyEvent at h
  split_ifs at h with hkind hpending hdraft
  · unfold confirmationKey at h
    split at h
    next hcode =>
      cases h
      exact .confirmed (.inl ⟨inner, key, rfl, hcode, hkind⟩)
    · cases h
      exact .cancelled
    next c hcode =>
      split_ifs at h with hy hn
      · cases h
        exact .confirmed (.inr ⟨inner, key, rfl, by rw [hcode, hy], hkind⟩)
      · cases h
        exact .cancelled
    · cases h
  · unfold inputKey at h
    split at h
    next hcode =>
      cases h
      exact .sendConfirmed ⟨inner, key, rfl, hcode, hkind⟩
    · cases h
      exact .sendCancelled
    · cases h
      exact .backspaced
    · split_ifs at h
      cases h
      exact .appended _
    · cases h
  · exact .commanded (by simpa using hpending) (by simpa using hdraft) ⟨inner, key, rfl, rfl, hkind⟩
      (commandKey_eq_some h)

theorem woken_of_event {w : Wakeup} (h : w.event s = some event) : Woken s w event := by
  cases w with
  | deadline =>
    cases h
    exact .deadline
  | idle => cases h
  | terminal inner terminalEvent =>
    cases terminalEvent with
    | key key => exact woken_of_key h
    | mouse mouse =>
      simp only [Wakeup.event, mapTerminalEvent, mapMouseEvent] at h
      split at h
      · obtain ⟨id, -, rfl⟩ := Option.map_eq_some_iff.1 h
        exact .clicked id
      · cases h
        exact .scrolled _
      · cases h
        exact .scrolled _
      · cases h
    | other => cases h

theorem Woken.outside {w : Wakeup} (h : Woken s w event) : FromOutside event := by
  cases h with
  | commanded _ _ _ hcommand => cases hcommand <;> trivial
  | _ => trivial

/-- An event from outside that has no effect leaves the queue and whether anything may be done. -/
theorem quiet_kept (hevent : FromOutside event) (heffects : (reduce s event).effects = []) :
    (reduce s event).state.queue = s.queue
      ∧ (reduce s event).state.mutationsEnabled = s.mutationsEnabled := by
  cases event with
  | refreshRequested => cases heffects
  | refreshSucceeded queue => exact hevent.elim
  | refreshFailed diagnostic => exact hevent.elim
  | moveSelection direction =>
    obtain ⟨x, heq, -⟩ := moveSelection_eq s direction
    rw [reduce, heq]
    exact ⟨rfl, rfl⟩
  | selectTask id =>
    obtain ⟨x, heq, -⟩ := selectTask_eq s id
    rw [reduce, heq]
    exact ⟨rfl, rfl⟩
  | controlRequested operation =>
    rcases requestControl_cases s operation with
      ⟨-, heq⟩ | ⟨request, -, -, ⟨-, heq⟩ | ⟨-, heq⟩⟩ <;> rw [reduce, heq] at heffects ⊢
    · exact ⟨rfl, rfl⟩
    · exact ⟨rfl, rfl⟩
    · cases heffects
  | confirmControl =>
    rcases confirmControl_cases s with
      ⟨-, heq⟩ | ⟨request, -, ⟨-, heq⟩ | ⟨-, heq⟩⟩ <;> rw [reduce, heq] at heffects ⊢
    · exact ⟨rfl, rfl⟩
    · exact ⟨rfl, rfl⟩
    · cases heffects
  | cancelControl => exact ⟨rfl, rfl⟩
  | controlFinished result => exact hevent.elim
  | sendRequested =>
    rcases requestSend_cases s with ⟨-, heq⟩ | ⟨id, -, heq⟩ <;> rw [reduce, heq] <;>
      exact ⟨rfl, rfl⟩
  | inputAppended c =>
    rcases appendInput_cases s c with ⟨-, heq⟩ | ⟨draft, -, -, -, heq⟩ <;> rw [reduce, heq] <;>
      exact ⟨rfl, rfl⟩
  | inputBackspaced =>
    rcases backspaceInput_cases s with ⟨-, heq⟩ | ⟨draft, -, heq⟩ <;> rw [reduce, heq] <;>
      exact ⟨rfl, rfl⟩
  | sendConfirmed =>
    rcases confirmSend_cases s with
      ⟨-, heq⟩ | ⟨draft, -, -, ⟨-, heq⟩ | ⟨-, heq⟩⟩ <;> rw [reduce, heq] at heffects ⊢
    · exact ⟨rfl, rfl⟩
    · exact ⟨rfl, rfl⟩
    · cases heffects
  | sendCancelled => exact ⟨rfl, rfl⟩
  | sendFinished result => exact hevent.elim
  | quit => exact ⟨rfl, rfl⟩

/-! ### Runs of the loop -/

/-- What holds of the loop when this is known of the queue: the dashboard shows it, and lets the
user act only on what is known. -/
def Settled (known : Option QueueState) : DashboardLoop → Prop
  | .opening => known = none
  | .running s => Sound s ∧ s.queue = known ∧ s.mutationsEnabled = known.isSome
  | .closed => True
  | .failed _ => False

theorem afterRead_sound (hs : Sound s) : ∀ answer, Sound (s.afterRead answer)
  | .ok queue => acceptRefresh_sound hs queue
  | .error diagnostic => rejectRefresh_sound diagnostic

theorem afterRead_settled {known : Option QueueState} (hs : Sound s)
    (answer : Except Diagnostic QueueState) :
    Settled ((readLog unicode reporting answer).foldl learn known)
      (.running (s.afterRead answer)) := by
  rw [readLog_learned]
  cases answer with
  | ok queue => exact ⟨afterRead_sound hs (.ok queue), rfl, rfl⟩
  | error diagnostic => exact ⟨afterRead_sound hs (.error diagnostic), rfl, rfl⟩

/-- What an event that is applied asks of the client is all right. -/
theorem applied_lawful {known : Option QueueState} {l : DashboardLoop} (hevent : FromOutside event)
    (hs : Settled known (.running s)) (h : Applied unicode reporting s event log l) :
    Lawful unicode known log ∧ Settled (log.foldl learn known) l := by
  obtain ⟨hsound, hqueue, henabled⟩ := hs
  have hnext := reduce_sound hsound event
  cases h with
  | quiet heffects =>
    obtain ⟨hq, he⟩ := quiet_kept hevent heffects
    exact ⟨trivial, hnext, hq.trans hqueue, he.trans henabled⟩
  | read heffects answer => exact ⟨readLog_lawful known answer, afterRead_settled hnext answer⟩
  | controlled heffects result answer =>
    refine ⟨⟨?_, readLog_lawful none answer⟩,
      afterRead_settled (reduce_sound hnext (.controlFinished result)) answer⟩
    cases caused_of_effects heffects with
    | asked _ hadmitted =>
      obtain ⟨-, -, -, q, hq, hadmits⟩ := admittedRequest_eq_some.1 hadmitted
      exact ⟨q, hqueue ▸ hq, hadmits⟩
    | confirmed _ hadmitted =>
      obtain ⟨-, -, -, q, hq, hadmits⟩ := admittedRequest_eq_some.1 hadmitted
      exact ⟨q, hqueue ▸ hq, hadmits⟩
  | sent heffects result answer =>
    refine ⟨⟨?_, readLog_lawful none answer⟩,
      afterRead_settled (reduce_sound hnext (.sendFinished result)) answer⟩
    cases caused_of_effects heffects with
    | typed hdraft hblank hadmitted =>
      obtain ⟨-, -, -, q, hq, halive⟩ := admittedSendTask_eq_some.1 hadmitted
      exact ⟨q, _, hqueue ▸ hq, halive, (hsound.draft _ hdraft).1, hblank, rfl⟩
  | exited heffects => exact ⟨trivial, trivial⟩

theorem step_lawful {known : Option QueueState} {l l' : DashboardLoop} {w : Wakeup}
    (hs : Settled known l) (h : LoopStep unicode reporting l (w, log) l') :
    Lawful unicode known log ∧ Settled (log.foldl learn known) l' := by
  rcases loopStep_cases h with ⟨rfl, answer, rfl, rfl⟩ | ⟨s, rfl, -, rfl, rfl⟩
    | ⟨s, event, rfl, hw, happlied⟩
  · refine ⟨readLog_lawful known answer, afterRead_settled ?_ answer⟩
    exact reduce_sound sound_default .refreshRequested
  · exact ⟨trivial, hs⟩
  · exact applied_lawful (woken_of_event hw).outside hs happlied

/-- The calls of a run. -/
def calls (steps : List ((Wakeup × CallLog) × DashboardLoop)) : CallLog :=
  steps.flatMap fun step => step.1.2

def press (c : Char) : Wakeup := .terminal ⟨0, 0, 80, 24⟩ (.key ⟨.char c, false, false, .press⟩)

def shownFirst : DashboardState :=
  (DashboardState.default.requestRefresh.state.acceptRefresh exampleQueue).state

/-- The dashboard opens, and the user pauses the first task. -/
def pauseFirst : List ((Wakeup × CallLog) × DashboardLoop) :=
  let done := (((shownFirst.requestControl .pause).state.finishControl (.ok ())).state.acceptRefresh
    exampleQueue).state
  [((.deadline, readLog plainWidth false (.ok exampleQueue)), .running shownFirst),
    ((press 'p', controlCall ⟨.pause, ⟨0⟩⟩ (.ok ()) :: readLog plainWidth false (.ok exampleQueue)),
      .running done)]

theorem pauseFirst_runs : Run (LoopStep plainWidth false) .opening pauseFirst :=
  .cons (.opened (r := .ok (_, ⟨false, true⟩)) (.act trivial (.stop _ _)))
    (.cons (.applied (r := .ok (_, ⟨false, true⟩)) rfl (.act trivial (.act trivial (.stop _ _))))
      (.nil _))

/-- Whatever the client answers and whatever the user does, each call of the loop is all right when
it is made, and no chain of effects runs out. -/
theorem loop_lawful {steps : List ((Wakeup × CallLog) × DashboardLoop)}
    (hr : Run (LoopStep unicode reporting) .opening steps) :
    Lawful unicode none (calls steps)
      ∧ ∀ l ∈ visited .opening steps, ∀ diagnostic, l ≠ .failed diagnostic := by
  suffices hall : ∀ {l : DashboardLoop} {known : Option QueueState}, Settled known l →
      Run (LoopStep unicode reporting) l steps → Lawful unicode known (calls steps)
        ∧ ∀ l' ∈ visited l steps, ∀ diagnostic, l' ≠ .failed diagnostic from hall rfl hr
  clear hr
  intro l known hs hr
  induction hr generalizing known with
  | nil l =>
    refine ⟨trivial, ?_⟩
    rintro _ (_ | ⟨_, ⟨⟩⟩) diagnostic rfl
    exact hs
  | @cons l l' i rest first _ ih =>
    obtain ⟨hlawful, hs'⟩ := step_lawful hs first
    obtain ⟨hrest, hnever⟩ := ih hs'
    rw [calls, List.flatMap_cons, visited_cons, List.forall_mem_cons, lawful_append]
    refine ⟨⟨hlawful, hrest⟩, ?_, hnever⟩
    rintro diagnostic rfl
    exact hs

theorem loop_lawful_pause : Lawful plainWidth none (calls pauseFirst)
    ∧ ∀ l ∈ visited .opening pauseFirst, ∀ diagnostic, l ≠ .failed diagnostic :=
  loop_lawful pauseFirst_runs

/-! ### The assertion -/

def LoopValid : DashboardLoop → Prop
  | .running s => s.stateIsValid = true
  | _ => True

/-- The mouse moves the selection away from a control that is pending. -/
def Astray (l : DashboardLoop) (w : Wakeup) : Prop :=
  ∃ s inner mouse event, l = .running s ∧ w = .terminal inner (.mouse mouse)
    ∧ w.event s = some event ∧ Disturbs s event

/-- In the loop only the mouse disturbs a pending control, and that without any effect. -/
theorem moved_of_disturbs {w : Wakeup} (hw : w.event s = some event) (h : Disturbs s event) :
    (∃ inner mouse, w = .terminal inner (.mouse mouse)) ∧ (reduce s event).effects = [] := by
  cases woken_of_event hw with
  | @clicked inner mouse id =>
    obtain ⟨x, heq, -⟩ := selectTask_eq s id
    exact ⟨⟨inner, mouse, rfl⟩, by rw [reduce, heq]⟩
  | @scrolled inner mouse direction =>
    obtain ⟨x, heq, -⟩ := moveSelection_eq s direction
    exact ⟨⟨inner, mouse, rfl⟩, by rw [reduce, heq]⟩
  | commanded hpending _ _ _ => exact absurd hpending h.1
  | _ => exact absurd h (not_disturbs trivial)

theorem astray_iff {w : Wakeup} (hw : w.event s = some event) :
    Astray (.running s) w ↔ Disturbs s event := by
  constructor
  · rintro ⟨_, inner, mouse, event', ⟨⟩, rfl, hw', hdisturbs⟩
    cases hw.symm.trans hw'
    exact hdisturbs
  · intro hdisturbs
    obtain ⟨⟨inner, mouse, rfl⟩, -⟩ := moved_of_disturbs hw hdisturbs
    exact ⟨s, inner, mouse, event, rfl, rfl, hw, hdisturbs⟩

theorem afterRead_valid (hs : Sound s) (answer : Except Diagnostic QueueState) :
    (s.afterRead answer).stateIsValid = true := by
  refine valid_of_settled (afterRead_sound hs answer) ?_
  cases answer <;> rfl

theorem applied_valid_iff {l : DashboardLoop} {w : Wakeup} (hs : Sound s)
    (hvalid : s.stateIsValid = true) (hw : w.event s = some event)
    (h : Applied unicode reporting s event log l) : LoopValid l ↔ ¬ Astray (.running s) w := by
  have hnext := reduce_sound hs event
  have hcalm : ∀ effect, (reduce s event).effects = [effect] → ¬ Disturbs s event := by
    intro effect heffect hdisturbs
    cases (moved_of_disturbs hw hdisturbs).2.symm.trans heffect
  rw [astray_iff hw]
  cases h with
  | quiet heffects => exact reduce_valid_iff hs hvalid event
  | read heffects answer => exact iff_of_true (afterRead_valid hnext answer) (hcalm _ heffects)
  | controlled heffects result answer =>
    have hfinished := reduce_sound hnext (.controlFinished result)
    exact iff_of_true (afterRead_valid hfinished answer) (hcalm _ heffects)
  | sent heffects result answer =>
    have hfinished := reduce_sound hnext (.sendFinished result)
    exact iff_of_true (afterRead_valid hfinished answer) (hcalm _ heffects)
  | exited heffects => exact iff_of_true trivial (hcalm _ heffects)

/-- What goes with the assertion all through the loop. -/
def LoopSound : DashboardLoop → Prop
  | .running s => Sound s
  | _ => True

theorem applied_sound {l : DashboardLoop} (hs : Sound s)
    (h : Applied unicode reporting s event log l) : LoopSound l := by
  have hnext := reduce_sound hs event
  cases h with
  | quiet heffects => exact hnext
  | read heffects answer => exact afterRead_sound hnext answer
  | controlled heffects result answer =>
    exact afterRead_sound (reduce_sound hnext (.controlFinished result)) answer
  | sent heffects result answer =>
    exact afterRead_sound (reduce_sound hnext (.sendFinished result)) answer
  | exited heffects => trivial

/-- In every run of the loop, the assertion holds of all the states between two wakeups exactly when
the mouse never moves the selection away from a control that is pending. -/
theorem loop_valid_iff {steps : List ((Wakeup × CallLog) × DashboardLoop)}
    (hr : Run (LoopStep unicode reporting) .opening steps) :
    (∀ l ∈ visited .opening steps, LoopValid l)
      ↔ Guarded (fun l i => ¬ Astray l i.1) .opening steps := by
  refine hr.forall_iff (Q := LoopSound) (fun l i l' hvalid hs h => ?_) trivial trivial
  obtain ⟨w, log⟩ := i
  rcases loopStep_cases h with ⟨rfl, answer, rfl, rfl⟩ | ⟨s, rfl, hnone, rfl, rfl⟩
    | ⟨s, event, rfl, hw, happlied⟩
  · have hrequested := reduce_sound sound_default .refreshRequested
    refine ⟨iff_of_true (afterRead_valid hrequested answer) ?_,
      fun _ => afterRead_sound hrequested answer⟩
    rintro ⟨s, inner, mouse, event, ⟨⟩, -⟩
  · refine ⟨iff_of_true hvalid ?_, fun _ => hs⟩
    rintro ⟨_, inner, mouse, event, ⟨⟩, rfl, hw, -⟩
    cases hnone.symm.trans hw
  · exact ⟨applied_valid_iff hs hvalid hw happlied, fun _ => applied_sound hs happlied⟩

theorem loop_valid_pause : (∀ l ∈ visited .opening pauseFirst, LoopValid l)
    ↔ Guarded (fun l i => ¬ Astray l i.1) .opening pauseFirst :=
  loop_valid_iff pauseFirst_runs

end

end OnixCore.HerdrPueue
