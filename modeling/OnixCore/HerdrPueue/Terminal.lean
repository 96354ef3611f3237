import OnixCore.HerdrPueue.Dashboard
import OnixCore.HerdrPueue.Overview
import OnixCore.Lib.Execution
import OnixCore.Lib.Runs

/-!
# The dashboard on the terminal

The loop draws the dashboard, waits for a key, the mouse or the time to refresh, and applies the
event that this is. Applying an event carries out its effects, and theirs, through a client that
runs `pueue` (`applyEvent`).

What the client answers is whatever it is. The area that the tasks are drawn in is a rectangle of
the layout's choice.
-/

namespace OnixCore.HerdrPueue

/-! ## Drawing -/

structure Rect where
  x : ℕ
  y : ℕ
  width : ℕ
  height : ℕ
  deriving DecidableEq, Repr

structure TaskHit where
  area : Rect
  taskId : TaskId
  deriving DecidableEq, Repr

/-- Where a click selects which task. -/
structure RenderState where
  taskHits : List TaskHit

def maxU16 : ℕ := 2 ^ 16 - 1

/-- In sixteen bits, a sum that does not fit is the largest number. -/
def saturatingAdd16 (a b : ℕ) : ℕ := min (a + b) maxU16

def tableHeaderRows : ℕ := 1

def taskRowHeightRows : ℕ := 1

def windowCenterDivisor : ℕ := 2

def rectContains (area : Rect) (column row : ℕ) : Bool :=
  area.x ≤ column ∧ column < saturatingAdd16 area.x area.width ∧ area.y ≤ row
    ∧ row < saturatingAdd16 area.y area.height

def RenderState.taskAt (r : RenderState) (column row : ℕ) : Option TaskId :=
  (r.taskHits.find? fun hit => rectContains hit.area column row).map TaskHit.taskId

/-- The tasks that are drawn: where the first of them stands, and the first one after them. -/
def visibleTaskRange (tasks : List Task) (selectedTaskId : Option TaskId) (availableRows : ℕ) :
    ℕ × ℕ :=
  if tasks = [] ∨ availableRows = 0 then (0, 0)
  else if tasks.length ≤ availableRows then (0, tasks.length)
  else
    let selectedPosition :=
      (selectedTaskId.bind fun selected => tasks.findIdx? (·.id = selected)).getD 0
    let centeredStart := selectedPosition - availableRows / windowCenterDivisor
    let start := min centeredStart (tasks.length - availableRows)
    (start, start + availableRows)

def taskHits (inner : Rect) (tasks : List Task) : List TaskHit :=
  tasks.zipIdx.filterMap fun (t, index) =>
    if index ≤ maxU16 then
      some ⟨⟨inner.x, saturatingAdd16 (saturatingAdd16 inner.y tableHeaderRows) index, inner.width,
        taskRowHeightRows⟩, t.id⟩
    else none

def visibleTasks (inner : Rect) (q : QueueState) (selectedTaskId : Option TaskId) : List Task :=
  let range := visibleTaskRange q.tasks selectedTaskId (inner.height - tableHeaderRows)
  (q.tasks.take range.2).drop range.1

def renderTasks (inner : Rect) (s : DashboardState) : RenderState :=
  match s.queue with
  | none => ⟨[]⟩
  | some queue => ⟨taskHits inner (visibleTasks inner queue s.selectedTaskId)⟩

/-! ## Keys and the mouse -/

inductive KeyCode where
  | enter
  | esc
  | backspace
  | up
  | down
  | char (c : Char)
  | other
  deriving DecidableEq, Repr

inductive KeyEventKind where
  | press
  | repeat
  | release
  deriving DecidableEq, Repr

/-- Of the modifiers only two are looked at. -/
structure KeyEvent where
  code : KeyCode
  control : Bool
  super : Bool
  kind : KeyEventKind
  deriving DecidableEq, Repr

inductive MouseEventKind where
  | downLeft
  | scrollUp
  | scrollDown
  | other
  deriving DecidableEq, Repr

structure MouseEvent where
  kind : MouseEventKind
  column : ℕ
  row : ℕ
  deriving DecidableEq, Repr

inductive TerminalEvent where
  | key (event : KeyEvent)
  | mouse (event : MouseEvent)
  | other
  deriving DecidableEq, Repr

/-- While a control is pending, a key answers whether to run it. -/
def confirmationKey : KeyCode → Option DashboardEvent
  | .enter => some .confirmControl
  | .esc => some .cancelControl
  | .char c =>
    if c = 'y' then some .confirmControl else if c = 'n' then some .cancelControl else none
  | _ => none

/-- While a line is typed, a key is part of it. -/
def inputKey (key : KeyEvent) : Option DashboardEvent :=
  match key.code with
  | .enter => some .sendConfirmed
  | .esc => some .sendCancelled
  | .backspace => some .inputBackspaced
  | .char c => if !key.control ∧ !key.super then some (.inputAppended c) else none
  | _ => none

def commandKey : KeyCode → Option DashboardEvent
  | .esc => some .quit
  | .up => some (.moveSelection .previous)
  | .down => some (.moveSelection .next)
  | .char c =>
    if c = 'q' then some .quit
    else if c = 'R' then some .refreshRequested
    else if c = 'i' then some .sendRequested
    else if c = 'e' then some (.controlRequested .enqueue)
    else if c = 's' then some (.controlRequested .resume)
    else if c = 'p' then some (.controlRequested .pause)
    else if c = 'k' then some (.controlRequested .kill)
    else if c = 'r' then some (.controlRequested .restart)
    else if c = 'd' then some (.controlRequested .remove)
    else none
  | _ => none

def mapKeyEvent (s : DashboardState) (key : KeyEvent) : Option DashboardEvent :=
  if key.kind = .release then none
  else if s.pendingConfirmation.isSome then confirmationKey key.code
  else if s.inputDraft.isSome then inputKey key
  else commandKey key.code

def mapMouseEvent (r : RenderState) (mouse : MouseEvent) : Option DashboardEvent :=
  match mouse.kind with
  | .downLeft => (r.taskAt mouse.column mouse.row).map .selectTask
  | .scrollUp => some (.moveSelection .previous)
  | .scrollDown => some (.moveSelection .next)
  | .other => none

def mapTerminalEvent (s : DashboardState) (r : RenderState) : TerminalEvent → Option DashboardEvent
  | .key key => mapKeyEvent s key
  | .mouse mouse => mapMouseEvent r mouse
  | .other => none

/-! ## Applying an event -/

inductive ClientCall where
  | readQueue
  | report (overview : QueueOverview)
  | control (request : PueueRequest)
  | sendInput (request : SendRequest)

abbrev ClientAnswer : ClientCall → Type
  | .readQueue => Except Diagnostic QueueState
  | .report _ => Unit
  | .control _ => Except Diagnostic Unit
  | .sendInput _ => Except Diagnostic Unit

abbrev DashboardProg := Prog ClientCall ClientAnswer Diagnostic

def DashboardProg.act (i : ClientCall) : DashboardProg (ClientAnswer i) := Prog.act i

structure EffectOutcome where
  didExit : Bool
  didRefresh : Bool
  deriving DecidableEq, Repr

def maxEffectChain : ℕ := 4

section

variable (unicode : UnicodeWidth) (reporting : Bool)

/-- A report that fails is none. -/
def reportBestEffort (overview : QueueOverview) : DashboardProg Unit :=
  if reporting then DashboardProg.act (.report overview) else Prog.done ()

def readRefreshEvent : DashboardProg DashboardEvent := do
  match ← DashboardProg.act .readQueue with
  | .ok queue =>
    reportBestEffort reporting (.fromQueue unicode queue)
    return .refreshSucceeded queue
  | .error diagnostic =>
    reportBestEffort reporting .unavailable
    return .refreshFailed diagnostic

/-- Carries out an effect, for the event that tells how it went. -/
def performEffect : Effect → DashboardProg (Option DashboardEvent)
  | .refresh => do return some (← readRefreshEvent unicode reporting)
  | .runControl request => do
    return some (.controlFinished (← DashboardProg.act (.control request)))
  | .runSend request => do
    return some (.sendFinished (← DashboardProg.act (.sendInput request)))
  | .exit => return none

def EffectOutcome.note (outcome : EffectOutcome) : Effect → EffectOutcome
  | .refresh => { outcome with didRefresh := true }
  | .exit => { outcome with didExit := true }
  | _ => outcome

/-- Carries out the effects that are pending, first come first served, but not too many. -/
def runEffects : ℕ → DashboardState → List Effect → EffectOutcome →
    DashboardProg (DashboardState × EffectOutcome)
  | 0, s, pending, outcome =>
    if pending = [] then Prog.done (s, outcome) else Prog.fail ⟨.terminal, .invalidData⟩
  | _ + 1, s, [], outcome => Prog.done (s, outcome)
  | n + 1, s, effect :: pending, outcome => do
    match ← performEffect unicode reporting effect with
    | none => runEffects n s pending (outcome.note effect)
    | some event =>
      let transition := reduce s event
      runEffects n transition.state (pending ++ transition.effects) (outcome.note effect)

def applyEvent (s : DashboardState) (event : DashboardEvent) :
    DashboardProg (DashboardState × EffectOutcome) :=
  let transition := reduce s event
  runEffects unicode reporting maxEffectChain transition.state transition.effects ⟨false, false⟩

end

/-! ## The loop -/

/-- What the loop wakes up for. -/
inductive Wakeup where
  | deadline
  | idle
  | terminal (inner : Rect) (event : TerminalEvent)

def Wakeup.event (s : DashboardState) : Wakeup → Option DashboardEvent
  | .deadline => some .refreshRequested
  | .idle => none
  | .terminal inner event => mapTerminalEvent s (renderTasks inner s) event

inductive DashboardLoop where
  | opening
  | running (s : DashboardState)
  | closed
  | failed (diagnostic : Diagnostic)

/-- The calls of the client, and what it answered. -/
abbrev CallLog := List (Event ClientCall ClientAnswer Unit)

/-- The client may answer anything. -/
def anyAnswer (_ : Unit) (i : ClientCall) (_ : ClientAnswer i) (_ : Unit) : Prop := True

/-- What is left when the event was applied. -/
def DashboardLoop.after : Except Diagnostic (DashboardState × EffectOutcome) → DashboardLoop
  | .ok (s, outcome) => if outcome.didExit then .closed else .running s
  | .error diagnostic => .failed diagnostic

/-- A program that ended with this. -/
def endedWith {α : Type} : Except Diagnostic α → DashboardProg α
  | .ok a => .done a
  | .error e => .fail e

inductive LoopStep (unicode : UnicodeWidth) (reporting : Bool) :
    DashboardLoop → Wakeup × CallLog → DashboardLoop → Prop
  | opened {log : CallLog} {r : Except Diagnostic (DashboardState × EffectOutcome)}
      (happlied : Prog.Executes anyAnswer
        (applyEvent unicode reporting .default .refreshRequested) () log (endedWith r) ()) :
      LoopStep unicode reporting .opening (.deadline, log) (.after r)
  | ignored {s : DashboardState} {w : Wakeup} (hnone : w.event s = none) :
      LoopStep unicode reporting (.running s) (w, []) (.running s)
  | applied {s : DashboardState} {w : Wakeup} {event : DashboardEvent} {log : CallLog}
      {r : Except Diagnostic (DashboardState × EffectOutcome)} (hsome : w.event s = some event)
      (happlied : Prog.Executes anyAnswer (applyEvent unicode reporting s event) () log
        (endedWith r) ()) :
      LoopStep unicode reporting (.running s) (w, log) (.after r)

end OnixCore.HerdrPueue
