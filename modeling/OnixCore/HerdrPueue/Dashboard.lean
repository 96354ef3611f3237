import OnixCore.HerdrPueue.Queue

/-!
# The dashboard

What the dashboard holds, and what each event makes of it (`reduce`): the next state, and at most
one effect to carry out. A control that is destructive waits for the user to confirm it, and an
input line is typed before it is sent. `stateIsValid` is what the code asserts of each new state in
a debug build.
-/

namespace OnixCore.HerdrPueue

inductive Operation where
  | herdrPopup
  | herdrSplit
  | herdrMetadata
  | pueueVersion
  | pueueStatus
  | pueueControl (operation : ControlOperation)
  | pueueSendInput
  | terminal
  deriving DecidableEq, Repr

inductive FailureClass where
  | invalidHerdrPath
  | invalidHerdrContext
  | missingExecutable
  | permissionDenied
  | spawnFailed
  | processPipeUnavailable
  | processWaitFailed
  | processOutputReadFailed
  | processOutputThreadFailed
  | daemonUnavailable
  | timeout
  | stdoutLimit
  | stderrLimit
  | nonzeroExit
  | invalidUtf8
  | unsupportedVersion
  | invalidData
  | controlRejected
  | terminalUnavailable
  deriving DecidableEq, Repr

structure Diagnostic where
  operation : Operation
  failure : FailureClass
  deriving DecidableEq, Repr

/-- The input line of one task. -/
structure InputDraft where
  taskId : TaskId
  buffer : Text
  deriving DecidableEq, Repr

structure DashboardState where
  queue : Option QueueState
  selectedTaskId : Option TaskId
  pendingConfirmation : Option PueueRequest
  inputDraft : Option InputDraft
  diagnostic : Option Diagnostic
  mutationsEnabled : Bool

def DashboardState.default : DashboardState where
  queue := none
  selectedTaskId := none
  pendingConfirmation := none
  inputDraft := none
  diagnostic := none
  mutationsEnabled := false

inductive Direction where
  | previous
  | next
  deriving DecidableEq, Repr

inductive DashboardEvent where
  | refreshRequested
  | refreshSucceeded (queue : QueueState)
  | refreshFailed (diagnostic : Diagnostic)
  | moveSelection (direction : Direction)
  | selectTask (id : TaskId)
  | controlRequested (operation : ControlOperation)
  | confirmControl
  | cancelControl
  | controlFinished (result : Except Diagnostic Unit)
  | sendRequested
  | inputAppended (character : Char)
  | inputBackspaced
  | sendConfirmed
  | sendCancelled
  | sendFinished (result : Except Diagnostic Unit)
  | quit

inductive Effect where
  | refresh
  | runControl (request : PueueRequest)
  | runSend (request : SendRequest)
  | exit
  deriving DecidableEq, Repr

structure Transition where
  state : DashboardState
  effects : List Effect

namespace DashboardState

variable (s : DashboardState)

def requestRefresh : Transition where
  state := { s with pendingConfirmation := none, diagnostic := none, mutationsEnabled := false }
  effects := [.refresh]

def taskAcceptsInput (queue : QueueState) (id : TaskId) : Bool :=
  (queue.task id).any fun t => acceptsInput t.state

/-- A selection and an input line last as long as their task is there, and alive. -/
def acceptRefresh (queue : QueueState) : Transition where
  state := { s with
    selectedTaskId :=
      (s.selectedTaskId.filter fun id => (queue.task id).isSome).or queue.firstTaskId
    inputDraft := s.inputDraft.filter fun draft => taskAcceptsInput queue draft.taskId
    queue := some queue
    pendingConfirmation := none
    mutationsEnabled := true }
  effects := []

def rejectRefresh (diagnostic : Diagnostic) : Transition where
  state :=
    { queue := none, selectedTaskId := none, pendingConfirmation := none, inputDraft := none,
      diagnostic := some diagnostic, mutationsEnabled := false }
  effects := []

def moveSelection (direction : Direction) : Transition :=
  match s.queue with
  | none => ⟨s, []⟩
  | some queue =>
    match s.selectedTaskId with
    | none => ⟨{ s with selectedTaskId := queue.firstTaskId }, []⟩
    | some current =>
      match queue.taskPosition current with
      | none => ⟨{ s with selectedTaskId := queue.firstTaskId }, []⟩
      | some position =>
        let nextPosition := match direction with
          | .previous => position - 1
          | .next => min (position + 1) (queue.tasks.length - 1)
        ⟨{ s with selectedTaskId := queue.tasks[nextPosition]?.map Task.id }, []⟩

def selectTask (id : TaskId) : Transition :=
  if s.queue.any fun queue => (queue.task id).isSome then
    ⟨{ s with selectedTaskId := some id }, []⟩
  else ⟨s, []⟩

def admittedRequest (operation : ControlOperation) : Option PueueRequest :=
  if s.mutationsEnabled then do
    let id ← s.selectedTaskId
    let queue ← s.queue
    let t ← queue.task id
    if operation ∈ allowedControls t.state then some ⟨operation, id⟩ else none
  else none

def reject (operation : Operation) : Transition :=
  ⟨{ s with diagnostic := some ⟨operation, .controlRejected⟩ }, []⟩

def requestControl (operation : ControlOperation) : Transition :=
  if s.inputDraft.isSome then s.reject (.pueueControl operation)
  else
    match s.admittedRequest operation with
    | none => s.reject (.pueueControl operation)
    | some request =>
      if operation.requiresConfirmation then
        ⟨{ s with diagnostic := none, pendingConfirmation := some request }, []⟩
      else ⟨{ s with diagnostic := none, mutationsEnabled := false }, [.runControl request]⟩

def confirmControl : Transition :=
  match s.pendingConfirmation with
  | none => ⟨s, []⟩
  | some request =>
    let taken := { s with pendingConfirmation := none }
    match taken.admittedRequest request.operation with
    | none => taken.reject (.pueueControl request.operation)
    | some admitted =>
      if admitted ≠ request then taken.reject (.pueueControl request.operation)
      else ⟨{ taken with mutationsEnabled := false }, [.runControl request]⟩

def cancelControl : Transition := ⟨{ s with pendingConfirmation := none }, []⟩

/-- The failure of a result, if it is one. -/
def failureOf : Except Diagnostic Unit → Option Diagnostic
  | .ok () => none
  | .error diagnostic => some diagnostic

def finishControl (result : Except Diagnostic Unit) : Transition where
  state := { s with
    pendingConfirmation := none, diagnostic := failureOf result, mutationsEnabled := false }
  effects := [.refresh]

/-- The task that a line may be sent to: selected, alive, and nothing else under way. -/
def admittedSendTask : Option TaskId :=
  if !s.mutationsEnabled ∨ s.pendingConfirmation.isSome then none
  else do
    let id ← s.selectedTaskId
    let queue ← s.queue
    if taskAcceptsInput queue id then some id else none

def requestSend : Transition :=
  match s.admittedSendTask with
  | none => s.reject .pueueSendInput
  | some id => ⟨{ s with diagnostic := none, inputDraft := some ⟨id, []⟩ }, []⟩

def appendInput (character : Char) : Transition :=
  match s.inputDraft with
  | none => ⟨s, []⟩
  | some draft =>
    if Text.isControl character then ⟨s, []⟩
    else if maxSendInputChars ≤ draft.buffer.length then ⟨s, []⟩
    else ⟨{ s with inputDraft := some { draft with buffer := draft.buffer ++ [character] } }, []⟩

def backspaceInput : Transition :=
  match s.inputDraft with
  | none => ⟨s, []⟩
  | some draft => ⟨{ s with inputDraft := some { draft with buffer := draft.buffer.dropLast } }, []⟩

/-- An empty line is not sent, and not lost either. -/
def confirmSend : Transition :=
  match s.inputDraft with
  | none => ⟨s, []⟩
  | some draft =>
    if Text.trim draft.buffer = [] then ⟨s, []⟩
    else if s.admittedSendTask ≠ some draft.taskId then
      { s with inputDraft := none }.reject .pueueSendInput
    else
      ⟨{ s with inputDraft := none, mutationsEnabled := false },
        [.runSend ⟨draft.taskId, draft.buffer ++ [sendLineTerminator]⟩]⟩

def cancelSend : Transition := ⟨{ s with inputDraft := none }, []⟩

def finishSend (result : Except Diagnostic Unit) : Transition where
  state := { s with inputDraft := none, diagnostic := failureOf result, mutationsEnabled := false }
  effects := [.refresh]

def stateIsValid : Bool :=
  if s.mutationsEnabled ∧ s.queue.isNone then false
  else if s.inputDraft.isSome ∧ s.pendingConfirmation.isSome then false
  else if s.inputDraft.any fun draft =>
      !s.queue.any fun queue => taskAcceptsInput queue draft.taskId then false
  else if s.pendingConfirmation.any fun request =>
      !s.mutationsEnabled ∨ s.admittedRequest request.operation ≠ some request then false
  else true

end DashboardState

def reduce (s : DashboardState) : DashboardEvent → Transition
  | .refreshRequested => s.requestRefresh
  | .refreshSucceeded queue => s.acceptRefresh queue
  | .refreshFailed diagnostic => DashboardState.rejectRefresh diagnostic
  | .moveSelection direction => s.moveSelection direction
  | .selectTask id => s.selectTask id
  | .controlRequested operation => s.requestControl operation
  | .confirmControl => s.confirmControl
  | .cancelControl => s.cancelControl
  | .controlFinished result => s.finishControl result
  | .sendRequested => s.requestSend
  | .inputAppended character => s.appendInput character
  | .inputBackspaced => s.backspaceInput
  | .sendConfirmed => s.confirmSend
  | .sendCancelled => s.cancelSend
  | .sendFinished result => s.finishSend result
  | .quit => ⟨s, [.exit]⟩

end OnixCore.HerdrPueue
