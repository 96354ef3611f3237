import OnixCore.HerdrPueue.Queue
import OnixCore.HerdrPueue.Text

/-!
# The sidebar

What the sidebar of a workspace says about the queue: how many tasks are running, and the first of
them by name. A task without a label is named by its command.
-/

namespace OnixCore.HerdrPueue

def maxOverviewRunningTasks : ℕ := 2

def maxOverviewTaskTextColumns : ℕ := 72

def pueueMetadataSource : Text := "plugin:dev.herdr.pueue".toList

def pueueStatusToken : Text := "pueue_status".toList

def pueueRunningTokens : List Text := ["pueue_running_1".toList, "pueue_running_2".toList]

def emptyLabelMarkers : List Text := ["-".toList, "—".toList]

structure QueueOverview where
  status : Text
  runningTasks : List Text

def runningStatusText (runningCount : ℕ) : Text :=
  if runningCount = 0 then "Pueue · idle".toList
  else
    let hiddenCount := runningCount - maxOverviewRunningTasks
    if hiddenCount = 0 then ("Pueue · " ++ toString runningCount ++ " running").toList
    else
      ("Pueue · " ++ toString runningCount ++ " running · +" ++ toString hiddenCount
        ++ " more").toList

def taskLabelIsMeaningful (label : Text) : Bool :=
  label ≠ [] ∧ !isOneOf emptyLabelMarkers label

section

variable (unicode : UnicodeWidth)

def runningTaskText (t : Task) : Text :=
  let label := Text.trim t.label
  let description :=
    if taskLabelIsMeaningful label then label
    else sanitizeCommandDescription unicode t.command maxCommandTextColumns
  sanitizeTerminalText unicode (("#" ++ t.id.text ++ " ").toList ++ description)
    maxOverviewTaskTextColumns

def QueueOverview.fromQueue (q : QueueState) : QueueOverview where
  status := runningStatusText (q.tasks.countP (·.state = .running))
  runningTasks :=
    ((q.tasks.filter (·.state = .running)).take maxOverviewRunningTasks).map
      (runningTaskText unicode)

end

def QueueOverview.unavailable : QueueOverview where
  status := "Pueue · unavailable".toList
  runningTasks := []

def tokenAssignment (name value : Text) : Text := name ++ '=' :: value

/-- The arguments of the process that reports an overview. -/
def workspaceMetadataArguments (workspaceId : Text) (overview : QueueOverview) (ttlMs : ℕ) :
    List Text :=
  ["workspace".toList, "report-metadata".toList, workspaceId, "--source".toList,
    pueueMetadataSource, "--token".toList, tokenAssignment pueueStatusToken overview.status]
  ++ pueueRunningTokens.zipIdx.flatMap (fun (token, index) =>
    match overview.runningTasks[index]? with
    | some value => ["--token".toList, tokenAssignment token value]
    | none => ["--clear-token".toList, token])
  ++ ["--ttl-ms".toList, (toString ttlMs).toList]

end OnixCore.HerdrPueue
