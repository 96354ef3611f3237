import OnixCore.BuildbotPrCheck.Api

/-!
# The exit code of buildbot-pr-check

`reporting.py` and `check_pr`. What is printed is left out, but the requests made for it are not.
The discovery of the build addresses is an input: it gives them or raises.
-/

namespace OnixCore.BuildbotPrCheck

/-- The dictionaries of the report, as what was put into them one after another. Each result comes
with its place among the requests. -/
structure BuildStatusReport where
  results : List (ℕ × BuildRequestStatus)

namespace BuildStatusReport

variable (report : BuildStatusReport)

/-- `statuses[status]`, empty where the status is no key. -/
def statuses (status : Option BuildStatus) : List (ℕ × BuildRequestStatus) :=
  report.results.filter (·.2.status = status)

/-- `build_id_map.get(req_id)` -/
def buildId (requestId : ℕ) : Option ℕ :=
  (report.results.filter (·.2.requestId = requestId)).getLast?.bind (·.2.buildId)

end BuildStatusReport

/-- What one worker leaves. Any exception counts as no status. -/
def workerResult (answers : BuildAnswers) (request : ℕ × ℕ) : ℕ × BuildRequestStatus :=
  match checkBuildRequestStatus request.1 (answers.requests request.2) with
  | .ok status => (request.2, status)
  | .error _ => (request.2, ⟨request.1, none, none⟩)

def checkBuildStatus (build : BuildWithTriggers) : Except Raised BuildStatusReport := do
  let _ ← (getParentBuildStatus build.answers.parentBefore).mapError .request
  getBuildNames build.answers
  return ⟨(build.answers.completion.order build.buildRequests.zipIdx).map
    (workerResult build.answers)⟩

def allStatuses : List BuildStatus :=
  [.success, .warnings, .failure, .skipped, .exception, .retry, .cancelled]

/-- The logs of one result that is shown in detail. -/
def requestLogs (answers : BuildAnswers) (report : BuildStatusReport) (status : BuildStatus)
    (result : ℕ × BuildRequestStatus) : Except Raised Unit :=
  if status ∈ broken ∧ (report.buildId result.2.requestId).any (· ≠ 0) then
    (getBuildLogUrls (answers.requests result.1).buildSteps).mapError .request
  else .ok ()

section Check

variable (included : Option (BuildStatus → Bool))

def printBuildReport (build : BuildWithTriggers) (report : BuildStatusReport) :
    Except Raised Unit :=
  (allStatuses.filter (included.getD (· ∈ [.failure, .cancelled]))).forM fun status =>
    ((report.statuses status).mergeSort fun x y => x.2.requestId ≤ y.2.requestId).forM
      (requestLogs build.answers report status)

/-- One turn of the loop over the builds. -/
def checkBuild (build : BuildWithTriggers) (exitCode : ℕ) : Except Raised ℕ := do
  let report ← checkBuildStatus build
  printBuildReport included build report
  let parentStatus ← (getParentBuildStatus build.answers.parentAfter).mapError .request
  return if parentStatus.any (· ∈ broken) ∨ report.statuses (some .failure) ≠ []
    ∨ report.statuses (some .cancelled) ≠ [] then 1 else exitCode

def checkBuilds : List BuildWithTriggers → ℕ → Except Raised ℕ
  | [], exitCode => .ok exitCode
  | build :: builds, exitCode => checkBuild included build exitCode >>= checkBuilds builds

inductive Exit where
  | code (n : ℕ)
  | crashed
  deriving DecidableEq

/-- The body of the `try` in `check_pr`. -/
def checkDiscovered (discovered : Except Raised (List Discovered)) : Except Raised ℕ := do
  let found ← discovered
  if found.isEmpty then return 0
  let builds ← filterBuildsWithTriggers found
  if builds.isEmpty then return 0
  checkBuilds included builds 0

def checkPr (discovered : Except Raised (List Discovered)) : Exit :=
  match checkDiscovered included discovered with
  | .ok exitCode => .code exitCode
  | .error .buildbotCheckError => .code 1
  | .error (.request _) => .crashed

end Check

end OnixCore.BuildbotPrCheck
