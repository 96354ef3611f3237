import Mathlib.Data.List.Infix
import OnixCore.Lib.Steps
import OnixCore.NixEvalWarnings.Warnings

/-!
# The requests of buildbot-pr-check

`url_parser.py` and `buildbot_api.py` over the answers to their requests. An answer holds what is
read of a body; a body of another shape is the exception that reading it raises. Names and log
addresses are only printed and left out.
-/

namespace OnixCore.BuildbotPrCheck

open NixEvalWarnings (isdecimal zeros)
open Pattern

inductive BuildStatus where
  | success
  | warnings
  | failure
  | skipped
  | exception
  | retry
  | cancelled
  deriving DecidableEq

def getBuildStatus : Option Int → Option BuildStatus
  | some 0 => some .success
  | some 1 => some .warnings
  | some 2 => some .failure
  | some 3 => some .skipped
  | some 4 => some .exception
  | some 5 => some .retry
  | some 6 => some .cancelled
  | _ => none

/-- `[FAILURE, EXCEPTION, CANCELLED]`, as the parent build is compared with it -/
def broken : List BuildStatus := [.failure, .exception, .cancelled]

/-- How a request fails: `URLError` with `HTTPError`, `JSONDecodeError`, `KeyError`, or otherwise. -/
inductive RequestError where
  | urlError
  | jsonDecodeError
  | keyError
  | other
  deriving DecidableEq

/-- What most requests expect. -/
def RequestError.unavailable : RequestError → Bool
  | .urlError | .jsonDecodeError => true
  | .keyError | .other => false

abbrev Answer (α : Type) := Except RequestError α

/-- The exceptions of the tool itself, and those that requests leave. -/
inductive Raised where
  | buildbotCheckError
  | request (error : RequestError)

section Recover

variable {α : Type}

/-- An `except` clause around `x`. -/
def recover (handled : RequestError → Bool) (fallback : α) : Answer α → Answer α
  | .error e => if handled e then .ok fallback else .error e
  | .ok a => .ok a

end Recover

structure Step where
  name : Text
  urls : List Text
  stepId : Option ℕ
  results : Option Int

structure Request where
  results : Option Int
  complete : Bool

/-- The answers about a parent build. The logs are asked for by the places of the steps. -/
structure ParentAnswers where
  build : Answer (Option Int)
  steps : Answer (List Step)
  logs : ℕ → Answer Unit

/-- The answers about one build request, with the steps of its build at the end. -/
structure RequestAnswers where
  request : Answer Request
  builds : Answer (List (Option ℕ))
  buildSteps : Answer (List Step)

structure BuildRequestStatus where
  requestId : ℕ
  status : Option BuildStatus
  buildId : Option ℕ

/-- `as_completed`: the requests, each with its place, in the order in which their workers end. -/
structure Completion where
  order : List (ℕ × ℕ) → List (ℕ × ℕ)
  perm : ∀ requests : List (ℕ × ℕ), (order requests).Perm requests

/-- What Buildbot answers while one address is checked, in the order of the requests. -/
structure BuildAnswers where
  steps : Answer (List Step)
  parentBefore : ParentAnswers
  properties : Answer (List Text)
  stepsAgain : Answer (List Step)
  requests : ℕ → RequestAnswers
  completion : Completion
  parentAfter : ParentAnswers

structure BuildInfo where
  baseUrl : Text
  builderId : Text
  buildNum : Text

/-- `/builders/(\d+)/builds/(\d+)` -/
def buildPattern : List Item :=
  literal "/builders/".toList ++ [.mark, .one isdecimal, .many isdecimal, .mark]
    ++ literal "/builds/".toList ++ [.mark, .one isdecimal, .many isdecimal, .mark]

def extractBuildInfo (buildbotUrl : Text) : Option BuildInfo :=
  (matchesIn buildPattern buildbotUrl).head?.map fun m =>
    ⟨(buildbotUrl.splitOn '/').getD 2 [], m.group 0, m.group 1⟩

/-- `buildrequests/(\d+)` -/
def requestPattern : List Item :=
  literal "buildrequests/".toList ++ [.mark, .one isdecimal, .many isdecimal, .mark]

def digitValue (c : Char) : ℕ :=
  ((zeros.find? fun first => first ≤ c.toNat && c.toNat < first + 10).map (c.toNat - ·)).getD 0

/-- `int`, which refuses a longer text. -/
def int (digits : Text) : Answer ℕ :=
  if 4300 < digits.length then .error .other
  else .ok (digits.foldl (fun n c => 10 * n + digitValue c) 0)

/-- The digits of the build requests that the steps link to. No letter beyond ASCII becomes one of
`build` in lower case. -/
def linkedRequests (steps : List Step) : List Text :=
  (steps.filter fun step => step.name = "build flake".toList
      ∨ "build".toList <:+: step.name.map Char.toLower).flatMap fun step =>
    (step.urls.filter ("buildrequests".toList <:+: ·)).filterMap fun url =>
      (matchesIn requestPattern url).head?.map (·.group 0)

def getTriggeredBuilds (answer : Answer (List Step)) : Except Raised (List ℕ) :=
  match answer with
  | .error e => .error (if e.unavailable then .buildbotCheckError else .request e)
  | .ok steps => do
    let buildRequests ← ((linkedRequests steps).mapM int).mapError .request
    return buildRequests.mergeSort

def checkBuildRequestStatus (requestId : ℕ) (answers : RequestAnswers) :
    Answer BuildRequestStatus :=
  recover (fun e => e.unavailable || e = .keyError) ⟨requestId, none, none⟩ do
    let request ← answers.request
    let buildId ← if request.complete then
        recover RequestError.unavailable none (answers.builds.map (·.head?.join))
      else .ok none
    return ⟨requestId, getBuildStatus request.results, buildId⟩

def getStepLogUrls (logs : Answer Unit) : Answer Unit := recover RequestError.unavailable () logs

/-- What the workers raise is printed, so that only the request for the steps can fail. -/
def getBuildLogUrls (steps : Answer (List Step)) : Answer Unit :=
  recover RequestError.unavailable () (steps.map fun _ => ())

def Step.failed (step : Step) : Bool :=
  (step.results.any (2 ≤ ·)) && step.stepId.any (· ≠ 0)

/-- The logs of one step, where it failed. -/
def failedStepLogs (logs : ℕ → Answer Unit) (step : Step × ℕ) : Answer Unit :=
  if step.1.failed then getStepLogUrls (logs step.2) else .ok ()

def getParentBuildStatus (answers : ParentAnswers) : Answer (Option BuildStatus) :=
  recover RequestError.unavailable none do
    let results ← answers.build
    let status := getBuildStatus results
    if status.any (· ∈ broken) then
      let steps ← answers.steps
      steps.zipIdx.forM (failedStepLogs answers.logs)
    return status

/-- The name of a property that holds the derivation of a system. -/
def isSystem (key : Text) : Bool :=
  ".nixos-".toList <:+: key && "-drv_path".toList <:+: key

/-- The names are only printed, but the requests for them can fail. -/
def getBuildNames (answers : BuildAnswers) : Except Raised Unit := do
  let keys ← (recover RequestError.unavailable [] answers.properties).mapError .request
  if keys.any isSystem then (getTriggeredBuilds answers.stepsAgain).map fun _ => () else .ok ()

/-- A build address among those found for the pull request, with what Buildbot answers. -/
structure Discovered where
  url : Text
  answers : BuildAnswers

/-- The parts of the address, where none of them is empty. -/
def Discovered.info? (found : Discovered) : Option BuildInfo :=
  (extractBuildInfo found.url).filter fun info =>
    info.baseUrl ≠ [] && info.builderId ≠ [] && info.buildNum ≠ []

structure BuildWithTriggers where
  url : Text
  info : BuildInfo
  buildRequests : List ℕ
  answers : BuildAnswers

def filterBuildsWithTriggers : List Discovered → Except Raised (List BuildWithTriggers)
  | [] => .ok []
  | found :: rest => match found.info? with
    | none => filterBuildsWithTriggers rest
    | some info => match getTriggeredBuilds found.answers.steps with
      | .error .buildbotCheckError => filterBuildsWithTriggers rest
      | .error (.request e) => .error (.request e)
      | .ok buildRequests =>
        (filterBuildsWithTriggers rest).map (⟨found.url, info, buildRequests, found.answers⟩ :: ·)

end OnixCore.BuildbotPrCheck
