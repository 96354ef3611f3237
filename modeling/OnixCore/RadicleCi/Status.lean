import OnixCore.RadicleCi.Admission
import OnixCore.RadicleCi.Guard

/-!
# The signed status

The bot states the outcome of a job in a comment on the patch revision: a marker line, one line of
JSON, and a boundary for human readers. `encode` and `decode` are the serializer of the one line.
-/

namespace OnixCore.RadicleCi

def statusMarker : String := "onix-radicle-ci-status:v1"

/-- The closed payload of the bot's patch comment. -/
def buildSignedStatus (blake3 : Json → String) (config : RunnerConfigV1) (event : AdmittedEventV1)
    (result : JobResultV1) : Except Diagnostic SignedStatusV1 := do
  validateEvent blake3 config event
  validateResult event result
  if event.trigger ≠ .patch then
    throw ⟨"ci-status-trigger", "signed status is only defined for patch revisions"⟩
  let some patchId := event.patchId
    | throw ⟨"ci-status-patch", "signed status lacks a patch ID"⟩
  let some revisionId := event.revisionId
    | throw ⟨"ci-status-revision", "signed status lacks a revision ID"⟩
  let status : SignedStatusV1 := {
    schema := statusSchema
    statusBlake3 := ""
    policyBlake3 := event.policyBlake3
    rid := event.rid
    patchId := patchId
    revisionId := revisionId
    checkName := config.checkName
    jobId := event.jobId
    objectOid := event.objectOid
    disposition := result.disposition
    artifactBlake3 := result.artifactBlake3
    eventBlake3 := blake3 event.toJson
    resultBlake3 := blake3 result.toJson
    claimScope := statusClaimScope
    nonClaim := statusNonClaim }
  return { status with statusBlake3 := expectedStatusBlake3 blake3 status }

def RunnerDisposition.debug : RunnerDisposition → String
  | .succeeded => "Succeeded"
  | .exitFailed => "ExitFailed"
  | .timedOut => "TimedOut"
  | .cancelled => "Cancelled"
  | .outputLimitExceeded => "OutputLimitExceeded"
  | .infrastructureFailed => "InfrastructureFailed"

/-- The comment's text: the marker, the JSON, and the boundary for human readers. -/
def renderSignedStatus (blake3 : Json → String) (encode : SignedStatusV1 → String)
    (status : SignedStatusV1) : Except Diagnostic String := do
  validateSignedStatus blake3 status
  return statusMarker ++ "\n" ++ encode status ++ "\n\nOnix CI `" ++ status.jobId ++ "` for `"
    ++ status.objectOid ++ "`: **" ++ status.disposition.debug ++ "**. Artifact BLAKE3 `"
    ++ status.artifactBlake3 ++ "`. Scope: bounded observation only; "
    ++ "this is not merge, canonical-ref, or release approval."

/-- Reads a comment's text back: the marker once, then one line of JSON. -/
def parseSignedStatus (blake3 : Json → String) (decode : String → Option SignedStatusV1)
    (body : String) : Except Diagnostic SignedStatusV1 := do
  match Text.lines body.toList with
  | [] => throw ⟨"ci-status-marker", "signed status marker is absent"⟩
  | marker :: rest =>
    if marker ≠ statusMarker.toList then
      throw ⟨"ci-status-marker", "signed status marker is absent"⟩
    match rest with
    | [] => throw ⟨"ci-status-json", "signed status JSON line is absent"⟩
    | json :: rest =>
      if json = [] ∨ statusMarker.toList ∈ rest then
        throw ⟨"ci-status-shape", "signed status body is malformed or repeated"⟩
      match decode (String.ofList json) with
      | none =>
        throw ⟨"ci-status-json", "signed status JSON is malformed or contains unknown fields"⟩
      | some status =>
        validateSignedStatus blake3 status
        return status

end OnixCore.RadicleCi
