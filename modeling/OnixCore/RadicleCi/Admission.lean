import Mathlib.Data.List.Infix
import OnixCore.Lib.Text
import OnixCore.RadicleCi.Documents

/-!
# Admission and classification

What the runner accepts: a configuration, a candidate under it, the event a candidate becomes, and
the result of a run. Every check answers with its own diagnostic, the first that fails.

The predicates on identifiers here are the runner's own; the guard has its own versions.
-/

namespace OnixCore.RadicleCi

structure RunnerLimitsV1 where
  timeoutMs : ℕ
  stdinMaxBytes : ℕ
  stdoutMaxBytes : ℕ
  stderrMaxBytes : ℕ
  pollIntervalMs : ℕ
  teardownTimeoutMs : ℕ
  artifactMaxBytes : ℕ
  memoryMaxBytes : ℕ
  cpuQuotaPercent : ℕ
  maxParallelJobs : ℕ
  deriving DecidableEq, Repr

structure RunnerConfigV1 where
  schema : String
  rid : String
  signedRefsFeature : String
  productionSeed : String
  productionSeedNodeId : String
  productionSeedAddress : String
  reviewedCommit : String
  policyBlake3 : String
  checkName : String
  botPublicKey : String
  botNodeId : String
  botFingerprint : String
  delegates : List String
  expectedLocks : LockIdentityV1
  commandProgram : String
  commandArguments : List String
  allowedInputUris : List String
  gitProgram : String
  nixProgram : String
  nixConfDir : String
  tarProgram : String
  radProgram : String
  sshProgram : String
  storagePath : String
  botStatePath : String
  exchangePath : String
  runnerStatePath : String
  artifactPath : String
  localStoreRoot : String
  limits : RunnerLimitsV1
  deriving DecidableEq, Repr

structure CandidateV1 where
  rid : String
  trigger : TriggerClass
  reference : String
  objectOid : String
  patchId : Option String
  revisionId : Option String
  objectPresentLocally : Bool
  objectIsCurrent : Bool
  signedRefsFeature : String
  delegateAlignmentVerified : Bool
  observedLocks : LockIdentityV1
  deriving DecidableEq, Repr

structure ObservationV1 where
  disposition : RunnerDisposition
  exitCode : Option ℤ
  stdoutObservedBytes : ℕ
  stdoutRetainedBytes : ℕ
  stdoutBlake3 : String
  stderrObservedBytes : ℕ
  stderrRetainedBytes : ℕ
  stderrBlake3 : String
  artifactBytes : ℕ
  artifactBlake3 : String
  deriving DecidableEq, Repr

def configSchema : String := "onix.radicle-ci-runner.v1"

def jobIdDomain : String := "onix/radicle-ci/job/v1"

def eventClaimScope : String := "exact-object-bounded-ci-input"

def resultStatusAuthority : String := "non-delegate-patch-comment-only"

def resultClaimScope : String := "bounded-ci-observation"

def maxArgumentCount : ℕ := 64

def maxAllowedInputUris : ℕ := 4

def maxDelegateCount : ℕ := 16

def maxTimeoutMs : ℕ := 3600000

def maxOutputBytes : ℕ := 16 * 1048576

def maxArtifactBytes : ℕ := 1073741824

def maxMemoryBytes : ℕ := 68719476736

def maxCpuQuotaPercent : ℕ := 800

def maxParallelJobs : ℕ := 8

def requiredNonClaims : List String := [
  "ci-result-does-not-prove-source-correctness",
  "ci-result-does-not-prove-nix-correctness",
  "ci-result-does-not-prove-host-sandboxing",
  "ci-result-does-not-prove-canonical-ref-authority",
  "ci-result-does-not-prove-release-readiness",
  "artifact-publication-does-not-prove-remote-durability",
  "status-publication-does-not-prove-merge-eligibility",
  "bot-replication-does-not-grant-production-seed-policy-authority"]

def startsWith (start value : String) : Bool := start.toList <+: value.toList

def endsWith (ending value : String) : Bool := ending.toList <:+ value.toList

def contains (part value : String) : Bool := part.toList <:+: value.toList

/-- The number of words between white space. -/
def wordCount (value : String) : ℕ :=
  (value.toList.splitOnP Text.isWhitespace).countP (· ≠ [])

namespace Admission

def isControl (c : Char) : Bool := c.toNat < 0x20 ∨ (0x7F ≤ c.toNat ∧ c.toNat ≤ 0x9F)

def oneLine (value : String) : Bool :=
  value ≠ "" ∧ value.utf8ByteSize ≤ maxTextBytes ∧ value.toList.all (!isControl ·)

def absolutePath (value : String) : Bool :=
  startsWith "/" value ∧ value.utf8ByteSize ≤ maxTextBytes ∧ '\x00' ∉ value.toList

def radicleId (value : String) : Bool :=
  startsWith "rad:z" value ∧ value.utf8ByteSize ≤ maxTextBytes

def lowerHexDigit (c : Char) : Bool := c.isDigit ∨ ('a' ≤ c ∧ c ≤ 'f')

def gitOid (value : String) : Bool :=
  value.utf8ByteSize = gitOidHexLength ∧ value.toList.all lowerHexDigit

def blake3Digest (value : String) : Bool :=
  value.utf8ByteSize = blake3HexLength ∧ value.toList.all lowerHexDigit

end Admission

open Admission in
def validateLocks (locks : LockIdentityV1) : Except Diagnostic Unit :=
  if blake3Digest locks.cargoTomlBlake3 ∧ blake3Digest locks.cargoLockBlake3
      ∧ blake3Digest locks.flakeNixBlake3 ∧ blake3Digest locks.flakeLockBlake3 then .ok ()
  else .error ⟨"ci-config-locks", "expected source-control BLAKE3 identities are malformed"⟩

def validateLimits (limits : RunnerLimitsV1) : Except Diagnostic Unit :=
  if limits.timeoutMs = 0 ∨ limits.timeoutMs > maxTimeoutMs
      ∨ limits.stdinMaxBytes = 0
      ∨ limits.stdoutMaxBytes = 0 ∨ limits.stdoutMaxBytes > maxOutputBytes
      ∨ limits.stderrMaxBytes = 0 ∨ limits.stderrMaxBytes > maxOutputBytes
      ∨ limits.pollIntervalMs = 0 ∨ limits.pollIntervalMs > limits.timeoutMs
      ∨ limits.teardownTimeoutMs = 0
      ∨ limits.artifactMaxBytes = 0 ∨ limits.artifactMaxBytes > maxArtifactBytes
      ∨ limits.memoryMaxBytes = 0 ∨ limits.memoryMaxBytes > maxMemoryBytes
      ∨ limits.cpuQuotaPercent = 0 ∨ limits.cpuQuotaPercent > maxCpuQuotaPercent
      ∨ limits.maxParallelJobs = 0 ∨ limits.maxParallelJobs > maxParallelJobs then
    .error ⟨"ci-config-limits", "runner limits are zero, inconsistent, or above hard maxima"⟩
  else .ok ()

open Admission in
/-- Validates a deployment configuration without observing the host. -/
def validateConfig (config : RunnerConfigV1) : Except Diagnostic Unit := do
  if config.schema ≠ configSchema ∨ !radicleId config.rid
      ∨ config.signedRefsFeature ≠ requiredSignedRefsFeature then
    throw ⟨"ci-config-header",
      "configuration schema, RID, or signed-reference feature is invalid"⟩
  if !gitOid config.reviewedCommit ∨ !blake3Digest config.policyBlake3
      ∨ !oneLine config.checkName
      ∨ !startsWith config.productionSeedNodeId config.productionSeed
      ∨ !endsWith config.productionSeedAddress config.productionSeed
      ∨ config.productionSeedNodeId = config.botNodeId
      ∨ config.delegates.any (endsWith config.botNodeId) then
    throw ⟨"ci-config-identity",
      "reviewed source, seed, bot, or delegate identity is invalid"⟩
  if config.delegates = [] ∨ config.delegates.length > maxDelegateCount
      ∨ wordCount config.botPublicKey ≠ 2
      ∨ !startsWith "ssh-ed25519 " config.botPublicKey
      ∨ !startsWith "SHA256:" config.botFingerprint then
    throw ⟨"ci-config-bot", "bot public identity or delegate policy is malformed"⟩
  validateLocks config.expectedLocks
  validateLimits config.limits
  if !absolutePath config.commandProgram ∨ !absolutePath config.gitProgram
      ∨ !absolutePath config.nixProgram ∨ !absolutePath config.tarProgram
      ∨ !absolutePath config.radProgram ∨ !absolutePath config.sshProgram
      ∨ config.commandProgram ≠ config.nixProgram
      ∨ config.commandArguments = [] ∨ config.commandArguments.length > maxArgumentCount
      ∨ config.commandArguments.any (fun argument =>
          argument = "" ∨ argument.utf8ByteSize > maxTextBytes)
      ∨ "--no-update-lock-file" ∉ config.commandArguments then
    throw ⟨"ci-config-command", "runner command or executable path is invalid"⟩
  if config.allowedInputUris = [] ∨ config.allowedInputUris.length > maxAllowedInputUris
      ∨ config.allowedInputUris.any (fun uri =>
          !startsWith "github:" uri ∨ uri.utf8ByteSize > maxTextBytes
            ∨ uri.toList.any Text.isWhitespace) then
    throw ⟨"ci-config-input-uris", "restricted evaluation input URI allowlist is invalid"⟩
  if [config.storagePath, config.botStatePath, config.nixConfDir, config.exchangePath,
      config.runnerStatePath, config.artifactPath, config.localStoreRoot].any
        (!absolutePath ·) then
    throw ⟨"ci-config-path", "runner state paths must be absolute"⟩

def validateTrigger (candidate : CandidateV1) : Except Diagnostic Unit := do
  if candidate.reference = "" ∨ candidate.reference.utf8ByteSize > maxTextBytes then
    throw ⟨"ci-candidate-reference", "candidate reference is empty or too long"⟩
  match candidate.trigger with
  | .patch =>
    if candidate.patchId.all (· = "") ∨ candidate.revisionId.all (· = "")
        ∨ !contains "refs/cobs/xyz.radicle.patch/" candidate.reference then
      throw ⟨"ci-candidate-patch", "patch candidate lacks exact patch and revision linkage"⟩
  | .canonicalBranch =>
    if candidate.patchId.isSome ∨ candidate.revisionId.isSome
        ∨ candidate.reference ≠ "refs/heads/main" then
      throw ⟨"ci-candidate-branch", "canonical branch candidate is malformed"⟩
  | .canonicalTag =>
    if candidate.patchId.isSome ∨ candidate.revisionId.isSome
        ∨ !startsWith "refs/tags/" candidate.reference then
      throw ⟨"ci-candidate-tag", "canonical tag candidate is malformed"⟩

section Digests

variable (blake3 : Json → String)

def deriveJobId (config : RunnerConfigV1) (candidate : CandidateV1)
    (sourceArchiveBlake3 : String) : String :=
  blake3 (.arr [.str jobIdDomain, .str config.policyBlake3, .str candidate.rid,
    candidate.trigger.toJson, .str candidate.reference, .str candidate.objectOid,
    Json.option .str candidate.patchId, Json.option .str candidate.revisionId,
    .str sourceArchiveBlake3, candidate.observedLocks.toJson])

/-- Admits a current exact object under the configured policy. -/
def admitCandidate (config : RunnerConfigV1) (candidate : CandidateV1)
    (sourceArchiveBlake3 : String) : Except Diagnostic AdmittedEventV1 := do
  validateConfig config
  if candidate.rid ≠ config.rid ∨ !Admission.gitOid candidate.objectOid
      ∨ !candidate.objectPresentLocally ∨ !candidate.objectIsCurrent
      ∨ candidate.signedRefsFeature ≠ config.signedRefsFeature
      ∨ !candidate.delegateAlignmentVerified then
    throw ⟨"ci-candidate-source",
      "candidate is not the current admitted local Radicle object"⟩
  validateTrigger candidate
  if candidate.observedLocks ≠ config.expectedLocks then
    throw ⟨"ci-candidate-locks", "candidate changed an admitted Cargo or Nix control file"⟩
  if !Admission.blake3Digest sourceArchiveBlake3 then
    throw ⟨"ci-candidate-archive", "source archive BLAKE3 is malformed"⟩
  return {
    schema := eventSchema
    jobId := deriveJobId blake3 config candidate sourceArchiveBlake3
    policyBlake3 := config.policyBlake3
    rid := candidate.rid
    trigger := candidate.trigger
    reference := candidate.reference
    objectOid := candidate.objectOid
    patchId := candidate.patchId
    revisionId := candidate.revisionId
    signedRefsFeature := candidate.signedRefsFeature
    sourceArchiveBlake3 := sourceArchiveBlake3
    locks := candidate.observedLocks
    claimScope := eventClaimScope }

/-- The candidate an event is checked again as. -/
def eventCandidate (event : AdmittedEventV1) : CandidateV1 where
  rid := event.rid
  trigger := event.trigger
  reference := event.reference
  objectOid := event.objectOid
  patchId := event.patchId
  revisionId := event.revisionId
  objectPresentLocally := true
  objectIsCurrent := true
  signedRefsFeature := event.signedRefsFeature
  delegateAlignmentVerified := true
  observedLocks := event.locks

/-- Validates a persisted event again, before it is executed. -/
def validateEvent (config : RunnerConfigV1) (event : AdmittedEventV1) :
    Except Diagnostic Unit := do
  validateConfig config
  if event.schema ≠ eventSchema ∨ event.policyBlake3 ≠ config.policyBlake3
      ∨ event.rid ≠ config.rid ∨ !Admission.gitOid event.objectOid
      ∨ !Admission.blake3Digest event.sourceArchiveBlake3
      ∨ event.signedRefsFeature ≠ config.signedRefsFeature
      ∨ event.locks ≠ config.expectedLocks ∨ event.claimScope ≠ eventClaimScope then
    throw ⟨"ci-event-shape", "persisted event does not match the admitted policy"⟩
  validateTrigger (eventCandidate event)
  if event.jobId ≠ deriveJobId blake3 config (eventCandidate event) event.sourceArchiveBlake3 then
    throw ⟨"ci-event-job-id", "persisted event job identity does not match its facts"⟩

/-- Classifies one bounded process observation under the admitted event. -/
def classifyObservation (config : RunnerConfigV1) (event : AdmittedEventV1)
    (observation : ObservationV1) : Except Diagnostic JobResultV1 := do
  validateEvent blake3 config event
  if !Admission.blake3Digest observation.stdoutBlake3
      ∨ !Admission.blake3Digest observation.stderrBlake3
      ∨ !Admission.blake3Digest observation.artifactBlake3
      ∨ observation.stdoutRetainedBytes > config.limits.stdoutMaxBytes
      ∨ observation.stderrRetainedBytes > config.limits.stderrMaxBytes
      ∨ observation.stdoutRetainedBytes > observation.stdoutObservedBytes
      ∨ observation.stderrRetainedBytes > observation.stderrObservedBytes
      ∨ observation.artifactBytes > config.limits.artifactMaxBytes
      ∨ (observation.disposition = .succeeded
        ∧ observation.exitCode ≠ some successExitCode) then
    throw ⟨"ci-observation-bounds",
      "runner observation is malformed or above configured limits"⟩
  return {
    schema := resultSchema
    jobId := event.jobId
    rid := event.rid
    trigger := event.trigger
    objectOid := event.objectOid
    patchId := event.patchId
    revisionId := event.revisionId
    disposition := observation.disposition
    exitCode := observation.exitCode
    stdoutObservedBytes := observation.stdoutObservedBytes
    stdoutRetainedBytes := observation.stdoutRetainedBytes
    stdoutBlake3 := observation.stdoutBlake3
    stderrObservedBytes := observation.stderrObservedBytes
    stderrRetainedBytes := observation.stderrRetainedBytes
    stderrBlake3 := observation.stderrBlake3
    artifactBytes := observation.artifactBytes
    artifactBlake3 := observation.artifactBlake3
    statusAuthority := resultStatusAuthority
    claimScope := resultClaimScope
    nonClaims := requiredNonClaims }

end Digests

/-- Validates a result before its status is published. -/
def validateResult (event : AdmittedEventV1) (result : JobResultV1) : Except Diagnostic Unit :=
  if result.schema ≠ resultSchema ∨ result.jobId ≠ event.jobId ∨ result.rid ≠ event.rid
      ∨ result.trigger ≠ event.trigger ∨ result.objectOid ≠ event.objectOid
      ∨ result.patchId ≠ event.patchId ∨ result.revisionId ≠ event.revisionId
      ∨ !Admission.blake3Digest result.stdoutBlake3
      ∨ !Admission.blake3Digest result.stderrBlake3
      ∨ !Admission.blake3Digest result.artifactBlake3
      ∨ result.statusAuthority ≠ resultStatusAuthority
      ∨ result.claimScope ≠ resultClaimScope ∨ result.nonClaims ≠ requiredNonClaims then
    .error ⟨"ci-result-shape",
      "job result does not preserve the admitted event and claim boundary"⟩
  else .ok ()

end OnixCore.RadicleCi
