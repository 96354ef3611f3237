import Mathlib.Data.Nat.Notation
import OnixCore.Lib.Json

/-!
# The documents of the Radicle CI runner

The records the runner and the promotion guard exchange, with the JSON of those that are hashed:
a record is an object with its fields in order, a tuple is an array, an absent value is `null`.
Counters and sizes are natural numbers, an exit code is an integer.
-/

namespace OnixCore.RadicleCi

def eventSchema : String := "onix.radicle-ci-event.v1"

def resultSchema : String := "onix.radicle-ci-result.v1"

def statusSchema : String := "onix.radicle-ci-status.v1"

def guardPolicySchema : String := "onix.radicle-forge-guard.v1"

def guardDecisionSchema : String := "onix.radicle-forge-guard-decision.v1"

def valenceAdmissionSchema : String := "valence.radicle-forge-operations.ci-admission.v1"

def requiredSignedRefsFeature : String := "parent"

def blake3HexLength : ℕ := 64

def gitOidHexLength : ℕ := 40

def maxTextBytes : ℕ := 1024

def successExitCode : ℤ := 0

inductive TriggerClass where
  | patch
  | canonicalBranch
  | canonicalTag
  deriving DecidableEq, Repr

def TriggerClass.toJson : TriggerClass → Json
  | .patch => .str "patch"
  | .canonicalBranch => .str "canonical_branch"
  | .canonicalTag => .str "canonical_tag"

inductive RunnerDisposition where
  | succeeded
  | exitFailed
  | timedOut
  | cancelled
  | outputLimitExceeded
  | infrastructureFailed
  deriving DecidableEq, Repr

def RunnerDisposition.toJson : RunnerDisposition → Json
  | .succeeded => .str "succeeded"
  | .exitFailed => .str "exit_failed"
  | .timedOut => .str "timed_out"
  | .cancelled => .str "cancelled"
  | .outputLimitExceeded => .str "output_limit_exceeded"
  | .infrastructureFailed => .str "infrastructure_failed"

structure LockIdentityV1 where
  cargoTomlBlake3 : String
  cargoLockBlake3 : String
  flakeNixBlake3 : String
  flakeLockBlake3 : String
  deriving DecidableEq, Repr

def LockIdentityV1.toJson (x : LockIdentityV1) : Json :=
  .obj [
    ("cargo_toml_blake3", .str x.cargoTomlBlake3),
    ("cargo_lock_blake3", .str x.cargoLockBlake3),
    ("flake_nix_blake3", .str x.flakeNixBlake3),
    ("flake_lock_blake3", .str x.flakeLockBlake3)]

structure AdmittedEventV1 where
  schema : String
  jobId : String
  policyBlake3 : String
  rid : String
  trigger : TriggerClass
  reference : String
  objectOid : String
  patchId : Option String
  revisionId : Option String
  signedRefsFeature : String
  sourceArchiveBlake3 : String
  locks : LockIdentityV1
  claimScope : String
  deriving DecidableEq, Repr

def AdmittedEventV1.toJson (x : AdmittedEventV1) : Json :=
  .obj [
    ("schema", .str x.schema),
    ("job_id", .str x.jobId),
    ("policy_blake3", .str x.policyBlake3),
    ("rid", .str x.rid),
    ("trigger", x.trigger.toJson),
    ("reference", .str x.reference),
    ("object_oid", .str x.objectOid),
    ("patch_id", Json.option .str x.patchId),
    ("revision_id", Json.option .str x.revisionId),
    ("signed_refs_feature", .str x.signedRefsFeature),
    ("source_archive_blake3", .str x.sourceArchiveBlake3),
    ("locks", x.locks.toJson),
    ("claim_scope", .str x.claimScope)]

structure JobResultV1 where
  schema : String
  jobId : String
  rid : String
  trigger : TriggerClass
  objectOid : String
  patchId : Option String
  revisionId : Option String
  disposition : RunnerDisposition
  exitCode : Option ℤ
  stdoutObservedBytes : ℕ
  stdoutRetainedBytes : ℕ
  stdoutBlake3 : String
  stderrObservedBytes : ℕ
  stderrRetainedBytes : ℕ
  stderrBlake3 : String
  artifactBytes : ℕ
  artifactBlake3 : String
  statusAuthority : String
  claimScope : String
  nonClaims : List String
  deriving DecidableEq, Repr

def JobResultV1.toJson (x : JobResultV1) : Json :=
  .obj [
    ("schema", .str x.schema),
    ("job_id", .str x.jobId),
    ("rid", .str x.rid),
    ("trigger", x.trigger.toJson),
    ("object_oid", .str x.objectOid),
    ("patch_id", Json.option .str x.patchId),
    ("revision_id", Json.option .str x.revisionId),
    ("disposition", x.disposition.toJson),
    ("exit_code", Json.option .num x.exitCode),
    ("stdout_observed_bytes", .num x.stdoutObservedBytes),
    ("stdout_retained_bytes", .num x.stdoutRetainedBytes),
    ("stdout_blake3", .str x.stdoutBlake3),
    ("stderr_observed_bytes", .num x.stderrObservedBytes),
    ("stderr_retained_bytes", .num x.stderrRetainedBytes),
    ("stderr_blake3", .str x.stderrBlake3),
    ("artifact_bytes", .num x.artifactBytes),
    ("artifact_blake3", .str x.artifactBlake3),
    ("status_authority", .str x.statusAuthority),
    ("claim_scope", .str x.claimScope),
    ("non_claims", Json.strings x.nonClaims)]

structure SignedStatusV1 where
  schema : String
  statusBlake3 : String
  policyBlake3 : String
  rid : String
  patchId : String
  revisionId : String
  checkName : String
  jobId : String
  objectOid : String
  disposition : RunnerDisposition
  artifactBlake3 : String
  eventBlake3 : String
  resultBlake3 : String
  claimScope : String
  nonClaim : String
  deriving DecidableEq, Repr

structure ForgeGuardPolicyV1 where
  schema : String
  statusSchema : String
  admissionSchema : String
  eventSchema : String
  resultSchema : String
  rid : String
  ciPolicyBlake3 : String
  valenceRevision : String
  botDid : String
  delegates : List String
  threshold : ℕ
  requiredCheck : String
  targetRef : String
  signedRefsFeature : String
  admissionNonClaims : List String
  requiredNonClaims : List String
  deriving DecidableEq, Repr

structure ValenceAdmissionReceiptV1 where
  schema : String
  receiptBlake3 : String
  policyBlake3 : String
  rid : String
  patchId : String
  revisionId : String
  currentCanonicalOid : String
  candidateOid : String
  jobId : String
  eventBlake3 : String
  resultBlake3 : String
  botDid : String
  approvingDelegates : List String
  threshold : ℕ
  disposition : String
  claimScope : String
  requiredNonClaims : List String
  deriving DecidableEq, Repr

structure LiveGuardObservationV1 where
  rid : String
  patchId : String
  revisionId : String
  baseOid : String
  candidateOid : String
  targetRef : String
  currentCanonicalOid : String
  candidatePresent : Bool
  candidateIsDescendant : Bool
  canonicalObservationCurrent : Bool
  evaluatorVerified : Bool
  signedRefsFeature : String
  statusAuthorDid : String
  status : SignedStatusV1
  approvingDelegates : List String
  signingDelegates : List String
  deriving DecidableEq, Repr

structure GuardIssue where
  code : String
  path : String
  deriving DecidableEq, Repr

def GuardIssue.toJson (x : GuardIssue) : Json :=
  .obj [
    ("code", .str x.code),
    ("path", .str x.path)]

structure GuardDecisionV1 where
  schema : String
  decisionBlake3 : String
  ciPolicyBlake3 : String
  valenceRevision : String
  rid : String
  patchId : String
  revisionId : String
  targetRef : String
  expectedOldOid : String
  candidateOid : String
  jobId : String
  eventBlake3 : String
  resultBlake3 : String
  statusBlake3 : String
  valenceReceiptBlake3 : String
  approvingDelegates : List String
  signingDelegates : List String
  threshold : ℕ
  claimScope : String
  requiredNonClaims : List String
  deriving DecidableEq, Repr

def GuardDecisionV1.toJson (x : GuardDecisionV1) : Json :=
  .obj [
    ("schema", .str x.schema),
    ("decision_blake3", .str x.decisionBlake3),
    ("ci_policy_blake3", .str x.ciPolicyBlake3),
    ("valence_revision", .str x.valenceRevision),
    ("rid", .str x.rid),
    ("patch_id", .str x.patchId),
    ("revision_id", .str x.revisionId),
    ("target_ref", .str x.targetRef),
    ("expected_old_oid", .str x.expectedOldOid),
    ("candidate_oid", .str x.candidateOid),
    ("job_id", .str x.jobId),
    ("event_blake3", .str x.eventBlake3),
    ("result_blake3", .str x.resultBlake3),
    ("status_blake3", .str x.statusBlake3),
    ("valence_receipt_blake3", .str x.valenceReceiptBlake3),
    ("approving_delegates", Json.strings x.approvingDelegates),
    ("signing_delegates", Json.strings x.signingDelegates),
    ("threshold", .num x.threshold),
    ("claim_scope", .str x.claimScope),
    ("required_non_claims", Json.strings x.requiredNonClaims)]

structure GuardReportV1 where
  schema : String
  admitted : Bool
  issues : List GuardIssue
  decision : Option GuardDecisionV1
  deriving DecidableEq, Repr

def GuardReportV1.toJson (x : GuardReportV1) : Json :=
  .obj [
    ("schema", .str x.schema),
    ("admitted", .bool x.admitted),
    ("issues", .arr (x.issues.map GuardIssue.toJson)),
    ("decision", Json.option GuardDecisionV1.toJson x.decision)]

/-- A rejection: its stable code, and the text that goes with it. -/
structure Diagnostic where
  code : String
  message : String
  deriving DecidableEq, Repr

def Diagnostic.text (d : Diagnostic) : String := d.code ++ ": " ++ d.message

end OnixCore.RadicleCi
