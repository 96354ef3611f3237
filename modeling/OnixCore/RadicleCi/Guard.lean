import Mathlib.Data.List.Sort
import Mathlib.Data.List.Destutter
import OnixCore.RadicleCi.Documents

/-!
# The canonical guard

`evaluateCanonicalGuard` checks five documents against each other and admits a promotion when no
check raises an issue. Each validator raises its one issue unless all of its comparisons hold;
they stand here in the order of the source.

`blake3` is the digest of a serialized value: BLAKE3, in hexadecimal, of its compact JSON. The
records that are hashed always serialize.
-/

namespace OnixCore.RadicleCi

def statusClaimScope : String := "signed-bot-ci-observation-only"

def statusNonClaim : String :=
  "signed CI status records one bounded observation; " ++
    "it is not merge, canonical-ref, or release approval"

def guardClaimScope : String := "operator-atomic-compare-and-swap-input"

def valenceClaimScope : String := "external-guarded-compare-and-swap-input"

def succeededDisposition : String := "succeeded"

def canonicalTargetRef : String := "refs/heads/main"

def admissionMigrationNonClaim : String :=
  "migration records normalized source metadata and observed native COB state; " ++
    "it does not prove source export completeness, source actor authenticity, " ++
    "original signature or timestamp preservation, or semantic equivalence"

def admissionReviewNonClaim : String :=
  "imported review metadata is recorded attribution only and does not create Radicle approval, " ++
    "merge eligibility, delegate authority, or canonical-ref authority"

def admissionCiNonClaim : String :=
  "CI admission is bounded input for an external guarded compare-and-swap; " ++
    "it is not protocol-enforced mandatory CI, bypass-proof delegate behavior, " ++
    "canonical mutation, CI correctness, or release readiness"

def guardProtocolNonClaim : String :=
  "guard admission does not provide Radicle protocol-enforced mandatory CI, " ++
    "bypass-proof delegate behavior, or merge semantics"

def guardAuthorityNonClaim : String :=
  "guard execution does not grant canonical authority to the CI bot, " ++
    "credentialless runner, seeds, or Valence"

def guardExecutionNonClaim : String :=
  "guard execution receipt does not prove CI correctness, seed convergence, replication, " ++
    "release readiness, or post-update durability"

def admissionNonClaims : List String :=
  [admissionMigrationNonClaim, admissionReviewNonClaim, admissionCiNonClaim]

def guardNonClaims : List String :=
  [guardProtocolNonClaim, guardAuthorityNonClaim, guardExecutionNonClaim]

/-- Strictly increasing: sorted, with no value twice. -/
def uniqueSorted : List String → Bool
  | a :: b :: rest => a < b && uniqueSorted (b :: rest)
  | _ => true

def isControl (c : Char) : Bool := c.toNat < 0x20 ∨ (0x7F ≤ c.toNat ∧ c.toNat ≤ 0x9F)

def oneLine (value : String) : Bool :=
  value ≠ "" ∧ value.utf8ByteSize ≤ maxTextBytes ∧ value.toList.all (!isControl ·)

/-- A value with a fixed beginning, then at least one letter, digit or colon. -/
def prefixedId (start value : String) : Bool :=
  start.toList <+: value.toList ∧ start.utf8ByteSize < value.utf8ByteSize
    ∧ value.utf8ByteSize ≤ maxTextBytes ∧ value.toList.all fun c => c.isAlphanum ∨ c = ':'

def did (value : String) : Bool := prefixedId "did:key:z" value

def radicleId (value : String) : Bool := prefixedId "rad:z" value

def lowerHex (value : String) (length : ℕ) : Bool :=
  value.utf8ByteSize = length
    ∧ value.toList.all fun c => c.isDigit ∨ ('a' ≤ c ∧ c ≤ 'f')

def gitOid (value : String) : Bool := lowerHex value gitOidHexLength

def blake3Digest (value : String) : Bool := lowerHex value blake3HexLength

/-- One issue, raised unless the condition holds. -/
def issueUnless (c : Prop) [Decidable c] (code path : String) : List GuardIssue :=
  if c then [] else [⟨code, path⟩]

/-- What a policy states of itself. -/
def PolicyHolds (policy : ForgeGuardPolicyV1) : Prop :=
  policy.schema = guardPolicySchema
    ∧ policy.statusSchema = statusSchema
    ∧ policy.admissionSchema = valenceAdmissionSchema
    ∧ policy.eventSchema = eventSchema
    ∧ policy.resultSchema = resultSchema
    ∧ radicleId policy.rid = true
    ∧ blake3Digest policy.ciPolicyBlake3 = true
    ∧ gitOid policy.valenceRevision = true
    ∧ did policy.botDid = true
    ∧ policy.delegates ≠ []
    ∧ policy.threshold ≠ 0
    ∧ policy.threshold ≤ policy.delegates.length
    ∧ uniqueSorted policy.delegates = true
    ∧ (∀ delegate ∈ policy.delegates, did delegate = true ∧ delegate ≠ policy.botDid)
    ∧ oneLine policy.requiredCheck = true
    ∧ policy.targetRef = canonicalTargetRef
    ∧ policy.signedRefsFeature = requiredSignedRefsFeature
    ∧ policy.admissionNonClaims = admissionNonClaims
    ∧ policy.requiredNonClaims = guardNonClaims

def EventHolds (policy : ForgeGuardPolicyV1) (event : AdmittedEventV1) (eventBlake3 : String) :
    Prop :=
  event.schema = policy.eventSchema
    ∧ event.policyBlake3 = policy.ciPolicyBlake3
    ∧ event.rid = policy.rid
    ∧ event.trigger = .patch
    ∧ event.patchId.any gitOid = true
    ∧ event.revisionId.any gitOid = true
    ∧ gitOid event.objectOid = true
    ∧ event.signedRefsFeature = policy.signedRefsFeature
    ∧ blake3Digest eventBlake3 = true

def ResultHolds (policy : ForgeGuardPolicyV1) (event : AdmittedEventV1) (result : JobResultV1)
    (resultBlake3 : String) : Prop :=
  result.schema = policy.resultSchema
    ∧ result.jobId = event.jobId
    ∧ result.rid = event.rid
    ∧ result.trigger = event.trigger
    ∧ result.objectOid = event.objectOid
    ∧ result.patchId = event.patchId
    ∧ result.revisionId = event.revisionId
    ∧ result.disposition = .succeeded
    ∧ result.exitCode = some successExitCode
    ∧ blake3Digest result.artifactBlake3 = true
    ∧ blake3Digest resultBlake3 = true

section Digests

variable (blake3 : Json → String)

def expectedReceiptBlake3 (receipt : ValenceAdmissionReceiptV1) (delegates : List String) :
    String :=
  blake3 (.arr [.str valenceAdmissionSchema, .str receipt.policyBlake3, .str receipt.rid,
    .str receipt.patchId, .str receipt.revisionId, .str receipt.currentCanonicalOid,
    .str receipt.candidateOid, .str receipt.jobId, .str receipt.eventBlake3,
    .str receipt.resultBlake3, .str receipt.botDid, Json.strings delegates,
    .num receipt.threshold, .str receipt.disposition, .str receipt.claimScope,
    Json.strings receipt.requiredNonClaims])

def ReceiptHolds (policy : ForgeGuardPolicyV1) (receipt : ValenceAdmissionReceiptV1)
    (eventBlake3 resultBlake3 : String) : Prop :=
  let delegates := receipt.approvingDelegates.insertionSort (· ≤ ·)
  receipt.schema = policy.admissionSchema
    ∧ receipt.receiptBlake3 = expectedReceiptBlake3 blake3 receipt delegates
    ∧ receipt.policyBlake3 = policy.ciPolicyBlake3
    ∧ receipt.rid = policy.rid
    ∧ receipt.eventBlake3 = eventBlake3
    ∧ receipt.resultBlake3 = resultBlake3
    ∧ receipt.botDid = policy.botDid
    ∧ receipt.threshold = policy.threshold
    ∧ receipt.approvingDelegates = delegates
    ∧ policy.threshold ≤ receipt.approvingDelegates.length
    ∧ (∀ delegate ∈ receipt.approvingDelegates, delegate ∈ policy.delegates)
    ∧ receipt.disposition = succeededDisposition
    ∧ receipt.claimScope = valenceClaimScope
    ∧ receipt.requiredNonClaims = policy.admissionNonClaims
    ∧ gitOid receipt.patchId = true
    ∧ gitOid receipt.revisionId = true
    ∧ gitOid receipt.currentCanonicalOid = true
    ∧ gitOid receipt.candidateOid = true

def expectedStatusBlake3 (status : SignedStatusV1) : String :=
  blake3 (.arr [.str statusSchema, .str status.policyBlake3, .str status.rid,
    .str status.patchId, .str status.revisionId, .str status.checkName, .str status.jobId,
    .str status.objectOid, status.disposition.toJson, .str status.artifactBlake3,
    .str status.eventBlake3, .str status.resultBlake3, .str status.claimScope,
    .str status.nonClaim])

def SignedStatusHolds (status : SignedStatusV1) : Prop :=
  status.schema = statusSchema
    ∧ status.statusBlake3 = expectedStatusBlake3 blake3 status
    ∧ blake3Digest status.policyBlake3 = true
    ∧ radicleId status.rid = true
    ∧ gitOid status.patchId = true
    ∧ gitOid status.revisionId = true
    ∧ oneLine status.checkName = true
    ∧ blake3Digest status.jobId = true
    ∧ gitOid status.objectOid = true
    ∧ blake3Digest status.artifactBlake3 = true
    ∧ blake3Digest status.eventBlake3 = true
    ∧ blake3Digest status.resultBlake3 = true
    ∧ status.claimScope = statusClaimScope
    ∧ status.nonClaim = statusNonClaim

instance : DecidablePred (SignedStatusHolds blake3) :=
  fun _ => inferInstanceAs (Decidable (_ ∧ _))

def validateSignedStatus (status : SignedStatusV1) : Except Diagnostic Unit :=
  if SignedStatusHolds blake3 status then .ok ()
  else .error ⟨"ci-status-identity", "signed status shape or BLAKE3 identity is invalid"⟩

end Digests

def LivePatchHolds (policy : ForgeGuardPolicyV1) (event : AdmittedEventV1) (result : JobResultV1)
    (valence : ValenceAdmissionReceiptV1) (live : LiveGuardObservationV1) : Prop :=
  live.rid = policy.rid
    ∧ live.patchId = event.patchId.getD ""
    ∧ live.patchId = valence.patchId
    ∧ live.revisionId = event.revisionId.getD ""
    ∧ live.revisionId = valence.revisionId
    ∧ live.candidateOid = event.objectOid
    ∧ live.candidateOid = result.objectOid
    ∧ live.candidateOid = valence.candidateOid
    ∧ live.currentCanonicalOid = valence.currentCanonicalOid
    ∧ live.targetRef = policy.targetRef
    ∧ live.baseOid = live.currentCanonicalOid
    ∧ live.candidatePresent = true
    ∧ live.candidateIsDescendant = true
    ∧ live.canonicalObservationCurrent = true
    ∧ live.evaluatorVerified = true
    ∧ live.signedRefsFeature = policy.signedRefsFeature

def LiveStatusHolds (blake3 : Json → String) (policy : ForgeGuardPolicyV1)
    (event : AdmittedEventV1) (result : JobResultV1) (live : LiveGuardObservationV1)
    (eventBlake3 resultBlake3 : String) : Prop :=
  SignedStatusHolds blake3 live.status
    ∧ live.statusAuthorDid = policy.botDid
    ∧ live.status.policyBlake3 = policy.ciPolicyBlake3
    ∧ live.status.rid = policy.rid
    ∧ live.status.patchId = live.patchId
    ∧ live.status.revisionId = live.revisionId
    ∧ live.status.checkName = policy.requiredCheck
    ∧ live.status.jobId = event.jobId
    ∧ live.status.objectOid = live.candidateOid
    ∧ live.status.disposition = result.disposition
    ∧ live.status.artifactBlake3 = result.artifactBlake3
    ∧ live.status.eventBlake3 = eventBlake3
    ∧ live.status.resultBlake3 = resultBlake3

def LiveApprovalsHold (policy : ForgeGuardPolicyV1) (valence : ValenceAdmissionReceiptV1)
    (live : LiveGuardObservationV1) : Prop :=
  live.approvingDelegates = valence.approvingDelegates
    ∧ policy.threshold ≤ live.approvingDelegates.length
    ∧ uniqueSorted live.approvingDelegates = true
    ∧ ∀ delegate ∈ live.approvingDelegates, delegate ∈ policy.delegates

/-- The signing delegates that approve as well. -/
def signingApprovals (live : LiveGuardObservationV1) : List String :=
  live.signingDelegates.filter fun delegate => delegate ∈ live.approvingDelegates

def LiveSignedRefsHold (policy : ForgeGuardPolicyV1) (live : LiveGuardObservationV1) : Prop :=
  policy.threshold ≤ live.signingDelegates.length
    ∧ policy.threshold ≤ (signingApprovals live).length
    ∧ uniqueSorted live.signingDelegates = true
    ∧ ∀ delegate ∈ live.signingDelegates, delegate ∈ policy.delegates

instance (policy : ForgeGuardPolicyV1) : Decidable (PolicyHolds policy) :=
  inferInstanceAs (Decidable (_ ∧ _))

instance (policy : ForgeGuardPolicyV1) (event : AdmittedEventV1) (e : String) :
    Decidable (EventHolds policy event e) :=
  inferInstanceAs (Decidable (_ ∧ _))

instance (policy : ForgeGuardPolicyV1) (event : AdmittedEventV1) (result : JobResultV1)
    (r : String) : Decidable (ResultHolds policy event result r) :=
  inferInstanceAs (Decidable (_ ∧ _))

instance (blake3 : Json → String) (policy : ForgeGuardPolicyV1)
    (receipt : ValenceAdmissionReceiptV1) (e r : String) :
    Decidable (ReceiptHolds blake3 policy receipt e r) :=
  inferInstanceAs (Decidable (_ ∧ _))

instance (policy : ForgeGuardPolicyV1) (event : AdmittedEventV1) (result : JobResultV1)
    (valence : ValenceAdmissionReceiptV1) (live : LiveGuardObservationV1) :
    Decidable (LivePatchHolds policy event result valence live) :=
  inferInstanceAs (Decidable (_ ∧ _))

instance (blake3 : Json → String) (policy : ForgeGuardPolicyV1) (event : AdmittedEventV1)
    (result : JobResultV1) (live : LiveGuardObservationV1) (e r : String) :
    Decidable (LiveStatusHolds blake3 policy event result live e r) :=
  inferInstanceAs (Decidable (_ ∧ _))

instance (policy : ForgeGuardPolicyV1) (valence : ValenceAdmissionReceiptV1)
    (live : LiveGuardObservationV1) : Decidable (LiveApprovalsHold policy valence live) :=
  inferInstanceAs (Decidable (_ ∧ _))

instance (policy : ForgeGuardPolicyV1) (live : LiveGuardObservationV1) :
    Decidable (LiveSignedRefsHold policy live) :=
  inferInstanceAs (Decidable (_ ∧ _))

def validateGuardPolicy (policy : ForgeGuardPolicyV1) : List GuardIssue :=
  issueUnless (PolicyHolds policy) "guard-policy" "policy"

def validateEventResult (policy : ForgeGuardPolicyV1) (event : AdmittedEventV1)
    (result : JobResultV1) (eventBlake3 resultBlake3 : String) : List GuardIssue :=
  issueUnless (EventHolds policy event eventBlake3) "guard-event" "event"
    ++ issueUnless (ResultHolds policy event result resultBlake3) "guard-result" "result"

section Evaluation

variable (blake3 : Json → String)

def validateValenceReceipt (policy : ForgeGuardPolicyV1) (receipt : ValenceAdmissionReceiptV1)
    (eventBlake3 resultBlake3 : String) : List GuardIssue :=
  issueUnless (ReceiptHolds blake3 policy receipt eventBlake3 resultBlake3)
    "guard-valence-receipt" "valence"

def validateLiveObservation (policy : ForgeGuardPolicyV1) (event : AdmittedEventV1)
    (result : JobResultV1) (valence : ValenceAdmissionReceiptV1) (live : LiveGuardObservationV1)
    (eventBlake3 resultBlake3 : String) : List GuardIssue :=
  issueUnless (LivePatchHolds policy event result valence live) "guard-live-patch" "live"
    ++ issueUnless (LiveStatusHolds blake3 policy event result live eventBlake3 resultBlake3)
      "guard-live-status" "live.status"
    ++ issueUnless (LiveApprovalsHold policy valence live)
      "guard-live-approvals" "live.approving_delegates"
    ++ issueUnless (LiveSignedRefsHold policy live)
      "guard-live-signed-refs" "live.signing_delegates"

def issueOrder (a b : GuardIssue) : Prop := a.code < b.code ∨ (a.code = b.code ∧ a.path ≤ b.path)

instance : DecidableRel issueOrder := fun _ _ => inferInstanceAs (Decidable (_ ∨ _))

/-- The identity of a decision: everything it says but its own digest. -/
def decisionIdentity (policy : ForgeGuardPolicyV1) (event : AdmittedEventV1)
    (valence : ValenceAdmissionReceiptV1) (live : LiveGuardObservationV1)
    (eventBlake3 resultBlake3 : String) : Json :=
  .obj [
    ("schema", .str guardDecisionSchema),
    ("ci_policy_blake3", .str policy.ciPolicyBlake3),
    ("valence_revision", .str policy.valenceRevision),
    ("rid", .str policy.rid),
    ("patch_id", .str live.patchId),
    ("revision_id", .str live.revisionId),
    ("target_ref", .str policy.targetRef),
    ("expected_old_oid", .str live.currentCanonicalOid),
    ("candidate_oid", .str live.candidateOid),
    ("job_id", .str event.jobId),
    ("event_blake3", .str eventBlake3),
    ("result_blake3", .str resultBlake3),
    ("status_blake3", .str live.status.statusBlake3),
    ("valence_receipt_blake3", .str valence.receiptBlake3),
    ("approving_delegates", Json.strings live.approvingDelegates),
    ("signing_delegates", Json.strings live.signingDelegates),
    ("threshold", .num policy.threshold),
    ("claim_scope", .str guardClaimScope),
    ("required_non_claims", Json.strings policy.requiredNonClaims)]

def guardDecision (policy : ForgeGuardPolicyV1) (event : AdmittedEventV1)
    (valence : ValenceAdmissionReceiptV1) (live : LiveGuardObservationV1)
    (eventBlake3 resultBlake3 : String) : GuardDecisionV1 where
  schema := guardDecisionSchema
  decisionBlake3 := blake3 (decisionIdentity policy event valence live eventBlake3 resultBlake3)
  ciPolicyBlake3 := policy.ciPolicyBlake3
  valenceRevision := policy.valenceRevision
  rid := policy.rid
  patchId := live.patchId
  revisionId := live.revisionId
  targetRef := policy.targetRef
  expectedOldOid := live.currentCanonicalOid
  candidateOid := live.candidateOid
  jobId := event.jobId
  eventBlake3 := eventBlake3
  resultBlake3 := resultBlake3
  statusBlake3 := live.status.statusBlake3
  valenceReceiptBlake3 := valence.receiptBlake3
  approvingDelegates := live.approvingDelegates
  signingDelegates := live.signingDelegates
  threshold := policy.threshold
  claimScope := guardClaimScope
  requiredNonClaims := policy.requiredNonClaims

/-- Admits with a decision when no validator raises an issue. -/
def evaluateCanonicalGuard (policy : ForgeGuardPolicyV1) (event : AdmittedEventV1)
    (result : JobResultV1) (valence : ValenceAdmissionReceiptV1) (live : LiveGuardObservationV1) :
    GuardReportV1 :=
  let eventBlake3 := blake3 event.toJson
  let resultBlake3 := blake3 result.toJson
  let issues := validateGuardPolicy policy
    ++ validateEventResult policy event result eventBlake3 resultBlake3
    ++ validateValenceReceipt blake3 policy valence eventBlake3 resultBlake3
    ++ validateLiveObservation blake3 policy event result valence live eventBlake3 resultBlake3
  let issues := (issues.insertionSort issueOrder).destutter (· ≠ ·)
  if issues ≠ [] then ⟨guardDecisionSchema, false, issues, none⟩
  else ⟨guardDecisionSchema, true, [],
    some (guardDecision blake3 policy event valence live eventBlake3 resultBlake3)⟩

end Evaluation

end OnixCore.RadicleCi
