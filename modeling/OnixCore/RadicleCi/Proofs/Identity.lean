import OnixCore.Lib.Steps
import OnixCore.RadicleCi.Proofs.Binding

/-!
# What a digest commits to

An event is validated exactly when some candidate is admitted as it (`validateEvent_iff_admitted`).
The digests that the documents carry are taken over tuples written apart from the documents: as
long as BLAKE3 does not collide on two of these, equal digests mean equal documents
(`digests_commit`), so what the bot signed is what the guard is shown (`admitted_evidence`).
-/

namespace OnixCore.RadicleCi

variable {blake3 : Json → String} {config config' : RunnerConfigV1}
  {candidate candidate' : CandidateV1} {event event' : AdmittedEventV1}
  {archive archive' : String}

section Admission

/-- The comparisons of `admitCandidate`. -/
structure Admits (config : RunnerConfigV1) (candidate : CandidateV1) (archive : String) :
    Prop where
  valid : validateConfig config = .ok ()
  rid : candidate.rid = config.rid
  oid : Admission.gitOid candidate.objectOid = true
  present : candidate.objectPresentLocally = true
  current : candidate.objectIsCurrent = true
  feature : candidate.signedRefsFeature = config.signedRefsFeature
  aligned : candidate.delegateAlignmentVerified = true
  trigger : validateTrigger candidate = .ok ()
  locks : candidate.observedLocks = config.expectedLocks
  digest : Admission.blake3Digest archive = true

/-- The event a candidate becomes. -/
def admittedEvent (blake3 : Json → String) (config : RunnerConfigV1) (candidate : CandidateV1)
    (archive : String) : AdmittedEventV1 where
  schema := eventSchema
  jobId := deriveJobId blake3 config candidate archive
  policyBlake3 := config.policyBlake3
  rid := candidate.rid
  trigger := candidate.trigger
  reference := candidate.reference
  objectOid := candidate.objectOid
  patchId := candidate.patchId
  revisionId := candidate.revisionId
  signedRefsFeature := candidate.signedRefsFeature
  sourceArchiveBlake3 := archive
  locks := candidate.observedLocks
  claimScope := eventClaimScope

theorem admitCandidate_eq_ok : admitCandidate blake3 config candidate archive = .ok event
    ↔ Admits config candidate archive ∧ event = admittedEvent blake3 config candidate archive := by
  unfold admitCandidate
  simp only [bind_eq_ok, ite_throw_eq_ok, pure_eq_ok, not_or, not_not, Bool.not_eq_true',
    Bool.not_eq_false]
  constructor
  · rintro ⟨⟨⟩, hconfig, ⟨hrid, hoid, hpresent, hcurrent, hfeature, haligned⟩, ⟨⟩, htrigger,
      hlocks, harchive, rfl⟩
    exact ⟨⟨hconfig, hrid, hoid, hpresent, hcurrent, hfeature, haligned, htrigger, hlocks,
      harchive⟩, rfl⟩
  · rintro ⟨h, rfl⟩
    exact ⟨(), h.valid, ⟨h.rid, h.oid, h.present, h.current, h.feature, h.aligned⟩, (),
      h.trigger, h.locks, h.digest, rfl⟩

/-- The comparisons of `validateEvent`. -/
structure Validates (blake3 : Json → String) (config : RunnerConfigV1) (event : AdmittedEventV1) :
    Prop where
  valid : validateConfig config = .ok ()
  schema : event.schema = eventSchema
  policy : event.policyBlake3 = config.policyBlake3
  rid : event.rid = config.rid
  oid : Admission.gitOid event.objectOid = true
  digest : Admission.blake3Digest event.sourceArchiveBlake3 = true
  feature : event.signedRefsFeature = config.signedRefsFeature
  locks : event.locks = config.expectedLocks
  scope : event.claimScope = eventClaimScope
  trigger : validateTrigger (eventCandidate event) = .ok ()
  job : event.jobId = deriveJobId blake3 config (eventCandidate event) event.sourceArchiveBlake3

theorem validateEvent_eq_ok :
    validateEvent blake3 config event = .ok () ↔ Validates blake3 config event := by
  unfold validateEvent
  simp only [bind_eq_ok, ite_throw_eq_ok, not_or, not_not, Bool.not_eq_true', Bool.not_eq_false]
  constructor
  · rintro ⟨⟨⟩, hconfig, ⟨hschema, hpolicy, hrid, hoid, harchive, hfeature, hlocks, hscope⟩, ⟨⟩,
      htrigger, h⟩
    split_ifs at h with hjob
    exact ⟨hconfig, hschema, hpolicy, hrid, hoid, harchive, hfeature, hlocks, hscope, htrigger,
      not_not.1 hjob⟩
  · intro h
    refine ⟨(), h.valid, ⟨h.schema, h.policy, h.rid, h.oid, h.digest, h.feature, h.locks,
      h.scope⟩, (), h.trigger, ?_⟩
    rw [if_neg (not_not.2 h.job)]
    rfl

/-- Checked again as a candidate, an admitted event is the candidate it was admitted as. -/
theorem eventCandidate_admitted (h : Admits config candidate archive) :
    eventCandidate (admittedEvent blake3 config candidate archive) = candidate := by
  rcases candidate with ⟨rid, trigger, reference, oid, patch, revision, present, current, feature,
    aligned, locks⟩
  simp only [eventCandidate, admittedEvent, CandidateV1.mk.injEq, true_and, and_true]
  exact ⟨h.present.symm, h.current.symm, h.aligned.symm⟩

/-- An event is valid exactly when a candidate is admitted as it. -/
theorem validateEvent_iff_admitted : validateEvent blake3 config event = .ok () ↔
    ∃ candidate archive, admitCandidate blake3 config candidate archive = .ok event := by
  rw [validateEvent_eq_ok]
  constructor
  · intro h
    refine ⟨eventCandidate event, event.sourceArchiveBlake3, admitCandidate_eq_ok.2 ⟨⟨h.valid,
      h.rid, h.oid, rfl, rfl, h.feature, rfl, h.trigger, h.locks, h.digest⟩, ?_⟩⟩
    rcases event with ⟨schema, job, policy, rid, trigger, reference, oid, patch, revision, feature,
      source, locks, scope⟩
    simp only [admittedEvent, eventCandidate, AdmittedEventV1.mk.injEq, true_and]
    exact ⟨h.schema, h.job, h.policy, h.scope⟩
  · rintro ⟨candidate, archive, hadmitted⟩
    obtain ⟨h, rfl⟩ := admitCandidate_eq_ok.1 hadmitted
    have hsame : eventCandidate (admittedEvent blake3 config candidate archive) = candidate :=
      eventCandidate_admitted h
    refine ⟨h.valid, rfl, rfl, h.rid, h.oid, h.digest, h.feature, h.locks, rfl, ?_, ?_⟩
    · rw [hsame]
      exact h.trigger
    · rw [hsame]
      rfl

end Admission

section Encoding

theorem TriggerClass.toJson_inj {a b : TriggerClass} : a.toJson = b.toJson ↔ a = b := by
  cases a <;> cases b <;> simp [TriggerClass.toJson]

theorem RunnerDisposition.toJson_inj {a b : RunnerDisposition} : a.toJson = b.toJson ↔ a = b := by
  cases a <;> cases b <;> simp [RunnerDisposition.toJson]

theorem LockIdentityV1.toJson_inj {a b : LockIdentityV1} : a.toJson = b.toJson ↔ a = b := by
  cases a
  cases b
  simp [LockIdentityV1.toJson]

/-- The JSON of an event tells every field. -/
theorem AdmittedEventV1.toJson_inj {a b : AdmittedEventV1} : a.toJson = b.toJson ↔ a = b := by
  cases a
  cases b
  simp [AdmittedEventV1.toJson, TriggerClass.toJson_inj, LockIdentityV1.toJson_inj,
    Json.option_str_inj]

/-- The JSON of a result tells every field. -/
theorem JobResultV1.toJson_inj {a b : JobResultV1} : a.toJson = b.toJson ↔ a = b := by
  cases a
  cases b
  simp [JobResultV1.toJson, TriggerClass.toJson_inj, RunnerDisposition.toJson_inj,
    Json.option_str_inj, Json.option_num_inj, Json.strings_inj, Int.ofNat_inj]

end Encoding

section Commitment

/-- What a job id is the digest of. -/
def jobFacts (config : RunnerConfigV1) (candidate : CandidateV1) (archive : String) : Json :=
  .arr [.str jobIdDomain, .str config.policyBlake3, .str candidate.rid,
    candidate.trigger.toJson, .str candidate.reference, .str candidate.objectOid,
    Json.option .str candidate.patchId, Json.option .str candidate.revisionId,
    .str archive, candidate.observedLocks.toJson]

/-- What a status digest is the digest of. -/
def statusFacts (status : SignedStatusV1) : Json :=
  .arr [.str statusSchema, .str status.policyBlake3, .str status.rid,
    .str status.patchId, .str status.revisionId, .str status.checkName, .str status.jobId,
    .str status.objectOid, status.disposition.toJson, .str status.artifactBlake3,
    .str status.eventBlake3, .str status.resultBlake3, .str status.claimScope,
    .str status.nonClaim]

/-- What a receipt digest is the digest of, for the receipt's sorted delegates. -/
def receiptFacts (receipt : ValenceAdmissionReceiptV1) (delegates : List String) : Json :=
  .arr [.str valenceAdmissionSchema, .str receipt.policyBlake3, .str receipt.rid,
    .str receipt.patchId, .str receipt.revisionId, .str receipt.currentCanonicalOid,
    .str receipt.candidateOid, .str receipt.jobId, .str receipt.eventBlake3,
    .str receipt.resultBlake3, .str receipt.botDid, Json.strings delegates,
    .num receipt.threshold, .str receipt.disposition, .str receipt.claimScope,
    Json.strings receipt.requiredNonClaims]

/-- What a decision digest is the digest of: a decision says all of it. -/
def decisionFacts (decision : GuardDecisionV1) : Json :=
  .obj [
    ("schema", .str decision.schema),
    ("ci_policy_blake3", .str decision.ciPolicyBlake3),
    ("valence_revision", .str decision.valenceRevision),
    ("rid", .str decision.rid),
    ("patch_id", .str decision.patchId),
    ("revision_id", .str decision.revisionId),
    ("target_ref", .str decision.targetRef),
    ("expected_old_oid", .str decision.expectedOldOid),
    ("candidate_oid", .str decision.candidateOid),
    ("job_id", .str decision.jobId),
    ("event_blake3", .str decision.eventBlake3),
    ("result_blake3", .str decision.resultBlake3),
    ("status_blake3", .str decision.statusBlake3),
    ("valence_receipt_blake3", .str decision.valenceReceiptBlake3),
    ("approving_delegates", Json.strings decision.approvingDelegates),
    ("signing_delegates", Json.strings decision.signingDelegates),
    ("threshold", .num decision.threshold),
    ("claim_scope", .str decision.claimScope),
    ("required_non_claims", Json.strings decision.requiredNonClaims)]

theorem feature_of_validateConfig (h : validateConfig config = .ok ()) :
    config.signedRefsFeature = requiredSignedRefsFeature := by
  unfold validateConfig at h
  simp only [ite_throw_eq_ok, not_or, not_not] at h
  exact h.1.2.2

theorem admittedEvent_inj (h : Admits config candidate archive)
    (h' : Admits config' candidate' archive')
    (hfacts : jobFacts config candidate archive = jobFacts config' candidate' archive') :
    admittedEvent blake3 config candidate archive
      = admittedEvent blake3 config' candidate' archive' := by
  have hjob : deriveJobId blake3 config candidate archive
      = deriveJobId blake3 config' candidate' archive' := congrArg blake3 hfacts
  have hfeature : candidate.signedRefsFeature = candidate'.signedRefsFeature := by
    rw [h.feature, h'.feature, feature_of_validateConfig h.valid,
      feature_of_validateConfig h'.valid]
  simp only [jobFacts, Json.arr.injEq, List.cons.injEq, Json.str.injEq, TriggerClass.toJson_inj,
    LockIdentityV1.toJson_inj, Json.option_str_inj, true_and, and_true] at hfacts
  obtain ⟨hpolicy, hrid, htrigger, hreference, hoid, hpatch, hrevision, harchive, hlocks⟩ := hfacts
  simp only [admittedEvent, AdmittedEventV1.mk.injEq, true_and, and_true]
  exact ⟨hjob, hpolicy, hrid, htrigger, hreference, hoid, hpatch, hrevision, hfeature, harchive,
    hlocks⟩

theorem statusFacts_inj {status status' : SignedStatusV1} (h : SignedStatusHolds blake3 status)
    (h' : SignedStatusHolds blake3 status') (hdigest : status.statusBlake3 = status'.statusBlake3)
    (hfacts : statusFacts status = statusFacts status') : status = status' := by
  have hschema : status.schema = status'.schema := h.1.trans h'.1.symm
  cases status
  cases status'
  simp only [statusFacts, Json.arr.injEq, List.cons.injEq, Json.str.injEq,
    RunnerDisposition.toJson_inj, true_and, and_true] at hfacts
  simp only at hdigest hschema
  simp only [SignedStatusV1.mk.injEq]
  exact ⟨hschema, hdigest, hfacts⟩

theorem receiptFacts_inj {receipt receipt' : ValenceAdmissionReceiptV1}
    (hschema : receipt.schema = receipt'.schema)
    (hdigest : receipt.receiptBlake3 = receipt'.receiptBlake3)
    (hfacts : receiptFacts receipt receipt.approvingDelegates
      = receiptFacts receipt' receipt'.approvingDelegates) : receipt = receipt' := by
  cases receipt
  cases receipt'
  simp only [receiptFacts, Json.arr.injEq, List.cons.injEq, Json.str.injEq, Json.num.injEq,
    Json.strings_inj, Int.ofNat_inj, true_and, and_true] at hfacts
  simp only [ValenceAdmissionReceiptV1.mk.injEq]
  exact ⟨hschema, hdigest, hfacts⟩

theorem decisionFacts_inj {decision decision' : GuardDecisionV1}
    (hdigest : decision.decisionBlake3 = decision'.decisionBlake3)
    (hfacts : decisionFacts decision = decisionFacts decision') : decision = decision' := by
  cases decision
  cases decision'
  simp only [decisionFacts, Json.obj.injEq, List.cons.injEq, Prod.mk.injEq, Json.str.injEq,
    Json.num.injEq, Json.strings_inj, Int.ofNat_inj, true_and, and_true] at hfacts
  obtain ⟨hschema, hfacts⟩ := hfacts
  simp only [GuardDecisionV1.mk.injEq]
  exact ⟨hschema, hdigest, hfacts⟩

/-- The decision of an admitted report carries the digest of what it says. -/
theorem decision_digest {policy : ForgeGuardPolicyV1} {result : JobResultV1}
    {valence : ValenceAdmissionReceiptV1} {live : LiveGuardObservationV1}
    {decision : GuardDecisionV1}
    (h : (evaluateCanonicalGuard blake3 policy event result valence live).decision
      = some decision) :
    decision.decisionBlake3 = blake3 (decisionFacts decision) := by
  unfold evaluateCanonicalGuard at h
  simp only [] at h
  split_ifs at h
  cases h
  rfl

theorem validateValenceReceipt_eq_nil {policy : ForgeGuardPolicyV1}
    {receipt : ValenceAdmissionReceiptV1} {e r : String} :
    validateValenceReceipt blake3 policy receipt e r = []
      ↔ ReceiptHolds blake3 policy receipt e r := issueUnless_eq_nil

theorem validateSignedStatus_eq_ok {status : SignedStatusV1} :
    validateSignedStatus blake3 status = .ok () ↔ SignedStatusHolds blake3 status := by
  unfold validateSignedStatus
  split_ifs with h <;> simp [h]

/-- Equal digests mean equal documents: admitted events of one job id, accepted statuses, receipts
accepted under policies of one admission schema, and decisions of admitted reports. -/
theorem digests_commit (blake3 : Json → String) :
    (∀ config config' candidate candidate' archive archive' event event',
      admitCandidate blake3 config candidate archive = .ok event →
      admitCandidate blake3 config' candidate' archive' = .ok event' →
      NoCollision blake3 (jobFacts config candidate archive)
        (jobFacts config' candidate' archive') →
      event.jobId = event'.jobId → event = event')
    ∧ (∀ status status', validateSignedStatus blake3 status = .ok () →
      validateSignedStatus blake3 status' = .ok () →
      NoCollision blake3 (statusFacts status) (statusFacts status') →
      status.statusBlake3 = status'.statusBlake3 → status = status')
    ∧ (∀ policy policy' receipt receipt' e e' r r',
      validateValenceReceipt blake3 policy receipt e r = [] →
      validateValenceReceipt blake3 policy' receipt' e' r' = [] →
      policy.admissionSchema = policy'.admissionSchema →
      NoCollision blake3 (receiptFacts receipt receipt.approvingDelegates)
        (receiptFacts receipt' receipt'.approvingDelegates) →
      receipt.receiptBlake3 = receipt'.receiptBlake3 → receipt = receipt')
    ∧ ∀ policy policy' event event' result result' valence valence' live live' decision decision',
      (evaluateCanonicalGuard blake3 policy event result valence live).decision
        = some decision →
      (evaluateCanonicalGuard blake3 policy' event' result' valence' live').decision
        = some decision' →
      NoCollision blake3 (decisionFacts decision) (decisionFacts decision') →
      decision.decisionBlake3 = decision'.decisionBlake3 → decision = decision' := by
  refine ⟨?events, ?statuses, ?receipts, ?decisions⟩
  case events =>
    intro config config' candidate candidate' archive archive' event event' h h' hfree hjob
    obtain ⟨hadmits, rfl⟩ := admitCandidate_eq_ok.1 h
    obtain ⟨hadmits', rfl⟩ := admitCandidate_eq_ok.1 h'
    exact admittedEvent_inj hadmits hadmits' (hfree hjob)
  case statuses =>
    intro status status' h h' hfree hdigest
    rw [validateSignedStatus_eq_ok] at h h'
    refine statusFacts_inj h h' hdigest (hfree ?_)
    exact h.2.1.symm.trans (hdigest.trans h'.2.1)
  case receipts =>
    intro policy policy' receipt receipt' e e' r r' h h' hschema hfree hdigest
    rw [validateValenceReceipt_eq_nil] at h h'
    obtain ⟨hs, hd, -, -, -, -, -, -, hsorted, -⟩ := h
    obtain ⟨hs', hd', -, -, -, -, -, -, hsorted', -⟩ := h'
    rw [← hsorted] at hd
    rw [← hsorted'] at hd'
    refine receiptFacts_inj (hs.trans (hschema.trans hs'.symm)) hdigest (hfree ?_)
    exact hd.symm.trans (hdigest.trans hd')
  case decisions =>
    intro policy policy' event event' result result' valence valence' live live' decision decision'
      h h' hfree hdigest
    refine decisionFacts_inj hdigest (hfree ?_)
    rw [← decision_digest h, ← decision_digest h', hdigest]

/-- A policy that asks for receipts of another schema. No other check of a receipt looks at it. -/
def renamedPolicy : ForgeGuardPolicyV1 :=
  { promotedPolicy with admissionSchema := "valence.radicle-forge-operations.ci-admission.v2" }

def renamedReceipt : ValenceAdmissionReceiptV1 :=
  { promotedReceipt promotedJob promotedReceiptBlake3 with
    schema := "valence.radicle-forge-operations.ci-admission.v2" }

/-- Two receipts that differ in their schema carry one digest, and each is accepted under a policy
that asks for its schema. -/
theorem renamedReceipt_accepted :
    validateValenceReceipt recordedBlake3 promotedPolicy
      (promotedReceipt promotedJob promotedReceiptBlake3) promotedEventBlake3
      promotedResultBlake3 = []
    ∧ validateValenceReceipt recordedBlake3 renamedPolicy renamedReceipt promotedEventBlake3
      promotedResultBlake3 = []
    ∧ (promotedReceipt promotedJob promotedReceiptBlake3).receiptBlake3
      = renamedReceipt.receiptBlake3
    ∧ NoCollision recordedBlake3
      (receiptFacts (promotedReceipt promotedJob promotedReceiptBlake3) promotedDelegates)
      (receiptFacts renamedReceipt promotedDelegates)
    ∧ promotedReceipt promotedJob promotedReceiptBlake3 ≠ renamedReceipt := by
  have hold := (admitted_iff.1 (promoted_admitted promotedReceipt_digest)).receiptHolds
  rw [recorded_event, recorded_result] at hold
  refine ⟨validateValenceReceipt_eq_nil.2 hold, validateValenceReceipt_eq_nil.2 ?_, rfl,
    fun _ => rfl, fun h => ?_⟩
  · exact ⟨rfl, hold.2⟩
  · exact absurd (congrArg ValenceAdmissionReceiptV1.schema h) (by decide)

end Commitment

section Evidence

variable {policy : ForgeGuardPolicyV1} {result result' : JobResultV1}
  {valence : ValenceAdmissionReceiptV1} {live : LiveGuardObservationV1} {status : SignedStatusV1}

theorem status_of_build (h : buildSignedStatus blake3 config event result = .ok status) :
    validateEvent blake3 config event = .ok () ∧ validateResult event result = .ok ()
      ∧ status.eventBlake3 = blake3 event.toJson ∧ status.resultBlake3 = blake3 result.toJson := by
  unfold buildSignedStatus at h
  simp only [bind_eq_ok, ite_throw_eq_ok] at h
  obtain ⟨⟨⟩, hevent, ⟨⟩, hresult, -, h⟩ := h
  rcases hpatch : event.patchId with _ | patch
  · rw [hpatch] at h
    cases h
  rcases hrevision : event.revisionId with _ | revision
  · rw [hpatch, hrevision] at h
    cases h
  rw [hpatch, hrevision] at h
  cases h
  exact ⟨hevent, hresult, rfl, rfl⟩

/-- What the guard admits under a status the bot built is the event and the result the bot built it
from: both valid, of a run that succeeded. -/
theorem admitted_evidence (hbuild : buildSignedStatus blake3 config event result = .ok status)
    (hlive : live.status = status)
    (hadmitted : (evaluateCanonicalGuard blake3 policy event' result' valence live).admitted = true)
    (hevent : NoCollision blake3 event'.toJson event.toJson)
    (hresult : NoCollision blake3 result'.toJson result.toJson) :
    event' = event ∧ result' = result
      ∧ validateEvent blake3 config event' = .ok () ∧ validateResult event' result' = .ok ()
      ∧ result'.disposition = .succeeded ∧ result'.exitCode = some successExitCode := by
  obtain ⟨hvalid, hvalidResult, hbuiltEvent, hbuiltResult⟩ := status_of_build hbuild
  have hold := admitted_iff.1 hadmitted
  obtain ⟨-, -, -, -, -, -, -, -, -, -, -, hstatusEvent, hstatusResult⟩ := hold.liveStatus
  obtain ⟨-, -, -, -, -, -, -, hdisposition, hexit, -⟩ := hold.resultHolds
  rw [hlive] at hstatusEvent hstatusResult
  have he : event' = event :=
    AdmittedEventV1.toJson_inj.1 (hevent (hstatusEvent.symm.trans hbuiltEvent))
  have hr : result' = result :=
    JobResultV1.toJson_inj.1 (hresult (hstatusResult.symm.trans hbuiltResult))
  subst he hr
  exact ⟨rfl, rfl, hvalid, hvalidResult, hdisposition, hexit⟩

/-- The configuration under which the promoted event was admitted. -/
def promotedConfig : RunnerConfigV1 where
  schema := configSchema
  rid := promotedRid
  signedRefsFeature := requiredSignedRefsFeature
  productionSeed := "z6Mkseed@100.100.103.95:8776"
  productionSeedNodeId := "z6Mkseed"
  productionSeedAddress := "100.100.103.95:8776"
  reviewedCommit := promotedBase
  policyBlake3 := promotedCiPolicy
  checkName := "onix/ci/v1"
  botPublicKey := "ssh-ed25519 AAAAC3NzaC1lZDI1NTE5"
  botNodeId := "z6MkmkA6sEzzMffaWqKEKJcDh8LjAzgrJLrTNi971KN3X6sh"
  botFingerprint := "SHA256:aaaa"
  delegates := promotedDelegates
  expectedLocks := ⟨promotedCiPolicy, promotedCiPolicy, promotedCiPolicy, promotedCiPolicy⟩
  commandProgram := "/nix/store/nix/bin/nix"
  commandArguments := ["build", "--no-update-lock-file"]
  allowedInputUris := ["github:NixOS/nixpkgs/61b7c44c"]
  gitProgram := "/nix/store/git/bin/git"
  nixProgram := "/nix/store/nix/bin/nix"
  nixConfDir := "/nix/store/radicle-ci-nix-conf"
  tarProgram := "/nix/store/tar/bin/tar"
  radProgram := "/nix/store/radicle/bin/rad"
  sshProgram := "/nix/store/openssh/bin/ssh"
  storagePath := "/var/lib/radicle-ci-bot/storage"
  botStatePath := "/var/lib/radicle-ci-bot"
  exchangePath := "/var/lib/radicle-ci-exchange"
  runnerStatePath := "/var/lib/radicle-ci-runner"
  artifactPath := "/var/lib/radicle-ci-artifacts"
  localStoreRoot := "/var/lib/radicle-ci-runner/local-store"
  limits := {
    timeoutMs := 1000
    stdinMaxBytes := 1
    stdoutMaxBytes := 1024
    stderrMaxBytes := 1024
    pollIntervalMs := 25
    teardownTimeoutMs := 5000
    artifactMaxBytes := 1048576
    memoryMaxBytes := 1073741824
    cpuQuotaPercent := 100
    maxParallelJobs := 1 }

/-- The recorded digests, with that of the job: an array that begins with the job domain. -/
def signedBlake3 : Json → String
  | .arr (.str domain :: rest) =>
    if domain = jobIdDomain then promotedJob else recordedBlake3 (.arr (.str domain :: rest))
  | json => recordedBlake3 json

theorem signedBlake3_arr {domain : String} (h : domain ≠ jobIdDomain) (rest : List Json) :
    signedBlake3 (.arr (.str domain :: rest)) = recordedBlake3 (.arr (.str domain :: rest)) :=
  if_neg h

theorem promotedConfig_valid : validateConfig promotedConfig = .ok () :=
  ok_of_isOk (by decide +kernel)

/-- The signed refs feature is required. -/
example : validateConfig { promotedConfig with signedRefsFeature := "none" } ≠ .ok () := by
  decide +kernel

theorem promotedTrigger_valid : validateTrigger (eventCandidate promotedEvent) = .ok () :=
  ok_of_isOk (by decide +kernel)

theorem promotedEvent_valid : validateEvent signedBlake3 promotedConfig promotedEvent = .ok () := by
  have hjob : promotedEvent.jobId = deriveJobId signedBlake3 promotedConfig
      (eventCandidate promotedEvent) promotedEvent.sourceArchiveBlake3 := by
    rw [deriveJobId, signedBlake3, if_pos rfl]
    rfl
  exact validateEvent_eq_ok.2 ⟨promotedConfig_valid, rfl, rfl, rfl, by decide +kernel,
    by decide +kernel, rfl, rfl, rfl, promotedTrigger_valid, hjob⟩

theorem promotedResult_valid : validateResult promotedEvent promotedResult = .ok () :=
  if_neg (by decide +kernel)

theorem promotedStatus_built :
    buildSignedStatus signedBlake3 promotedConfig promotedEvent promotedResult
      = .ok promotedLive.status := by
  have hdigest : ∀ facts, signedBlake3 (.arr (.str statusSchema :: facts))
      = recordedBlake3 (.arr (.str statusSchema :: facts)) := signedBlake3_arr (by decide)
  unfold buildSignedStatus
  rw [promotedEvent_valid, promotedResult_valid]
  simp only [expectedStatusBlake3, hdigest]
  rfl

theorem promotedStatus_signed : SignedStatusHolds signedBlake3 promotedLive.status := by
  obtain ⟨hschema, hdigest, hshape⟩ := promotedStatus_holds
  exact ⟨hschema, hdigest.trans (signedBlake3_arr (by decide) _).symm, hshape⟩

theorem signed_admitted : (evaluateCanonicalGuard signedBlake3 promotedPolicy promotedEvent
    promotedResult (promotedReceipt promotedJob promotedReceiptBlake3) promotedLive).admitted
      = true := by
  have hold := admitted_iff.1 (promoted_admitted promotedReceipt_digest)
  refine admitted_iff.2 ⟨hold.policyHolds, hold.eventHolds, hold.resultHolds, ?_, hold.livePatch,
    ?_, hold.liveApprovals, hold.liveSignedRefs⟩
  · obtain ⟨hschema, hdigest, hrest⟩ := hold.receiptHolds
    exact ⟨hschema, hdigest.trans (signedBlake3_arr (by decide) _).symm, hrest⟩
  · exact ⟨promotedStatus_signed, hold.liveStatus.2⟩

theorem promotedStatus_evidence : promotedEvent = promotedEvent ∧ promotedResult = promotedResult
    ∧ validateEvent signedBlake3 promotedConfig promotedEvent = .ok ()
    ∧ validateResult promotedEvent promotedResult = .ok ()
    ∧ promotedResult.disposition = .succeeded ∧ promotedResult.exitCode = some successExitCode :=
  admitted_evidence promotedStatus_built rfl signed_admitted (fun _ => rfl) (fun _ => rfl)

theorem promotedDigests_commit :
    promotedEvent = promotedEvent ∧ promotedLive.status = promotedLive.status
    ∧ promotedReceipt promotedJob promotedReceiptBlake3
      = promotedReceipt promotedJob promotedReceiptBlake3
    ∧ ∃ decision, (evaluateCanonicalGuard signedBlake3 promotedPolicy promotedEvent promotedResult
      (promotedReceipt promotedJob promotedReceiptBlake3) promotedLive).decision = some decision
      ∧ decision = decision := by
  have hevent := validateEvent_eq_ok.1 promotedEvent_valid
  have hadmitted : admitCandidate signedBlake3 promotedConfig (eventCandidate promotedEvent)
      promotedEvent.sourceArchiveBlake3 = .ok promotedEvent :=
    admitCandidate_eq_ok.2 ⟨⟨hevent.valid, hevent.rid, hevent.oid, rfl, rfl, hevent.feature, rfl,
      hevent.trigger, hevent.locks, hevent.digest⟩, rfl⟩
  have hold := admitted_iff.1 signed_admitted
  obtain ⟨hstatus, -⟩ := hold.liveStatus
  rw [← validateSignedStatus_eq_ok] at hstatus
  have hreceipt := validateValenceReceipt_eq_nil.2 hold.receiptHolds
  have hdecision := decision_of_admitted signed_admitted
  obtain ⟨hevents, hstatuses, hreceipts, hdecisions⟩ := digests_commit signedBlake3
  exact ⟨hevents _ _ _ _ _ _ _ _ hadmitted hadmitted (fun _ => rfl) rfl,
    hstatuses _ _ hstatus hstatus (fun _ => rfl) rfl,
    hreceipts _ _ _ _ _ _ _ _ hreceipt hreceipt rfl (fun _ => rfl) rfl,
    _, hdecision, hdecisions _ _ _ _ _ _ _ _ _ _ _ _ hdecision hdecision (fun _ => rfl) rfl⟩

end Evidence

end OnixCore.RadicleCi
