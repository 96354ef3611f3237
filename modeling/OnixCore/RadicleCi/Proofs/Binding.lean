import OnixCore.RadicleCi.Status

/-!
# What an admitted promotion rests on

The guard admits exactly when all eight groups of comparisons hold (`admitted_iff`). From them
come the two facts a promotion rests on: that the five documents speak of one job
(`agreement_iff_receipt_jobId`), where the receipt's own job id is the one fact that nothing
compares, and that a quorum of delegates stands behind it (`quorum_of_admitted`).
-/

namespace OnixCore.RadicleCi

section Promotion

def promotedRid : String := "rad:z2CpqLFpdP36fZXYUK5ZNWxMibpCo"

def promotedPatch : String := "1111111111111111111111111111111111111111"

def promotedRevision : String := "2222222222222222222222222222222222222222"

def promotedBase : String := "3333333333333333333333333333333333333333"

def promotedHead : String := "4444444444444444444444444444444444444444"

def promotedCiPolicy : String :=
  "aaaaaaaaaaaaaaaaaaaaaaaaaaaaaaaaaaaaaaaaaaaaaaaaaaaaaaaaaaaaaaaa"

def promotedArtifact : String :=
  "bbbbbbbbbbbbbbbbbbbbbbbbbbbbbbbbbbbbbbbbbbbbbbbbbbbbbbbbbbbbbbbb"

def promotedJob : String := "622bb29496e68e1e2162d607cc73f3f63353940e4fe096b72f3ec8c8e5e5ca62"

def otherJob : String := "ffffffffffffffffffffffffffffffffffffffffffffffffffffffffffffffff"

def promotedEventBlake3 : String :=
  "4db30554a80dc90dd6c6cd7819af20bc4c78ac47573bf34e80941592b87a5816"

def promotedResultBlake3 : String :=
  "9a0491ac1b9a4b7a59db3067782eff33b68228b0d859983d3941560d094b6a74"

def promotedStatusBlake3 : String :=
  "ddc37658a1df90b1a7f641db042797597059055d07fd6bed335a3e6f5c2ae69f"

def promotedReceiptBlake3 : String :=
  "af83a879ba82fff1b9e1aae4536a39120fb2f5d56d138ccff86086447963cab3"

def otherReceiptBlake3 : String :=
  "fda1c8cadc061dbc2aba1570788aa0e75a9881fe8fdeeee0f245517cf2ea108f"

def promotedBot : String := "did:key:z6MkmkA6sEzzMffaWqKEKJcDh8LjAzgrJLrTNi971KN3X6sh"

def promotedDelegates : List String := [
  "did:key:z6MkkQCj5EczNiVzDzCkX9ewHNJ7NDEXSKbuRiS1x7o72yeG",
  "did:key:z6MksnXbFoE8zkCkGWhHc8zuxpnEUhrJHv2KECRV4GSv9gkx"]

def promotedPolicy : ForgeGuardPolicyV1 where
  schema := guardPolicySchema
  statusSchema := statusSchema
  admissionSchema := valenceAdmissionSchema
  eventSchema := eventSchema
  resultSchema := resultSchema
  rid := promotedRid
  ciPolicyBlake3 := promotedCiPolicy
  valenceRevision := "5555555555555555555555555555555555555555"
  botDid := promotedBot
  delegates := promotedDelegates
  threshold := 2
  requiredCheck := "onix/ci/v1"
  targetRef := canonicalTargetRef
  signedRefsFeature := requiredSignedRefsFeature
  admissionNonClaims := admissionNonClaims
  requiredNonClaims := guardNonClaims

def promotedEvent : AdmittedEventV1 where
  schema := eventSchema
  jobId := promotedJob
  policyBlake3 := promotedCiPolicy
  rid := promotedRid
  trigger := .patch
  reference := "refs/cobs/xyz.radicle.patch/1111111111111111111111111111111111111111"
  objectOid := promotedHead
  patchId := some promotedPatch
  revisionId := some promotedRevision
  signedRefsFeature := requiredSignedRefsFeature
  sourceArchiveBlake3 := "cccccccccccccccccccccccccccccccccccccccccccccccccccccccccccccccc"
  locks := ⟨promotedCiPolicy, promotedCiPolicy, promotedCiPolicy, promotedCiPolicy⟩
  claimScope := eventClaimScope

def promotedResult : JobResultV1 where
  schema := resultSchema
  jobId := promotedJob
  rid := promotedRid
  trigger := .patch
  objectOid := promotedHead
  patchId := some promotedPatch
  revisionId := some promotedRevision
  disposition := .succeeded
  exitCode := some successExitCode
  stdoutObservedBytes := 12
  stdoutRetainedBytes := 12
  stdoutBlake3 := "dddddddddddddddddddddddddddddddddddddddddddddddddddddddddddddddd"
  stderrObservedBytes := 0
  stderrRetainedBytes := 0
  stderrBlake3 := "eeeeeeeeeeeeeeeeeeeeeeeeeeeeeeeeeeeeeeeeeeeeeeeeeeeeeeeeeeeeeeee"
  artifactBytes := 64
  artifactBlake3 := promotedArtifact
  statusAuthority := resultStatusAuthority
  claimScope := resultClaimScope
  nonClaims := requiredNonClaims

/-- The receipt of the promotion, with the job it names and its own digest. -/
def promotedReceipt (jobId receiptBlake3 : String) : ValenceAdmissionReceiptV1 where
  schema := valenceAdmissionSchema
  receiptBlake3 := receiptBlake3
  policyBlake3 := promotedCiPolicy
  rid := promotedRid
  patchId := promotedPatch
  revisionId := promotedRevision
  currentCanonicalOid := promotedBase
  candidateOid := promotedHead
  jobId := jobId
  eventBlake3 := promotedEventBlake3
  resultBlake3 := promotedResultBlake3
  botDid := promotedBot
  approvingDelegates := promotedDelegates
  threshold := 2
  disposition := succeededDisposition
  claimScope := valenceClaimScope
  requiredNonClaims := admissionNonClaims

def promotedLive : LiveGuardObservationV1 where
  rid := promotedRid
  patchId := promotedPatch
  revisionId := promotedRevision
  baseOid := promotedBase
  candidateOid := promotedHead
  targetRef := canonicalTargetRef
  currentCanonicalOid := promotedBase
  candidatePresent := true
  candidateIsDescendant := true
  canonicalObservationCurrent := true
  evaluatorVerified := true
  signedRefsFeature := requiredSignedRefsFeature
  statusAuthorDid := promotedBot
  status := {
    schema := statusSchema
    statusBlake3 := promotedStatusBlake3
    policyBlake3 := promotedCiPolicy
    rid := promotedRid
    patchId := promotedPatch
    revisionId := promotedRevision
    checkName := "onix/ci/v1"
    jobId := promotedJob
    objectOid := promotedHead
    disposition := .succeeded
    artifactBlake3 := promotedArtifact
    eventBlake3 := promotedEventBlake3
    resultBlake3 := promotedResultBlake3
    claimScope := statusClaimScope
    nonClaim := statusNonClaim }
  approvingDelegates := promotedDelegates
  signingDelegates := promotedDelegates

/-- The BLAKE3 digests of the documents of the promotion: event, result and decision are objects
that begin with their schema, the receipt of the promotion is an array with its job in the eighth
place, and the receipt of its execution one with a flag in the second. -/
def recordedBlake3 : Json → String
  | .obj ((_, .str schema) :: _) =>
    if schema = eventSchema then promotedEventBlake3
    else if schema = resultSchema then promotedResultBlake3
    else "b56b41704130d0c6b053a07216bfad2d3057a88701b3c04429e01a1f40d47f38"
  | .arr [.str _, _, _, _, _, _, _, .str job, _, _, _, _, _, _, _, _] =>
    if job = promotedJob then promotedReceiptBlake3 else otherReceiptBlake3
  | .arr (.str _ :: .bool _ :: _) =>
    "cbf89705667158da793b40031e9dcd57358031051ea978cb543e86aee3716e62"
  | _ => promotedStatusBlake3

end Promotion

variable {blake3 : Json → String} {policy : ForgeGuardPolicyV1} {event : AdmittedEventV1}
  {result : JobResultV1} {valence : ValenceAdmissionReceiptV1} {live : LiveGuardObservationV1}

theorem issueUnless_eq_nil {c : Prop} [Decidable c] {code path : String} :
    issueUnless c code path = [] ↔ c := by
  unfold issueUnless
  split_ifs with h <;> simp [h]

/-- Everything the guard compares. -/
structure GuardHolds (blake3 : Json → String) (policy : ForgeGuardPolicyV1)
    (event : AdmittedEventV1) (result : JobResultV1) (valence : ValenceAdmissionReceiptV1)
    (live : LiveGuardObservationV1) : Prop where
  policyHolds : PolicyHolds policy
  eventHolds : EventHolds policy event (blake3 event.toJson)
  resultHolds : ResultHolds policy event result (blake3 result.toJson)
  receiptHolds : ReceiptHolds blake3 policy valence (blake3 event.toJson) (blake3 result.toJson)
  livePatch : LivePatchHolds policy event result valence live
  liveStatus : LiveStatusHolds blake3 policy event result live (blake3 event.toJson)
    (blake3 result.toJson)
  liveApprovals : LiveApprovalsHold policy valence live
  liveSignedRefs : LiveSignedRefsHold policy live

/-- The guard admits exactly when every comparison holds. -/
theorem admitted_iff : (evaluateCanonicalGuard blake3 policy event result valence live).admitted
    = true ↔ GuardHolds blake3 policy event result valence live := by
  have hissues : ∀ l : List GuardIssue, (l.insertionSort issueOrder).destutter (· ≠ ·) = []
      ↔ l = [] := fun l => by
    rw [List.destutter_eq_nil, ← List.length_eq_zero_iff, List.length_insertionSort,
      List.length_eq_zero_iff]
  unfold evaluateCanonicalGuard
  simp only []
  split_ifs with h
  · rw [ne_eq, hissues] at h
    simp only [false_iff]
    intro hold
    refine h ?_
    simp only [validateGuardPolicy, validateEventResult, validateValenceReceipt,
      validateLiveObservation, List.append_eq_nil_iff, issueUnless_eq_nil]
    exact ⟨⟨⟨hold.policyHolds, hold.eventHolds, hold.resultHolds⟩, hold.receiptHolds⟩,
      ⟨⟨hold.livePatch, hold.liveStatus⟩, hold.liveApprovals⟩, hold.liveSignedRefs⟩
  · rw [not_ne_iff, hissues] at h
    simp only [validateGuardPolicy, validateEventResult, validateValenceReceipt,
      validateLiveObservation, List.append_eq_nil_iff, issueUnless_eq_nil] at h
    obtain ⟨⟨⟨hp, he, hr⟩, hv⟩, ⟨⟨hl, hs⟩, ha⟩, hg⟩ := h
    exact ⟨fun _ => ⟨hp, he, hr, hv, hl, hs, ha, hg⟩, fun _ => rfl⟩

/-- An admitted report carries the decision. -/
theorem decision_of_admitted
    (h : (evaluateCanonicalGuard blake3 policy event result valence live).admitted = true) :
    (evaluateCanonicalGuard blake3 policy event result valence live).decision
      = some (guardDecision blake3 policy event valence live (blake3 event.toJson)
        (blake3 result.toJson)) := by
  unfold evaluateCanonicalGuard at h ⊢
  simp only [] at h ⊢
  split_ifs at h ⊢
  rfl

section Promotion

theorem size_of_lowerHex {c : Char} (h : c.isDigit = true ∨ 'a' ≤ c ∧ c ≤ 'f') :
    c.utf8Size = 1 := by
  have hle : c.val ≤ 127 := by
    rcases h with h | ⟨-, h⟩
    · rw [Char.isDigit, Bool.and_eq_true, decide_eq_true_iff, decide_eq_true_iff] at h
      exact UInt32.le_trans h.2 (by decide)
    · exact UInt32.le_trans h (by decide)
  simp [Char.utf8Size, hle]

/-- A literal is the list of its characters, which is checked faster than its bytes. -/
theorem lowerHex_ofList (t : Text)
    (h : t.all (fun c => c.isDigit ∨ ('a' ≤ c ∧ c ≤ 'f')) = true) :
    lowerHex (String.ofList t) t.length = true := by
  have hsize : (String.ofList t).utf8ByteSize = t.length := by
    induction t with
    | nil => rfl
    | cons c t ih =>
      simp only [List.all_cons, Bool.and_eq_true, decide_eq_true_eq] at h
      rw [show c :: t = [c] ++ t from rfl, String.ofList_append, String.utf8ByteSize_append,
        ih h.2, show String.ofList [c] = String.singleton c from rfl,
        String.utf8ByteSize_singleton, size_of_lowerHex h.1, List.length_append]
      rfl
  rw [lowerHex, hsize, String.toList_ofList]
  exact decide_eq_true ⟨rfl, h⟩

theorem recordedBlake3_obj (name schema : String) (rest : List (String × Json)) :
    recordedBlake3 (.obj ((name, .str schema) :: rest))
      = if schema = eventSchema then promotedEventBlake3
        else if schema = resultSchema then promotedResultBlake3
        else "b56b41704130d0c6b053a07216bfad2d3057a88701b3c04429e01a1f40d47f38" := rfl

theorem recorded_event : recordedBlake3 promotedEvent.toJson = promotedEventBlake3 :=
  (recordedBlake3_obj _ _ _).trans (if_pos rfl)

theorem recorded_result : recordedBlake3 promotedResult.toJson = promotedResultBlake3 :=
  (recordedBlake3_obj _ _ _).trans ((if_neg (by decide)).trans (if_pos rfl))

theorem promotedPolicy_holds : PolicyHolds promotedPolicy :=
  ⟨rfl, rfl, rfl, rfl, rfl, by decide +kernel, lowerHex_ofList _ (by decide +kernel),
    lowerHex_ofList _ (by decide +kernel), by decide +kernel, by decide, by decide, by decide, by decide +kernel, by decide +kernel,
    by decide +kernel, rfl, rfl, rfl, rfl⟩

theorem promotedStatus_holds : SignedStatusHolds recordedBlake3 promotedLive.status :=
  ⟨rfl, rfl, lowerHex_ofList _ (by decide +kernel), by decide +kernel,
    lowerHex_ofList _ (by decide +kernel), lowerHex_ofList _ (by decide +kernel),
    by decide +kernel, lowerHex_ofList _ (by decide +kernel),
    lowerHex_ofList _ (by decide +kernel), lowerHex_ofList _ (by decide +kernel),
    lowerHex_ofList _ (by decide +kernel), lowerHex_ofList _ (by decide +kernel), rfl, rfl⟩

theorem promotedDelegates_sorted :
    promotedDelegates.insertionSort (· ≤ ·) = promotedDelegates := by decide +kernel

theorem promotedReceipt_digest : promotedReceiptBlake3 = expectedReceiptBlake3 recordedBlake3
    (promotedReceipt promotedJob promotedReceiptBlake3) promotedDelegates := by decide +kernel

theorem otherReceipt_digest : otherReceiptBlake3 = expectedReceiptBlake3 recordedBlake3
    (promotedReceipt otherJob otherReceiptBlake3) promotedDelegates := by decide +kernel

/-- Whatever job it names, the receipt is admitted when it carries its own digest. -/
theorem promoted_admitted {job digest : String}
    (h : digest = expectedReceiptBlake3 recordedBlake3 (promotedReceipt job digest)
      promotedDelegates) :
    (evaluateCanonicalGuard recordedBlake3 promotedPolicy promotedEvent promotedResult
      (promotedReceipt job digest) promotedLive).admitted = true := by
  have hpatch : gitOid promotedPatch = true := promotedStatus_holds.2.2.2.2.1
  have hrevision : gitOid promotedRevision = true := promotedStatus_holds.2.2.2.2.2.1
  have hbase : gitOid promotedBase = true := lowerHex_ofList _ (by decide +kernel)
  have hhead : gitOid promotedHead = true := promotedStatus_holds.2.2.2.2.2.2.2.2.1
  have hartifact : blake3Digest promotedArtifact = true :=
    promotedStatus_holds.2.2.2.2.2.2.2.2.2.1
  have hevent : blake3Digest promotedEventBlake3 = true :=
    promotedStatus_holds.2.2.2.2.2.2.2.2.2.2.1
  have hresult : blake3Digest promotedResultBlake3 = true :=
    promotedStatus_holds.2.2.2.2.2.2.2.2.2.2.2.1
  have hsorted : uniqueSorted promotedDelegates = true := by decide +kernel
  refine admitted_iff.2 ⟨promotedPolicy_holds, ?_, ?_, ?_, ?_, ?_, ?_, ?_⟩
  · rw [recorded_event]
    exact ⟨rfl, rfl, rfl, rfl, hpatch, hrevision, hhead, rfl, hevent⟩
  · rw [recorded_result]
    exact ⟨rfl, rfl, rfl, rfl, rfl, rfl, rfl, rfl, rfl, hartifact, hresult⟩
  · rw [recorded_event, recorded_result, ReceiptHolds]
    simp only [show (promotedReceipt job digest).approvingDelegates = promotedDelegates from rfl,
      promotedDelegates_sorted]
    exact ⟨rfl, h, rfl, rfl, rfl, rfl, rfl, rfl, trivial, by decide, fun _ hd => hd, rfl, rfl, rfl,
      hpatch, hrevision, hbase, hhead⟩
  · exact ⟨rfl, rfl, rfl, rfl, rfl, rfl, rfl, rfl, rfl, rfl, rfl, rfl, rfl, rfl, rfl, rfl⟩
  · rw [recorded_event, recorded_result]
    exact ⟨promotedStatus_holds, rfl, rfl, rfl, rfl, rfl, rfl, rfl, rfl, rfl, rfl, rfl, rfl⟩
  · exact ⟨rfl, by decide, hsorted, fun _ hd => hd⟩
  · have hsigning : signingApprovals promotedLive = promotedDelegates :=
      List.filter_eq_self.2 fun _ hd => decide_eq_true hd
    exact ⟨by decide, by rw [hsigning]; decide, hsorted, fun _ hd => hd⟩

end Promotion

section Agreement

/-- The documents agree on every fact that more than one of them states. -/
structure Agreement (blake3 : Json → String) (policy : ForgeGuardPolicyV1)
    (event : AdmittedEventV1) (result : JobResultV1) (valence : ValenceAdmissionReceiptV1)
    (live : LiveGuardObservationV1) : Prop where
  ciPolicy : event.policyBlake3 = policy.ciPolicyBlake3
    ∧ valence.policyBlake3 = policy.ciPolicyBlake3
    ∧ live.status.policyBlake3 = policy.ciPolicyBlake3
  rid : event.rid = policy.rid ∧ result.rid = policy.rid ∧ valence.rid = policy.rid
    ∧ live.rid = policy.rid ∧ live.status.rid = policy.rid
  patchId : event.patchId = some live.patchId ∧ result.patchId = some live.patchId
    ∧ valence.patchId = live.patchId ∧ live.status.patchId = live.patchId
  revisionId : event.revisionId = some live.revisionId ∧ result.revisionId = some live.revisionId
    ∧ valence.revisionId = live.revisionId ∧ live.status.revisionId = live.revisionId
  candidateOid : event.objectOid = live.candidateOid ∧ result.objectOid = live.candidateOid
    ∧ valence.candidateOid = live.candidateOid ∧ live.status.objectOid = live.candidateOid
  canonicalOid : valence.currentCanonicalOid = live.currentCanonicalOid
  jobId : result.jobId = event.jobId ∧ valence.jobId = event.jobId
    ∧ live.status.jobId = event.jobId
  eventBlake3 : valence.eventBlake3 = blake3 event.toJson
    ∧ live.status.eventBlake3 = blake3 event.toJson
  resultBlake3 : valence.resultBlake3 = blake3 result.toJson
    ∧ live.status.resultBlake3 = blake3 result.toJson

theorem eq_some_of_any {o : Option String} {p : String → Bool} {s : String}
    (h : o.any p = true) (hs : s = o.getD "") : o = some s := by
  cases o with
  | none => simp at h
  | some t => rw [hs]; rfl

/-- Admitted documents agree on every shared fact exactly when the receipt names the event's job:
all the rest is compared. -/
theorem agreement_iff_receipt_jobId
    (h : (evaluateCanonicalGuard blake3 policy event result valence live).admitted = true) :
    Agreement blake3 policy event result valence live ↔ valence.jobId = event.jobId := by
  refine ⟨fun ha => ha.jobId.2.1, fun hjob => ?_⟩
  obtain ⟨-, he, hr, hv, hl, hs, -, -⟩ := admitted_iff.1 h
  obtain ⟨-, hepol, herid, -, hepatch, herev, -, -, -⟩ := he
  obtain ⟨-, hrjob, hrrid, -, hroid, hrpatch, hrrev, -, -, -, -⟩ := hr
  obtain ⟨-, -, hvpol, hvrid, hvevent, hvresult, -⟩ := hv
  obtain ⟨hlrid, hlpatch, hlvpatch, hlrev, hlvrev, hloid, -, hlvoid, hlcan, -⟩ := hl
  obtain ⟨-, -, hspol, hsrid, hspatch, hsrev, -, hsjob, hsoid, -, -, hsevent, hsresult⟩ := hs
  have hpatch := eq_some_of_any hepatch hlpatch
  have hrev := eq_some_of_any herev hlrev
  exact
    { ciPolicy := ⟨hepol, hvpol, hspol⟩
      rid := ⟨herid, hrrid.trans herid, hvrid, hlrid, hsrid⟩
      patchId := ⟨hpatch, hrpatch.trans hpatch, hlvpatch.symm, hspatch⟩
      revisionId := ⟨hrev, hrrev.trans hrev, hlvrev.symm, hsrev⟩
      candidateOid := ⟨hloid.symm, hroid.trans hloid.symm, hlvoid.symm, hsoid⟩
      canonicalOid := hlcan.symm
      jobId := ⟨hrjob, hjob, hsjob⟩
      eventBlake3 := ⟨hvevent, hsevent⟩
      resultBlake3 := ⟨hvresult, hsresult⟩ }

/-- A receipt made out for another job is admitted all the same. -/
theorem otherJob_admitted :
    (evaluateCanonicalGuard recordedBlake3 promotedPolicy promotedEvent promotedResult
        (promotedReceipt otherJob otherReceiptBlake3) promotedLive).admitted = true
      ∧ ¬ Agreement recordedBlake3 promotedPolicy promotedEvent promotedResult
        (promotedReceipt otherJob otherReceiptBlake3) promotedLive :=
  ⟨promoted_admitted otherReceipt_digest, fun h => absurd h.jobId.2.1 (by decide +kernel)⟩

theorem promotedJob_agreement :
    Agreement recordedBlake3 promotedPolicy promotedEvent promotedResult
        (promotedReceipt promotedJob promotedReceiptBlake3) promotedLive
      ↔ (promotedReceipt promotedJob promotedReceiptBlake3).jobId = promotedEvent.jobId :=
  agreement_iff_receipt_jobId (promoted_admitted promotedReceipt_digest)

end Agreement

section Quorum

theorem nodup_of_uniqueSorted : ∀ {l : List String}, uniqueSorted l = true → l.Nodup
  | [], _ => List.nodup_nil
  | [a], _ => List.nodup_singleton a
  | a :: b :: rest, h => by
    have key : ∀ {l : List String} {a : String}, uniqueSorted (a :: l) = true → ∀ x ∈ l, a < x := by
      intro l
      induction l with
      | nil => simp
      | cons b l ih =>
        intro a h x hx
        simp only [uniqueSorted, Bool.and_eq_true, decide_eq_true_eq] at h
        rcases List.mem_cons.1 hx with rfl | hx
        · exact h.1
        · exact String.lt_trans h.1 (ih h.2 x hx)
    rw [List.nodup_cons]
    refine ⟨fun hmem => String.lt_irrefl a (key h a hmem), ?_⟩
    simp only [uniqueSorted, Bool.and_eq_true] at h
    exact nodup_of_uniqueSorted h.2

/-- Delegates enough for the policy's threshold, each counted once, each approving and signing. -/
structure Quorum (policy : ForgeGuardPolicyV1) (live : LiveGuardObservationV1)
    (members : List String) : Prop where
  distinct : members.Nodup
  threshold : policy.threshold ≤ members.length
  nonempty : 1 ≤ members.length
  delegate : ∀ d ∈ members, d ∈ policy.delegates
  notBot : policy.botDid ∉ members
  approving : ∀ d ∈ members, d ∈ live.approvingDelegates
  signing : ∀ d ∈ members, d ∈ live.signingDelegates

/-- An admitted promotion has a quorum, and the receipt names the approving delegates. -/
theorem quorum_of_admitted
    (h : (evaluateCanonicalGuard blake3 policy event result valence live).admitted = true) :
    (∃ members, Quorum policy live members)
      ∧ ∀ d, d ∈ valence.approvingDelegates ↔ d ∈ live.approvingDelegates := by
  obtain ⟨hp, -, -, -, -, -, ha, hg⟩ := admitted_iff.1 h
  obtain ⟨hsame, -, -, -⟩ := ha
  obtain ⟨-, hcount, hsorted, hknown⟩ := hg
  have hthreshold : policy.threshold ≠ 0 := hp.2.2.2.2.2.2.2.2.2.2.1
  have hdelegates := hp.2.2.2.2.2.2.2.2.2.2.2.2.2.1
  have hmem : ∀ d ∈ signingApprovals live,
      d ∈ live.signingDelegates ∧ d ∈ live.approvingDelegates := fun d hd => by
    obtain ⟨hs, ha⟩ := List.mem_filter.1 hd
    exact ⟨hs, by simpa using ha⟩
  refine ⟨⟨signingApprovals live, ?_⟩, fun d => by rw [hsame]⟩
  exact
    { distinct := (nodup_of_uniqueSorted hsorted).filter _
      threshold := hcount
      nonempty := by omega
      delegate := fun d hd => hknown d (hmem d hd).1
      notBot := fun hb => (hdelegates _ (hknown _ (hmem _ hb).1)).2 rfl
      approving := fun d hd => (hmem d hd).2
      signing := fun d hd => (hmem d hd).1 }

theorem promotedJob_quorum :
    (∃ members, Quorum promotedPolicy promotedLive members)
      ∧ ∀ d, d ∈ (promotedReceipt promotedJob promotedReceiptBlake3).approvingDelegates
        ↔ d ∈ promotedLive.approvingDelegates :=
  quorum_of_admitted (promoted_admitted promotedReceipt_digest)

end Quorum

end OnixCore.RadicleCi
