import OnixCore.RadicleCi.Proofs.GuardAtomic
import OnixCore.RadicleCi.Proofs.Identity

/-!
# What is published can be read back

A comment that the bot renders has four lines: the marker, the JSON, an empty line and the
boundary for human readers. None of the checked fields can break a line, so the status is read
back as it was rendered (`comment_decodes`).

The runner checks identifiers by rules of its own, and the status is checked by the guard's. They
agree on object ids and digests. A repository, patch or revision id that only the runner accepts
is admitted, run, and then never published (`publishable_iff`).
-/

namespace OnixCore.RadicleCi

variable {blake3 : Json → String} {encode : SignedStatusV1 → String}
  {decode : String → Option SignedStatusV1} {status : SignedStatusV1}

/-- What the serializer promises of a status: its JSON is read back, control characters in it are
escaped, and the empty text is no JSON. -/
structure Serializes (encode : SignedStatusV1 → String) (decode : String → Option SignedStatusV1)
    (status : SignedStatusV1) : Prop where
  decode_encode : decode (encode status) = some status
  escaped : ∀ c ∈ (encode status).toList, ' ' ≤ c
  decode_empty : decode "" = none

/-- The last line of a comment, piece by piece. -/
def boundaryPieces (status : SignedStatusV1) : List String :=
  ["Onix CI `", status.jobId, "` for `", status.objectOid, "`: **", status.disposition.debug,
    "**. Artifact BLAKE3 `", status.artifactBlake3, "`. Scope: bounded observation only; ",
    "this is not merge, canonical-ref, or release approval."]

def boundaryLine (status : SignedStatusV1) : Text :=
  (boundaryPieces status).flatMap String.toList

section Lines

theorem notMem_of_lowerHex {value : String} {length : ℕ} (h : lowerHex value length = true) :
    '\n' ∉ value.toList := by
  intro hmem
  have hall := (of_decide_eq_true h).2
  exact absurd (List.all_eq_true.1 hall _ hmem) (by decide)

theorem notMem_debug (disposition : RunnerDisposition) : '\n' ∉ disposition.debug.toList := by
  cases disposition <;> decide +kernel

theorem notMem_boundaryLine (h : SignedStatusHolds blake3 status) :
    '\n' ∉ boundaryLine status := by
  obtain ⟨-, -, -, -, -, -, -, hjob, hoid, hartifact, -⟩ := h
  have hjob := notMem_of_lowerHex hjob
  have hoid := notMem_of_lowerHex hoid
  have hartifact := notMem_of_lowerHex hartifact
  have hfixed : ∀ piece ∈ ["Onix CI `", "` for `", "`: **", "**. Artifact BLAKE3 `",
      "`. Scope: bounded observation only; ",
      "this is not merge, canonical-ref, or release approval."], '\n' ∉ piece.toList := by
    decide +kernel
  have hall : ∀ piece ∈ boundaryPieces status, '\n' ∉ piece.toList := by
    simp only [List.forall_mem_cons] at hfixed
    obtain ⟨h₁, h₂, h₃, h₄, h₅, h₆, hnil⟩ := hfixed
    simp only [boundaryPieces, List.forall_mem_cons]
    exact ⟨h₁, hjob, h₂, hoid, h₃, notMem_debug _, h₄, hartifact, h₅, h₆, hnil⟩
  intro hmem
  obtain ⟨piece, hp, hc⟩ := List.mem_flatMap.1 hmem
  exact hall piece hp hc

/-- The boundary begins as no marker does. -/
theorem boundaryLine_head : (boundaryLine status).head? = some 'O' := by
  have hfirst : "Onix CI `".toList = 'O' :: "nix CI `".toList := by decide +kernel
  rw [boundaryLine, boundaryPieces, List.flatMap_cons, hfirst, List.cons_append, List.head?_cons]

theorem render_eq_ok {body : String} : renderSignedStatus blake3 encode status = .ok body
    ↔ SignedStatusHolds blake3 status ∧ body.toList = statusMarker.toList
      ++ '\n' :: ((encode status).toList ++ '\n' :: '\n' :: boundaryLine status) := by
  have hbreak : "\n".toList = ['\n'] := by decide +kernel
  have hgap : "\n\nOnix CI `".toList = '\n' :: '\n' :: "Onix CI `".toList := by decide +kernel
  simp only [renderSignedStatus, bind_eq_ok, pure_eq_ok, ← String.toList_inj, String.toList_append, hbreak, hgap, boundaryLine,
    boundaryPieces, List.flatMap_cons, List.flatMap_nil, List.append_nil, List.append_assoc,
    List.cons_append, List.nil_append]
  constructor
  · rintro ⟨⟨⟩, hvalid, hbody⟩
    exact ⟨validateSignedStatus_eq_ok.1 hvalid, hbody.symm⟩
  · rintro ⟨hvalid, hbody⟩
    exact ⟨(), validateSignedStatus_eq_ok.2 hvalid, hbody.symm⟩

theorem notMem_of_escaped {t : Text} (h : ∀ c ∈ t, ' ' ≤ c) {c : Char} (hc : c < ' ') : c ∉ t :=
  fun hmem => absurd (h c hmem) (Char.not_le.2 hc)

/-- The lines of a rendered comment. -/
theorem lines_render {body : String} (hjson : Serializes encode decode status)
    (h : renderSignedStatus blake3 encode status = .ok body) :
    Text.lines body.toList
      = [statusMarker.toList, (encode status).toList, [], boundaryLine status] := by
  obtain ⟨hvalid, hbody⟩ := render_eq_ok.1 h
  have hfeed : '\n' ∉ (encode status).toList := notMem_of_escaped hjson.escaped (by decide)
  have hreturn : (encode status).toList.getLast? ≠ some '\r' := fun hlast =>
    notMem_of_escaped hjson.escaped (by decide) (List.mem_of_getLast? hlast)
  have hne : boundaryLine status ≠ [] := fun he => by
    have hhead : (boundaryLine status).head? = some 'O' := boundaryLine_head
    rw [he] at hhead
    cases hhead
  rw [hbody, Text.lines_line _ (by decide +kernel) (by decide +kernel),
    Text.lines_line _ hfeed hreturn, ← List.nil_append ('\n' :: boundaryLine status),
    Text.lines_line _ (by decide) (by decide), Text.lines_last hne (notMem_boundaryLine hvalid)]

end Lines

theorem exists_render (encode : SignedStatusV1 → String) (h : SignedStatusHolds blake3 status) :
    ∃ body, renderSignedStatus blake3 encode status = .ok body :=
  ⟨String.ofList _, render_eq_ok.2 ⟨h, String.toList_ofList⟩⟩

/-- No later line repeats the marker. -/
theorem marker_notMem : statusMarker.toList ∉ [[], boundaryLine status] := by
  intro hmem
  rcases List.mem_cons.1 hmem with he | hmem
  · exact absurd he (by decide)
  · have hhead : (boundaryLine status).head? = some 'O' := boundaryLine_head
    rw [← List.mem_singleton.1 hmem] at hhead
    exact absurd hhead (by decide)

theorem parse_render {body : String} (hjson : Serializes encode decode status)
    (h : renderSignedStatus blake3 encode status = .ok body) :
    parseSignedStatus blake3 decode body = .ok status := by
  have hvalid := validateSignedStatus_eq_ok.2 (render_eq_ok.1 h).1
  have hne : (encode status).toList ≠ [] := fun he => by
    have hempty : encode status = "" := String.toList_inj.1 he
    have hround := hjson.decode_encode
    rw [hempty, hjson.decode_empty] at hround
    cases hround
  refine parse_of_lines (lines_render hjson h) hne marker_notMem ?_ hvalid
  rw [String.ofList_toList, hjson.decode_encode]

/-- A status is read back from the comment it was rendered as, whose first line is the marker,
whose second is the JSON, and that repeats the marker nowhere. -/
theorem comment_decodes {body : String} (hjson : Serializes encode decode status)
    (h : renderSignedStatus blake3 encode status = .ok body) :
    parseSignedStatus blake3 decode body = .ok status
      ∧ ∃ later, Text.lines body.toList
          = statusMarker.toList :: (encode status).toList :: later
        ∧ statusMarker.toList ∉ later :=
  ⟨parse_render hjson h, _, lines_render hjson h, marker_notMem⟩

theorem promotedStatus_serializes :
    Serializes (fun _ => String.ofList promotedStatusLine) recordedDecode promotedLive.status where
  decode_encode := if_pos String.toList_ofList
  escaped := by
    rw [String.toList_ofList]
    exact promotedStatusLine_printable
  decode_empty := if_neg fun h => promotedStatusLine_ne_nil h.symm

/-- The comment of the promotion, read back. -/
theorem promotedStatus_read : ∃ body,
    renderSignedStatus recordedBlake3 (fun _ => String.ofList promotedStatusLine)
      promotedLive.status = .ok body
    ∧ parseSignedStatus recordedBlake3 recordedDecode body = .ok promotedLive.status := by
  obtain ⟨body, hrender⟩ := exists_render _ promotedStatus_holds
  exact ⟨body, hrender, (comment_decodes promotedStatus_serializes hrender).1⟩

section Agreement

variable {config : RunnerConfigV1} {event : AdmittedEventV1} {result : JobResultV1}

/-- The two versions of a digest check are one. -/
theorem blake3Digest_eq (value : String) : Admission.blake3Digest value = blake3Digest value := rfl

theorem gitOid_eq (value : String) : Admission.gitOid value = gitOid value := rfl

/-- What an accepted configuration lends to the statuses built under it. -/
theorem policy_of_validateConfig (h : validateConfig config = .ok ()) :
    blake3Digest config.policyBlake3 = true ∧ oneLine config.checkName = true := by
  unfold validateConfig at h
  simp only [ite_throw_eq_ok, not_or, Bool.not_eq_true', Bool.not_eq_false] at h
  exact ⟨h.2.1.2.1, h.2.1.2.2.1⟩

theorem artifact_of_validateResult (h : validateResult event result = .ok ()) :
    blake3Digest result.artifactBlake3 = true := by
  unfold validateResult at h
  split_ifs at h with hshape
  simp only [not_or, Bool.not_eq_true', Bool.not_eq_false] at hshape
  exact hshape.2.2.2.2.2.2.2.2.2.1

/-- The status of a patch revision, with its digest. -/
def signedStatus (blake3 : Json → String) (config : RunnerConfigV1) (event : AdmittedEventV1)
    (result : JobResultV1) (patchId revisionId : String) : SignedStatusV1 :=
  let status : SignedStatusV1 := {
    schema := statusSchema
    statusBlake3 := ""
    policyBlake3 := event.policyBlake3
    rid := event.rid
    patchId := patchId
    revisionId := revisionId
    checkName := config.checkName
    jobId := event.jobId
    objectOid := event.objectOid
    disposition := result.disposition
    artifactBlake3 := result.artifactBlake3
    eventBlake3 := blake3 event.toJson
    resultBlake3 := blake3 result.toJson
    claimScope := statusClaimScope
    nonClaim := statusNonClaim }
  { status with statusBlake3 := expectedStatusBlake3 blake3 status }

theorem build_eq_ok : buildSignedStatus blake3 config event result = .ok status
    ↔ validateEvent blake3 config event = .ok () ∧ validateResult event result = .ok ()
      ∧ event.trigger = .patch ∧ ∃ patchId revisionId, event.patchId = some patchId
      ∧ event.revisionId = some revisionId
      ∧ status = signedStatus blake3 config event result patchId revisionId := by
  unfold buildSignedStatus
  simp only [bind_eq_ok, ite_throw_eq_ok, not_not]
  rcases hpatch : event.patchId with _ | patchId
  · simp [throw, throwThe, MonadExceptOf.throw]
  rcases hrevision : event.revisionId with _ | revisionId
  · simp [throw, throwThe, MonadExceptOf.throw]
  constructor
  · rintro ⟨⟨⟩, hevent, ⟨⟩, hresult, htrigger, hstatus⟩
    exact ⟨hevent, hresult, htrigger, _, _, rfl, rfl, (pure_eq_ok.1 hstatus).symm⟩
  · rintro ⟨hevent, hresult, htrigger, _, _, ⟨⟩, ⟨⟩, rfl⟩
    exact ⟨(), hevent, (), hresult, htrigger, rfl⟩

/-- The ids of a valid patch event are there. -/
theorem ids_of_validateEvent (h : validateEvent blake3 config event = .ok ())
    (hpatch : event.trigger = .patch) :
    ∃ patchId revisionId, event.patchId = some patchId ∧ event.revisionId = some revisionId := by
  have htrigger := (validateEvent_eq_ok.1 h).trigger
  unfold validateTrigger at htrigger
  simp only [ite_throw_eq_ok, eventCandidate, hpatch, not_or] at htrigger
  rcases hp : event.patchId with _ | patchId
  · simp [hp, throw, throwThe, MonadExceptOf.throw] at htrigger
  rcases hr : event.revisionId with _ | revisionId
  · simp [hr, throw, throwThe, MonadExceptOf.throw] at htrigger
  exact ⟨patchId, revisionId, rfl, rfl⟩

/-- The status built of an accepted event is the guard's to refuse only for its ids. -/
theorem signedStatus_holds_iff (hblake3 : ∀ json, blake3Digest (blake3 json) = true)
    (hevent : validateEvent blake3 config event = .ok ())
    (hresult : validateResult event result = .ok ()) {patchId revisionId : String} :
    SignedStatusHolds blake3 (signedStatus blake3 config event result patchId revisionId)
      ↔ radicleId config.rid = true ∧ gitOid patchId = true ∧ gitOid revisionId = true := by
  have hold := validateEvent_eq_ok.1 hevent
  obtain ⟨hpolicy, hcheck⟩ := policy_of_validateConfig hold.valid
  have hjob : blake3Digest event.jobId = true := by
    rw [hold.job]
    exact hblake3 _
  rw [← hold.policy] at hpolicy
  rw [← hold.rid]
  constructor
  · rintro ⟨-, -, -, hrid, hpatch, hrevision, -⟩
    exact ⟨hrid, hpatch, hrevision⟩
  · rintro ⟨hrid, hpatch, hrevision⟩
    exact ⟨rfl, rfl, hpolicy, hrid, hpatch, hrevision, hcheck, hjob, hold.oid,
      artifact_of_validateResult hresult, hblake3 _, hblake3 _, rfl, rfl⟩

/-- A patch event that the runner accepts has a status that can be published, and read back,
exactly when the guard accepts its repository, patch and revision ids. -/
theorem publishable_iff (hblake3 : ∀ json, blake3Digest (blake3 json) = true)
    (hevent : validateEvent blake3 config event = .ok ()) (hpatch : event.trigger = .patch)
    (hresult : validateResult event result = .ok ())
    (hjson : ∀ status, buildSignedStatus blake3 config event result = .ok status →
      Serializes encode decode status) :
    (∃ status body, buildSignedStatus blake3 config event result = .ok status
        ∧ renderSignedStatus blake3 encode status = .ok body
        ∧ parseSignedStatus blake3 decode body = .ok status)
      ↔ radicleId config.rid = true ∧ event.patchId.any gitOid = true
        ∧ event.revisionId.any gitOid = true := by
  obtain ⟨patchId, revisionId, hp, hr⟩ := ids_of_validateEvent hevent hpatch
  have hbuilt : buildSignedStatus blake3 config event result
      = .ok (signedStatus blake3 config event result patchId revisionId) :=
    build_eq_ok.2 ⟨hevent, hresult, hpatch, patchId, revisionId, hp, hr, rfl⟩
  rw [hp, hr, Option.any_some, Option.any_some,
    ← signedStatus_holds_iff hblake3 hevent hresult, hbuilt]
  constructor
  · rintro ⟨status, body, hstatus, hrender, -⟩
    cases hstatus
    exact (render_eq_ok.1 hrender).1
  · intro hvalid
    obtain ⟨body, hrender⟩ := exists_render encode hvalid
    exact ⟨_, body, rfl, hrender, parse_render (hjson _ hbuilt) hrender⟩

theorem signedBlake3_digest : ∀ json, blake3Digest (signedBlake3 json) = true := by
  have hrecorded : ∀ json, blake3Digest (recordedBlake3 json) = true := by
    intro json
    unfold recordedBlake3
    split
    · split_ifs
      all_goals exact lowerHex_ofList _ (by decide +kernel)
    · split_ifs
      all_goals exact lowerHex_ofList _ (by decide +kernel)
    all_goals exact lowerHex_ofList _ (by decide +kernel)
  intro json
  unfold signedBlake3
  split
  · split_ifs
    · exact lowerHex_ofList _ (by decide +kernel)
    · exact hrecorded _
  · exact hrecorded _

/-- The guard accepts the ids of the promotion, and its status is published. -/
theorem promotedStatus_publishable : radicleId promotedConfig.rid = true
    ∧ promotedEvent.patchId.any gitOid = true ∧ promotedEvent.revisionId.any gitOid = true := by
  have hjson : ∀ status,
      buildSignedStatus signedBlake3 promotedConfig promotedEvent promotedResult = .ok status →
        Serializes (fun _ => String.ofList promotedStatusLine) recordedDecode status := by
    intro status hbuild
    rw [promotedStatus_built] at hbuild
    cases hbuild
    exact promotedStatus_serializes
  obtain ⟨body, hrender⟩ := exists_render _ promotedStatus_signed
  exact (publishable_iff signedBlake3_digest promotedEvent_valid rfl promotedResult_valid hjson).1
    ⟨_, body, promotedStatus_built, hrender, parse_render promotedStatus_serializes hrender⟩

/-- An event of a patch whose id is no object id. -/
def unlinkedEvent : AdmittedEventV1 := { promotedEvent with patchId := some "p1" }

def unlinkedResult : JobResultV1 := { promotedResult with patchId := some "p1" }

/-- The runner accepts the event and its result, and no status of them can be published. -/
theorem unlinkedEvent_unpublishable :
    validateConfig promotedConfig = .ok ()
    ∧ validateEvent signedBlake3 promotedConfig unlinkedEvent = .ok ()
    ∧ unlinkedEvent.trigger = .patch ∧ validateResult unlinkedEvent unlinkedResult = .ok ()
    ∧ ∃ status, buildSignedStatus signedBlake3 promotedConfig unlinkedEvent unlinkedResult
        = .ok status
      ∧ ∀ encode body, renderSignedStatus signedBlake3 encode status ≠ .ok body := by
  have htrigger : validateTrigger (eventCandidate unlinkedEvent) = .ok () :=
    ok_of_isOk (by decide +kernel)
  have hjob : unlinkedEvent.jobId = deriveJobId signedBlake3 promotedConfig
      (eventCandidate unlinkedEvent) unlinkedEvent.sourceArchiveBlake3 := by
    rw [deriveJobId, signedBlake3, if_pos rfl]
    rfl
  have hevent : validateEvent signedBlake3 promotedConfig unlinkedEvent = .ok () :=
    validateEvent_eq_ok.2 ⟨promotedConfig_valid, rfl, rfl, rfl, by decide +kernel,
      by decide +kernel, rfl, rfl, rfl, htrigger, hjob⟩
  have hresult : validateResult unlinkedEvent unlinkedResult = .ok () := if_neg (by decide +kernel)
  refine ⟨promotedConfig_valid, hevent, rfl, hresult, _,
    build_eq_ok.2 ⟨hevent, hresult, rfl, _, _, rfl, rfl, rfl⟩, fun encode body h => ?_⟩
  obtain ⟨-, -, -, -, hpatch, -⟩ := (render_eq_ok.1 h).1
  exact absurd hpatch (by decide +kernel)

end Agreement

end OnixCore.RadicleCi
