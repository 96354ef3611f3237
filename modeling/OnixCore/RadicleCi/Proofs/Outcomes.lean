import OnixCore.RadicleCi.Jobs
import OnixCore.RadicleCi.Proofs.Publication

/-!
# Which outcomes reach the outbox

The limits on the two output streams and the limit on the artifact are checked apart from each
other, and the artifact holds both streams and a manifest of one size. An outcome within the
limits of its streams is published exactly when the artifact is within its own
(`outcome_published_iff`).
-/

namespace OnixCore.RadicleCi

variable {blake3 : Json → String} {hash : Bytes → String} {config : RunnerConfigV1}
  {event : AdmittedEventV1} {output : ExecutionOutput} {result : JobResultV1}

/-- The size of every manifest. -/
def artifactManifestBytes : ℕ := 359

/-- A hexadecimal digit stands for itself in JSON. -/
theorem unescaped_of_digits {value : String}
    (h : value.toList.all Admission.lowerHexDigit = true) :
    ∀ c ∈ value.toList, Json.Unescaped c := by
  intro c hc
  have hdigit := of_decide_eq_true (List.all_eq_true.1 h c hc)
  refine ⟨?_, ?_, ?_⟩
  · rintro rfl
    exact absurd hdigit (by decide)
  · rintro rfl
    exact absurd hdigit (by decide)
  · rcases hdigit with hdigit | ⟨hletter, -⟩
    · have hzero : '0' ≤ c := of_decide_eq_true (Bool.and_eq_true_iff.1 hdigit).1
      exact Char.le_trans (by decide) hzero
    · exact Char.le_trans (by decide) hletter

theorem length_artifactManifest (hhash : ∀ bytes, Admission.blake3Digest (hash bytes) = true)
    (hjob : Admission.blake3Digest event.jobId = true)
    (hoid : Admission.gitOid event.objectOid = true) :
    (artifactManifest hash event output).length = artifactManifestBytes := by
  have hdigest : ∀ {value : String}, Admission.blake3Digest value = true →
      value.utf8ByteSize = blake3HexLength ∧ ∀ c ∈ value.toList, Json.Unescaped c :=
    fun h => ⟨(of_decide_eq_true h).1, unescaped_of_digits (of_decide_eq_true h).2⟩
  have hobject : event.objectOid.utf8ByteSize = gitOidHexLength
      ∧ ∀ c ∈ event.objectOid.toList, Json.Unescaped c :=
    ⟨(of_decide_eq_true hoid).1, unescaped_of_digits (of_decide_eq_true hoid).2⟩
  have hschema : ∀ c ∈ "schema".toList, Json.Unescaped c :=
    Json.unescaped_of_all (by decide +kernel)
  have hvalue : ∀ c ∈ "onix.radicle-ci-artifact.v1".toList, Json.Unescaped c :=
    Json.unescaped_of_all (by decide +kernel)
  have hjobId : ∀ c ∈ "job_id".toList, Json.Unescaped c :=
    Json.unescaped_of_all (by decide +kernel)
  have hoidName : ∀ c ∈ "object_oid".toList, Json.Unescaped c :=
    Json.unescaped_of_all (by decide +kernel)
  have hstdout : ∀ c ∈ "stdout_blake3".toList, Json.Unescaped c :=
    Json.unescaped_of_all (by decide +kernel)
  have hstderr : ∀ c ∈ "stderr_blake3".toList, Json.Unescaped c :=
    Json.unescaped_of_all (by decide +kernel)
  rw [artifactManifest, Bytes.length_utf8, Json.size_prettyStrings (List.cons_ne_nil _ _) ?_]
  · have hnames : "schema".utf8ByteSize = 6 ∧ "onix.radicle-ci-artifact.v1".utf8ByteSize = 27
        ∧ "job_id".utf8ByteSize = 6 ∧ "object_oid".utf8ByteSize = 10
        ∧ "stdout_blake3".utf8ByteSize = 13 ∧ "stderr_blake3".utf8ByteSize = 13 := by decide
    obtain ⟨h₁, h₂, h₃, h₄, h₅, h₆⟩ := hnames
    simp only [List.map_cons, List.map_nil, List.sum_cons, List.sum_nil, h₁, h₂, h₃, h₄, h₅, h₆,
      (hdigest hjob).1, hobject.1, (hdigest (hhash _)).1, blake3HexLength, gitOidHexLength,
      artifactManifestBytes, Nat.reduceAdd]
  · simp only [List.forall_mem_cons]
    exact ⟨⟨hschema, hvalue⟩, ⟨hjobId, (hdigest hjob).2⟩, ⟨hoidName, hobject.2⟩,
      ⟨hstdout, (hdigest (hhash _)).2⟩, ⟨hstderr, (hdigest (hhash _)).2⟩, fun _ h => nomatch h⟩

/-- The comparisons of `classifyObservation`, after those of the event. -/
structure Classifies (config : RunnerConfigV1) (observation : ObservationV1) : Prop where
  stdoutDigest : Admission.blake3Digest observation.stdoutBlake3 = true
  stderrDigest : Admission.blake3Digest observation.stderrBlake3 = true
  artifactDigest : Admission.blake3Digest observation.artifactBlake3 = true
  stdout_le : observation.stdoutRetainedBytes ≤ config.limits.stdoutMaxBytes
  stderr_le : observation.stderrRetainedBytes ≤ config.limits.stderrMaxBytes
  stdout_retained : observation.stdoutRetainedBytes ≤ observation.stdoutObservedBytes
  stderr_retained : observation.stderrRetainedBytes ≤ observation.stderrObservedBytes
  artifact_le : observation.artifactBytes ≤ config.limits.artifactMaxBytes
  exitCode : observation.disposition = .succeeded → observation.exitCode = some successExitCode

theorem classifyObservation_ok (hevent : validateEvent blake3 config event = .ok ())
    {observation : ObservationV1} :
    (∃ result, classifyObservation blake3 config event observation = .ok result
      ∧ result.disposition = observation.disposition) ↔ Classifies config observation := by
  unfold classifyObservation
  rw [hevent]
  simp only [bind_eq_ok, ite_throw_eq_ok, pure_eq_ok, not_or, not_lt, not_and, not_not,
    Bool.not_eq_true', Bool.not_eq_false]
  constructor
  · rintro ⟨_, ⟨_, _, ⟨h₁, h₂, h₃, h₄, h₅, h₆, h₇, h₈, h₉⟩, rfl⟩, -⟩
    exact ⟨h₁, h₂, h₃, h₄, h₅, h₆, h₇, h₈, h₉⟩
  · rintro ⟨h₁, h₂, h₃, h₄, h₅, h₆, h₇, h₈, h₉⟩
    exact ⟨_, ⟨(), trivial, ⟨h₁, h₂, h₃, h₄, h₅, h₆, h₇, h₈, h₉⟩, rfl⟩, rfl⟩

/-- An artifact above its limit is refused. -/
theorem classifyObservation_oversized (hevent : validateEvent blake3 config event = .ok ())
    {observation : ObservationV1}
    (h : config.limits.artifactMaxBytes < observation.artifactBytes) :
    classifyObservation blake3 config event observation
      = .error ⟨"ci-observation-bounds",
        "runner observation is malformed or above configured limits"⟩ := by
  unfold classifyObservation
  rw [hevent]
  simp [h, bind, Except.bind, throw, throwThe, MonadExceptOf.throw]

/-- The sizes that a configuration allows stay far below the bound of a word. -/
theorem outputs_le_of_validateConfig (h : validateConfig config = .ok ()) :
    config.limits.stdoutMaxBytes ≤ maxOutputBytes
      ∧ config.limits.stderrMaxBytes ≤ maxOutputBytes := by
  unfold validateConfig at h
  simp only [bind_eq_ok, ite_throw_eq_ok] at h
  obtain ⟨-, -, -, ⟨⟩, -, ⟨⟩, hlimits, -⟩ := h
  unfold validateLimits at hlimits
  split_ifs at hlimits with hbounds
  omega

/-- Other limits are accepted where they are accepted by themselves. -/
theorem validateConfig_limits {limits : RunnerLimitsV1} (h : validateConfig config = .ok ())
    (hlimits : validateLimits limits = .ok ()) :
    validateConfig { config with limits } = .ok () := by
  unfold validateConfig at h ⊢
  simp only [bind_eq_ok, ite_throw_eq_ok] at h ⊢
  obtain ⟨hheader, hidentity, hbot, ⟨⟩, hlocks, ⟨⟩, -, hrest⟩ := h
  exact ⟨hheader, hidentity, hbot, (), hlocks, (), hlimits, hrest⟩

/-- What is observed of an output whose artifact has this size. -/
def observed (hash : Bytes → String) (output : ExecutionOutput) (manifest : Bytes) :
    ObservationV1 where
  disposition := mapDisposition output.disposition
  exitCode := output.exitCode
  stdoutObservedBytes := output.stdout.observedBytes
  stdoutRetainedBytes := output.stdout.bytes.length
  stdoutBlake3 := hash output.stdout.bytes
  stderrObservedBytes := output.stderr.observedBytes
  stderrRetainedBytes := output.stderr.bytes.length
  stderrBlake3 := hash output.stderr.bytes
  artifactBytes := output.stdout.bytes.length + output.stderr.bytes.length + manifest.length
  artifactBlake3 := hash manifest

theorem observationFromOutput_of_lt {manifest : Bytes}
    (h : output.stdout.bytes.length + output.stderr.bytes.length + manifest.length < wordBound) :
    observationFromOutput hash output manifest = .ok (observed hash output manifest) := by
  simp only [observationFromOutput, directoryArtifactBytes, if_pos h]
  rfl

theorem persistJobResult_of_lt (h : output.stdout.bytes.length + output.stderr.bytes.length
    + (artifactManifest hash event output).length < wordBound) :
    persistJobResult blake3 hash config event output
      = (classifyObservation blake3 config event
        (observed hash output (artifactManifest hash event output))).mapError Diagnostic.text := by
  rw [persistJobResult, observationFromOutput_of_lt h]
  rfl

theorem mapDisposition_succeeded {disposition : Disposition}
    (h : mapDisposition disposition = .succeeded) : disposition = .succeeded := by
  cases disposition <;> first | rfl | cases h

/-- Of what the limits allow, only the size of the artifact can be too much. -/
theorem classifies_observed_iff {manifest : Bytes}
    (hhash : ∀ bytes, Admission.blake3Digest (hash bytes) = true)
    (h : output.Bounded config.limits) : Classifies config (observed hash output manifest)
      ↔ output.stdout.bytes.length + output.stderr.bytes.length + manifest.length
        ≤ config.limits.artifactMaxBytes :=
  ⟨fun hclassifies => hclassifies.artifact_le, fun hle => ⟨hhash _, hhash _, hhash _, h.stdout_le,
    h.stderr_le, h.stdout_retained, h.stderr_retained, hle,
    fun hsucceeded => h.exitCode_eq (mapDisposition_succeeded hsucceeded)⟩⟩

/-- An outcome within the limits of its streams is published with its disposition exactly when
the streams and the manifest are within the limit of an artifact. -/
theorem outcome_published_iff (hblake3 : ∀ json, Admission.blake3Digest (blake3 json) = true)
    (hhash : ∀ bytes, Admission.blake3Digest (hash bytes) = true)
    (hevent : validateEvent blake3 config event = .ok ())
    (hbounded : output.Bounded config.limits) :
    (∃ result, persistJobResult blake3 hash config event output = .ok result
        ∧ result.disposition = mapDisposition output.disposition)
      ↔ output.stdout.bytes.length + output.stderr.bytes.length + artifactManifestBytes
        ≤ config.limits.artifactMaxBytes := by
  have hold := validateEvent_eq_ok.1 hevent
  have hjob : Admission.blake3Digest event.jobId = true := by
    rw [hold.job]
    exact hblake3 _
  have hmanifest : (artifactManifest hash event output).length = artifactManifestBytes :=
    length_artifactManifest hhash hjob hold.oid
  obtain ⟨hstdout, hstderr⟩ := outputs_le_of_validateConfig hold.valid
  have hsmall : output.stdout.bytes.length + output.stderr.bytes.length
      + (artifactManifest hash event output).length < wordBound := by
    have h₁ := hbounded.stdout_le
    have h₂ := hbounded.stderr_le
    simp only [maxOutputBytes, artifactManifestBytes, wordBound] at *
    omega
  rw [← hmanifest, ← classifies_observed_iff hhash hbounded, ← classifyObservation_ok hevent,
    persistJobResult_of_lt hsmall]
  simp only [mapError_eq_ok]
  rfl

section Silence

/-- The output of a job that says nothing and succeeds. -/
def silentOutput : ExecutionOutput where
  disposition := .succeeded
  exitCode := some successExitCode
  stdout := ⟨[], 0, false⟩
  stderr := ⟨[], 0, false⟩

/-- The digests of the empty stream and of the manifest of the silent job. -/
def silentHash (bytes : Bytes) : String :=
  if bytes = [] then "af1349b9f5f9a1a6a0404dea36dcc9499bcb25c9adc112b7cc9a93cae41f3262"
  else "d3a9a459bec90b620096d8b65295afdc8c9c80dc2f651c7fe264a128815923e5"

theorem silentHash_digest (bytes : Bytes) :
    Admission.blake3Digest (silentHash bytes) = true := by
  unfold silentHash
  split_ifs <;> decide +kernel

theorem silentOutput_bounded (limits : RunnerLimitsV1) : silentOutput.Bounded limits :=
  ⟨Nat.zero_le _, Nat.zero_le _, le_rfl, le_rfl, fun _ => rfl⟩

theorem silentOutput_published : ∃ result,
    persistJobResult signedBlake3 silentHash promotedConfig promotedEvent silentOutput = .ok result
    ∧ result.disposition = .succeeded :=
  (outcome_published_iff signedBlake3_digest silentHash_digest promotedEvent_valid
    (silentOutput_bounded _)).2 (by decide)

/-- The configuration of the promotion, with room for 256 bytes in an artifact. -/
def narrowConfig : RunnerConfigV1 :=
  { promotedConfig with limits := { promotedConfig.limits with artifactMaxBytes := 256 } }

/-- The accepted limits leave no room for the manifest of the silent job, which is rejected. -/
theorem silentOutput_rejected :
    validateConfig narrowConfig = .ok ()
    ∧ validateEvent signedBlake3 narrowConfig promotedEvent = .ok ()
    ∧ silentOutput.Bounded narrowConfig.limits
    ∧ persistJobResult signedBlake3 silentHash narrowConfig promotedEvent silentOutput
      = .error (Diagnostic.text ⟨"ci-observation-bounds",
        "runner observation is malformed or above configured limits"⟩) := by
  have hconfig : validateConfig narrowConfig = .ok () :=
    validateConfig_limits promotedConfig_valid (ok_of_isOk (by decide))
  have hevent : validateEvent signedBlake3 narrowConfig promotedEvent = .ok () := by
    have hold := validateEvent_eq_ok.1 promotedEvent_valid
    exact validateEvent_eq_ok.2 ⟨hconfig, hold.schema, hold.policy, hold.rid, hold.oid,
      hold.digest, hold.feature, hold.locks, hold.scope, hold.trigger, hold.job⟩
  refine ⟨hconfig, hevent, silentOutput_bounded _, ?_⟩
  have hsize : (artifactManifest silentHash promotedEvent silentOutput).length
      = artifactManifestBytes := by decide +kernel
  have hlarge : narrowConfig.limits.artifactMaxBytes < (observed silentHash silentOutput
      (artifactManifest silentHash promotedEvent silentOutput)).artifactBytes := by
    simp only [observed, hsize]
    decide
  rw [persistJobResult_of_lt (by rw [hsize]; decide), classifyObservation_oversized hevent hlarge,
    Except.mapError]

end Silence

end OnixCore.RadicleCi
