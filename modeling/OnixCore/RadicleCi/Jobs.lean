import OnixCore.RadicleCi.Admission

/-!
# What a job leaves behind

The runner executes a claimed job as a bounded process, keeps the process's output as an artifact,
and classifies what it observed. A process is `bounded-exec`'s to run: here it is its output.

`hash` is the digest of a file: BLAKE3, in hexadecimal. Sizes fit the machine's words.
-/

namespace OnixCore.RadicleCi

/-- How a bounded process ended. Which stream went over its limit is not read. -/
inductive Disposition where
  | succeeded
  | exitFailed
  | timedOut
  | cancelled
  | outputLimitExceeded
  deriving DecidableEq, Repr

/-- An output stream of a bounded process: what was kept of it, and the size of all of it. -/
structure OutputStream where
  bytes : Bytes
  observedBytes : ℕ
  truncated : Bool
  deriving DecidableEq, Repr

structure ExecutionOutput where
  disposition : Disposition
  exitCode : Option ℤ
  stdout : OutputStream
  stderr : OutputStream
  deriving DecidableEq, Repr

/-- The output that a bounded process may have under the limits. -/
structure ExecutionOutput.Bounded (limits : RunnerLimitsV1) (output : ExecutionOutput) : Prop where
  stdout_le : output.stdout.bytes.length ≤ limits.stdoutMaxBytes
  stderr_le : output.stderr.bytes.length ≤ limits.stderrMaxBytes
  stdout_retained : output.stdout.bytes.length ≤ output.stdout.observedBytes
  stderr_retained : output.stderr.bytes.length ≤ output.stderr.observedBytes
  exitCode_eq : output.disposition = .succeeded → output.exitCode = some successExitCode

/-- The sizes a word holds are below this. -/
def wordBound : ℕ := 2 ^ 64

def mapDisposition : Disposition → RunnerDisposition
  | .succeeded => .succeeded
  | .exitFailed => .exitFailed
  | .timedOut => .timedOut
  | .cancelled => .cancelled
  | .outputLimitExceeded => .outputLimitExceeded

def directoryArtifactBytes (stdout stderr manifest : Bytes) : Except String ℕ :=
  let total := stdout.length + stderr.length + manifest.length
  if total < wordBound then .ok total else .error "artifact byte count overflow"

section Digests

variable (blake3 : Json → String) (hash : Bytes → String)

def artifactManifest (event : AdmittedEventV1) (output : ExecutionOutput) : Bytes :=
  Bytes.utf8 <| Json.prettyStrings [
    ("schema", "onix.radicle-ci-artifact.v1"),
    ("job_id", event.jobId),
    ("object_oid", event.objectOid),
    ("stdout_blake3", hash output.stdout.bytes),
    ("stderr_blake3", hash output.stderr.bytes)]

def observationFromOutput (output : ExecutionOutput) (manifest : Bytes) :
    Except String ObservationV1 := do
  let artifactBytes ← directoryArtifactBytes output.stdout.bytes output.stderr.bytes manifest
  return {
    disposition := mapDisposition output.disposition
    exitCode := output.exitCode
    stdoutObservedBytes := output.stdout.observedBytes
    stdoutRetainedBytes := output.stdout.bytes.length
    stdoutBlake3 := hash output.stdout.bytes
    stderrObservedBytes := output.stderr.observedBytes
    stderrRetainedBytes := output.stderr.bytes.length
    stderrBlake3 := hash output.stderr.bytes
    artifactBytes := artifactBytes
    artifactBlake3 := hash manifest }

/-- The result that goes to the outbox. An error sends the job to the rejected ones. -/
def persistJobResult (config : RunnerConfigV1) (event : AdmittedEventV1)
    (output : ExecutionOutput) : Except String JobResultV1 := do
  let observation ← observationFromOutput hash output (artifactManifest hash event output)
  (classifyObservation blake3 config event observation).mapError Diagnostic.text

end Digests

end OnixCore.RadicleCi
