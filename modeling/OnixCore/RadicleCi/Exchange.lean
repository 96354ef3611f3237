import OnixCore.Lib.Execution
import OnixCore.Lib.Spool
import OnixCore.Lib.Together
import OnixCore.RadicleCi.Jobs
import OnixCore.RadicleCi.Status

/-!
# The exchange

Three commands hand jobs to each other through the queues of the exchange directory. `scan` puts
the jobs of admitted candidates into `incoming` and notes them in the ledger, `runNext` executes
one and puts its result into `outbox`, and `publishNext` publishes one result as a comment on the
patch. Each command takes its own steps on the queues, one call at a time.

What `git`, `rad`, `nix` and the repository answer is whatever it is. `createAll` has run: a queue
that has no directory yet is one with nothing in it. A job's names in the queues are its id.
-/

namespace OnixCore.RadicleCi

inductive Queue where
  | incoming
  | processing
  | outbox
  | published
  | rejected
  | ledger
  | staging
  deriving DecidableEq, Repr

abbrev ExchangePath := Spool.Path Queue

/-- A patch whose state is proposed, with its latest revision and that revision's head. -/
structure ProposedPatch where
  patchId : String
  revisionId : String
  head : String
  deriving DecidableEq, Repr

structure CanonicalHead where
  reference : String
  oid : String
  deriving DecidableEq, Repr

inductive ExchangeAction where
  | readDir (q : Queue)
  | pathExists (p : ExchangePath)
  | isDir (p : ExchangePath)
  | isFile (p : ExchangePath)
  | read (p : ExchangePath)
  | createDir (q : Queue) (name : String)
  | createNew (p : ExchangePath)
  | write (p : ExchangePath) (bytes : Bytes)
  | rename (source target : ExchangePath)
  | openDir (q : Queue) (name : String)
  | unlink (p : ExchangePath)
  | removeDir (q : Queue) (name : String)
  | parseRid
  | openRepository
  | delegates
  | head
  | openPatches
  | proposed
  | gitCatFile (oid : String)
  | gitShow (oid file : String)
  | gitArchive (oid : String) (output : ExchangePath)
  | resetWork (jobId : String)
  | extractArchive (jobId : String)
  | readWorktree (jobId file : String)
  | sealSource (jobId : String)
  | nixArchive (jobId : String)
  | nixBuild (jobId : String) (arguments : List String)
  | keepArtifact (jobId : String) (files : List (String × Bytes))
  | radComment (revisionId message rid searchPath : String)

/-- An access that can fail carries the text of its failure. `gitArchive` also answers with what
lies at its output afterwards, `radComment` with whether the comment was stored. -/
abbrev ExchangeAnswer : ExchangeAction → Type
  | .readDir _ => List (String × Bool)
  | .pathExists _ => Bool
  | .isDir _ => Bool
  | .isFile _ => Bool
  | .read _ => Except IoError Bytes
  | .createDir _ _ => Except IoError Unit
  | .createNew _ => Except IoError Unit
  | .write _ _ => Except IoError Unit
  | .rename _ _ => Except IoError Unit
  | .openDir _ _ => Except IoError (List String)
  | .unlink _ => Except IoError Unit
  | .removeDir _ _ => Except IoError Unit
  | .parseRid => Bool
  | .openRepository => Except String Unit
  | .delegates => Except String (List String)
  | .head => Except String CanonicalHead
  | .openPatches => Except String Unit
  | .proposed => Except String (List ProposedPatch)
  | .gitCatFile _ => Except String ExecutionOutput
  | .gitShow _ _ => Except String ExecutionOutput
  | .gitArchive _ _ => Except String ExecutionOutput × Option Bytes
  | .resetWork _ => Except String Unit
  | .extractArchive _ => Except String ExecutionOutput
  | .readWorktree _ _ => Except String Bytes
  | .sealSource _ => Except String Unit
  | .nixArchive _ => Except String ExecutionOutput
  | .nixBuild _ _ => Except String ExecutionOutput
  | .keepArtifact _ _ => Except String Unit
  | .radComment _ _ _ _ => Except String ExecutionOutput × Bool

/-- The queues, and the comments stored on patch revisions, each with its revision. -/
structure Exchange where
  queues : Spool Queue
  comments : List (String × String)

def succeeded : Except String ExecutionOutput → Bool
  | .ok output => output.disposition = .succeeded
  | .error _ => false

/-- Takes over a change of the queues, unless it failed. -/
def Exchange.change (w : Exchange) : Except IoError (Spool Queue) → Except IoError Unit × Exchange
  | .ok queues => (.ok (), { w with queues })
  | .error e => (.error e, w)

/-- Makes `file` what lies at a path, unless a directory is there. -/
def Exchange.leave (w : Exchange) (output : ExchangePath) (file : Option Bytes) : Exchange :=
  if (w.queues.find output).any Entry.isDir then w
  else
    match w.queues.store output (file.map .file) with
    | .ok queues => { w with queues }
    | .error _ => w

/-- What an action does to the exchange, and what it answers. An answer about the queues is
theirs. For what is outside, `told` is the answer. -/
def exchangePerform (w : Exchange) :
    (i : ExchangeAction) → (told : ExchangeAnswer i) → ExchangeAnswer i × Exchange
  | .readDir q, _ => (w.queues.readDir q, w)
  | .pathExists p, _ => ((w.queues.find p).isSome, w)
  | .isDir p, _ => ((w.queues.find p).any Entry.isDir, w)
  | .isFile p, _ => ((w.queues.find p).any (!Entry.isDir ·), w)
  | .read p, _ => (w.queues.read p, w)
  | .createDir q name, _ => w.change (w.queues.createDir q name)
  | .createNew p, _ => w.change (w.queues.createNew p)
  | .write p bytes, _ => w.change (w.queues.write p bytes)
  | .rename source target, _ => w.change (w.queues.rename source target)
  | .openDir q name, _ => (w.queues.openDir q name, w)
  | .unlink p, _ => w.change (w.queues.unlink p)
  | .removeDir q name, _ => w.change (w.queues.removeDir q name)
  | .gitArchive _ output, told => (told, w.leave output told.2)
  | .radComment revisionId message _ _, told =>
    (told, if told.2 || succeeded told.1 then
      { w with comments := (revisionId, message) :: w.comments } else w)
  | .parseRid, told => (told, w)
  | .openRepository, told => (told, w)
  | .delegates, told => (told, w)
  | .head, told => (told, w)
  | .openPatches, told => (told, w)
  | .proposed, told => (told, w)
  | .gitCatFile _, told => (told, w)
  | .gitShow _ _, told => (told, w)
  | .resetWork _, told => (told, w)
  | .extractArchive _, told => (told, w)
  | .readWorktree _ _, told => (told, w)
  | .sealSource _, told => (told, w)
  | .nixArchive _, told => (told, w)
  | .nixBuild _ _, told => (told, w)
  | .keepArtifact _ _, told => (told, w)

abbrev ExchangeProg := Prog ExchangeAction ExchangeAnswer String

def ExchangeProg.act (i : ExchangeAction) : ExchangeProg (ExchangeAnswer i) := Prog.act i

/-- An answer to every action. Those about the queues are not asked for. -/
abbrev ExchangeHost := (i : ExchangeAction) → ExchangeAnswer i

/-- Runs a command while nothing else touches the exchange. -/
def runAlone {α : Type} (host : ExchangeHost) (p : ExchangeProg α) (w : Exchange) :
    Exchange × Except String α :=
  p.eval (fun w i => exchangePerform w i (host i)) w

/-- The value, or a failure with the system's error after the context. -/
def shellIo {α : Type} (context : String) : Except IoError α → ExchangeProg α
  | .ok a => .done a
  | .error e => .fail (context ++ ": " ++ e.text)

/-- The value, or a failure with the text of the error after the context. -/
def shellText {α : Type} (context : String) : Except String α → ExchangeProg α
  | .ok a => .done a
  | .error e => .fail (context ++ ": " ++ e)

/-- A bounded process that could not be run to its end is a failure. -/
def runBounded (r : Except String ExecutionOutput) : ExchangeProg ExecutionOutput :=
  shellText "bounded process failed" r

/-- How the documents in the exchange are written and read. -/
structure Codec where
  writeEvent : AdmittedEventV1 → Bytes
  readEvent : Bytes → Except String AdmittedEventV1
  writeResult : JobResultV1 → Bytes
  readResult : Bytes → Except String JobResultV1
  writeStatus : SignedStatusV1 → String

/-! ## Files -/

def createDirectory (q : Queue) (name : String) : ExchangeProg Unit := do
  let found : Bool ← ExchangeProg.act (.pathExists (.entry q name))
  if found then
    let isDir : Bool ← ExchangeProg.act (.isDir (.entry q name))
    Prog.check (isDir = true) "directory path is occupied by a non-directory"
  else
    shellIo "failed to create directory" (← ExchangeProg.act (.createDir q name))

/-- The name a file has while it is written. -/
def temporaryName (pid : ℕ) (name : String) : String := ".tmp-" ++ toString pid ++ "-" ++ name

def temporaryPath (pid : ℕ) : ExchangePath → ExchangePath
  | .entry q name => .entry q (temporaryName pid name)
  | .inside q name file => .inside q name (temporaryName pid file)

/-- The directory that a file is written into. -/
def createParent : ExchangePath → ExchangeProg Unit
  | .entry _ _ => Prog.done ()
  | .inside q name _ => createDirectory q name

def writeFile (pid : ℕ) (path : ExchangePath) (bytes : Bytes) : ExchangeProg Unit := do
  createParent path
  shellIo "failed to create temporary output"
    (← ExchangeProg.act (.createNew (temporaryPath pid path)))
  shellIo "failed to write temporary output"
    (← ExchangeProg.act (.write (temporaryPath pid path) bytes))
  shellIo "failed to commit output" (← ExchangeProg.act (.rename (temporaryPath pid path) path))

def readJson {α : Type} (decode : Bytes → Except String α) (path : ExchangePath) :
    ExchangeProg α := do
  let bytes ← shellIo "failed to read JSON" (← ExchangeProg.act (.read path))
  shellText "invalid JSON" (decode bytes)

/-- Unlinks the listed files of a directory and removes it. What is gone already is no failure. -/
def unlinkAll (q : Queue) (name : String) : List String → ExchangeProg (Except IoError Unit)
  | [] => do
    match ← ExchangeProg.act (.removeDir q name) with
    | .error .notFound => return .ok ()
    | r => return r
  | file :: files => do
    match ← ExchangeProg.act (.unlink (.inside q name file)) with
    | .ok () => unlinkAll q name files
    | .error .notFound => unlinkAll q name files
    | .error e => return .error e

def removeDirAll (q : Queue) (name : String) : ExchangeProg (Except IoError Unit) := do
  match ← ExchangeProg.act (.openDir q name) with
  | .ok files => unlinkAll q name files
  | .error e => return .error e

/-- Removes a directory where something stands. -/
def clearDirectory (q : Queue) (name context : String) : ExchangeProg Unit := do
  let found : Bool ← ExchangeProg.act (.pathExists (.entry q name))
  if found then
    shellIo context (← removeDirAll q name)

def directoryNames (q : Queue) : ExchangeProg (List String) := do
  let entries ← ExchangeProg.act (.readDir q)
  return ((entries.filter (·.2)).map (·.1)).insertionSort (· ≤ ·)

def firstDirectory (q : Queue) : ExchangeProg (Option String) := do
  return (← directoryNames q).head?

/-! ## Scanning -/

structure CandidateSeed where
  trigger : TriggerClass
  reference : String
  objectOid : String
  patchId : Option String
  revisionId : Option String
  deriving DecidableEq, Repr

def gitOutputMaxBytes : ℕ := 16 * 1048576

def gitObjectExists (oid : String) : ExchangeProg Bool := do
  let output ← runBounded (← ExchangeProg.act (.gitCatFile oid))
  return output.disposition = .succeeded

section Commands

variable (blake3 : Json → String) (hash : Bytes → String) (codec : Codec)
  (config : RunnerConfigV1) (pid : ℕ)

def observeControlFile (oid file : String) : ExchangeProg String := do
  let output ← runBounded (← ExchangeProg.act (.gitShow oid file))
  Prog.check (output.disposition = .succeeded ∧ !output.stdout.truncated)
    "failed to read bounded control file from Git object"
  return hash output.stdout.bytes

def observeLocks (oid : String) : ExchangeProg LockIdentityV1 := do
  let cargoToml ← observeControlFile hash oid "Cargo.toml"
  let cargoLock ← observeControlFile hash oid "Cargo.lock"
  let flakeNix ← observeControlFile hash oid "flake.nix"
  let flakeLock ← observeControlFile hash oid "flake.lock"
  return ⟨cargoToml, cargoLock, flakeNix, flakeLock⟩

/-- The size of a file is that of its bytes. -/
def createGitArchive (oid : String) (output : ExchangePath) : ExchangeProg Unit := do
  let answer ← ExchangeProg.act (.gitArchive oid output)
  let process ← runBounded answer.1
  Prog.check (process.disposition = .succeeded) "Git source archive failed"
  let archive ← shellIo "Git source archive is missing" (← ExchangeProg.act (.read output))
  Prog.check (archive.length ≠ 0 ∧ archive.length ≤ config.limits.artifactMaxBytes)
    "Git source archive is empty or above artifact bound"

def sourceName (oid : String) : String := "source-" ++ oid ++ "-" ++ toString pid ++ ".tar"

def stagedJobName (jobId : String) : String := "job-" ++ jobId

def candidateOf (seed : CandidateSeed) (locks : LockIdentityV1) : CandidateV1 where
  rid := config.rid
  trigger := seed.trigger
  reference := seed.reference
  objectOid := seed.objectOid
  patchId := seed.patchId
  revisionId := seed.revisionId
  objectPresentLocally := true
  objectIsCurrent := true
  signedRefsFeature := config.signedRefsFeature
  delegateAlignmentVerified := true
  observedLocks := locks

/-- What the candidate is, and what it is admitted as. Its source archive stays in `staging`. -/
def admitSeed (seed : CandidateSeed) : ExchangeProg AdmittedEventV1 := do
  let present ← gitObjectExists seed.objectOid
  Prog.check (present = true) "candidate Git object is missing locally"
  let locks ← observeLocks hash seed.objectOid
  let archivePath := Spool.Path.entry Queue.staging (sourceName pid seed.objectOid)
  createGitArchive config seed.objectOid archivePath
  let archive ← shellIo "failed to read source archive" (← ExchangeProg.act (.read archivePath))
  Prog.ofExcept
    ((admitCandidate blake3 config (candidateOf config seed locks) (hash archive)).mapError
      Diagnostic.text)

/-- The directory of a new job. -/
def stageJob (archivePath : ExchangePath) (event : AdmittedEventV1) : ExchangeProg Unit := do
  let staged := stagedJobName event.jobId
  clearDirectory .staging staged "failed to clear stale staged job"
  createDirectory .staging staged
  writeFile pid (.inside .staging staged "event.json") (codec.writeEvent event)
  shellIo "failed to stage source archive"
    (← ExchangeProg.act (.rename archivePath (.inside .staging staged "source.tar")))
  writeFile pid (.inside .staging staged "source.blake3")
    (Bytes.utf8 (event.sourceArchiveBlake3 ++ "\n"))
  writeFile pid (.inside .staging staged "ready") (Bytes.utf8 "ready\n")

/-- Puts the job into the queue, and only then into the ledger. -/
def queueJob (event : AdmittedEventV1) : ExchangeProg Unit := do
  shellIo "failed to publish incoming job"
    (← ExchangeProg.act
      (.rename (.entry .staging (stagedJobName event.jobId)) (.entry .incoming event.jobId)))
  writeFile pid (.entry .ledger event.jobId) (Bytes.utf8 (event.objectOid ++ "\n"))

def exportCandidate (seed : CandidateSeed) : ExchangeProg Unit := do
  let event ← admitSeed blake3 hash config pid seed
  let archivePath := Spool.Path.entry Queue.staging (sourceName pid seed.objectOid)
  let known : Bool ← ExchangeProg.act (.pathExists (.entry .ledger event.jobId))
  if known then
    let _ ← ExchangeProg.act (.unlink archivePath)
    return
  stageJob codec pid archivePath event
  queueJob pid event

def verifyDelegates : ExchangeProg Unit := do
  let actual ← shellText "failed to read repository delegates" (← ExchangeProg.act .delegates)
  Prog.check (actual.insertionSort (· ≤ ·) = config.delegates.insertionSort (· ≤ ·))
    "repository delegate set does not match CI policy"

def canonicalSeed (head : CanonicalHead) : CandidateSeed where
  trigger := .canonicalBranch
  reference := head.reference
  objectOid := head.oid
  patchId := none
  revisionId := none

def patchSeed (patch : ProposedPatch) : CandidateSeed where
  trigger := .patch
  reference := "refs/cobs/xyz.radicle.patch/" ++ patch.patchId
  objectOid := patch.head
  patchId := some patch.patchId
  revisionId := some patch.revisionId

def scan : ExchangeProg Unit := do
  let parsed : Bool ← ExchangeProg.act .parseRid
  Prog.check (parsed = true) "configured RID is invalid"
  shellText "failed to open CI bot repository" (← ExchangeProg.act .openRepository)
  verifyDelegates config
  let head ← shellText "failed to read canonical head" (← ExchangeProg.act .head)
  exportCandidate blake3 hash codec config pid (canonicalSeed head)
  shellText "failed to open patch store" (← ExchangeProg.act .openPatches)
  let proposed ← shellText "failed to list proposed patches" (← ExchangeProg.act .proposed)
  proposed.forM fun patch => exportCandidate blake3 hash codec config pid (patchSeed patch)

/-! ## Executing -/

def loadClaimedEvent (jobName : String) : ExchangeProg AdmittedEventV1 := do
  let ready : Bool ← ExchangeProg.act (.isFile (.inside .processing jobName "ready"))
  Prog.check (ready = true) "claimed job is not complete"
  let event ← readJson codec.readEvent (.inside .processing jobName "event.json")
  Prog.ofExcept ((validateEvent blake3 config event).mapError Diagnostic.text)
  let archive ← shellIo "failed to read claimed source archive"
    (← ExchangeProg.act (.read (.inside .processing jobName "source.tar")))
  Prog.check (hash archive = event.sourceArchiveBlake3) "claimed source archive BLAKE3 changed"
  return event

def observeWorktreeFile (jobId file : String) : ExchangeProg String := do
  let bytes ← shellText "failed to read materialized control file"
    (← ExchangeProg.act (.readWorktree jobId file))
  Prog.check (bytes.length ≤ gitOutputMaxBytes) "materialized control file exceeds hard bound"
  return hash bytes

def observeWorktreeLocks (jobId : String) : ExchangeProg LockIdentityV1 := do
  let cargoToml ← observeWorktreeFile hash jobId "Cargo.toml"
  let cargoLock ← observeWorktreeFile hash jobId "Cargo.lock"
  let flakeNix ← observeWorktreeFile hash jobId "flake.nix"
  let flakeLock ← observeWorktreeFile hash jobId "flake.lock"
  return ⟨cargoToml, cargoLock, flakeNix, flakeLock⟩

/-- The working directory of the job is not part of the exchange. -/
def materializeSource (event : AdmittedEventV1) : ExchangeProg Unit := do
  Prog.ofExcept (← ExchangeProg.act (.resetWork event.jobId))
  let process ← runBounded (← ExchangeProg.act (.extractArchive event.jobId))
  Prog.check (process.disposition = .succeeded) "source archive extraction failed"
  let observed ← observeWorktreeLocks hash event.jobId
  Prog.check (observed = config.expectedLocks ∧ observed = event.locks)
    "materialized source lock identities changed"
  Prog.ofExcept (← ExchangeProg.act (.sealSource event.jobId))

def executeNixJob (event : AdmittedEventV1) : ExchangeProg ExecutionOutput := do
  let preparation ← runBounded (← ExchangeProg.act (.nixArchive event.jobId))
  if preparation.disposition ≠ .succeeded then
    return preparation
  runBounded (← ExchangeProg.act (.nixBuild event.jobId config.commandArguments))

def stagedResultName (jobId : String) : String := "result-" ++ jobId

def joinPath (root name : String) : String :=
  if endsWith "/" root then root ++ name else root ++ "/" ++ name

def publishResultToOutbox (event : AdmittedEventV1) (result : JobResultV1) :
    ExchangeProg Unit := do
  let staged := stagedResultName event.jobId
  clearDirectory .staging staged "failed to clear staged result"
  createDirectory .staging staged
  writeFile pid (.inside .staging staged "event.json") (codec.writeEvent event)
  writeFile pid (.inside .staging staged "result.json") (codec.writeResult result)
  writeFile pid (.inside .staging staged "artifact.path")
    (Bytes.utf8 (joinPath config.artifactPath event.jobId ++ "\n"))
  clearDirectory .outbox event.jobId "failed to replace pending result"
  shellIo "failed to publish job result"
    (← ExchangeProg.act (.rename (.entry .staging staged) (.entry .outbox event.jobId)))

/-- The artifact's directory is not part of the exchange. -/
def storeJobResult (event : AdmittedEventV1) (output : ExecutionOutput) : ExchangeProg Unit := do
  Prog.ofExcept (← ExchangeProg.act (.keepArtifact event.jobId [
    ("stdout.log", output.stdout.bytes),
    ("stderr.log", output.stderr.bytes),
    ("manifest.json", artifactManifest hash event output)]))
  let result ← Prog.ofExcept (persistJobResult blake3 hash config event output)
  publishResultToOutbox codec config pid event result

def executeClaimedJob (jobName : String) : ExchangeProg Unit := do
  let event ← loadClaimedEvent blake3 hash codec config jobName
  materializeSource hash config event
  let output ← executeNixJob config event
  storeJobResult blake3 hash codec config pid event output

def recoverJob (jobName : String) : ExchangeProg Unit := do
  let found : Bool ← ExchangeProg.act (.pathExists (.entry .incoming jobName))
  if found then
    shellIo "failed to remove duplicate processing job" (← removeDirAll .processing jobName)
  else
    shellIo "failed to recover interrupted job"
      (← ExchangeProg.act (.rename (.entry .processing jobName) (.entry .incoming jobName)))

def recoverProcessing : ExchangeProg Unit := do
  (← directoryNames .processing).forM recoverJob

def runNext : ExchangeProg Unit := do
  recoverProcessing
  match ← firstDirectory .incoming with
  | none => return
  | some jobName =>
    shellIo "failed to claim incoming job"
      (← ExchangeProg.act (.rename (.entry .incoming jobName) (.entry .processing jobName)))
    match ← (executeClaimedJob blake3 hash codec config pid jobName).attempt with
    | .ok () => shellIo "failed to clean processed job" (← removeDirAll .processing jobName)
    | .error e =>
      clearDirectory .rejected jobName "failed to replace rejected job"
      shellIo "failed to retain rejected job"
        (← ExchangeProg.act (.rename (.entry .processing jobName) (.entry .rejected jobName)))
      Prog.fail e

/-! ## Publishing -/

/-- The directory a path is in: none for the root or an empty path. -/
def parentDirectory (path : Text) : Option Text :=
  let idle : Text → Bool := fun part => part = [] ∨ part = ['.']
  match path.splitOn '/' with
  | [] => none
  | first :: rest =>
    let parts := rest.rdropWhile idle
    if parts = [] then if first = [] then none else some []
    else
      let parents := parts.dropLast.rdropWhile idle
      if first = [] ∧ parents = [] then some ['/'] else some (['/'].intercalate (first :: parents))

def searchDirectory (program : String) : Except String Text :=
  match parentDirectory program.toList with
  | none => .error "configured executable has no parent directory"
  | some directory => .ok directory

def executablePathEnvironment : Except String String := do
  let git ← searchDirectory config.gitProgram
  let rad ← searchDirectory config.radProgram
  let ssh ← searchDirectory config.sshProgram
  if [git, rad, ssh].any (':' ∈ ·) then
    throw "configured executable search path is invalid"
  return String.ofList ([':'].intercalate [git, rad, ssh])

/-- The patch revision to comment on, and the comment. -/
def statusComment (event : AdmittedEventV1) (result : JobResultV1) :
    Except String (String × String) := do
  let some revisionId := event.revisionId
    | throw "patch status lacks revision ID"
  let status ← (buildSignedStatus blake3 config event result).mapError Diagnostic.text
  let message ← (renderSignedStatus blake3 codec.writeStatus status).mapError Diagnostic.text
  return (revisionId, message)

def commentStatus (event : AdmittedEventV1) (result : JobResultV1) : ExchangeProg Unit := do
  let comment ← Prog.ofExcept (statusComment blake3 codec config event result)
  let searchPath ← Prog.ofExcept (executablePathEnvironment config)
  let answer ← ExchangeProg.act (.radComment comment.1 comment.2 event.rid searchPath)
  let process ← runBounded answer.1
  Prog.check (process.disposition = .succeeded) "Radicle patch status publication failed"

def loadOutcome (jobName : String) : ExchangeProg (AdmittedEventV1 × JobResultV1) := do
  let event ← readJson codec.readEvent (.inside .outbox jobName "event.json")
  let result ← readJson codec.readResult (.inside .outbox jobName "result.json")
  Prog.ofExcept ((validateEvent blake3 config event).mapError Diagnostic.text)
  Prog.ofExcept ((validateResult event result).mapError Diagnostic.text)
  return (event, result)

def publishJob (jobName : String) : ExchangeProg Unit := do
  let outcome ← loadOutcome blake3 codec config jobName
  if outcome.1.trigger = .patch then
    commentStatus blake3 codec config outcome.1 outcome.2
  clearDirectory .published jobName "failed to replace published result"
  shellIo "failed to commit published result"
    (← ExchangeProg.act (.rename (.entry .outbox jobName) (.entry .published jobName)))

def publishNext : ExchangeProg Unit := do
  match ← firstDirectory .outbox with
  | none => return
  | some jobName => publishJob blake3 codec config jobName

/-! ## Running together -/

inductive Command where
  | scan
  | runNext
  | publishNext
  deriving DecidableEq

/-- What a process of a command does. -/
inductive Starts : Command → ExchangeProg Unit → Prop
  | scan (pid : ℕ) : Starts .scan (scan blake3 hash codec config pid)
  | runNext (pid : ℕ) : Starts .runNext (runNext blake3 hash codec config pid)
  | publishNext : Starts .publishNext (publishNext blake3 codec config)

/-- An action, with anything told about what is outside. -/
def exchangeEffect (w : Exchange) (i : ExchangeAction) (r : ExchangeAnswer i) (v : Exchange) :
    Prop :=
  ∃ told, exchangePerform w i told = (r, v)

/-- The exchange with one process at most of each command. -/
abbrev ExchangePool := Pool Command ExchangeAction ExchangeAnswer String Exchange

/-- A process starts, takes its next action, or is stopped where it is. -/
def CommandStep : ExchangePool → Move Command → ExchangePool → Prop :=
  PoolStep exchangeEffect (Starts blake3 hash codec config)

end Commands

end OnixCore.RadicleCi
