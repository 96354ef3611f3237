import Mathlib.Data.List.AList
import OnixCore.Lib.Program
import OnixCore.RadicleCi.Status

/-!
# The guard command

`guardCommand` reads the documents, observes the live repository, evaluates the guard, and with
`--execute` swaps the canonical reference before it writes its receipt. It acts on references that
other writers change at the same time, and on the files of the output root.

An answer that comes from the repository, from a document or from the host is whatever it is; an
answer about a reference or an output file is the state's, and any of these accesses may fail. The
swap is atomic: it takes effect only where the reference still is what the caller expects.
-/

namespace OnixCore.RadicleCi

/-- A Git object id, as its text. -/
structure Oid where
  text : String
  wf : gitOid text = true
  deriving DecidableEq

theorem Oid.ext {a b : Oid} (h : a.text = b.text) : a = b := by
  cases a
  cases b
  cases h
  rfl

/-- Reads an object id from the text it is printed as. -/
def Oid.parse (text : String) : Option Oid :=
  if h : gitOid text = true then some ⟨text, h⟩ else none

theorem Oid.parse_text (oid : Oid) : Oid.parse oid.text = some oid := dif_pos oid.wf

structure GuardExecutionReceiptV1 where
  schema : String
  receiptBlake3 : String
  executed : Bool
  report : GuardReportV1
  observedAfterOid : String
  nonClaims : List String
  deriving DecidableEq, Repr

inductive Verdict where
  | accept
  | reject
  deriving DecidableEq, Repr

/-- A patch revision: what it proposes to put on what, with its comments and reviews, each under
the identity that signed it. -/
structure Revision where
  base : Oid
  head : Oid
  comments : List (String × String)
  reviews : List (String × Option Verdict)

inductive FeatureLevel where
  | none
  | root
  | parent
  deriving DecidableEq, Repr

/-- A delegate's signed references: their feature level, and what `refs/heads/main` is in them. -/
structure SignedRefs where
  featureLevel : FeatureLevel
  main : Option Oid

inductive GuardAction where
  | readPolicy (path : String)
  | readEvent (path : String)
  | readResult (path : String)
  | readReceipt (path : String)
  | openRepository (path rid : String)
  | loadRevision (patchId revisionId : String)
  | refnameToId (name : String)
  | findCommit (oid : Oid)
  | graphDescendantOf (candidate current : Oid)
  | loadSignedRefs (nodeId : String)
  | referenceMatching (name : String) (oid current : Oid)
  | isDir (path : String)
  | canonicalize (path : String)
  | canonicalizeParent (root relative : String)
  | createNew (path : String)
  | writeAll (path : String) (receipt : GuardExecutionReceiptV1)
  | syncAll (path : String)
  | setMode (path : String)

/-- An access that can fail carries the text of its failure. A repository answers with its own
id. -/
abbrev GuardAnswer : GuardAction → Type
  | .readPolicy _ => Except String ForgeGuardPolicyV1
  | .readEvent _ => Except String AdmittedEventV1
  | .readResult _ => Except String JobResultV1
  | .readReceipt _ => Except String ValenceAdmissionReceiptV1
  | .openRepository _ _ => Except String String
  | .loadRevision _ _ => Except String Revision
  | .refnameToId _ => Except String Oid
  | .findCommit _ => Bool
  | .graphDescendantOf _ _ => Except String Bool
  | .loadSignedRefs _ => Except String (Option SignedRefs)
  | .referenceMatching _ _ _ => Except String Unit
  | .isDir _ => Bool
  | .canonicalize _ => Except String String
  | .canonicalizeParent _ _ => Except String String
  | .createNew _ => Except String Unit
  | .writeAll _ _ => Except String Unit
  | .syncAll _ => Except String Unit
  | .setMode _ => Except String Unit

inductive OutputFile where
  | unwritten
  | written (receipt : GuardExecutionReceiptV1)

/-- What guards and other writers share: the references, and the files under the output root. -/
structure GuardWorld where
  refs : String → Option Oid
  outputs : String → Option OutputFile

def GuardWorld.setRef (w : GuardWorld) (name : String) (oid : Oid) : GuardWorld :=
  { w with refs := fun n => if n = name then some oid else w.refs n }

def GuardWorld.setOutput (w : GuardWorld) (path : String) (file : OutputFile) : GuardWorld :=
  { w with outputs := fun p => if p = path then some file else w.outputs p }

/-- What an action does to the world. A commit is no descendant of itself. -/
def guardPerform (w : GuardWorld) : (i : GuardAction) → GuardAnswer i → Option GuardWorld
  | .refnameToId name, .ok oid => if w.refs name = some oid then some w else none
  | .graphDescendantOf candidate current, .ok true => if candidate = current then none else some w
  | .referenceMatching name oid current, .ok () =>
    if w.refs name = some current then some (w.setRef name oid) else none
  | .createNew path, .ok () =>
    if (w.outputs path).isNone then some (w.setOutput path .unwritten) else none
  | .writeAll path receipt, .ok () => some (w.setOutput path (.written receipt))
  | _, _ => some w

abbrev GuardProg := Prog GuardAction GuardAnswer String

def GuardProg.act (i : GuardAction) : GuardProg (GuardAnswer i) := Prog.act i

/-- The value, or a failure with the text of the error after the context. -/
def require {α : Type} (context : String) : Except String α → GuardProg α
  | .ok a => .done a
  | .error e => .fail (context ++ ": " ++ e)

/-- The flags of the command: named values, and the one switch. -/
structure GuardFlagSet where
  values : AList fun _ : String => String
  execute : Bool

/-- The name of a flag: what follows `--`. -/
def flagName (argument : String) : Option String :=
  (Text.stripPrefix ['-', '-'] argument.toList).map String.ofList

def parseFlags (flags : GuardFlagSet) : List String → Except String GuardFlagSet
  | [] => .ok flags
  | argument :: rest =>
    match flagName argument with
    | none => .error ("guard expected a flag, found " ++ argument.quote)
    | some name =>
      if name = "execute" then
        if flags.execute then .error "guard received duplicate --execute"
        else parseFlags { flags with execute := true } rest
      else
        match rest with
        | [] => .error ("guard flag --" ++ name ++ " lacks a value")
        | value :: rest =>
          if (flagName value).isSome ∨ name ∈ flags.values then
            .error ("guard flag --" ++ name ++ " is invalid or duplicated")
          else parseFlags { flags with values := flags.values.insert name value } rest

def requiredFlags : List String :=
  ["repository", "policy", "event", "result", "receipt", "output-root", "output"]

def GuardFlagSet.parse (arguments : List String) : Except String GuardFlagSet := do
  let flags ← parseFlags ⟨∅, false⟩ arguments
  match (flags.values.keys.insertionSort (· ≤ ·)).find? (· ∉ requiredFlags) with
  | some name => throw ("guard received unknown flag --" ++ name)
  | none => pure ()
  match requiredFlags.find? (· ∉ flags.values) with
  | some name => throw ("guard requires --" ++ name)
  | none => pure ()
  return flags

def GuardFlagSet.value (flags : GuardFlagSet) (name : String) : GuardProg String :=
  match flags.values.lookup name with
  | some value => .done value
  | none => .fail ("guard requires --" ++ name)

/-- Sorted, and each value once. -/
def sortDedup (l : List String) : List String :=
  (l.insertionSort (· ≤ ·)).destutter (· ≠ ·)

section Command

variable (blake3 : Json → String) (decode : String → Option SignedStatusV1)

def openGuardRepository (path expectedRid : String) : GuardProg String := do
  let id ← require "failed to open selected guard repository"
    (← GuardProg.act (.openRepository path expectedRid))
  Prog.check (id = expectedRid) "selected guard repository RID does not match policy"
  return id

/-- The bot's statuses for the event's job, in the order of the comments. -/
def matchingStatuses (policy : ForgeGuardPolicyV1) (event : AdmittedEventV1) :
    List (String × String) → Except String (List (String × SignedStatusV1))
  | [] => .ok []
  | (author, body) :: rest =>
    if author ≠ policy.botDid ∨ !startsWith statusMarker body then
      matchingStatuses policy event rest
    else
      match parseSignedStatus blake3 decode body with
      | .error d => .error ("bot signed status is invalid: " ++ d.text)
      | .ok status => do
        let statuses ← matchingStatuses policy event rest
        return if status.jobId = event.jobId then (author, status) :: statuses else statuses

/-- The policy's delegates whose verified `parent` references name the candidate. -/
def signingDelegates (candidate : Oid) : List String → GuardProg (List String)
  | [] => .done []
  | delegate :: rest => do
    let some nodeId := Text.stripPrefix "did:key:".toList delegate.toList
      | Prog.fail "guard delegate DID is invalid"
    let signed ← require "failed to verify delegate signed refs"
      (← GuardProg.act (.loadSignedRefs (String.ofList nodeId)))
    let more ← signingDelegates candidate rest
    return if signed.any fun s => s.featureLevel = .parent ∧ s.main = some candidate then
      delegate :: more else more

def materializeSigningDelegates (policy : ForgeGuardPolicyV1) (candidate : Oid) :
    GuardProg (List String) := do
  return sortDedup (← signingDelegates candidate policy.delegates)

def materializeLiveGuardObservation (repositoryId : String) (policy : ForgeGuardPolicyV1)
    (event : AdmittedEventV1) : GuardProg LiveGuardObservationV1 := do
  let some patchId := event.patchId
    | Prog.fail "guard event lacks a patch ID"
  let some revisionId := event.revisionId
    | Prog.fail "guard event lacks a revision ID"
  let revision ← require "failed to evaluate guard patch"
    (← GuardProg.act (.loadRevision patchId revisionId))
  let statuses ← Prog.ofExcept (matchingStatuses blake3 decode policy event revision.comments)
  let [(statusAuthorDid, status)] := statuses
    | Prog.fail "guard requires exactly one matching bot signed status"
  let approvingDelegates := sortDedup (revision.reviews.filterMap fun review =>
    if review.2 = some .accept ∧ review.1 ∈ policy.delegates then some review.1 else none)
  let current ← require "failed to read current canonical ref"
    (← GuardProg.act (.refnameToId policy.targetRef))
  let candidatePresent : Bool ← GuardProg.act (.findCommit revision.head)
  let candidateIsDescendant ←
    if candidatePresent then do
      require "failed to evaluate guard ancestry"
        (← GuardProg.act (.graphDescendantOf revision.head current))
    else Prog.done false
  let signingDelegates ← materializeSigningDelegates policy revision.head
  return {
    rid := repositoryId
    patchId := patchId
    revisionId := revisionId
    baseOid := revision.base.text
    candidateOid := revision.head.text
    targetRef := policy.targetRef
    currentCanonicalOid := current.text
    candidatePresent := candidatePresent
    candidateIsDescendant := candidateIsDescendant
    canonicalObservationCurrent := true
    evaluatorVerified := true
    signedRefsFeature := policy.signedRefsFeature
    statusAuthorDid := statusAuthorDid
    status := status
    approvingDelegates := approvingDelegates
    signingDelegates := signingDelegates }

def executeGuardCompareAndSwap (decision : GuardDecisionV1) : GuardProg String := do
  let observed ← require "failed to reread canonical ref before compare-and-swap"
    (← GuardProg.act (.refnameToId decision.targetRef))
  Prog.check (observed.text = decision.expectedOldOid)
    "canonical ref changed after guard admission"
  let some candidate := Oid.parse decision.candidateOid
    | Prog.fail "guard candidate OID is invalid"
  let present : Bool ← GuardProg.act (.findCommit candidate)
  Prog.check (present = true) "guard candidate commit disappeared"
  require "atomic canonical compare-and-swap failed"
    (← GuardProg.act (.referenceMatching decision.targetRef candidate observed))
  let after ← require "failed to verify canonical ref after compare-and-swap"
    (← GuardProg.act (.refnameToId decision.targetRef))
  Prog.check (after.text = decision.candidateOid)
    "canonical ref does not equal the admitted candidate after compare-and-swap"
  return after.text

def guardReceiptSchema : String := "onix.radicle-forge-guard-execution.v1"

def guardExecutionReceipt (executed : Bool) (report : GuardReportV1) (observedAfterOid : String) :
    GuardExecutionReceiptV1 where
  schema := guardReceiptSchema
  receiptBlake3 := blake3 (.arr [.str guardReceiptSchema, .bool executed, report.toJson,
    .str observedAfterOid, Json.strings guardNonClaims])
  executed := executed
  report := report
  observedAfterOid := observedAfterOid
  nonClaims := guardNonClaims

/-- One relative file name: not absolute, and no component that is `.` or `..`. -/
def plainRelative (output : String) : Bool :=
  let path := Text.pathComponents output.toList
  !path.1 && !path.2.contains ['.'] && !path.2.contains ['.', '.']

def guardOutputPath (root output : String) : GuardProg String := do
  let isDir : Bool ← GuardProg.act (.isDir root)
  Prog.check (isDir = true) "guard output root must be an existing directory"
  Prog.check (plainRelative output = true) "guard output must be one relative file name"
  let canonicalRoot ← require "failed to resolve guard output root"
    (← GuardProg.act (.canonicalize root))
  let parent ← require "failed to resolve guard output parent"
    (← GuardProg.act (.canonicalizeParent root output))
  Prog.check (parent = canonicalRoot) "guard output escaped its selected root"
  return root ++ "/" ++ output

def writeGuardJson (path : String) (receipt : GuardExecutionReceiptV1) : GuardProg Unit := do
  require "failed to create guard output" (← GuardProg.act (.createNew path))
  require "failed to write guard output" (← GuardProg.act (.writeAll path receipt))
  require "failed to sync guard output" (← GuardProg.act (.syncAll path))
  require "failed to set filesystem mode" (← GuardProg.act (.setMode path))

def guardCommand (arguments : List String) : GuardProg Unit := do
  let flags ← Prog.ofExcept (GuardFlagSet.parse arguments)
  let policy ← require "failed to read JSON" (← GuardProg.act (.readPolicy (← flags.value "policy")))
  let event ← require "failed to read JSON" (← GuardProg.act (.readEvent (← flags.value "event")))
  let result ← require "failed to read JSON"
    (← GuardProg.act (.readResult (← flags.value "result")))
  let valence ← require "failed to read JSON"
    (← GuardProg.act (.readReceipt (← flags.value "receipt")))
  let repository ← openGuardRepository (← flags.value "repository") policy.rid
  let live ← materializeLiveGuardObservation blake3 decode repository policy event
  let report := evaluateCanonicalGuard blake3 policy event result valence live
  let output ← guardOutputPath (← flags.value "output-root") (← flags.value "output")
  if !report.admitted then
    writeGuardJson output (guardExecutionReceipt blake3 false report live.currentCanonicalOid)
    Prog.fail "canonical guard denied the supplied exact-revision facts"
  else
    let some decision := report.decision
      | Prog.fail "admitted guard report lacks a decision"
    let observedAfterOid ←
      if flags.execute then executeGuardCompareAndSwap decision
      else Prog.done live.currentCanonicalOid
    writeGuardJson output (guardExecutionReceipt blake3 flags.execute report observedAfterOid)

end Command

end OnixCore.RadicleCi
