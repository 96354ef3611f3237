import OnixCore.HxOil.Apply
import OnixCore.Lib.Runs

/-!
# The commands of a session

Besides apply there are commands that rewrite the manifest alone (`markToggle`, `clearMarks`,
`flagDelete`), that insert, collapse or refresh one subdirectory, and that change the directories
and then write the session anew (`runTransform`, `runBulkOp`). Between two commands the user edits
the text at will and the directories change: `SessionStep` is one step of that whole. A command
that fails is no step of its own: it leaves the sidecar as it was, and what it did before is an
edit or an external change.
-/

namespace OnixCore.HxOil

open Text

variable {γ E : Type}

def idsOf (entries : List SnapshotEntry) : List ℕ := entries.map (·.id)

/-- Every id of a sidecar, of the root and then of each inserted subdirectory. -/
def Sidecar.ids (s : Sidecar) : List ℕ :=
  idsOf s.entries ++ s.subdirs.flatMap fun state => idsOf state.entries

/-- Numbers the entries that have no id yet. -/
def fillIds (next : ℕ) : List SnapshotEntry → List SnapshotEntry × ℕ
  | [] => ([], next)
  | e :: rest =>
    if e.id = 0 then
      ({ e with id := next } :: (fillIds (next + 1) rest).1, (fillIds (next + 1) rest).2)
    else (e :: (fillIds next rest).1, (fillIds next rest).2)

def fillSubdirs (next : ℕ) : List SubdirState → List SubdirState × ℕ
  | [] => ([], next)
  | state :: rest =>
    let filled := fillIds next state.entries
    ({ state with entries := filled.1 } :: (fillSubdirs filled.2 rest).1,
      (fillSubdirs filled.2 rest).2)

/-- What loading does to a sidecar of an older version. -/
def upgradeSidecar (s : Sidecar) : Sidecar :=
  let next := s.ids.foldl (fun next id => max next (id + 1)) (max s.nextEntryId 1)
  let entries := fillIds next s.entries
  let subdirs := fillSubdirs entries.2 s.subdirs
  { s with
    version := sidecarVersion, nextEntryId := subdirs.2, entries := entries.1,
    subdirs := subdirs.1 }

def loadSession (stored : Session) : Session :=
  { stored with sidecar := upgradeSidecar stored.sidecar }

def renderManifestLine : ManifestLine → Text
  | .blank _ => []
  | .comment text _ => text
  | .entry e => renderManifestEntry e
  | .subdirStart name _ => subdirMarker ++ name.toList
  | .subdirEnd name _ => endSubdirMarker ++ name.toList

def renderManifestDocument (document : ManifestDocument) : Text :=
  writeLines ((rootHeader ++ document.root) :: ignoredHeader
    :: document.lines.map renderManifestLine)

/-- The session after a command that changed the lines of its manifest. -/
def Session.withLines (session : Session) (document : ManifestDocument)
    (lines : List ManifestLine) : Session :=
  { session with text := renderManifestDocument { document with lines } }

/-! ## Marks -/

/-- Changes the first entry that stands on the line. -/
def entryAtLineMut (lineNumber : ℕ) (f : ManifestEntry → Except String ManifestEntry) :
    List ManifestLine → Except String (List ManifestLine)
  | [] => .error s!"line {lineNumber} is not an editable manifest entry"
  | .entry e :: rest =>
    if e.lineNumber = lineNumber then do
      let changed ← f e
      pure (.entry changed :: rest)
    else do
      let more ← entryAtLineMut lineNumber f rest
      pure (.entry e :: more)
  | line :: rest => do
    let more ← entryAtLineMut lineNumber f rest
    pure (line :: more)

/-- Changes the entry on each of the lines, one line after the other. -/
def changeEntries (change : ℕ → ManifestEntry → Except String ManifestEntry) (session : Session)
    (lines : List ℕ) : Except String Session := do
  let document ← parseAndValidateDocument session
  let changed ← lines.foldlM (fun ls n => entryAtLineMut n (change n) ls) document.lines
  pure (session.withLines document changed)

def toggleMark (lineNumber : ℕ) (e : ManifestEntry) : Except String ManifestEntry :=
  match e.mark with
  | .none => pure { e with mark := .marked }
  | .marked => pure { e with mark := .none }
  | .deleteFlagged => .error
      (s!"line {lineNumber}: entry is delete-flagged; " ++
        "use flag-delete to change delete state")

def toggleFlag (_ : ℕ) (e : ManifestEntry) : Except String ManifestEntry :=
  match e.mark with
  | .deleteFlagged => pure { e with mark := .none }
  | .none => pure { e with mark := .deleteFlagged }
  | .marked => pure { e with mark := .deleteFlagged }

def markToggle : Session → List ℕ → Except String Session := changeEntries toggleMark

def flagDelete : Session → List ℕ → Except String Session := changeEntries toggleFlag

def clearMark : ManifestLine → ManifestLine
  | .entry e => .entry (if e.mark = .marked then { e with mark := .none } else e)
  | line => line

def clearMarks (session : Session) : Except String Session := do
  let document ← parseAndValidateDocument session
  pure (session.withLines document (document.lines.map clearMark))

/-! ## Inserted subdirectories -/

def lineIndexForEntry (document : ManifestDocument) (lineNumber : ℕ) : Except String ℕ :=
  match document.lines.findIdx? fun
    | .entry e => e.lineNumber = lineNumber
    | _ => false with
  | some index => pure index
  | none => .error "line is not an editable manifest entry"

/-- The line a subdirectory is inserted under: its index, and the entry on it. -/
def insertTarget (document : ManifestDocument) (lineNumber : ℕ) :
    Except String (ℕ × ManifestEntry) := do
  let index ← lineIndexForEntry document lineNumber
  match document.lines[index]? with
  | some (.entry e) => do
    ensure (e.scope = .root)
      "bounded nesting: inline insertion only works from the root listing"
    ensure (e.kind = .directory) s!"line {lineNumber} is not a directory entry"
    ensure (e.relativePath ∉ document.visibleSubdirs)
      s!"subdir {e.relativePath} is already inserted"
    pure (index, e)
  | _ => .error s!"line {lineNumber} is not a directory entry"

def childLines (name : String) (entries : List SnapshotEntry) : List ManifestLine :=
  entries.map fun e => .entry (unmarkedEntry (.subdir name) e)

def insertedBlock (name : String) (entries : List SnapshotEntry) : List ManifestLine :=
  .subdirStart name 0 :: childLines name entries ++ [.subdirEnd name 0]

def isStartOf (target : String) : ManifestLine → Bool
  | .subdirStart name _ => name = target
  | _ => false

def isEndOf (target : String) : ManifestLine → Bool
  | .subdirEnd name _ => name = target
  | _ => false

/-- The first start and the first end of the target's block. -/
def blockBounds (document : ManifestDocument) (target : String) : Except String (ℕ × ℕ) :=
  match document.lines.findIdx? (isStartOf target), document.lines.findIdx? (isEndOf target) with
  | some start, some stop => pure (start, stop)
  | none, _ => .error "subdir block start not found"
  | some _, none => .error "subdir block end not found"

/-- The block a line belongs to, given its first and last line or a line inside it. -/
def subdirOfLine (lineNumber : ℕ) : List ManifestLine → Except String String
  | [] => .error s!"line {lineNumber} is not inside an inserted subdir block"
  | .entry e :: rest =>
    match e.scope with
    | .subdir path => if e.lineNumber = lineNumber then pure path else subdirOfLine lineNumber rest
    | .root => subdirOfLine lineNumber rest
  | .subdirStart name n :: rest =>
    if n = lineNumber then pure name else subdirOfLine lineNumber rest
  | .subdirEnd name n :: rest =>
    if n = lineNumber then pure name else subdirOfLine lineNumber rest
  | _ :: rest => subdirOfLine lineNumber rest

def subdirForLine (document : ManifestDocument) (lineNumber : ℕ) : Except String String :=
  subdirOfLine lineNumber document.lines

def collapseSubdir (session : Session) (lineNumber : ℕ) : Except String Session := do
  let document ← parseAndValidateDocument session
  let target ← subdirForLine document lineNumber
  let bounds ← blockBounds document target
  pure
    (Session.withLines
      { session with
        sidecar.subdirs := session.sidecar.subdirs.filter fun state => state.relativePath ≠ target }
      document (document.lines.take bounds.1 ++ document.lines.drop (bounds.2 + 1)))

/-- The entries the sidecar knows of a subdirectory: those of the first state kept for it. -/
def Sidecar.known (s : Sidecar) (name : String) : List SnapshotEntry :=
  ((s.findSubdir name).map (·.entries)).getD []

section Listing

variable (links : Links γ E)

/-- Lists a subdirectory of the root, with the ids its sidecar state gives. -/
def collectSubdir (sidecar : Sidecar) (name : String) (w : World γ E) :
    Except String (List SnapshotEntry × ℕ) :=
  match w.readSubdir links name with
  | some sub => pure (collectSnapshotWithIds sub (sidecar.known name) sidecar.nextEntryId)
  | none => .error s!"failed to read {sidecar.rootPath}/{name}"

/-- Lists the subdirectory and adds its block and its state. -/
def insertSubdir (session : Session) (lineNumber : ℕ) (w : World γ E) : Except String Session := do
  let document ← parseAndValidateDocument session
  let target ← insertTarget document lineNumber
  let name := target.2.relativePath
  let collected ← collectSubdir links session.sidecar name w
  pure
    (Session.withLines
      { session with
        sidecar.nextEntryId := collected.2
        sidecar.subdirs := session.sidecar.subdirs ++ [⟨name, collected.1⟩] }
      document
      (document.lines.take (target.1 + 1) ++ insertedBlock name collected.1
        ++ document.lines.drop (target.1 + 1)))

/-- The states with the entries of the first one of the path replaced. -/
def setSubdir (name : String) (entries : List SnapshotEntry) (subdirs : List SubdirState) :
    List SubdirState :=
  subdirs.replaceF fun state => if state.relativePath = name then some { state with entries } else none

/-- Lists the subdirectory anew and replaces the lines of its block. -/
def refreshSubdir (session : Session) (lineNumber : ℕ) (w : World γ E) : Except String Session := do
  let document ← parseAndValidateDocument session
  let target ← subdirForLine document lineNumber
  let collected ← collectSubdir links session.sidecar target w
  ensure (session.sidecar.findSubdir target).isSome
    s!"subdir block {target} is missing from the sidecar; reopen the directory buffer"
  let bounds ← blockBounds document target
  pure
    (Session.withLines
      { session with
        sidecar.nextEntryId := collected.2
        sidecar.subdirs := setSubdir target collected.1 session.sidecar.subdirs }
      document
      (document.lines.take (bounds.1 + 1) ++ childLines target collected.1
        ++ document.lines.drop bounds.2))

/-! ## Sessions written anew -/

def renderSession (root : Text) (now : ℕ) (w : World γ E) : Except String Session :=
  rewriteSessionFiles links root none [] now w

/-- Reads the text for its blocks only: its header is not checked. -/
def refreshSession (session : Session) (now : ℕ) (w : World γ E) : Except String Session := do
  let document ← parseManifestDocument session.text
  rewriteSessionFiles links session.sidecar.root (some session.sidecar) document.visibleSubdirs now w

end Listing

/-! ## Transforms and bulk operations -/

def markedEntries (document : ManifestDocument) : Except String (List ManifestEntry) := do
  let marked := document.entries.filter fun e => e.mark = .marked
  ensure (marked ≠ []) "no marked entries selected"
  pure marked

def singleScope : List ManifestEntry → Except String EntryScope
  | [] => .error "no entries selected"
  | e :: rest => do
    ensure (∀ other ∈ rest, other.scope = e.scope)
      "marked entries span multiple roots; operate on one directory scope at a time"
    pure e.scope

structure TransformItem where
  kind : EntryKind
  source : String
  target : String
  deriving DecidableEq, Repr

/-- Plans the marked entries in turn; `produced` are the names given so far. -/
def planTransforms (transform : String → String) (scope : EntryScope)
    (markedNames unmarkedNames produced : List String) :
    List ManifestEntry → Except String (List TransformItem)
  | [] => pure []
  | e :: rest => do
    let next := transform e.relativePath
    ensure (next ≠ e.relativePath)
      s!"transform no-op for {e.kind.renderPath e.actualRelativePath}"
    validateEntryName next e.kind e.lineNumber
    ensure (next ∉ unmarkedNames) (s!"transform collision: " ++
      s!"{e.kind.renderPath (scope.actualRelativePath next)} already exists")
    ensure (next ∉ produced) (s!"transform collision: multiple entries map to " ++
      s!"{e.kind.renderPath (scope.actualRelativePath next)}")
    ensure (next ∉ markedNames) (s!"transform collision: " ++
      s!"{e.kind.renderPath (scope.actualRelativePath next)} would replace another marked source entry")
    let more ← planTransforms transform scope markedNames unmarkedNames (next :: produced) rest
    pure (⟨e.kind, e.relativePath, next⟩ :: more)

/-- The renames of a transform; `transform` is what it makes of a name. -/
def buildTransformPlan (document : ManifestDocument) (transform : String → String) :
    Except String (EntryScope × List TransformItem) := do
  let marked ← markedEntries document
  let scope ← singleScope marked
  let markedNames := marked.map (·.relativePath)
  let unmarkedNames := ((inScope scope document.entries).map (·.relativePath)).filter
    fun name => name ∉ markedNames
  let items ← planTransforms transform scope markedNames unmarkedNames [] marked
  ensure (items ≠ []) "no marked entries selected for transform"
  pure (scope, items)

inductive BulkKind where
  | copy
  | move
  | symlink
  | relativeSymlink
  deriving DecidableEq, Repr

/-- What the commands ask of the system. A bulk operation works on paths anywhere in the system:
`transfer` is its plan and its execution, which read and change directories only. -/
structure Host (γ E : Type) where
  links : Links γ E
  fresh : EntryKind → Stat
  transfer : BulkKind → Session → ManifestDocument → World γ E → World γ E × Except String Unit

/-- The renames of a transform in the directory its scope stands for. -/
def transformIn {β : Type} [Content β] (root : String) (scope : EntryScope)
    (items : List TransformItem) (d : Folder β) : Folder β × Except String Unit :=
  runAll (fun item d =>
    withContext
      ((Operation.rename item.source item.target item.kind).context (scope.absoluteRoot root))
      (Folder.rename item.source item.target d)) items d

section Commands

variable [Content γ] (host : Host γ E)

/-- The call of a command that does not ask for a line of the scope's directory in the root: a path
of several components leads where the system says. -/
def World.performAt (scope : EntryScope) (w : World γ E) (op : Operation) :
    Except IoError (World γ E) :=
  match scope with
  | .root => World.perform host.links host.fresh .root w op
  | .subdir name =>
    if (w.root.lookup name).isNone ∧ singleComponent name = false then host.links.perform w name op
    else World.perform host.links host.fresh (.subdir name) w op

def executeTransformPlan (root : String) (scope : EntryScope) (items : List TransformItem)
    (w : World γ E) : World γ E × Except String Unit :=
  runAll (fun item w =>
    let op := Operation.rename item.source item.target item.kind
    withContext (op.context (scope.absoluteRoot root)) (World.performAt host scope w op)) items w

/-- What both commands on marked entries check first. -/
def checkedDocument (session : Session) (w : World γ E) : Except String ManifestDocument := do
  let document ← parseAndValidateDocument session
  validateApplySnapshot host.links session.sidecar document w
  validateDocumentEntries document
  pure document

/-- Changes the directories by `change` and writes the session anew. -/
def changeAndRewrite (session : Session) (document : ManifestDocument) (now : ℕ)
    (change : World γ E × Except String Unit) : World γ E × Except String Session :=
  match change with
  | (w, .error e) => (w, .error e)
  | (w, .ok ()) =>
    (w, rewriteSessionFiles host.links session.sidecar.root (some session.sidecar)
      document.visibleSubdirs now w)

def runTransform (transform : String → String) (session : Session) (now : ℕ) (w : World γ E) :
    World γ E × Except String Session :=
  match checkedDocument host session w with
  | .error e => (w, .error e)
  | .ok document =>
    match buildTransformPlan document transform with
    | .error e => (w, .error e)
    | .ok plan => changeAndRewrite host session document now
        (executeTransformPlan host session.sidecar.rootPath plan.1 plan.2 w)

def runBulkOp (kind : BulkKind) (session : Session) (now : ℕ) (w : World γ E) :
    World γ E × Except String Session :=
  match checkedDocument host session w with
  | .error e => (w, .error e)
  | .ok document =>
    changeAndRewrite host session document now (host.transfer kind session document w)

/-- Everything that happens to a session: `edit` is the user, `external` is the rest of the system. -/
inductive SessionOp (γ E : Type) where
  | edit (text : Text)
  | external (w : World γ E)
  | refresh (now : ℕ)
  | apply (now : ℕ)
  | markToggle (lines : List ℕ)
  | clearMarks
  | flagDelete (lines : List ℕ)
  | insertSubdir (line : ℕ)
  | collapseSubdir (line : ℕ)
  | refreshSubdir (line : ℕ)
  | transform (transform : String → String) (now : ℕ)
  | bulk (kind : BulkKind) (now : ℕ)

/-- The commands that list the root and its open subdirectories anew. -/
def SessionOp.rewrites : SessionOp γ E → Bool
  | .refresh _ => true
  | .apply _ => true
  | .transform _ _ => true
  | .bulk _ _ => true
  | _ => false

/-- A command on marks writes the manifest and leaves the sidecar file as it is. -/
def keepSidecar (stored : Session) (changed : Except String Session) : Except String Session :=
  changed.map fun s => { stored with text := s.text }

/-- Runs a command on the stored session; each one loads it first. -/
def runOp (stored : Session) (w : World γ E) :
    SessionOp γ E → World γ E × Except String Session
  | .edit text => (w, .ok { stored with text })
  | .external w' => (w', .ok stored)
  | .refresh now => (w, refreshSession host.links (loadSession stored) now w)
  | .apply now =>
    let applied := applyManifest host.links host.fresh (loadSession stored) now w
    (applied.1, applied.2.map Prod.snd)
  | .markToggle lines => (w, keepSidecar stored (markToggle (loadSession stored) lines))
  | .clearMarks => (w, keepSidecar stored (clearMarks (loadSession stored)))
  | .flagDelete lines => (w, keepSidecar stored (flagDelete (loadSession stored) lines))
  | .insertSubdir line => (w, insertSubdir host.links (loadSession stored) line w)
  | .collapseSubdir line => (w, collapseSubdir (loadSession stored) line)
  | .refreshSubdir line => (w, refreshSubdir host.links (loadSession stored) line w)
  | .transform transform now => runTransform host transform (loadSession stored) now w
  | .bulk kind now => runBulkOp host kind (loadSession stored) now w

end Commands

/-- Every directory the session can list holds entries with names of one component. -/
structure World.Legal (links : Links γ E) (w : World γ E) : Prop where
  root : ∀ n, (w.root.lookup n).isSome → singleComponent n = true
  subdir : ∀ name sub, w.readSubdir links name = some sub →
    ∀ n, (sub.lookup n).isSome → singleComponent n = true

/-- The directories as the system keeps them, and the two files of a session. -/
structure SessionState (host : Host γ E) where
  world : World γ E
  session : Session
  legal : world.Legal host.links

section Runs

variable [Content γ] (host : Host γ E)

def Rendered (s : SessionState host) : Prop :=
  ∃ root now, renderSession host.links root now s.world = .ok s.session

def SessionStep (s : SessionState host) (op : SessionOp γ E) (t : SessionState host) : Prop :=
  runOp host s.session s.world op = (t.world, .ok t.session)

/-- The states of the runs that start with `render_session`. -/
abbrev ReachableSession : SessionState host → Prop :=
  Reachable (Rendered host) (SessionStep host)

end Runs

end OnixCore.HxOil
