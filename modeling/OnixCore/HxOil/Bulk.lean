import OnixCore.HxOil.Session
import OnixCore.Lib.FileCalls

/-!
# Bulk operations

`build_bulk_plan` and `execute_bulk_plan`, on the whole file tree. The plan joins the names of the
marked entries with the directory of their scope and with the target's, and asks whether a
destination exists; the execution makes one call or, for a copy, one walk for each item, and stops
at the first that fails.

A path is the list of its components, from the root of the tree: the roots of sessions are absolute.
`copyPath` recurses through a directory it lists after it has made the copy's, so nothing bounds it
but the fuel.
-/

namespace OnixCore.HxOil

open FileTree Text

def pathOf (text : Text) : Path := (pathComponents text).2.map String.ofList

def displayPath (path : Path) : String := "/" ++ "/".intercalate path

/-- The directory of a scope; a path that is absolute takes the root's place. -/
def EntryScope.scopePath (root : Text) : EntryScope → Path
  | .root => pathOf root
  | .subdir path =>
    if path.toList.head? = some '/' then pathOf path.toList
    else pathOf root ++ pathOf path.toList

/-- A directory as the listing of a session sees it: whether an entry is a directory, and its
`stats`. -/
def folderAt (stats : Place → Stat) (t : FileTree) (p : Place) : Folder Unit :=
  ((t.names p).map fun n => (⟨n, if t.node (n :: p) = some .dir then .dir (stats (n :: p)) ()
    else .leaf (stats (n :: p)) (.regular [])⟩ : (_ : String) × Obj Unit)).toAList

def readFolder (stats : Place → Stat) (t : FileTree) (path : Path) : Except String (Folder Unit) :=
  match t.openDir path with
  | .error e => .error s!"failed to read {displayPath path}: {e.text}"
  | .ok p => .ok (folderAt stats t p)

/-- `validateApplySnapshot`, where what is listed is a file tree. -/
def validateTreeSnapshot (stats : Place → Stat) (t : FileTree) (sidecar : Sidecar)
    (document : ManifestDocument) : Except String Unit := do
  let root ← readFolder stats t (pathOf sidecar.root)
  ensure (snapshotListsMatch (collectSnapshot root) sidecar.entries = true)
    (s!"stale snapshot for {sidecar.rootPath}; " ++
      "refresh or reopen the directory buffer before applying")
  document.visibleSubdirs.forM fun name =>
    match sidecar.findSubdir name with
    | none => .error
        (s!"missing sidecar metadata for inserted subdir {name}; " ++
          "refresh or reopen the directory buffer")
    | some state => do
      let sub ← readFolder stats t (EntryScope.scopePath sidecar.root (.subdir name))
      ensure (snapshotListsMatch (collectSnapshot sub) state.entries = true)
        (s!"stale snapshot for {sidecar.rootPath}/{name}; " ++
          "refresh the subtree or reopen the directory buffer before applying")

/-- What `run_bulk_op` checks before it plans. -/
def bulkDocument (stats : Place → Stat) (t : FileTree) (session : Session) :
    Except String ManifestDocument := do
  let document ← parseAndValidateDocument session
  validateTreeSnapshot stats t session.sidecar document
  validateDocumentEntries document
  pure document

/-- What the target can be taken from: `--target`, and the roots of the sessions the manifests
load, or why they do not load. -/
structure BulkTarget where
  target : Option Text
  targetManifest : Option (Except String Text)
  alternateManifest : Option (Except String Text)
  /-- The manifest the state file remembers, where both are there. -/
  remembered : Option (Except String Text)

def resolveTargetRoot (t : FileTree) (currentRoot : Text) (given : BulkTarget) :
    Except String Path :=
  match given.target with
  | some target =>
    match t.resolve (pathOf target) with
    | .ok p => .ok p.reverse
    | .error e =>
      .error s!"failed to canonicalize target {displayPath (pathOf target)}: {e.text}"
  | none =>
    match given.targetManifest, given.alternateManifest, given.remembered with
    | some root, _, _ => root.map pathOf
    | none, some root, _ => root.map pathOf
    | none, none, some root => root.map pathOf
    | none, none, none => .ok (pathOf currentRoot)

/-- One marked entry: its source and its destination are the two roots joined with its name. -/
structure BulkItem where
  entryKind : EntryKind
  name : String
  sourceRoot : Path
  targetRoot : Path
  linkText : Option LinkText
  deriving DecidableEq, Repr

namespace BulkItem

def source (item : BulkItem) : Path := item.sourceRoot ++ [item.name]

def destination (item : BulkItem) : Path := item.targetRoot ++ [item.name]

end BulkItem

structure BulkPlan where
  kind : BulkKind
  targetRoot : Path
  items : List BulkItem
  deriving DecidableEq, Repr

/-- How many components two paths share at their start. -/
def sharedLength : Path → Path → ℕ
  | left :: path, right :: base => if left = right then sharedLength path base + 1 else 0
  | _, _ => 0

/-- The way from one directory to another place, both canonical. -/
def relativePath (path base : Path) : LinkText :=
  let shared := sharedLength path base
  ⟨false, List.replicate (base.length - shared) ".." ++ path.drop shared⟩

def diffPaths (t : FileTree) (path base : Path) : Except String LinkText :=
  match t.resolve path, t.resolve base with
  | .error e, _ => .error e.text
  | .ok _, .error e => .error e.text
  | .ok p, .ok b => .ok (relativePath p.reverse b.reverse)

def bulkLinkText (t : FileTree) (kind : BulkKind) (source targetRoot : Path) :
    Except String (Option LinkText) :=
  match kind with
  | .relativeSymlink => (diffPaths t source targetRoot).map some
  | .symlink => .ok (some ⟨true, source⟩)
  | .copy => .ok none
  | .move => .ok none

/-- Plans the marked entries in turn; `seen` are the names so far. -/
def planBulk (t : FileTree) (kind : BulkKind) (sourceRoot targetRoot : Path) (seen : List String) :
    List ManifestEntry → Except String (List BulkItem)
  | [] => pure []
  | e :: rest => do
    let source := sourceRoot ++ [e.relativePath]
    let destination := targetRoot ++ [e.relativePath]
    ensure (e.relativePath ∉ seen) s!"bulk target collision: {displayPath destination}"
    ensure (kind = .move → destination ≠ source)
      s!"bulk move resolves to the source path itself: {displayPath source}"
    ensure ((t.resolve destination).isOk = false)
      s!"bulk target collision: {displayPath destination}"
    let linkText ← bulkLinkText t kind source targetRoot
    let more ← planBulk t kind sourceRoot targetRoot (e.relativePath :: seen) rest
    pure (⟨e.kind, e.relativePath, sourceRoot, targetRoot, linkText⟩ :: more)

def buildBulkPlan (t : FileTree) (session : Session) (document : ManifestDocument)
    (kind : BulkKind) (given : BulkTarget) : Except String BulkPlan := do
  let marked ← markedEntries document
  let scope ← singleScope marked
  let sourceRoot := scope.scopePath session.sidecar.root
  let targetRoot ← resolveTargetRoot t session.sidecar.root given
  ensure ((t.openDir targetRoot).isOk = true)
    s!"bulk target is not a directory: {displayPath targetRoot}"
  let items ← planBulk t kind sourceRoot targetRoot [] marked
  ensure (items ≠ []) "no marked entries selected for bulk operation"
  pure ⟨kind, targetRoot, items⟩

/-- Why a run stops before its end. -/
inductive Stop where
  | failed (message : String)
  | outOfFuel
  deriving DecidableEq, Repr

/-- The outcome of one call. -/
def called (t : FileTree) (message : String) : Except PathError FileTree →
    FileTree × Except Stop Unit
  | .ok t' => (t', .ok ())
  | .error e => (t, .error (.failed s!"{message}: {e.text}"))

def failedWith (t : FileTree) (message : String) (e : PathError) : FileTree × Except Stop Unit :=
  (t, .error (.failed s!"{message}: {e.text}"))

def copyPath : ℕ → Path → String → Path → String → FileTree → FileTree × Except Stop Unit
  | 0, _, _, _, _, t => (t, .error .outOfFuel)
  | fuel + 1, sourceDir, source, targetDir, target, t =>
    let from_ := displayPath (sourceDir ++ [source])
    let to_ := displayPath (targetDir ++ [target])
    match t.symlinkMetadata sourceDir source with
    | .error e => failedWith t s!"failed to inspect {from_}" e
    | .ok .dir =>
      match t.createDir targetDir target with
      | .error e => failedWith t s!"failed to create {to_}" e
      | .ok made =>
        match made.readDir (sourceDir ++ [source]) with
        | .error e => failedWith made s!"failed to read {from_}" e
        | .ok children =>
          runEach (fun child => copyPath fuel (sourceDir ++ [source]) child
            (targetDir ++ [target]) child) children made
    | .ok _ =>
      called t s!"failed to copy {from_} to {to_}"
        (t.copyFile (sourceDir ++ [source]) (targetDir ++ [target]))

def executeBulkItem (fuel : ℕ) (kind : BulkKind) (item : BulkItem) (t : FileTree) :
    FileTree × Except Stop Unit :=
  let destination := displayPath item.destination
  match kind with
  | .copy => copyPath fuel item.sourceRoot item.name item.targetRoot item.name t
  | .move =>
    called t s!"failed to move {displayPath item.source} to {destination}"
      (t.rename item.sourceRoot item.name item.targetRoot item.name)
  | .symlink => linkItem t item
  | .relativeSymlink => linkItem t item
where
  linkItem (t : FileTree) (item : BulkItem) : FileTree × Except Stop Unit :=
    match item.linkText with
    | none => (t, .error (.failed "missing link target"))
    | some text =>
      called t (s!"failed to create symlink {displayPath item.destination} -> " ++
        (if text.absolute then displayPath text.components else "/".intercalate text.components))
        (t.symlink text item.targetRoot item.name)

def executeBulkPlan (fuel : ℕ) (plan : BulkPlan) (t : FileTree) : FileTree × Except Stop Unit :=
  runEach (executeBulkItem fuel plan.kind) plan.items t

/-- What `run_bulk_op` does to the tree once its checks have passed. -/
def runBulkPlan (fuel : ℕ) (session : Session) (document : ManifestDocument) (kind : BulkKind)
    (given : BulkTarget) (t : FileTree) : FileTree × Except Stop Unit :=
  match buildBulkPlan t session document kind given with
  | .error message => (t, .error (.failed message))
  | .ok plan => executeBulkPlan fuel plan t

end OnixCore.HxOil
