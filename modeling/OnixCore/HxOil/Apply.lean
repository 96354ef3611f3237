import OnixCore.HxOil.Plan

/-!
# Dry-run and apply

Both commands run the same checks (`preflight`): the header, the snapshots of the root and of
every visible inserted subdirectory, the entry names, and the targets of every scope's plan, each
against the state before any change. A dry-run then prints the plans; apply executes them one
scope after another, in each the deletes, then the renames, then the creates, and writes the
session anew.

A session sees two levels: the root directory and its subdirectories, below which everything is
opaque. `Links` says what lies behind a symbolic link that is used as a directory.
-/

namespace OnixCore.HxOil

open Text

variable {β γ E : Type}

def kindOf (o : Obj β) : EntryKind := if o.isDir then .directory else .file

/-- One entry of a listing, before it is numbered. -/
def listEntry (e : (_ : String) × Obj β) : SnapshotEntry where
  id := 0
  index := 0
  relativePath := e.1
  kind := kindOf e.2
  mtimeNs := e.2.stat.mtimeNs
  size := e.2.stat.size

/-- Directories first, then by name. -/
def listOrder (left right : SnapshotEntry) : Prop :=
  left.kind.sortKey < right.kind.sortKey
    ∨ (left.kind.sortKey = right.kind.sortKey ∧ left.relativePath ≤ right.relativePath)

instance : DecidableRel listOrder := fun _ _ => inferInstanceAs (Decidable (_ ∨ _))

/-- Numbers the entries: a known one keeps its id, a new one takes the next. -/
def assignIds (previousIds : List (Key × ℕ)) (next index : ℕ) :
    List SnapshotEntry → List SnapshotEntry × ℕ
  | [] => ([], next)
  | e :: rest =>
    match previousIds.lookup e.key with
    | some id =>
      let (more, last) := assignIds previousIds next (index + 1) rest
      ({ e with id, index } :: more, last)
    | none =>
      let (more, last) := assignIds previousIds (next + 1) (index + 1) rest
      ({ e with id := next, index } :: more, last)

def collectSnapshotWithIds (d : Folder β) (previous : List SnapshotEntry) (nextId : ℕ) :
    List SnapshotEntry × ℕ :=
  let next := if nextId = 0 then 1 else nextId
  let previousIds := (previous.map fun e => (e.key, e.id)).reverse
  let previousMax := (previous.map (·.id)).foldl max 0
  assignIds previousIds (if next ≤ previousMax then previousMax + 1 else next) 0
    ((d.entries.map listEntry).insertionSort listOrder)

def collectSnapshot (d : Folder β) : List SnapshotEntry := (collectSnapshotWithIds d [] 1).1

def sameEntry (left right : SnapshotEntry) : Bool :=
  left.index = right.index ∧ left.relativePath = right.relativePath ∧ left.kind = right.kind
    ∧ left.mtimeNs = right.mtimeNs ∧ left.size = right.size

def snapshotListsMatch (left right : List SnapshotEntry) : Bool :=
  left.length = right.length && (left.zip right).all fun (l, r) => sameEntry l r

namespace Operation

def isDelete : Operation → Bool
  | delete _ _ => true
  | _ => false

def isRename : Operation → Bool
  | rename _ _ _ => true
  | _ => false

def isCreate : Operation → Bool
  | create _ _ => true
  | _ => false

/-- The name an operation puts an entry under. -/
def target? : Operation → Option String
  | create path _ => some path
  | rename _ target _ => some target
  | delete _ _ => none

def context (root : String) : Operation → String
  | create path _ => s!"failed to create {root}/{path}"
  | rename source target _ => s!"failed to rename {root}/{source} to {root}/{target}"
  | delete path _ => s!"failed to delete {root}/{path}"

end Operation

/-- The names a plan deletes, as the target check reads them. -/
def deletePaths (operations : List Operation) : List String :=
  operations.filterMap fun
    | .delete path _ => some path
    | _ => none

/-- Checks the targets of a plan against the directory as it is; `linkEmpty` tells whether the
directory behind a symbolic link is empty. -/
def validateApplyTargets [Content β] (linkEmpty : String → Option Bool) (d : Folder β)
    (plan : Plan) : Except String Unit := do
  let currentPaths := (collectSnapshot d).map (·.relativePath)
  plan.operations.forM fun
    | .delete path .directory =>
      match d.lookup path with
      | some (.dir _ sub) =>
        ensure (Content.isEmpty sub = true)
          s!"refusing to delete non-empty directory {plan.root}/{path}"
      | some (.leaf _ (.symlink target)) =>
        match linkEmpty target with
        | some empty =>
          ensure (empty = true) s!"refusing to delete non-empty directory {plan.root}/{path}"
        | none => .error s!"failed to inspect {plan.root}/{path}"
      | _ => .error s!"failed to inspect {plan.root}/{path}"
    | _ => pure ()
  plan.operations.forM fun
    | .create path _ =>
      ensure (path ∈ currentPaths → path ∈ deletePaths plan.operations)
        s!"target already exists: {plan.root}/{path}"
    | .rename source target _ =>
      ensure (source ≠ target → target ∈ currentPaths → target ∈ deletePaths plan.operations)
        s!"rename target already exists: {plan.root}/{target}"
    | .delete _ _ => pure ()

/-- The call an operation makes; `fresh` is what the system stamps on a new entry. -/
def performOperation [Content β] (fresh : EntryKind → Stat) (d : Folder β) :
    Operation → Except IoError (Folder β)
  | .delete path .file => Folder.removeFile path d
  | .delete path .directory => Folder.removeDir path d
  | .rename source target _ => Folder.rename source target d
  | .create path .file => Folder.createNew (fresh .file) path d
  | .create path .directory => Folder.createDir (fresh .directory) path d

def withContext {α : Type} (message : String) (r : Except IoError α) : Except String α :=
  r.mapError fun e => s!"{message}: {e.text}"

/-- The order of execution: all deletes, then all renames, then all creates. -/
def Plan.phases (plan : Plan) : List Operation :=
  plan.operations.filter (·.isDelete) ++ plan.operations.filter (·.isRename)
    ++ plan.operations.filter (·.isCreate)

/-- Executes a plan with the calls `perform` makes on whatever state they change. -/
def executePlan {σ : Type} (perform : σ → Operation → Except IoError σ) (plan : Plan) (s : σ) :
    σ × Except String Unit :=
  runAll (fun op s => withContext (op.context plan.root) (perform s op)) plan.phases s

/-- The root directory of a session, and everything else the system holds. -/
structure World (γ E : Type) where
  root : Folder (Folder γ)
  outside : E

/-- What the system does with a symbolic link that is used as a directory, or with a path of several
components: where it leads is beyond the session, so each call is whatever the system answers. -/
structure Links (γ E : Type) where
  read : World γ E → String → Option (Folder γ)
  isEmpty : World γ E → String → Option Bool
  perform : World γ E → String → Operation → Except IoError (World γ E)

namespace World

variable (links : Links γ E)

def readSubdir (w : World γ E) (name : String) : Option (Folder γ) :=
  match w.root.lookup name with
  | some (.dir _ sub) => some sub
  | some (.leaf _ (.symlink target)) => links.read w target
  | some (.leaf _ (.regular _)) => none
  | none => if singleComponent name then none else links.read w name

def setRoot (w : World γ E) (root : Folder (Folder γ)) : World γ E := { w with root }

def perform [Content γ] (fresh : EntryKind → Stat) (scope : EntryScope) (w : World γ E)
    (op : Operation) : Except IoError (World γ E) :=
  match scope with
  | .root => (performOperation fresh w.root op).map w.setRoot
  | .subdir name =>
    match w.root.lookup name with
    | some (.dir st sub) =>
      (performOperation fresh sub op).map fun sub' => w.setRoot (w.root.insert name (.dir st sub'))
    | some (.leaf _ (.symlink target)) => links.perform w target op
    | some (.leaf _ (.regular _)) => .error .notADirectory
    | none => .error .notFound

end World

/-- A session as it is loaded: the sidecar, and the text of the manifest. -/
structure Session where
  sidecar : Sidecar
  text : Text
  deriving DecidableEq, Repr

section Commands

variable [Content γ] (links : Links γ E) (fresh : EntryKind → Stat)

def parseAndValidateDocument (session : Session) : Except String ManifestDocument := do
  let document ← parseManifestDocument session.text
  ensure (pathComponents document.root = pathComponents session.sidecar.root)
    "manifest root header does not match the sidecar; reopen the directory buffer"
  pure document

def validateApplySnapshot (sidecar : Sidecar) (document : ManifestDocument) (w : World γ E) :
    Except String Unit := do
  ensure (snapshotListsMatch (collectSnapshot w.root) sidecar.entries = true)
    (s!"stale snapshot for {sidecar.rootPath}; " ++
      "refresh or reopen the directory buffer before applying")
  document.visibleSubdirs.forM fun name =>
    match sidecar.findSubdir name with
    | none => .error
        (s!"missing sidecar metadata for inserted subdir {name}; " ++
          "refresh or reopen the directory buffer")
    | some state =>
      match w.readSubdir links name with
      | none => .error s!"failed to read {sidecar.rootPath}/{name}"
      | some sub =>
        ensure (snapshotListsMatch (collectSnapshot sub) state.entries = true)
          (s!"stale snapshot for {sidecar.rootPath}/{name}; " ++
            "refresh the subtree or reopen the directory buffer before applying")

/-- The target check of one scope, against the state the session is in. -/
def validateScopeTargets (w : World γ E) (scope : EntryScope) (plan : Plan) :
    Except String Unit :=
  match scope with
  | .root => validateApplyTargets (links.isEmpty w) w.root plan
  | .subdir name =>
    match w.readSubdir links name with
    | some sub => validateApplyTargets (links.isEmpty w) sub plan
    | none => .error s!"failed to read {plan.root}"

/-- Everything the two commands check before they differ: the plans, validated. -/
def preflight (session : Session) (w : World γ E) :
    Except String (ManifestDocument × List (EntryScope × Plan)) := do
  let document ← parseAndValidateDocument session
  validateApplySnapshot links session.sidecar document w
  validateDocumentEntries document
  validateVisibleSubdirRoots document
  let plans ← buildApplyPlans session.sidecar document
  plans.forM fun (scope, plan) => validateScopeTargets links w scope plan
  pure (document, plans)

def dryRunApply (session : Session) (w : World γ E) : Except String String := do
  let (_, plans) ← preflight links session w
  pure (renderPlans plans)

/-- Executes the plans one after another, up to the first operation that fails. -/
def executePlans (plans : List (EntryScope × Plan)) (w : World γ E) :
    World γ E × Except String Unit :=
  match plans with
  | [] => (w, .ok ())
  | (scope, plan) :: rest =>
    match executePlan (World.perform links fresh scope) plan w with
    | (w', .ok ()) => executePlans rest w'
    | (w', .error e) => (w', .error e)

/-- The states of the inserted subdirectories that are still directories of the root. -/
def rewriteSubdirs (previous : Option Sidecar) (entries : List SnapshotEntry) (w : World γ E)
    (nextEntryId : ℕ) : List String → Except String (List SubdirState × ℕ)
  | [] => pure ([], nextEntryId)
  | name :: rest =>
    if (name, EntryKind.directory) ∈ entries.map (·.key) then
      match w.readSubdir links name with
      | none => .error s!"failed to read {name}"
      | some sub => do
        let known := ((previous.bind (·.findSubdir name)).map (·.entries)).getD []
        let (subEntries, next) := collectSnapshotWithIds sub known nextEntryId
        let (more, last) ← rewriteSubdirs previous entries w next rest
        pure (⟨name, subEntries⟩ :: more, last)
    else rewriteSubdirs previous entries w nextEntryId rest

/-- Lists the root and the open subdirectories anew; `now` is the time of day. -/
def rewriteSessionFiles (root : Text) (previous : Option Sidecar) (openSubdirs : List String)
    (now : ℕ) (w : World γ E) : Except String Session := do
  let (entries, next) := collectSnapshotWithIds w.root ((previous.map (·.entries)).getD [])
    ((previous.map (·.nextEntryId)).getD 1)
  let (subdirs, last) ← rewriteSubdirs links previous entries w next openSubdirs
  pure
    { sidecar :=
        { version := sidecarVersion, root, createdAt := now, nextEntryId := last, entries, subdirs }
      text := renderCanonicalManifest root entries subdirs }

/-- The world an apply leaves behind, and what it returns: the report and the new session. -/
def applyManifest (session : Session) (now : ℕ) (w : World γ E) :
    World γ E × Except String (String × Session) :=
  match preflight links session w with
  | .error e => (w, .error e)
  | .ok (document, plans) =>
    match executePlans links fresh plans w with
    | (w', .error e) => (w', .error e)
    | (w', .ok ()) =>
      (w', (rewriteSessionFiles links session.sidecar.root (some session.sidecar)
        document.visibleSubdirs now w').map fun s => (renderPlans plans, s))

end Commands

end OnixCore.HxOil
