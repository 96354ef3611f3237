import Mathlib.Data.List.Sort
import OnixCore.HxOil.Manifest

/-!
# From an edited listing to a plan

`buildPlan` matches the edited lines of a scope against its snapshot by name and kind. The
matches must keep the snapshot's order; what lies between two of them is a hunk, and `planHunk`
turns a hunk into creates, deletes or one rename, or refuses it. `buildApplyPlans` does so for
every scope that keeps an unflagged line, and then adds the inserted subdirectories whose block
is empty.
-/

namespace OnixCore.HxOil

/-- The map of positions the matches are looked up in: a later entry replaces an earlier one. -/
def exactPositions (original : List SnapshotEntry) : List (Key × ℕ) :=
  (original.zipIdx.map fun (e, index) => (e.key, index)).reverse

def reorderMessage : String :=
  "unsupported reordering: existing entries must keep their original order; " ++
    "apply one local rename/create/delete hunk at a time"

/-- The exact matches in the order of the edited lines; `last` is the latest snapshot index. -/
def exactMatches (positions : List (Key × ℕ)) (last : Option ℕ) (editedIndex : ℕ) :
    List ManifestEntry → Except String (List (ℕ × ℕ))
  | [] => pure []
  | e :: rest =>
    match positions.lookup e.key with
    | none => exactMatches positions last (editedIndex + 1) rest
    | some originalIndex => do
      ensure (∀ previous ∈ last, previous < originalIndex) reorderMessage
      let more ← exactMatches positions (some originalIndex) (editedIndex + 1) rest
      pure ((originalIndex, editedIndex) :: more)

def planHunk (originalHunk : List SnapshotEntry) (editedHunk : List ManifestEntry) :
    Except String (List Operation) :=
  match originalHunk, editedHunk with
  | [], [] => pure []
  | [], es => pure (es.map fun e => .create e.relativePath e.kind)
  | os, [] => pure (os.map fun o => .delete o.relativePath o.kind)
  | [o], [e] => do
    ensure (o.kind = e.kind)
      (s!"unsupported kind change: {o.kind.renderPath o.relativePath} cannot become " ++
        s!"{e.kind.renderPath e.relativePath} in-place")
    pure [.rename o.relativePath e.relativePath o.kind]
  | os, es => .error
      (s!"ambiguous edit hunk: {os.length} original entries vs {es.length} edited entries; " ++
        "keep original order and apply one local rename/create/delete hunk at a time")

/-- The part of a list from one index up to another. -/
def slice {α : Type} (l : List α) (start stop : ℕ) : List α := (l.take stop).drop start

/-- Plans the hunks before each match in turn; the last match is the end of both lists. -/
def planHunks (original : List SnapshotEntry) (edited : List ManifestEntry)
    (originalStart editedStart : ℕ) : List (ℕ × ℕ) → Except String (List Operation)
  | [] => pure []
  | (originalIndex, editedIndex) :: rest => do
    let operations ← planHunk (slice original originalStart originalIndex)
      (slice edited editedStart editedIndex)
    let more ← planHunks original edited
      (if originalIndex < original.length then originalIndex + 1 else originalIndex)
      (if editedIndex < edited.length then editedIndex + 1 else editedIndex) rest
    pure (operations ++ more)

def buildPlan (root : String) (original : List SnapshotEntry) (edited : List ManifestEntry) :
    Except String Plan := do
  let matched ← exactMatches (exactPositions original) none 0 edited
  let operations ← planHunks original edited 0 0 (matched ++ [(original.length, edited.length)])
  pure ⟨root, operations, edited⟩

/-- The entries whose line is not delete-flagged. -/
def unflagged (entries : List ManifestEntry) : List ManifestEntry :=
  entries.filter fun e => e.mark ≠ .deleteFlagged

def inScope (scope : EntryScope) (entries : List ManifestEntry) : List ManifestEntry :=
  entries.filter fun e => e.scope = scope

/-- The scopes with an unflagged line, in the order of the source's ordered map. -/
def groupedScopes (entries : List ManifestEntry) : List EntryScope :=
  let kept := unflagged entries
  (if kept.any (fun e => e.scope = .root) then [.root] else [])
    ++ ((kept.filterMap fun e =>
        match e.scope with
        | .subdir path => some path
        | .root => none).dedup.insertionSort (· ≤ ·)).map .subdir

def snapshotOf (sidecar : Sidecar) : EntryScope → Except String (List SnapshotEntry)
  | .root => pure sidecar.entries
  | .subdir path =>
    match sidecar.findSubdir path with
    | some state => pure state.entries
    | none => .error "missing sidecar metadata for inserted subdir"

def planScope (sidecar : Sidecar) (document : ManifestDocument) (scope : EntryScope) :
    Except String (EntryScope × Plan) := do
  let original ← snapshotOf sidecar scope
  let plan ← buildPlan (scope.absoluteRoot sidecar.rootPath) original
    (inScope scope (unflagged document.entries))
  pure (scope, plan)

/-- A visible inserted subdirectory whose block has no line left, and whose snapshot has. -/
def emptiedBlock (document : ManifestDocument) (state : SubdirState) : Bool :=
  state.relativePath ∈ document.visibleSubdirs
    ∧ (∀ e ∈ document.entries, e.scope ≠ .subdir state.relativePath)
    ∧ state.entries ≠ []

def emptiedPlan (sidecar : Sidecar) (state : SubdirState) : EntryScope × Plan :=
  (.subdir state.relativePath,
    { root := (EntryScope.subdir state.relativePath).absoluteRoot sidecar.rootPath
      operations := state.entries.map fun e => .delete e.relativePath e.kind
      finalEntries := [] })

def buildApplyPlans (sidecar : Sidecar) (document : ManifestDocument) :
    Except String (List (EntryScope × Plan)) := do
  let plans ← (groupedScopes document.entries).mapM (planScope sidecar document)
  pure (plans ++ (sidecar.subdirs.filter (emptiedBlock document)).map (emptiedPlan sidecar))

def renderOperation : Operation → String
  | .create path kind => s!"CREATE {kind.label} {kind.renderPath path}\n"
  | .rename source target kind =>
    s!"RENAME {kind.label} {kind.renderPath source} -> {kind.renderPath target}\n"
  | .delete path kind => s!"DELETE {kind.label} {kind.renderPath path}\n"

def renderPlan (plan : Plan) : String :=
  String.join (plan.operations.map renderOperation)

def renderPlans (plans : List (EntryScope × Plan)) : String :=
  let rendered := String.join (plans.map fun (_, plan) => renderPlan plan)
  if rendered = "" then "No changes.\n" else rendered

end OnixCore.HxOil
