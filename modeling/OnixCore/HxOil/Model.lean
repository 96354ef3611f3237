import OnixCore.Lib.Folder
import OnixCore.Lib.Text

/-!
# The data of an `hx-oil` session

A session is a manifest, the text the user edits, and a sidecar, the snapshot that text was
written from. Names, paths and messages are strings; a manifest is a text that is read line by
line. Counters that the source keeps in `u64` and `usize` are natural numbers.
-/

namespace OnixCore.HxOil

inductive EntryKind where
  | file
  | directory
  deriving DecidableEq, Repr

namespace EntryKind

def label : EntryKind → String
  | .file => "FILE"
  | .directory => "DIR"

def renderPath : EntryKind → String → String
  | .file, path => path
  | .directory, path => s!"{path}/"

/-- The order a listing sorts by first: directories come before files. -/
def sortKey : EntryKind → ℕ
  | .directory => 0
  | .file => 1

end EntryKind

inductive EntryMark where
  | none
  | marked
  | deleteFlagged
  deriving DecidableEq, Repr

def EntryMark.pfx : EntryMark → String
  | .none => "  "
  | .marked => "* "
  | .deleteFlagged => "D "

inductive EntryScope where
  | root
  | subdir (path : String)
  deriving DecidableEq, Repr

namespace EntryScope

def absoluteRoot (root : String) : EntryScope → String
  | .root => root
  | .subdir path => s!"{root}/{path}"

def actualRelativePath (relativePath : String) : EntryScope → String
  | .root => relativePath
  | .subdir path => s!"{path}/{relativePath}"

end EntryScope

structure SnapshotEntry where
  id : ℕ
  index : ℕ
  relativePath : String
  kind : EntryKind
  mtimeNs : ℕ
  size : ℕ
  deriving DecidableEq, Repr

/-- What an entry is matched by: the same name with another kind is another entry. -/
abbrev Key := String × EntryKind

def SnapshotEntry.key (e : SnapshotEntry) : Key := (e.relativePath, e.kind)

structure SubdirState where
  relativePath : String
  entries : List SnapshotEntry
  deriving DecidableEq, Repr

structure ManifestEntry where
  relativePath : String
  kind : EntryKind
  lineNumber : ℕ
  mark : EntryMark
  scope : EntryScope
  deriving DecidableEq, Repr

namespace ManifestEntry

def key (e : ManifestEntry) : Key := (e.relativePath, e.kind)

def actualRelativePath (e : ManifestEntry) : String := e.scope.actualRelativePath e.relativePath

end ManifestEntry

inductive ManifestLine where
  | blank (lineNumber : ℕ)
  | comment (text : Text) (lineNumber : ℕ)
  | entry (entry : ManifestEntry)
  | subdirStart (name : String) (lineNumber : ℕ)
  | subdirEnd (name : String) (lineNumber : ℕ)
  deriving DecidableEq, Repr

structure ManifestDocument where
  root : Text
  lines : List ManifestLine
  deriving DecidableEq, Repr

namespace ManifestDocument

def entries (d : ManifestDocument) : List ManifestEntry :=
  d.lines.filterMap fun
    | .entry e => some e
    | _ => none

def visibleSubdirs (d : ManifestDocument) : List String :=
  d.lines.filterMap fun
    | .subdirStart name _ => some name
    | _ => none

end ManifestDocument

structure Sidecar where
  version : ℕ
  root : Text
  createdAt : ℕ
  nextEntryId : ℕ
  entries : List SnapshotEntry
  subdirs : List SubdirState
  deriving DecidableEq, Repr

namespace Sidecar

def rootPath (s : Sidecar) : String := String.ofList s.root

/-- The first state kept for a subdirectory: the one every lookup finds. -/
def findSubdir (s : Sidecar) (name : String) : Option SubdirState :=
  s.subdirs.find? fun state => state.relativePath = name

end Sidecar

inductive Operation where
  | create (path : String) (kind : EntryKind)
  | rename (source target : String) (kind : EntryKind)
  | delete (path : String) (kind : EntryKind)
  deriving DecidableEq, Repr

structure Plan where
  root : String
  operations : List Operation
  finalEntries : List ManifestEntry
  deriving DecidableEq, Repr

def sidecarVersion : ℕ := 2

end OnixCore.HxOil
