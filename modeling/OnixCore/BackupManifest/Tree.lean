import OnixCore.BackupManifest.Walk

/-!
# Directory trees

What a manifest is about: the entries below the root of a tree, each at its path, whatever the
order in which directories are read. Two trees are the same if they have the same entries at the
same paths.
-/

namespace OnixCore.BackupManifest

/-- A name that an operating system gives to a directory's entry. -/
def LegalName (name : Bytes) : Prop :=
  name ≠ [] ∧ slash ∉ name ∧ 0 ∉ name ∧ name ≠ [dot] ∧ name ≠ [dot, dot]

/-- Every directory gives different legal names to its entries, at any depth, and the length of a
link's target is a number the system can count. -/
inductive Entry.Legal : Entry → Prop
  | directory {metadata : Metadata} {children : List (Bytes × Entry)}
      (nodup : (children.map Prod.fst).Nodup) (names : ∀ child ∈ children, LegalName child.1)
      (legal : ∀ child ∈ children, child.2.Legal) : Entry.Legal (.directory metadata children)
  | file {metadata : Metadata} {len : UInt64} {content : Bytes} :
      Entry.Legal (.file metadata len content)
  | symlink {metadata : Metadata} {target : Bytes} (h : target.length < 2 ^ 64) :
      Entry.Legal (.symlink metadata target)
  | other {metadata : Metadata} : Entry.Legal (.other metadata)

/-- `Under children path entry`: going down the names of `path` from a directory with these
children leads to `entry`. -/
inductive Under : List (Bytes × Entry) → List Bytes → Entry → Prop
  | child {children : List (Bytes × Entry)} {name : Bytes} {entry : Entry}
      (h : (name, entry) ∈ children) : Under children [name] entry
  | inside {children below : List (Bytes × Entry)} {name : Bytes} {path : List Bytes}
      {metadata : Metadata} {entry : Entry} (h : (name, .directory metadata below) ∈ children)
      (rest : Under below path entry) : Under children (name :: path) entry

/-- A directory tree. -/
structure Tree where
  metadata : Metadata
  children : List (Bytes × Entry)
  legal : Entry.Legal (.directory metadata children)

namespace Tree

def root (T : Tree) : Entry := .directory T.metadata T.children

def Has (T : Tree) (path : List Bytes) (entry : Entry) : Prop := Under T.children path entry

end Tree

def Metadata.SameOwner (a b : Metadata) : Prop :=
  a.mode &&& permissionModeMask = b.mode &&& permissionModeMask ∧ a.uid = b.uid ∧ a.gid = b.gid

/-- One kind, one content or target, one size, and the same permissions and owners. -/
def Entry.Same : Entry → Entry → Prop
  | .directory a _, .directory b _ => a.SameOwner b
  | .file a len content, .file b len' content' => a.SameOwner b ∧ len = len' ∧ content = content'
  | .symlink a target, .symlink b target' => a.SameOwner b ∧ target = target'
  | _, _ => False

/-- The trees have the same paths, with the same entries there. -/
def SameTree (T T' : Tree) : Prop :=
  (∀ path entry, T.Has path entry → ∃ entry', T'.Has path entry' ∧ entry.Same entry')
  ∧ ∀ path entry', T'.Has path entry' → ∃ entry, T.Has path entry ∧ entry.Same entry'

/-- Directories, regular files and links, all on the filesystem of the root. -/
def Entry.Plain (rootDevice : UInt64) : Entry → Prop
  | .other _ => False
  | entry => entry.metadata.dev = rootDevice

def Tree.Plain (T : Tree) : Prop := ∀ path entry, T.Has path entry → entry.Plain T.metadata.dev

end OnixCore.BackupManifest
