import Mathlib.Data.List.Sort
import OnixCore.BackupManifest.Format

/-!
# Writing and verifying a manifest

The walk over a directory tree, and the commands `create` and `verify`. Nothing else changes the
tree while a command runs, so a file that is inspected again after it was hashed is what it was.
-/

namespace OnixCore.BackupManifest

open Numeral

/-- BLAKE3, written in lower-case hexadecimal digits. -/
structure Blake3 where
  hex : Bytes → Bytes
  valid : ∀ bytes, validBlake3Hex (hex bytes) = true

structure Metadata where
  dev : UInt64
  mode : UInt32
  uid : UInt32
  gid : UInt32

/-- What a name of a directory stands for. A directory's entries stand in the order in which it is
read. -/
inductive Entry where
  | directory (metadata : Metadata) (children : List (Bytes × Entry))
  | file (metadata : Metadata) (len : UInt64) (content : Bytes)
  | symlink (metadata : Metadata) (target : Bytes)
  | other (metadata : Metadata)

def Entry.metadata : Entry → Metadata
  | .directory metadata _ => metadata
  | .file metadata _ _ => metadata
  | .symlink metadata _ => metadata
  | .other metadata => metadata

section Reading

/-- What successive reads return when each fills a buffer of `size` bytes, but for the last. -/
def fullReads (size : ℕ) (content : Bytes) : List Bytes :=
  if _h : content = [] ∨ size = 0 then []
  else content.take size :: fullReads size (content.drop size)
termination_by content.length
decreasing_by
  push Not at _h
  have := List.length_pos_iff.2 _h.1
  rw [List.length_drop]
  omega

def fileBufferBytes : ℕ := 64 * 1024

def compareBufferBytes : ℕ := 64 * 1024

/-- The hasher is given what each read returned. -/
def hashFile (blake3 : Blake3) (reads : List Bytes) : Bytes :=
  blake3.hex (reads.foldl (· ++ ·) [])

/-- The loop of `files_equal`, over what the reads of the two files returned: nothing at the end. -/
def filesEqual : List Bytes → List Bytes → Bool
  | [], [] => true
  | [], _ :: _ => false
  | _ :: _, [] => false
  | left :: lefts, right :: rights =>
    if left.length ≠ right.length then false
    else if left ≠ right then false
    else filesEqual lefts rights

end Reading

section Walk

def recordForPath (blake3 : Blake3) (relativePath : Bytes) (entry : Entry) :
    Except Failure ManifestRecord :=
  let record (kind : EntryKind) (hash : Bytes) (size : UInt64) : ManifestRecord :=
    { kind, hash, size, relativePath
      mode := entry.metadata.mode &&& permissionModeMask
      uid := entry.metadata.uid
      gid := entry.metadata.gid }
  match entry with
  | .directory _ _ => return record .directory hashPlaceholder 0
  | .file _ len content =>
    return record .file (hashFile blake3 (fullReads fileBufferBytes content)) len
  | .symlink _ target =>
    if target.length < 2 ^ 64 then
      return record .symlink (blake3.hex target) (UInt64.ofNat target.length)
    else throw ⟨"symlink target is too large", relativePath⟩
  | .other _ => throw ⟨"unsupported filesystem entry in manifest root", relativePath⟩

/-- `Path::join` -/
def join (directory name : Bytes) : Bytes :=
  if name.head? = some slash then name
  else if directory = [] ∨ directory.getLast? = some slash then directory ++ name
  else directory ++ slash :: name

def nameLe (left right : Bytes × Entry) : Prop := (compare left.1 right.1).isLE = true

instance : DecidableRel nameLe := fun left right =>
  inferInstanceAs (Decidable ((compare left.1 right.1).isLE = true))

/-- `entries.sort_by`, on the bytes of the names. -/
def sortByName (entries : List (Bytes × Entry)) : List (Bytes × Entry) :=
  entries.insertionSort nameLe

/-- What has been written, and the counts. -/
structure Walk where
  output : Bytes
  stats : ManifestStats := {}

theorem sizeOf_orderedInsert (a : Bytes × Entry) : ∀ l : List (Bytes × Entry),
    sizeOf (l.orderedInsert nameLe a) = sizeOf (a :: l)
  | [] => rfl
  | b :: l => by
    rw [List.orderedInsert]
    split_ifs
    · rfl
    · simp only [List.cons.sizeOf_spec, sizeOf_orderedInsert a l]
      omega

theorem sizeOf_sortByName : ∀ l : List (Bytes × Entry), sizeOf (sortByName l) = sizeOf l
  | [] => rfl
  | a :: l => by
    have ih := sizeOf_sortByName l
    rw [sortByName] at ih ⊢
    rw [List.insertionSort_cons, sizeOf_orderedInsert, List.cons.sizeOf_spec,
      List.cons.sizeOf_spec, ih]

/-- The loop of `walk_directory` over the sorted entries of a directory. -/
def walkDirectory (blake3 : Blake3) (rootDevice : UInt64) (relativeDirectory : Bytes) :
    List (Bytes × Entry) → Walk → Except Failure Walk
  | [], walk => return walk
  | (name, entry) :: rest, walk => do
    let relativePath := join relativeDirectory name
    validateRelativePath relativePath
    if entry.metadata.dev ≠ rootDevice then
      throw ⟨"entry crosses the manifest root filesystem", relativePath⟩
    let record ← recordForPath blake3 relativePath entry
    let stats ← walk.stats.add record.size
    let walk : Walk := ⟨walk.output ++ writeRecord record, stats⟩
    match entry with
    | .directory _ children =>
      let walk ← walkDirectory blake3 rootDevice relativePath (sortByName children) walk
      walkDirectory blake3 rootDevice relativeDirectory rest walk
    | _ => walkDirectory blake3 rootDevice relativeDirectory rest walk
termination_by entries => sizeOf entries
decreasing_by
  all_goals
    simp only [sizeOf_sortByName, List.cons.sizeOf_spec, Prod.mk.sizeOf_spec,
      Entry.directory.sizeOf_spec]
    omega

def validateRoot : Entry → Except Failure Unit
  | .directory _ _ => return ()
  | _ => throw ⟨"manifest root is not a directory", []⟩

/-- The entries of a directory, as `read_dir` lists them. -/
def readDir : Entry → Except Failure (List (Bytes × Entry))
  | .directory _ children => return children
  | _ => throw ⟨"read directory: Not a directory", []⟩

def writeManifest (blake3 : Blake3) (root : Entry) : Except Failure Walk := do
  let children ← readDir root
  walkDirectory blake3 root.metadata.dev [] (sortByName children)
    { output := manifestHeader ++ [Bytes.lineFeed] }

end Walk

section Commands

/-- The files of the directory that holds the manifest, by name. -/
abbrev Store := Bytes → Option Bytes

def temporaryManifestPath (manifest : Bytes) (processId : ℕ) : Bytes :=
  manifest ++ Bytes.ascii ".partial." ++ numeral 10 processId

def Store.rename (store : Store) (source target : Bytes) : Store :=
  Function.update (Function.update store target (store source)) source none

def createManifestAtomic (blake3 : Blake3) (processId : ℕ) (root : Entry) (manifest : Bytes)
    (store : Store) : Except Failure ManifestStats × Store :=
  match validateRoot root with
  | .error e => (.error e, store)
  | .ok () =>
    let temporary := temporaryManifestPath manifest processId
    match store temporary with
    | some _ => (.error ⟨"create temporary manifest: File exists", temporary⟩, store)
    | none =>
      match writeManifest blake3 root with
      | .ok walk =>
        let written : Store := Function.update store temporary (some walk.output)
        (.ok walk.stats, written.rename temporary manifest)
      -- Whatever was written of the temporary manifest is removed.
      | .error e => (.error e, store)

def verifyManifest (blake3 : Blake3) (processId : ℕ) (root : Entry) (manifest : Bytes)
    (store : Store) : Except Failure ManifestStats × Store :=
  match validateRoot root with
  | .error e => (.error e, store)
  | .ok () =>
    match store manifest with
    | none => (.error ⟨"open manifest: No such file or directory", manifest⟩, store)
    | some expected =>
      match validateManifestFormat expected with
      | .error e => (.error e, store)
      | .ok expectedStats =>
        let actual := temporaryManifestPath manifest processId
        match store actual with
        | some _ => (.error ⟨"create verification manifest: File exists", actual⟩, store)
        | none =>
          match writeManifest blake3 root with
          | .error e => (.error e, store)
          | .ok walk =>
            let comparison := filesEqual (fullReads compareBufferBytes expected)
              (fullReads compareBufferBytes walk.output)
            (if comparison then .ok expectedStats
              else .error ⟨"manifest does not match the restored filesystem", []⟩, store)

end Commands

end OnixCore.BackupManifest
