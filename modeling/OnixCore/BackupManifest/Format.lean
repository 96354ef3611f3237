import OnixCore.Lib.Numeral

/-!
# The manifest format

The records of `modules/radicle-node/backup-manifest/src/main.rs`: how a record is written as a
line, how a line is read back, and what `validate_manifest_format` asks of a manifest.
-/

namespace OnixCore.BackupManifest

open Numeral

/-- A failure, with the path or the field its message ends in, if it names one. -/
structure Failure where
  message : String
  subject : Bytes := []

def manifestHeader : Bytes := Bytes.ascii "RADICLE_BACKUP_B3_V1"

def permissionModeMask : UInt32 := 0o7777

def blake3OutLen : ℕ := 32

def hexCharsPerByte : ℕ := 2

def slash : UInt8 := 47

def dot : UInt8 := 46

def hashPlaceholder : Bytes := Bytes.ascii "-"

inductive EntryKind where
  | directory
  | file
  | symlink
deriving DecidableEq

def EntryKind.marker : EntryKind → Bytes
  | .directory => Bytes.ascii "D"
  | .file => Bytes.ascii "F"
  | .symlink => Bytes.ascii "L"

def EntryKind.parse (marker : Bytes) : Except Failure EntryKind :=
  if marker = Bytes.ascii "D" then return .directory
  else if marker = Bytes.ascii "F" then return .file
  else if marker = Bytes.ascii "L" then return .symlink
  else throw ⟨"unsupported manifest entry kind", marker⟩

structure ManifestRecord where
  kind : EntryKind
  hash : Bytes
  size : UInt64
  mode : UInt32
  uid : UInt32
  gid : UInt32
  relativePath : Bytes

structure ManifestStats where
  records : UInt64 := 0
  bytes : UInt64 := 0

def checkedAdd (a b : UInt64) : Option UInt64 :=
  if a.toNat + b.toNat < 2 ^ 64 then some (a + b) else none

/-- One more record, of `size` bytes. -/
def ManifestStats.add (stats : ManifestStats) (size : UInt64) : Except Failure ManifestStats :=
  match checkedAdd stats.records 1 with
  | none => throw ⟨"manifest record count overflow", []⟩
  | some records =>
    match checkedAdd stats.bytes size with
    | none => throw ⟨"manifest byte count overflow", []⟩
    | some bytes => return ⟨records, bytes⟩

section Paths

inductive Component where
  | rootDir
  | curDir
  | parentDir
  | normal (name : Bytes)

def Component.isNormal : Component → Bool
  | .normal _ => true
  | _ => false

/-- `Path::components`: an empty part does not count, nor does a dot but at the start. -/
def components (path : Bytes) : List Component :=
  let parts := path.splitOn slash
  (if path.head? = some slash then [.rootDir]
    else if parts.head? = some [dot] then [.curDir] else [])
  ++ (parts.filter fun part => part ≠ [] && part ≠ [dot]).map fun part =>
    if part = [dot, dot] then .parentDir else .normal part

def validateRelativePath (path : Bytes) : Except Failure Unit :=
  if path = [] ∨ path.head? = some slash then
    throw ⟨"manifest path must be non-empty and relative", []⟩
  else if (components path).all Component.isNormal then return ()
  else throw ⟨"manifest path contains a forbidden component", []⟩

/-- The loop of `compare_relative_path_bytes`. -/
def compareComponents : List Bytes → List Bytes → Ordering
  | [], [] => .eq
  | [], _ :: _ => .lt
  | _ :: _, [] => .gt
  | left :: lefts, right :: rights =>
    match compare left right with
    | .eq => compareComponents lefts rights
    | ordering => ordering

def compareRelativePathBytes (left right : Bytes) : Ordering :=
  compareComponents (left.splitOn slash) (right.splitOn slash)

end Paths

section Records

def writeRecord (record : ManifestRecord) : Bytes :=
  [Bytes.space].intercalate
    [record.kind.marker, record.hash, numeral 10 record.size.toNat, numeral 8 record.mode.toNat,
      numeral 10 record.uid.toNat, numeral 10 record.gid.toNat, hexEncode record.relativePath]
  ++ [Bytes.lineFeed]

def validBlake3Hex (value : Bytes) : Bool :=
  value.length == blake3OutLen * hexCharsPerByte
  && value.all fun byte => 48 ≤ byte && byte ≤ 57 || 97 ≤ byte && byte ≤ 102

def hexDecode (value : Bytes) : Except Failure Bytes :=
  if value.length % hexCharsPerByte ≠ 0 then throw ⟨"manifest path hex has an odd length", []⟩
  else
    match hexPairs value with
    | some bytes => return bytes
    | none => throw ⟨"manifest path contains invalid hex", []⟩

/-- The unsigned number of a field, or the field's error. -/
def parseField (base bits : ℕ) (text : Bytes) (message : String) : Except Failure ℕ :=
  match parseUnsigned base bits text with
  | some value => return value
  | none => throw ⟨message, []⟩

/-- The check of a record's hash, which depends on its kind. -/
def checkHash (kind : EntryKind) (hash : Bytes) : Except Failure Unit :=
  match kind with
  | .directory =>
    if hash ≠ hashPlaceholder then throw ⟨"directory record must use the hash placeholder", []⟩
    else return ()
  | _ =>
    if !validBlake3Hex hash then
      throw ⟨"file or symlink record has an invalid BLAKE3 hash", []⟩
    else return ()

def parseRecord (line : Bytes) : Except Failure ManifestRecord :=
  match line.splitOn Bytes.space with
  | [kind, hash, size, mode, uid, gid, path] => do
    let kind ← EntryKind.parse kind
    checkHash kind hash
    let size ← parseField 10 64 size "manifest record size is invalid"
    let mode ← parseField 8 32 mode "manifest record mode is invalid"
    let mode := UInt32.ofNat mode
    if mode &&& ~~~permissionModeMask ≠ 0 then
      throw ⟨"manifest record mode exceeds the permission mask", []⟩
    let uid ← parseField 10 32 uid "manifest record uid is invalid"
    let gid ← parseField 10 32 gid "manifest record gid is invalid"
    let relativePath ← hexDecode path
    validateRelativePath relativePath
    return ⟨kind, hash, UInt64.ofNat size, mode, UInt32.ofNat uid, UInt32.ofNat gid, relativePath⟩
  | _ => throw ⟨"manifest record has the wrong field count", []⟩

end Records

section Manifests

/-- What is known after some of the records: the last path, and the counts. -/
structure FormatState where
  previousPath : Option Bytes := none
  stats : ManifestStats := {}

/-- A line as the reader gives it, which has to be UTF-8. -/
def readLine (line : Bytes) (context : String) : Except Failure Bytes :=
  if line.isUtf8 then return line
  else throw ⟨context ++ ": stream did not contain valid UTF-8", []⟩

def inOrder (previousPath : Option Bytes) (path : Bytes) : Bool :=
  match previousPath with
  | none => true
  | some previous => compareRelativePathBytes previous path == .lt

/-- One turn of the loop of `validate_manifest_format`. -/
def formatStep (state : FormatState) (line : Bytes) : Except Failure FormatState := do
  let line ← readLine line "read manifest record"
  let record ← parseRecord line
  if !inOrder state.previousPath record.relativePath then
    throw ⟨"manifest paths are not in deterministic component order", []⟩
  let stats ← state.stats.add record.size
  return ⟨some record.relativePath, stats⟩

def validateManifestFormat (manifest : Bytes) : Except Failure ManifestStats :=
  match manifest.lines with
  | [] => throw ⟨"manifest is empty", []⟩
  | header :: records => do
    let header ← readLine header "read manifest header"
    if header ≠ manifestHeader then throw ⟨"manifest header is invalid", []⟩
    let state ← records.foldlM formatStep {}
    return state.stats

end Manifests

end OnixCore.BackupManifest
