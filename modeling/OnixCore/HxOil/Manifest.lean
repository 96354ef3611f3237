import OnixCore.HxOil.Model

/-!
# The manifest format

`renderCanonicalManifest` writes a snapshot as a manifest and `parseManifestDocument` reads an
edited one. The two are separate code: a line is two spaces or a mark and then the name, six
spaces and then the name inside an inserted subdirectory, and directories end in a slash.
-/

namespace OnixCore.HxOil

open Text

def rootHeader : Text := "# hx-oil root: ".toList

def ignoredHeader : Text := "# blank lines and comment lines are ignored".toList

def subdirMarker : Text := "# hx-oil subdir: ".toList

def endSubdirMarker : Text := "# hx-oil end-subdir: ".toList

def subdirIndent : Text := "    ".toList

def renderManifestEntry (e : ManifestEntry) : Text :=
  (match e.scope with
    | .subdir _ => subdirIndent
    | .root => [])
    ++ e.mark.pfx.toList ++ (e.kind.renderPath e.relativePath).toList

/-- Writes each line and a line feed after it. -/
def writeLines (ls : List Text) : Text := ls.flatMap fun l => l ++ ['\n']

/-- A snapshot entry as the line of an unedited manifest. -/
def unmarkedEntry (scope : EntryScope) (e : SnapshotEntry) : ManifestEntry where
  relativePath := e.relativePath
  kind := e.kind
  lineNumber := 0
  mark := .none
  scope := scope

/-- The block of an inserted subdirectory, written under the line of its directory. -/
def renderSubdir (state : SubdirState) : List Text :=
  (subdirMarker ++ state.relativePath.toList)
    :: state.entries.map (fun child =>
        renderManifestEntry (unmarkedEntry (.subdir state.relativePath) child))
    ++ [endSubdirMarker ++ state.relativePath.toList]

/-- The state a rendering uses for a name: the last one inserted into its map. -/
def subdirMap (subdirs : List SubdirState) (name : String) : Option SubdirState :=
  subdirs.reverse.find? fun state => state.relativePath = name

def renderEntryLines (subdirs : List SubdirState) (e : SnapshotEntry) : List Text :=
  renderManifestEntry (unmarkedEntry .root e)
    :: ((subdirMap subdirs e.relativePath).map renderSubdir).getD []

def renderCanonicalManifest (root : Text) (entries : List SnapshotEntry)
    (subdirs : List SubdirState) : Text :=
  writeLines ((rootHeader ++ root) :: ignoredHeader
    :: entries.flatMap (renderEntryLines subdirs))

def scopeOf : Option String → EntryScope
  | some path => .subdir path
  | none => .root

def parseMark (payload : Text) : EntryMark × Text :=
  match stripPrefix "* ".toList payload with
  | some rest => (.marked, rest)
  | none =>
    match stripPrefix "D ".toList payload with
    | some rest => (.deleteFlagged, rest)
    | none =>
      match stripPrefix "  ".toList payload with
      | some rest => (.none, rest)
      | none => (.none, payload)

/-- The part of an entry line that is left without the indent of its block. -/
def entryPayload (lineNumber : ℕ) (line : Text) : EntryScope → Except String Text
  | .subdir _ =>
    match stripPrefix subdirIndent line with
    | some rest => pure rest
    | none => .error s!"line {lineNumber}: inserted subdir entries must start with four spaces"
  | .root => pure line

def parseName (rest : Text) : Text × EntryKind :=
  match stripSuffix '/' rest with
  | some path => (path, .directory)
  | none => (rest, .file)

def parseManifestEntryLine (lineNumber : ℕ) (line : Text) (scope : EntryScope) :
    Except String ManifestEntry := do
  let payload ← entryPayload lineNumber line scope
  let (mark, rest) := parseMark payload
  let (relativePath, kind) := parseName rest
  pure ⟨String.ofList relativePath, kind, lineNumber, mark, scope⟩

/-- Reads the lines after the header; `current` is the subdirectory block the line stands in. -/
def parseLines (current : Option String) (lineNumber : ℕ) :
    List Text → Except String (List ManifestLine)
  | [] => do
    ensure current.isNone "unterminated hx-oil subdir block"
    pure []
  | line :: rest =>
    match stripPrefix subdirMarker line with
    | some name => do
      ensure current.isNone "nested subdir blocks are unsupported in this manifest"
      let more ← parseLines (some (String.ofList name)) (lineNumber + 1) rest
      pure (.subdirStart (String.ofList name) lineNumber :: more)
    | none =>
      match stripPrefix endSubdirMarker line with
      | some name =>
        match current with
        | none => .error s!"line {lineNumber}: unexpected hx-oil end-subdir marker"
        | some open_ => do
          ensure (open_ = String.ofList name)
            s!"line {lineNumber}: mismatched hx-oil end-subdir marker for {String.ofList name}"
          let more ← parseLines none (lineNumber + 1) rest
          pure (.subdirEnd (String.ofList name) lineNumber :: more)
      | none =>
        if trim line = [] then do
          let more ← parseLines current (lineNumber + 1) rest
          pure (.blank lineNumber :: more)
        else if line.head? = some '#' then do
          let more ← parseLines current (lineNumber + 1) rest
          pure (.comment line lineNumber :: more)
        else do
          let e ← parseManifestEntryLine lineNumber line (scopeOf current)
          let more ← parseLines current (lineNumber + 1) rest
          pure (.entry e :: more)

/-- The lines from the second on, without the second header line, and the number of the first. -/
def bodyLines (rest : List Text) : ℕ × List Text :=
  if rest.head? = some ignoredHeader then (3, rest.tail) else (2, rest)

def parseManifestDocument (text : Text) : Except String ManifestDocument :=
  match lines text with
  | [] => .error "manifest is missing the hx-oil root header"
  | first :: rest =>
    match stripPrefix rootHeader first with
    | none => .error "manifest is missing the hx-oil root header; reopen the directory buffer"
    | some root => do
      let parsed ← parseLines none (bodyLines rest).1 (bodyLines rest).2
      pure ⟨root, parsed⟩

def validateEntryName (name : String) (kind : EntryKind) (lineNumber : ℕ) :
    Except String Unit := do
  ensure (name ≠ "") s!"line {lineNumber}: empty entry is not allowed"
  ensure (name.toList = trim name.toList)
    s!"line {lineNumber}: leading or trailing whitespace is unsupported"
  ensure ('/' ∉ name.toList) s!"line {lineNumber}: nested paths are unsupported"
  ensure (name ≠ "." ∧ name ≠ "..")
    s!"line {lineNumber}: '.' and '..' are not valid hx-oil entries"
  ensure (name.toList.head? ≠ some '#')
    s!"line {lineNumber}: entry names starting with '#' are unsupported"
  if kind = .directory then
    ensure (name.toList.getLast? ≠ some '/')
      s!"line {lineNumber}: directory marker may only appear once"

/-- Goes over the entries with the targets seen so far. -/
def validateEntriesFrom (seen : List (EntryScope × String)) :
    List ManifestEntry → Except String Unit
  | [] => pure ()
  | e :: rest => do
    validateEntryName e.relativePath e.kind e.lineNumber
    ensure ((e.scope, e.relativePath) ∉ seen)
      s!"duplicate target path in manifest: {e.kind.renderPath e.actualRelativePath}"
    validateEntriesFrom ((e.scope, e.relativePath) :: seen) rest

def validateDocumentEntries (document : ManifestDocument) : Except String Unit :=
  validateEntriesFrom [] document.entries

/-- The names on the directory lines of the root listing, whatever their mark. -/
def rootDirectoryLines (document : ManifestDocument) : List String :=
  (document.entries.filter fun e => e.scope = .root ∧ e.kind = .directory).map (·.relativePath)

def validateVisibleSubdirRoots (document : ManifestDocument) : Except String Unit :=
  document.visibleSubdirs.forM fun name =>
    ensure (name ∈ rootDirectoryLines document)
      s!"unsafe subtree mutation: inserted subdir {name} must keep its root directory entry unchanged"

end OnixCore.HxOil
