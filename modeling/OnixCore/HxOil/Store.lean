import OnixCore.HxOil.Session

/-!
# The sessions on disk

Each session has a directory of its own, with the manifest and the sidecar in it. A directory is
modified when an entry of it is made, removed or renamed; a file that is there is written in place
(`SessionDir.write`). `gcSessionsAt` removes the directories that were last modified too long ago.
`StoreStep` is one step of the whole: a session is rendered, a command runs on one, something else
changes a directory, or the sessions are collected. Times are in nanoseconds.
-/

namespace OnixCore.HxOil

open Text

variable {γ E : Type}

/-- Seven days. -/
def sessionRetention : ℕ := 7 * 24 * 60 * 60 * 1000000000

inductive SessionFile where
  | manifest
  | sidecar
  deriving DecidableEq, Repr

/-- A file with the time it was last written. -/
structure StoredFile (α : Type) where
  written : ℕ
  content : α

structure SessionDir where
  modified : ℕ
  manifest : Option (StoredFile Text)
  sidecar : Option (StoredFile Sidecar)

namespace SessionDir

def write (session : Session) (now : ℕ) (dir : SessionDir) : SessionFile → SessionDir
  | .manifest =>
    { dir with
      modified := if dir.manifest.isSome then dir.modified else now
      manifest := some ⟨now, session.text⟩ }
  | .sidecar =>
    { dir with
      modified := if dir.sidecar.isSome then dir.modified else now
      sidecar := some ⟨now, session.sidecar⟩ }

def writeAll (session : Session) (now : ℕ) (files : List SessionFile) (dir : SessionDir) :
    SessionDir :=
  files.foldl (write session now) dir

def writtenAt (dir : SessionDir) : SessionFile → Option ℕ
  | .manifest => dir.manifest.map (·.written)
  | .sidecar => dir.sidecar.map (·.written)

/-- What a command loads: it needs both files. -/
def stored (dir : SessionDir) : Option Session :=
  match dir.manifest, dir.sidecar with
  | some manifest, some sidecar => some ⟨sidecar.content, manifest.content⟩
  | _, _ => none

end SessionDir

/-- What `rewrite_session_files` writes, in this order. -/
def rewrittenFiles : List SessionFile := [.manifest, .sidecar]

/-- The files a command writes, in this order. -/
def SessionOp.writes : SessionOp γ E → List SessionFile
  | .external _ => []
  | .edit _ | .markToggle _ | .clearMarks | .flagDelete _ => [.manifest]
  | .insertSubdir _ | .collapseSubdir _ | .refreshSubdir _ => [.manifest, .sidecar]
  | .refresh _ | .apply _ | .transform _ _ | .bulk _ _ => rewrittenFiles

/-- The session directories under the state home, by id. -/
abbrev Sessions := AList fun _ : String => SessionDir

/-- The directory was modified before the cutoff. -/
def SessionDir.stale (now : ℕ) (dir : SessionDir) : Bool := dir.modified < now - sessionRetention

def gcSessionsAt (now : ℕ) (sessions : Sessions) : Sessions × ℕ :=
  (⟨sessions.entries.filter fun e => !e.2.stale now,
      sessions.nodupKeys.sublist List.filter_sublist⟩,
    sessions.entries.countP fun e => e.2.stale now)

structure SessionStore (γ E : Type) where
  world : World γ E
  sessions : Sessions

def emptyStore (w : World γ E) : SessionStore γ E := ⟨w, ∅⟩

/-- What a step does to the session directories. A call that fails part way writes the first of its
files only. -/
inductive StoreEvent where
  | rendered (id : String) (now : ℕ) (files : List SessionFile)
  | ran (id : String) (now : ℕ) (files : List SessionFile)
  | touched (id : String) (now : ℕ)
  | collected (now : ℕ) (removed : List String)
  | external

inductive StoreStep [Content γ] (host : Host γ E) :
    SessionStore γ E → StoreEvent → SessionStore γ E → Prop
  /-- `create_session_dir` takes an id that is not in use, before anything is listed. -/
  | rendered {s : SessionStore γ E} {id : String} {root : Text} {created now : ℕ}
      {session : Session} {files : List SessionFile} (hnew : s.sessions.lookup id = none)
      (hfiles : files <+: rewrittenFiles)
      (hrender : files ≠ [] → renderSession host.links root created s.world = .ok session) :
      StoreStep host s (.rendered id now files)
        { s with sessions := s.sessions.insert id (SessionDir.writeAll session now files ⟨now, none, none⟩) }
  | ran {s : SessionStore γ E} {id : String} {op : SessionOp γ E} {now : ℕ} {dir : SessionDir}
      {stored session : Session} {w : World γ E} {files : List SessionFile}
      (hdir : s.sessions.lookup id = some dir) (hstored : dir.stored = some stored)
      (hrun : runOp host stored s.world op = (w, .ok session)) (hfiles : files <+: op.writes) :
      StoreStep host s (.ran id now files) ⟨w, s.sessions.insert id (dir.writeAll session now files)⟩
  | failed {s : SessionStore γ E} {id : String} {op : SessionOp γ E} {now : ℕ} {dir : SessionDir}
      {stored : Session} {w : World γ E} {message : String}
      (hdir : s.sessions.lookup id = some dir) (hstored : dir.stored = some stored)
      (hrun : runOp host stored s.world op = (w, .error message)) :
      StoreStep host s (.ran id now []) { s with world := w }
  /-- Something else makes, removes or renames an entry of the directory. -/
  | touched {s : SessionStore γ E} {id : String} {now : ℕ} {dir : SessionDir}
      (hdir : s.sessions.lookup id = some dir) :
      StoreStep host s (.touched id now)
        { s with sessions := s.sessions.insert id { dir with modified := now } }
  | collected {s : SessionStore γ E} {now : ℕ} :
      StoreStep host s
        (.collected now ((s.sessions.entries.filter fun e => e.2.stale now).map Sigma.fst))
        { s with sessions := (gcSessionsAt now s.sessions).1 }
  | external {s : SessionStore γ E} {w : World γ E} :
      StoreStep host s .external { s with world := w }

end OnixCore.HxOil
