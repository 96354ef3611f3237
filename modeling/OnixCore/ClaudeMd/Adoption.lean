import OnixCore.Lib.Text

/-!
# Adopting a directory

`link_directory`, `get_item_status` and `add_global_item` of `claude_md.py`, on the two paths they
are about: the local one and the one in the central repository. Each call may fail, and
`shutil.copytree` goes on after an entry that it cannot copy while `shutil.rmtree` stops at the first
that it cannot remove. What is printed is left out.
-/

namespace OnixCore.ClaudeMd

inductive Tree where
  | file (content : List UInt8)
  | link (target : String)
  | dir (entries : List (String × Tree))

/-- The entries of a directory. -/
abbrev Dir := List (String × Tree)

/-- The names down to an entry, innermost first. -/
abbrev Path := List String

/-- What a symbolic link at the local path leads to. -/
inductive Target where
  | central
  | dir (entries : Dir)
  | file
  | nothing

inductive Local where
  | missing
  | dir (entries : Dir)
  | link (target : Target)

structure Paths where
  localDir : Local
  centralDir : Option Dir

inductive Failure where
  | exit
  | raised

/-- What each call on the two paths does, told by the path of the entry below the directory. A file
that cannot be copied may leave some of it behind. -/
structure Faults where
  makeParents : Bool
  listSource : Path → Bool
  makeDir : Path → Bool
  copyFile : Path → Option (Option (List UInt8))
  copyLink : Path → Bool
  copyStat : Path → Bool
  listRemoved : Path → Bool
  unlink : Path → Bool
  rmdir : Path → Bool
  symlink : Bool
  stage : Option Failure

section Calls

variable (faults : Faults)

/-- A directory that is made and filled with these copies, and whether nothing failed. -/
def filledDir (path : Path) (copies : Dir × Bool) : Option Dir × Bool :=
  if faults.listSource path ∨ faults.makeDir path then (none, false)
  else (some copies.1, copies.2 && !faults.copyStat path)

mutual

def copyEntry (path : Path) : Tree → Option Tree × Bool
  | .file content => match faults.copyFile path with
    | none => (some (.file content), true)
    | some left => (left.map .file, false)
  | .link target =>
    if faults.copyLink path then (none, false) else (some (.link target), !faults.copyStat path)
  | .dir entries =>
    let copied := filledDir faults path (copyEntries path entries)
    (copied.1.map .dir, copied.2)

def copyEntries (path : Path) : Dir → Dir × Bool
  | [] => ([], true)
  | (name, tree) :: rest =>
    let copy := copyEntry (name :: path) tree
    let copies := copyEntries path rest
    (copy.1.toList.map (name, ·) ++ copies.1, copy.2 && copies.2)

end

/-- What is left of a directory after what is left of its entries. -/
def emptiedDir (path : Path) (entries : Dir) (left : Dir × Bool) : Option Dir × Bool :=
  if faults.listRemoved path then (some entries, false)
  else if left.2 then
    if faults.rmdir path then (some [], false) else (none, true)
  else (some left.1, false)

mutual

def removeEntry (path : Path) : Tree → Option Tree × Bool
  | .file content => if faults.unlink path then (some (.file content), false) else (none, true)
  | .link target => if faults.unlink path then (some (.link target), false) else (none, true)
  | .dir entries =>
    let left := emptiedDir faults path entries (removeEntries path entries)
    (left.1.map .dir, left.2)

def removeEntries (path : Path) : Dir → Dir × Bool
  | [] => ([], true)
  | (name, tree) :: rest =>
    let left := removeEntry (name :: path) tree
    if left.2 then removeEntries path rest else (left.1.toList.map (name, ·) ++ rest, false)

end

/-- The directory that a path is or leads to. -/
def readDir (paths : Paths) : Option Dir :=
  match paths.localDir with
  | .dir entries => some entries
  | .link .central => paths.centralDir
  | .link (.dir entries) => some entries
  | _ => none

abbrev Outcome := Paths × Except Failure Unit

def andThen (first : Outcome) (next : Paths → Outcome) : Outcome :=
  match first.2 with
  | .ok () => next first.1
  | .error failure => (first.1, .error failure)

def mkdirParents (paths : Paths) : Outcome :=
  (paths, if faults.makeParents then .error .raised else .ok ())

/-- `shutil.copytree(local_dir, central_dir, symlinks=True)`. The source is listed first, and the
destination must not exist. -/
def copytree (paths : Paths) : Outcome :=
  match readDir paths, paths.centralDir with
  | some entries, none =>
    let copied := filledDir faults [] (copyEntries faults [] entries)
    ({ paths with centralDir := copied.1 }, if copied.2 then .ok () else .error .raised)
  | _, _ => (paths, .error .raised)

/-- `shutil.rmtree(local_dir)`, which takes no symbolic link. -/
def rmtree (paths : Paths) : Outcome :=
  match paths.localDir with
  | .dir entries =>
    let left := emptiedDir faults [] entries (removeEntries faults [] entries)
    ({ paths with localDir := match left.1 with
      | some entries => .dir entries
      | none => .missing }, if left.2 then .ok () else .error .raised)
  | _ => (paths, .error .raised)

/-- `local_dir.symlink_to(central_dir)` -/
def symlinkTo (paths : Paths) : Outcome :=
  match paths.localDir with
  | .missing =>
    if faults.symlink then (paths, .error .raised)
    else ({ paths with localDir := .link .central }, .ok ())
  | _ => (paths, .error .raised)

/-- A refusal of git is only warned of; `stage` says whether running it raises. -/
def gitStage (paths : Paths) : Outcome :=
  (paths, match faults.stage with
    | some failure => .error failure
    | none => .ok ())

end Calls

section Tests

variable (paths : Paths)

/-- `local_dir.exists()`, which follows links -/
def localExists : Bool :=
  match paths.localDir with
  | .missing => false
  | .dir _ => true
  | .link .central => paths.centralDir.isSome
  | .link (.dir _) => true
  | .link .file => true
  | .link .nothing => false

def localIsSymlink : Bool :=
  match paths.localDir with
  | .link _ => true
  | _ => false

/-- `local_dir.resolve() == central_dir.resolve()` -/
def sameResolved : Bool :=
  match paths.localDir with
  | .link .central => true
  | _ => false

end Tests

inductive Status where
  | linked
  | conflict
  | atLocal
  | atCentral
  | missing

def getItemStatus (paths : Paths) : Status :=
  let localExists := localExists paths || localIsSymlink paths
  let centralExists := paths.centralDir.isSome
  if localExists && localIsSymlink paths then
    if centralExists && sameResolved paths then .linked else .atLocal
  else if localExists && centralExists then .conflict
  else if localExists then .atLocal
  else if centralExists then .atCentral
  else .missing

section Commands

variable (faults : Faults)

/-- The steps that both commands take for a path that is only local. -/
def moveAndLink (paths : Paths) : Outcome :=
  andThen (mkdirParents faults paths) fun paths =>
    andThen (copytree faults paths) fun paths =>
      andThen (rmtree faults paths) fun paths =>
        andThen (symlinkTo faults paths) (gitStage faults)

def linkDirectory (paths : Paths) : Outcome :=
  if localExists paths && paths.centralDir.isSome then
    if localIsSymlink paths && sameResolved paths then (paths, .ok ()) else (paths, .error .exit)
  else if paths.centralDir.isSome && !localExists paths then symlinkTo faults paths
  else if localExists paths && paths.centralDir.isNone then moveAndLink faults paths
  else (paths, .ok ())

def addGlobalItem (paths : Paths) : Outcome :=
  match getItemStatus paths with
  | .linked => (paths, .ok ())
  | .conflict => (paths, .error .exit)
  | .atCentral => andThen (mkdirParents faults paths) (symlinkTo faults)
  | .atLocal => moveAndLink faults paths
  | .missing => (paths, .error .exit)

end Commands

end OnixCore.ClaudeMd
