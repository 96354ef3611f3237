import Mathlib.Data.List.AList
import OnixCore.Lib.Steps

/-!
# Directories

A directory is a finite map from names to objects, so no two of its entries share a name. What a
subdirectory holds is a parameter `β`: a program that lists one level treats it as opaque, one
that lists two levels takes it to be a `Folder` again.

The operations are the ones a program calls on one directory, and fail where the operating
system refuses them. `rename` replaces what it finds under the new name where the system would
do so silently.
-/

namespace OnixCore

/-- What a listing reads of an object besides its name and type. -/
structure Stat where
  mtimeNs : ℕ
  size : ℕ
  deriving DecidableEq, Repr

/-- Everything that is not a directory. -/
inductive Leaf where
  | regular (bytes : List UInt8)
  | symlink (target : String)
  deriving DecidableEq, Repr

inductive Obj (β : Type) where
  | leaf (stat : Stat) (content : Leaf)
  | dir (stat : Stat) (sub : β)
  deriving DecidableEq, Repr

/-- A directory: names are pairwise distinct by construction. -/
abbrev Folder (β : Type) := AList (fun _ : String => Obj β)

/-- What can stand inside a directory entry: it can be made empty, and asked whether it is. -/
class Content (β : Type) where
  empty : β
  isEmpty : β → Bool
  isEmpty_empty : isEmpty empty = true

inductive IoError where
  | notFound
  | isADirectory
  | notADirectory
  | directoryNotEmpty
  | alreadyExists
  | invalidName
  deriving DecidableEq, Repr

def IoError.text : IoError → String
  | .notFound => "No such file or directory"
  | .isADirectory => "Is a directory"
  | .notADirectory => "Not a directory"
  | .directoryNotEmpty => "Directory not empty"
  | .alreadyExists => "File exists"
  | .invalidName => "Invalid argument"

/-- A name the system can give to an entry: one component, within its length limit. -/
def legalComponent (n : String) : Bool :=
  n ≠ "" ∧ n ≠ "." ∧ n ≠ ".." ∧ '/' ∉ n.toList ∧ '\x00' ∉ n.toList ∧ n.utf8ByteSize ≤ 255

/-- A path that is one component, neither the directory itself nor its parent. -/
def singleComponent (n : String) : Bool :=
  n ≠ "" ∧ n ≠ "." ∧ n ≠ ".." ∧ '/' ∉ n.toList

theorem singleComponent_of_legal {n : String} (h : legalComponent n = true) :
    singleComponent n = true := by
  simp only [legalComponent, singleComponent, decide_eq_true_eq] at h ⊢
  exact ⟨h.1, h.2.1, h.2.2.1, h.2.2.2.1⟩

variable {β : Type}

def Obj.stat : Obj β → Stat
  | .leaf st _ => st
  | .dir st _ => st

def Obj.isDir : Obj β → Bool
  | .leaf _ _ => false
  | .dir _ _ => true

@[simp] theorem Obj.isDir_leaf (st : Stat) (c : Leaf) : (Obj.leaf st c : Obj β).isDir = false :=
  rfl

@[simp] theorem Obj.isDir_dir (st : Stat) (b : β) : (Obj.dir st b).isDir = true := rfl

namespace Folder

/-- The directory with the listed entries; of two with one name the first counts. -/
def ofList (l : List (String × Obj β)) : Folder β :=
  (l.map fun p => (⟨p.1, p.2⟩ : (_ : String) × Obj β)).toAList

instance : Content (Folder β) where
  empty := ∅
  isEmpty d := d.entries.isEmpty
  isEmpty_empty := rfl

/-- An opaque content that is always empty, for directories nobody looks into. -/
instance : Content Unit where
  empty := ()
  isEmpty _ := true
  isEmpty_empty := rfl

theorem isEmpty_iff {d : Folder β} : Content.isEmpty d = true ↔ ∀ n, d.lookup n = none := by
  have hk : Content.isEmpty d = true ↔ d.entries = [] := List.isEmpty_iff
  rw [hk]
  constructor
  · intro h n
    rw [AList.lookup_eq_none, AList.mem_keys, AList.keys, h]
    simp
  · intro h
    rcases he : d.entries with _ | ⟨⟨n, o⟩, rest⟩
    · rfl
    · have hn := h n
      rw [AList.lookup_eq_none, AList.mem_keys, AList.keys, he] at hn
      simp at hn

def removeFile (n : String) (d : Folder β) : Except IoError (Folder β) :=
  match d.lookup n with
  | none => .error .notFound
  | some (.leaf _ _) => .ok (d.erase n)
  | some (.dir _ _) => .error .isADirectory

def removeDir [Content β] (n : String) (d : Folder β) : Except IoError (Folder β) :=
  match d.lookup n with
  | none => .error .notFound
  | some (.leaf _ _) => .error .notADirectory
  | some (.dir _ sub) =>
    if Content.isEmpty sub then .ok (d.erase n) else .error .directoryNotEmpty

/-- Whether the system lets `o` replace `t` in a rename. -/
def replaces [Content β] (o t : Obj β) : Except IoError Unit :=
  match o, t with
  | .leaf _ _, .leaf _ _ => .ok ()
  | .leaf _ _, .dir _ _ => .error .isADirectory
  | .dir _ _, .leaf _ _ => .error .notADirectory
  | .dir _ _, .dir _ sub => if Content.isEmpty sub then .ok () else .error .directoryNotEmpty

def rename [Content β] (n m : String) (d : Folder β) : Except IoError (Folder β) :=
  match d.lookup n with
  | none => .error .notFound
  | some o =>
    if n = m then .ok d
    else if legalComponent m then
      match d.lookup m with
      | none => .ok ((d.erase n).insert m o)
      | some t => (replaces o t).map fun _ => (d.erase n).insert m o
    else .error .invalidName

/-- Opens a new file, and fails where the name is taken. -/
def createNew (st : Stat) (n : String) (d : Folder β) : Except IoError (Folder β) :=
  if legalComponent n then
    match d.lookup n with
    | none => .ok (d.insert n (.leaf st (.regular [])))
    | some _ => .error .alreadyExists
  else .error .invalidName

def createDir [Content β] (st : Stat) (n : String) (d : Folder β) : Except IoError (Folder β) :=
  if legalComponent n then
    match d.lookup n with
    | none => .ok (d.insert n (.dir st Content.empty))
    | some _ => .error .alreadyExists
  else .error .invalidName

theorem removeFile_eq {n : String} {d : Folder β} {o : Obj β} (h : d.lookup n = some o)
    (ho : o.isDir = false) : removeFile n d = .ok (d.erase n) := by
  cases o with
  | leaf st c => simp only [removeFile, h]
  | dir st b => simp at ho

theorem removeDir_eq [Content β] {n : String} {d : Folder β} {st : Stat} {sub : β}
    (h : d.lookup n = some (.dir st sub)) (he : Content.isEmpty sub = true) :
    removeDir n d = .ok (d.erase n) := by
  simp only [removeDir, h, he, ↓reduceIte]

theorem rename_eq [Content β] {n m : String} {d : Folder β} {o : Obj β} (h : d.lookup n = some o)
    (hne : n ≠ m) (hm : d.lookup m = none) (hl : legalComponent m = true) :
    rename n m d = .ok ((d.erase n).insert m o) := by
  simp only [rename, h, hne, hm, hl, ↓reduceIte]

theorem createNew_eq {n : String} {d : Folder β} (st : Stat) (h : d.lookup n = none)
    (hl : legalComponent n = true) :
    createNew st n d = .ok (d.insert n (.leaf st (.regular []))) := by
  simp only [createNew, h, hl, ↓reduceIte]

theorem createDir_eq [Content β] {n : String} {d : Folder β} (st : Stat) (h : d.lookup n = none)
    (hl : legalComponent n = true) :
    createDir st n d = .ok (d.insert n (.dir st Content.empty)) := by
  simp only [createDir, h, hl, ↓reduceIte]

theorem removeFile_inv {n : String} {d d' : Folder β} (h : removeFile n d = .ok d') :
    (d.lookup n).isSome ∧ d' = d.erase n := by
  unfold removeFile at h
  split at h
  · simp at h
  · rename_i hn
    exact ⟨by simp [hn], (Except.ok.inj h).symm⟩
  · simp at h

theorem removeDir_inv [Content β] {n : String} {d d' : Folder β} (h : removeDir n d = .ok d') :
    (d.lookup n).isSome ∧ d' = d.erase n := by
  unfold removeDir at h
  split at h
  · simp at h
  · simp at h
  · rename_i hn
    split_ifs at h
    exact ⟨by simp [hn], (Except.ok.inj h).symm⟩

theorem rename_inv [Content β] {n m : String} {d d' : Folder β} (h : rename n m d = .ok d') :
    ∃ o, d.lookup n = some o ∧ (d' = d ∨ d' = (d.erase n).insert m o) := by
  unfold rename at h
  split at h
  · simp at h
  · rename_i o ho
    refine ⟨o, ho, ?_⟩
    split_ifs at h
    · exact .inl (Except.ok.inj h).symm
    · split at h
      · exact .inr (Except.ok.inj h).symm
      · rename_i t _
        rcases hr : replaces o t with e | u
        · simp [hr, Except.map] at h
        · rw [hr] at h
          exact .inr (Except.ok.inj h).symm

theorem createNew_inv {st : Stat} {n : String} {d d' : Folder β} (h : createNew st n d = .ok d') :
    d' = d.insert n (.leaf st (.regular [])) := by
  unfold createNew at h
  split_ifs at h
  split at h
  · exact (Except.ok.inj h).symm
  · simp at h

theorem createDir_inv [Content β] {st : Stat} {n : String} {d d' : Folder β}
    (h : createDir st n d = .ok d') : d' = d.insert n (.dir st Content.empty) := by
  unfold createDir at h
  split_ifs at h
  split at h
  · exact (Except.ok.inj h).symm
  · simp at h

/-- A removed name is free, and every other entry stays. -/
theorem lookup_erase_eq (n m : String) (d : Folder β) :
    (d.erase n).lookup m = if m = n then none else d.lookup m := by
  split_ifs with h
  · rw [h]; exact AList.lookup_erase n d
  · exact AList.lookup_erase_ne h

theorem lookup_insert_eq (n m : String) (o : Obj β) (d : Folder β) :
    (d.insert n o).lookup m = if m = n then some o else d.lookup m := by
  split_ifs with h
  · rw [h]; exact AList.lookup_insert d
  · exact AList.lookup_insert_ne h

end Folder

end OnixCore
