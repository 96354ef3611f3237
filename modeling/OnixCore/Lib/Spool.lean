import OnixCore.Lib.Bytes
import OnixCore.Lib.Folder

/-!
# Spools

A spool is a fixed set of queues. Each queue is a directory, and what stands in it is a file or a
directory of files. Programs hand work to each other by renaming a directory from one queue to
another, which is one step.

A call fails or changes the spool in one step, and `get_put` and `find_put` say what is left.
-/

namespace OnixCore

/-- A directory as a finite map from names. -/
abbrev Names (β : Type) := AList fun _ : String => β

namespace Names

variable {β : Type}

/-- Puts something under a name, or nothing. -/
def assign (d : Names β) (n : String) : Option β → Names β
  | none => d.erase n
  | some x => d.insert n x

@[simp] theorem lookup_assign (d : Names β) (n m : String) (x : Option β) :
    (d.assign n x).lookup m = if m = n then x else d.lookup m := by
  by_cases h : m = n
  · subst h
    cases x <;> simp [assign, AList.lookup_insert, AList.lookup_erase]
  · cases x <;> simp [assign, h, AList.lookup_insert_ne, AList.lookup_erase_ne]

@[simp] theorem mem_assign {d : Names β} {n m : String} {x : Option β} :
    m ∈ d.assign n x ↔ if m = n then x.isSome = true else m ∈ d := by
  rw [← AList.lookup_isSome, lookup_assign]
  split_ifs
  · rfl
  · rw [AList.lookup_isSome]

theorem mem_of_lookup {d : Names β} {n : String} {x : β} (h : d.lookup n = some x) : n ∈ d :=
  AList.lookup_isSome.1 (h ▸ rfl)

theorem lookup_assign_self (d : Names β) (n : String) (x : Option β) :
    (d.assign n x).lookup n = x := by simp

theorem assign_assign (d : Names β) (n : String) (x y : Option β) :
    (d.assign n x).assign n y = d.assign n y := by
  have herase : (d.assign n x).erase n = d.erase n := by
    apply AList.ext
    have hgone : n ∉ (List.kerase n d.entries).keys := List.notMem_keys_kerase n d.nodupKeys
    cases x with
    | none => exact List.kerase_of_notMem_keys hgone
    | some x => exact List.kerase_cons_eq rfl
  cases y with
  | none => exact herase
  | some y =>
    apply AList.ext
    have hentries : List.kerase n (d.assign n x).entries = List.kerase n d.entries :=
      congrArg AList.entries herase
    rw [assign, assign, AList.entries_insert, AList.entries_insert, hentries]

theorem assign_none {d : Names β} {n : String} (h : d.lookup n = none) : d.assign n none = d :=
  AList.ext (List.kerase_of_notMem_keys (AList.lookup_eq_none.1 h))

theorem mem_keys_iff {d : Names β} {n : String} : n ∈ d.keys ↔ ∃ x, d.lookup n = some x := by
  rw [← AList.mem_keys, ← AList.lookup_isSome, Option.isSome_iff_exists]

end Names

inductive Entry where
  | file (bytes : Bytes)
  | dir (files : Names Bytes)
  deriving DecidableEq

def Entry.isDir : Entry → Bool
  | .file _ => false
  | .dir _ => true

abbrev Spool (κ : Type) := κ → Names Entry

namespace Spool

/-- An entry of a queue, or a file in a directory that stands there. -/
inductive Path (κ : Type) where
  | entry (q : κ) (name : String)
  | inside (q : κ) (name file : String)
  deriving DecidableEq, Repr

variable {κ : Type}

def get (s : Spool κ) (q : κ) (n : String) : Option Entry := (s q).lookup n

/-- What a path leads to. -/
def find (s : Spool κ) : Path κ → Option Entry
  | .entry q n => s.get q n
  | .inside q n f =>
    match s.get q n with
    | some (.dir files) => (files.lookup f).map .file
    | _ => none

def read (s : Spool κ) (p : Path κ) : Except IoError Bytes :=
  match s.find p with
  | none => .error .notFound
  | some (.dir _) => .error .isADirectory
  | some (.file bytes) => .ok bytes

/-- The names in a directory. -/
def openDir (s : Spool κ) (q : κ) (n : String) : Except IoError (List String) :=
  match s.get q n with
  | none => .error .notFound
  | some (.file _) => .error .notADirectory
  | some (.dir files) => .ok files.keys

/-- What stands in a queue: the names, and which of them are directories. -/
def readDir (s : Spool κ) (q : κ) : List (String × Bool) :=
  (s q).entries.map fun e => (e.1, e.2.isDir)

section

variable {s : Spool κ} {q : κ} {n f : String}

@[simp] theorem find_entry : s.find (.entry q n) = s.get q n := rfl

theorem find_inside {files : Names Bytes} (h : s.get q n = some (.dir files)) :
    s.find (.inside q n f) = (files.lookup f).map .file := by
  simp only [find, h]

theorem mem_readDir {b : Bool} :
    (n, b) ∈ s.readDir q ↔ ∃ e, s.get q n = some e ∧ e.isDir = b := by
  unfold readDir get
  simp only [List.mem_map, Prod.mk.injEq]
  constructor
  · rintro ⟨e, he, rfl, rfl⟩
    exact ⟨e.2, AList.mem_lookup_iff.2 he, rfl⟩
  · rintro ⟨e, he, rfl⟩
    exact ⟨⟨n, e⟩, AList.mem_lookup_iff.1 he, rfl, rfl⟩

end

variable [DecidableEq κ]

/-- Puts something into a queue under a name, or nothing. -/
def put (s : Spool κ) (q : κ) (n : String) (x : Option Entry) : Spool κ :=
  Function.update s q ((s q).assign n x)

/-- Makes `x` what a path leads to. Directories have no directories in them. -/
def store (s : Spool κ) : Path κ → Option Entry → Except IoError (Spool κ)
  | .entry q n, x => .ok (s.put q n x)
  | .inside q n f, x =>
    match s.get q n, x with
    | none, _ => .error .notFound
    | some (.file _), _ => .error .notADirectory
    | some (.dir _), some (.dir _) => .error .invalidName
    | some (.dir files), some (.file bytes) =>
      .ok (s.put q n (some (.dir (files.assign f (some bytes)))))
    | some (.dir files), none => .ok (s.put q n (some (.dir (files.assign f none))))

/-- Whether the system lets `x` take the place of what stands there. -/
def replaces : Entry → Option Entry → Except IoError Unit
  | _, none => .ok ()
  | .file _, some (.file _) => .ok ()
  | .file _, some (.dir _) => .error .isADirectory
  | .dir _, some (.file _) => .error .notADirectory
  | .dir _, some (.dir files) => if files.entries = [] then .ok () else .error .directoryNotEmpty

/-- Makes an empty file where nothing is. -/
def createNew (s : Spool κ) (p : Path κ) : Except IoError (Spool κ) :=
  match s.find p with
  | some _ => .error .alreadyExists
  | none => s.store p (some (.file []))

def write (s : Spool κ) (p : Path κ) (bytes : Bytes) : Except IoError (Spool κ) :=
  match s.find p with
  | none => .error .notFound
  | some (.dir _) => .error .isADirectory
  | some (.file _) => s.store p (some (.file bytes))

def createDir (s : Spool κ) (q : κ) (n : String) : Except IoError (Spool κ) :=
  match s.get q n with
  | none => .ok (s.put q n (some (.dir ∅)))
  | some _ => .error .alreadyExists

def rename (s : Spool κ) (source target : Path κ) : Except IoError (Spool κ) :=
  match s.find source with
  | none => .error .notFound
  | some x =>
    if source = target then .ok s
    else do
      replaces x (s.find target)
      let s ← s.store source none
      s.store target (some x)

def unlink (s : Spool κ) (p : Path κ) : Except IoError (Spool κ) :=
  match s.find p with
  | none => .error .notFound
  | some (.dir _) => .error .isADirectory
  | some (.file _) => s.store p none

def removeDir (s : Spool κ) (q : κ) (n : String) : Except IoError (Spool κ) :=
  match s.get q n with
  | none => .error .notFound
  | some (.file _) => .error .notADirectory
  | some (.dir files) =>
    if files.entries = [] then .ok (s.put q n none) else .error .directoryNotEmpty

variable {s s' : Spool κ} {q q' : κ} {n n' f : String} {x : Option Entry} {e : Entry}

@[simp] theorem get_put : (s.put q n x).get q' n'
    = if q' = q ∧ n' = n then x else s.get q' n' := by
  unfold get put
  by_cases h : q' = q
  · subst h
    simp
  · simp [h]

@[simp] theorem store_entry : s.store (.entry q n) x = .ok (s.put q n x) := rfl

theorem store_inside_file {files : Names Bytes} {bytes : Bytes}
    (h : s.get q n = some (.dir files)) : s.store (.inside q n f) (some (.file bytes))
      = .ok (s.put q n (some (.dir (files.assign f (some bytes))))) := by
  simp only [store, h]

theorem store_inside_none {files : Names Bytes} (h : s.get q n = some (.dir files)) :
    s.store (.inside q n f) none = .ok (s.put q n (some (.dir (files.assign f none)))) := by
  simp only [store, h]

theorem put_put {y : Option Entry} : (s.put q n x).put q n y = s.put q n y := by
  unfold put
  rw [Function.update_idem, Function.update_self, Names.assign_assign]

theorem put_none (h : s.get q n = none) : s.put q n none = s := by
  unfold put
  rw [Names.assign_none h, Function.update_eq_self]

section Inside

variable {files : Names Bytes} {bytes old : Bytes} {f' : String}

theorem createNew_inside (h : s.get q n = some (.dir files)) (hnew : files.lookup f = none) :
    s.createNew (.inside q n f) = .ok (s.put q n (some (.dir (files.assign f (some []))))) := by
  simp only [createNew, find_inside h, hnew, Option.map_none, store_inside_file h]

theorem unlink_inside (h : s.get q n = some (.dir files)) (hfile : files.lookup f = some bytes) :
    s.unlink (.inside q n f) = .ok (s.put q n (some (.dir (files.assign f none)))) := by
  simp only [unlink, find_inside h, hfile, Option.map_some, store_inside_none h]

theorem write_inside (h : s.get q n = some (.dir files)) (hold : files.lookup f = some old) :
    s.write (.inside q n f) bytes
      = .ok (s.put q n (some (.dir (files.assign f (some bytes))))) := by
  simp only [write, find_inside h, hold, Option.map_some, store_inside_file h]

theorem rename_inside (h : s.get q n = some (.dir files)) (hfile : files.lookup f = some bytes)
    (hne : f ≠ f') : s.rename (.inside q n f) (.inside q n f')
      = .ok (s.put q n (some (.dir ((files.assign f none).assign f' (some bytes))))) := by
  have hpath : Path.inside q n f ≠ .inside q n f' := by simpa using hne
  have hreplace : replaces (.file bytes) (s.find (.inside q n f')) = .ok () := by
    rw [find_inside h]
    cases files.lookup f' <;> rfl
  have hgone : (s.put q n (some (.dir (files.assign f none)))).get q n
      = some (.dir (files.assign f none)) := by simp
  have hsource : s.find (.inside q n f) = some (.file bytes) := by rw [find_inside h, hfile]; rfl
  simp only [rename, hsource, hpath, if_false, hreplace, store_inside_none h, bind, Except.bind,
    store_inside_file hgone, put_put]

/-- Moves a file into a directory. -/
theorem rename_into {b : Bytes} (hsource : s.get q n = some (.file b))
    (htarget : s.get q' n' = some (.dir files)) :
    s.rename (.entry q n) (.inside q' n' f)
      = .ok ((s.put q n none).put q' n' (some (.dir (files.assign f (some b))))) := by
  have hpath : Path.entry q n ≠ .inside q' n' f := nofun
  have hne : ¬ (q' = q ∧ n' = n) := by
    rintro ⟨rfl, rfl⟩
    simp [hsource] at htarget
  have hreplace : replaces (.file b) (s.find (.inside q' n' f)) = .ok () := by
    rw [find_inside htarget]
    cases files.lookup f <;> rfl
  have hstill : (s.put q n none).get q' n' = some (.dir files) := by simp [hne, htarget]
  simp only [rename, find_entry, hsource, hpath, if_false, hreplace, store_entry, bind,
    Except.bind, store_inside_file hstill]

end Inside

theorem createNew_entry (h : s.get q n = none) :
    s.createNew (.entry q n) = .ok (s.put q n (some (.file []))) := by
  simp only [createNew, find_entry, h, store_entry]

theorem createNew_taken {e : Entry} (h : s.get q n = some e) :
    s.createNew (.entry q n) = .error .alreadyExists := by
  simp only [createNew, find_entry, h]

theorem write_entry {bytes old : Bytes} (h : s.get q n = some (.file old)) :
    s.write (.entry q n) bytes = .ok (s.put q n (some (.file bytes))) := by
  simp only [write, find_entry, h, store_entry]

theorem unlink_entry {bytes : Bytes} (h : s.get q n = some (.file bytes)) :
    s.unlink (.entry q n) = .ok (s.put q n none) := by
  simp only [unlink, find_entry, h, store_entry]

variable (q' n') in
theorem rename_entry (h : s.get q n = some e) (hne : ¬ (q = q' ∧ n = n'))
    (htarget : replaces e (s.get q' n') = .ok ()) :
    s.rename (.entry q n) (.entry q' n') = .ok ((s.put q n none).put q' n' (some e)) := by
  have hpath : Path.entry q n ≠ .entry q' n' := by simpa using hne
  simp only [rename, find_entry, h, hpath, if_false, htarget]
  rfl

variable (q' n') in
theorem rename_entry_error {r : IoError} (h : s.get q n = some e)
    (hne : ¬ (q = q' ∧ n = n'))
    (htarget : replaces e (s.get q' n') = .error r) :
    s.rename (.entry q n) (.entry q' n') = .error r := by
  have hpath : Path.entry q n ≠ .entry q' n' := by simpa using hne
  simp only [rename, find_entry, h, hpath, if_false, htarget]
  rfl

/-- The entry of a queue that a path is, or leads into. -/
def Path.spot : Path κ → κ × String
  | .entry q n => (q, n)
  | .inside q n _ => (q, n)

section Elsewhere

/-! What a call leaves alone. -/

variable {p source target : Path κ} {bytes : Bytes}

theorem get_store (h : s.store p x = .ok s') (hne : (q, n) ≠ p.spot) : s'.get q n = s.get q n := by
  rcases p with ⟨r, m⟩ | ⟨r, m, f⟩
  · cases h
    rw [get_put, if_neg fun heq => hne (Prod.ext heq.1 heq.2)]
  · have hput : ∀ y, (s.put r m y).get q n = s.get q n := fun y => by
      rw [get_put, if_neg fun heq => hne (Prod.ext heq.1 heq.2)]
    simp only [store] at h
    split at h <;> cases h <;> exact hput _

theorem get_createNew (h : s.createNew p = .ok s') (hne : (q, n) ≠ p.spot) :
    s'.get q n = s.get q n := by
  unfold createNew at h
  split at h
  · cases h
  · exact get_store h hne

theorem get_write (h : s.write p bytes = .ok s') (hne : (q, n) ≠ p.spot) :
    s'.get q n = s.get q n := by
  unfold write at h
  split at h
  · cases h
  · cases h
  · exact get_store h hne

theorem get_unlink (h : s.unlink p = .ok s') (hne : (q, n) ≠ p.spot) :
    s'.get q n = s.get q n := by
  unfold unlink at h
  split at h
  · cases h
  · cases h
  · exact get_store h hne

theorem get_createDir (h : s.createDir q' n' = .ok s') (hne : (q, n) ≠ (q', n')) :
    s'.get q n = s.get q n := by
  unfold createDir at h
  split at h <;> cases h
  rw [get_put, if_neg fun heq => hne (Prod.ext heq.1 heq.2)]

theorem removeDir_eq_ok (h : s.removeDir q n = .ok s') :
    s.get q n = some (.dir ∅) ∧ s' = s.put q n none := by
  unfold removeDir at h
  split at h
  · cases h
  · cases h
  next files hget =>
    split_ifs at h with hempty
    cases h
    obtain rfl : files = ∅ := AList.ext hempty
    exact ⟨hget, rfl⟩

theorem get_removeDir (h : s.removeDir q' n' = .ok s') (hne : (q, n) ≠ (q', n')) :
    s'.get q n = s.get q n := by
  rw [(removeDir_eq_ok h).2, get_put, if_neg fun heq => hne (Prod.ext heq.1 heq.2)]

theorem get_rename (h : s.rename source target = .ok s') (hsource : (q, n) ≠ source.spot)
    (htarget : (q, n) ≠ target.spot) : s'.get q n = s.get q n := by
  unfold rename at h
  split at h
  · cases h
  · split_ifs at h
    · cases h
      rfl
    · obtain ⟨_, -, h⟩ := bind_eq_ok.1 h
      obtain ⟨mid, hmid, h⟩ := bind_eq_ok.1 h
      rw [get_store h htarget, get_store hmid hsource]

theorem unlink_inside_eq_ok (h : s.unlink (.inside q n f) = .ok s') : ∃ files bytes,
    s.get q n = some (.dir files) ∧ files.lookup f = some bytes
      ∧ s' = s.put q n (some (.dir (files.assign f none))) := by
  unfold unlink find at h
  rcases hget : s.get q n with _ | _ | files
  · simp [hget] at h
  · simp [hget] at h
  rcases hfile : files.lookup f with _ | bytes
  · simp [hget, hfile] at h
  · simp only [hget, hfile, Option.map_some, store_inside_none hget, Except.ok.injEq] at h
    exact ⟨files, bytes, rfl, hfile, h.symm⟩

theorem createNew_inside_eq_ok (h : s.createNew (.inside q n f) = .ok s') : ∃ files,
    s.get q n = some (.dir files) ∧ s' = s.put q n (some (.dir (files.assign f (some [])))) := by
  unfold createNew find at h
  rcases hget : s.get q n with _ | _ | files
  · simp [hget, store] at h
  · simp [hget, store] at h
  rcases hfile : files.lookup f with _ | bytes
  · simp only [hget, hfile, Option.map_none, store_inside_file hget, Except.ok.injEq] at h
    exact ⟨files, rfl, h.symm⟩
  · simp [hget, hfile] at h

theorem write_inside_eq_ok (h : s.write (.inside q n f) bytes = .ok s') : ∃ files,
    s.get q n = some (.dir files)
      ∧ s' = s.put q n (some (.dir (files.assign f (some bytes)))) := by
  unfold write find at h
  rcases hget : s.get q n with _ | _ | files
  · simp [hget] at h
  · simp [hget] at h
  rcases hfile : files.lookup f with _ | old
  · simp [hget, hfile] at h
  · simp only [hget, hfile, Option.map_some, store_inside_file hget, Except.ok.injEq] at h
    exact ⟨files, rfl, h.symm⟩

theorem rename_inside_eq_ok {f' : String} (hne : f ≠ f')
    (h : s.rename (.inside q n f) (.inside q n f') = .ok s') : ∃ files file,
      s.get q n = some (.dir files) ∧ files.lookup f = some file
        ∧ s' = s.put q n (some (.dir ((files.assign f none).assign f' (some file)))) := by
  rcases hget : s.get q n with _ | _ | files
  · simp [rename, find, hget] at h
  · simp [rename, find, hget] at h
  rcases hfile : files.lookup f with _ | file
  · simp [rename, find, hget, hfile] at h
  · rw [rename_inside hget hfile hne] at h
    exact ⟨files, file, rfl, hfile, (Except.ok.inj h).symm⟩

theorem store_inside_eq_ok {x : Entry} (h : s.store (.inside q n f) (some x) = .ok s') :
    ∃ files file, s.get q n = some (.dir files) ∧ x = .file file
      ∧ s' = s.put q n (some (.dir (files.assign f (some file)))) := by
  rcases hget : s.get q n with _ | _ | files
  · simp [store, hget] at h
  · simp [store, hget] at h
  rcases x with file | inner
  · rw [store_inside_file hget] at h
    exact ⟨files, file, rfl, rfl, (Except.ok.inj h).symm⟩
  · simp [store, hget] at h

/-- Only a file is moved into a directory. -/
theorem rename_into_eq_ok (hne : (q, n) ≠ (q', n'))
    (h : s.rename (.entry q n) (.inside q' n' f) = .ok s') : ∃ files file,
      s.get q' n' = some (.dir files) ∧ s.get q n = some (.file file)
        ∧ s' = (s.put q n none).put q' n' (some (.dir (files.assign f (some file)))) := by
  rcases hsource : s.get q n with _ | e
  · simp [rename, hsource] at h
  · simp only [rename, find_entry, hsource, reduceCtorEq, if_false] at h
    obtain ⟨_, -, h⟩ := bind_eq_ok.1 h
    obtain ⟨mid, hmid, h⟩ := bind_eq_ok.1 h
    obtain rfl := Except.ok.inj hmid
    obtain ⟨files, file, hget, rfl, rfl⟩ := store_inside_eq_ok h
    rw [get_put, if_neg fun heq => hne (Prod.ext heq.1.symm heq.2.symm)] at hget
    exact ⟨files, file, hget, rfl, rfl⟩

theorem rename_entry_eq_ok (h : s.rename (.entry q n) (.entry q' n') = .ok s')
    (hne : ¬ (q = q' ∧ n = n')) : ∃ e, s.get q n = some e ∧ replaces e (s.get q' n') = .ok ()
      ∧ s' = (s.put q n none).put q' n' (some e) := by
  rcases hget : s.get q n with _ | e
  · simp [rename, hget] at h
  rcases hreplaces : replaces e (s.get q' n') with r | u
  · rw [rename_entry_error q' n' hget hne hreplaces] at h
    cases h
  · rw [rename_entry q' n' hget hne hreplaces] at h
    cases h
    exact ⟨e, rfl, hreplaces, rfl⟩

end Elsewhere

end Spool

end OnixCore
