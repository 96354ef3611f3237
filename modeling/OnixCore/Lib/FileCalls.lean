import OnixCore.Lib.Resolve

/-!
# Calls on files

What the system does for the calls a program makes on paths. A path is given as the directory and
the name in it, where the name is an ordinary one. Each call fails or changes the tree in one step,
and has one lemma that says when it succeeds and what is left.
-/

namespace OnixCore.FileTree

/-- Makes a new entry. -/
def create (t : FileTree) (dir : Path) (name : String) (x : Node) : Except PathError FileTree :=
  match t.openDir dir with
  | .error e => .error e
  | .ok p =>
    if t.node (name :: p) = none then
      if legalComponent name then .ok (t.put name p x) else .error .invalidName
    else .error .alreadyExists

def createDir (t : FileTree) (dir : Path) (name : String) : Except PathError FileTree :=
  t.create dir name .dir

/-- A link cannot have an empty text. -/
def symlink (t : FileTree) (text : LinkText) (dir : Path) (name : String) :
    Except PathError FileTree :=
  if text = ⟨false, []⟩ then .error .notFound else t.create dir name (.link text)

/-- What stands under a name; a link there is not followed. -/
def symlinkMetadata (t : FileTree) (dir : Path) (name : String) : Except PathError Node :=
  match t.openDir dir with
  | .error e => .error e
  | .ok p =>
    match t.node (name :: p) with
    | none => .error .notFound
    | some x => .ok x

def readDir (t : FileTree) (path : Path) : Except PathError (List String) :=
  (t.openDir path).map t.names

/-- Whether the system lets `x` take the place `d`, given what stands there. -/
def replaces (t : FileTree) (x : Node) (d : Place) : Except PathError Unit :=
  match x, t.node d with
  | _, none => .ok ()
  | .dir, some .dir => if t.names d = [] then .ok () else .error .directoryNotEmpty
  | .dir, some (.file _) => .error .notADirectory
  | .dir, some (.link _) => .error .notADirectory
  | .file _, some .dir => .error .isADirectory
  | .link _, some .dir => .error .isADirectory
  | _, some _ => .ok ()

def rename (t : FileTree) (sourceDir : Path) (source : String) (targetDir : Path)
    (target : String) : Except PathError FileTree :=
  match t.openDir sourceDir, t.openDir targetDir with
  | .error e, _ => .error e
  | .ok _, .error e => .error e
  | .ok s, .ok d =>
    match t.node (source :: s) with
    | none => .error .notFound
    | some x =>
      if source :: s = target :: d then .ok t
      else if source :: s <:+ target :: d then .error .intoItself
      else if legalComponent target then
        (t.replaces x (target :: d)).map fun _ => t.move (source :: s) target d
      else .error .invalidName

/-- The bytes of the file a path leads to. -/
def readFile (t : FileTree) (path : Path) : Except PathError (Place × List UInt8) :=
  match t.resolve path with
  | .error e => .error e
  | .ok s =>
    match t.node s with
    | some (.file bytes) => .ok (s, bytes)
    | _ => .error .notAFile

/-- Copies what a file holds. The other file is made, or made empty, before anything is read. -/
def copyFile (t : FileTree) (source target : Path) : Except PathError FileTree :=
  match t.readFile source, t.resolveNew target with
  | .error e, _ => .error e
  | .ok _, .error e => .error e
  | .ok _, .ok [] => .error .isADirectory
  | .ok read, .ok (n :: p) =>
    if t.node (n :: p) = some .dir then .error .isADirectory
    else if legalComponent n then
      .ok (t.put n p (.file (if read.1 = n :: p then [] else read.2)))
    else .error .invalidName

variable {t t' : FileTree}

theorem create_eq_ok {dir : Path} {name : String} {x : Node} : t.create dir name x = .ok t'
    ↔ ∃ p, t.openDir dir = .ok p ∧ t.node (name :: p) = none ∧ legalComponent name = true
      ∧ t' = t.put name p x := by
  unfold create
  rcases t.openDir dir with e | p
  · simp
  · by_cases hfree : t.node (name :: p) = none
    · by_cases hlegal : legalComponent name = true
      · simp [hfree, hlegal, eq_comm]
      · simp [hfree, hlegal]
    · simp [hfree]

theorem symlinkMetadata_eq_ok {dir : Path} {name : String} {x : Node} :
    t.symlinkMetadata dir name = .ok x
      ↔ ∃ p, t.openDir dir = .ok p ∧ t.node (name :: p) = some x := by
  unfold symlinkMetadata
  rcases t.openDir dir with e | p
  · simp
  · rcases h : t.node (name :: p) with _ | y <;> simp [h]

theorem readDir_eq_ok {path : Path} {names : List String} : t.readDir path = .ok names
    ↔ ∃ p, t.openDir path = .ok p ∧ t.names p = names := by
  unfold readDir
  rcases t.openDir path with e | p <;> simp [Except.map]

/-- Nothing would be left beneath an entry that is replaced. -/
theorem names_of_replaces {x : Node} {d : Place} (h : t.replaces x d = .ok ()) :
    t.names d = [] := by
  by_cases hdir : t.node d = some .dir
  · cases x with
    | file bytes => simp [replaces, hdir] at h
    | link text => simp [replaces, hdir] at h
    | dir => simpa [replaces, hdir] using h
  · refine List.eq_nil_iff_forall_not_mem.2 fun n hn => hdir ?_
    exact parent_of_node (mem_names.1 hn)

/-- A file or a link takes the place of anything but a directory, a directory that of an empty
one. -/
theorem replaces_eq_ok {x : Node} {d : Place} : t.replaces x d = .ok ()
    ↔ t.node d = none ∨ ((x = .dir ↔ t.node d = some .dir) ∧ t.names d = []) := by
  constructor
  · intro h
    refine or_iff_not_imp_left.2 fun hsome => ⟨?_, names_of_replaces h⟩
    obtain ⟨y, hy⟩ := Option.ne_none_iff_exists'.1 hsome
    cases x <;> cases y <;> simp_all [replaces]
  · rintro (hnone | ⟨hiff, hnames⟩)
    · cases x <;> simp [replaces, hnone]
    · rcases hy : t.node d with _ | y
      · cases x <;> simp [replaces, hy]
      · cases x <;> cases y <;> simp_all [replaces]

theorem rename_eq_ok {sourceDir targetDir : Path} {source target : String} :
    t.rename sourceDir source targetDir target = .ok t'
      ↔ ∃ s d x, t.openDir sourceDir = .ok s ∧ t.openDir targetDir = .ok d
        ∧ t.node (source :: s) = some x
        ∧ (source :: s = target :: d ∧ t' = t
          ∨ ¬ source :: s <:+ target :: d ∧ legalComponent target = true
            ∧ t.replaces x (target :: d) = .ok () ∧ t' = t.move (source :: s) target d) := by
  unfold rename
  rcases t.openDir sourceDir with e | s
  · simp
  · rcases t.openDir targetDir with e | d
    · simp
    · rcases hx : t.node (source :: s) with _ | x
      · simp [hx]
      · simp only [hx, Except.ok.injEq, exists_and_left, exists_eq_left', Option.some.injEq]
        by_cases hsame : source :: s = target :: d
        · have hsuffix : source :: s <:+ target :: d := hsame ▸ List.suffix_refl _
          rw [if_pos hsame, Except.ok.injEq]
          simp only [hsame, List.suffix_refl, not_true_eq_false, false_and, or_false, true_and]
          exact eq_comm
        · by_cases hsuffix : source :: s <:+ target :: d
          · rw [if_neg hsame, if_pos hsuffix]
            simp only [hsame, hsuffix, reduceCtorEq, not_true_eq_false, false_and, or_self]
          · rw [if_neg hsame, if_neg hsuffix]
            by_cases hlegal : legalComponent target = true
            · rw [if_pos hlegal]
              rcases hr : t.replaces x (target :: d) with e | u
              · simp only [Except.map, reduceCtorEq, hsame, false_and, and_false, or_self]
              · simp only [Except.map, Except.ok.injEq, hsame, hsuffix, hlegal, false_and,
                  false_or, not_false_eq_true, true_and]
                exact eq_comm
            · rw [if_neg hlegal]
              simp only [reduceCtorEq, hsame, hlegal, false_and, and_false, or_self]

theorem movable_of_rename {s d : Place} {source target : String} {x : Node}
    (hd : t.node d = some .dir) (hx : t.node (source :: s) = some x)
    (happart : ¬ source :: s <:+ target :: d) (hlegal : legalComponent target = true)
    (hr : t.replaces x (target :: d) = .ok ()) : Movable t (source :: s) target d :=
  ⟨by rw [hx]; rfl, hd, hlegal, happart, names_of_replaces hr⟩

theorem copyFile_eq_ok {source target : Path} : t.copyFile source target = .ok t'
    ↔ ∃ s bytes n p, t.readFile source = .ok (s, bytes) ∧ t.resolveNew target = .ok (n :: p)
      ∧ t.node (n :: p) ≠ some .dir ∧ legalComponent n = true
      ∧ t' = t.put n p (.file (if s = n :: p then [] else bytes)) := by
  unfold copyFile
  rcases t.readFile source with e | ⟨s, bytes⟩
  · simp
  · rcases t.resolveNew target with e | ⟨_ | ⟨n, p⟩⟩
    · simp
    · simp
    · by_cases hdir : t.node (n :: p) = some .dir
      · simp [hdir]
      · by_cases hlegal : legalComponent n = true
        · simp only [if_neg hdir, if_pos hlegal]
          constructor
          · intro h
            exact ⟨s, bytes, n, p, rfl, rfl, hdir, hlegal, (Except.ok.inj h).symm⟩
          · rintro ⟨_, _, _, _, hread, hplace, -, -, rfl⟩
            cases hread
            cases hplace
            rfl
        · simp [hdir, hlegal]

section Nodes

variable {dir source target : Path} {name n : String} {x : Node} {d p : Place}

/-- One entry is written, and nothing else changes. -/
def Writes (t : FileTree) (d : Place) (x : Node) (t' : FileTree) : Prop :=
  ∀ q, t'.node q = if q = d then some x else t.node q

theorem Writes.node_at (h : Writes t d x t') : t'.node d = some x := (h d).trans (if_pos rfl)

theorem Writes.node_other {q : Place} (h : Writes t d x t') (hq : q ≠ d) : t'.node q = t.node q :=
  (h q).trans (if_neg hq)

theorem writes_create (h : t.create dir name x = .ok t') : ∃ p, t.openDir dir = .ok p
    ∧ t.node (name :: p) = none ∧ legalComponent name = true ∧ Writes t (name :: p) x t' := by
  obtain ⟨p, hp, hfree, hlegal, rfl⟩ := create_eq_ok.1 h
  refine ⟨p, hp, hfree, hlegal, node_put (openDir_eq_ok.1 hp).2 hlegal ?_ x⟩
  rw [hfree]
  exact nofun

/-- What a copy writes is a file, where a file or nothing was. -/
theorem writes_copyFile (h : t.copyFile source target = .ok t') : ∃ s bytes n p bytes',
    t.readFile source = .ok (s, bytes) ∧ t.resolveNew target = .ok (n :: p)
      ∧ (t.node (n :: p) = none ∨ ∃ old, t.node (n :: p) = some (.file old))
      ∧ legalComponent n = true ∧ (s ≠ n :: p → bytes' = bytes)
      ∧ Writes t (n :: p) (.file bytes') t' := by
  obtain ⟨s, bytes, n, p, hread, hnew, hdir, hlegal, rfl⟩ := copyFile_eq_ok.1 h
  have hnode : t.node p = some .dir
      ∧ (t.node (n :: p) = none ∨ ∃ old, t.node (n :: p) = some (.file old)) := by
    rcases resolveNew_lands hnew with ⟨x, hx, hlink⟩ | ⟨hnone, m, q, heq, hq⟩
    · refine ⟨parent_of_node (by rw [hx]; rfl), .inr ?_⟩
      cases x with
      | file bytes => exact ⟨bytes, hx⟩
      | link text => exact absurd rfl (hlink text)
      | dir => exact absurd hx hdir
    · exact ⟨(List.cons.inj heq).2 ▸ hq, .inl hnone⟩
  refine ⟨s, bytes, n, p, if s = n :: p then [] else bytes, hread, hnew, hnode.2, hlegal,
    fun hne => if_neg hne, ?_⟩
  exact node_put hnode.1 hlegal hdir _

/-- A path goes on into a directory. -/
theorem openDir_child (hp : t.openDir dir = .ok p) (hn : t.node (n :: p) = some .dir) :
    t.openDir (dir ++ [n]) = .ok (n :: p) := by
  obtain ⟨hresolve, hdir⟩ := openDir_eq_ok.1 hp
  have hlegal : legalComponent n = true := legal_of_node (by rw [hn]; rfl)
  exact openDir_eq_ok.2 ⟨(resolve_child hresolve hdir (ordinary_of_legal hlegal)).1 _ hn nofun, hn⟩

end Nodes

end OnixCore.FileTree
