import OnixCore.Lib.FileTree

/-!
# Paths

A path is resolved component by component, and a symbolic link on the way is read in place, at most
`maxLinks` of them. A path that leads somewhere leads there as long as nothing that stood there is
replaced (`resolve_stable`): where entries are only removed, it leads to the same place or nowhere,
and where they are only added, to the same place.
-/

namespace OnixCore.FileTree

/-- The components of an absolute path, outermost first. -/
abbrev Path := List String

inductive PathError where
  | notFound
  | notADirectory
  | isADirectory
  | alreadyExists
  | directoryNotEmpty
  | tooManyLinks
  | intoItself
  | invalidName
  | notAFile
  deriving DecidableEq, Repr

def PathError.text : PathError → String
  | .notFound => "No such file or directory"
  | .notADirectory => "Not a directory"
  | .isADirectory => "Is a directory"
  | .alreadyExists => "File exists"
  | .directoryNotEmpty => "Directory not empty"
  | .tooManyLinks => "Too many levels of symbolic links"
  | .intoItself => "Invalid argument"
  | .invalidName => "File name too long"
  | .notAFile => "the source path is neither a regular file nor a symlink to a regular file"

/-- How far a path goes: to a place, or to a link in the directory at `place`, with the rest. -/
inductive Walked where
  | arrived (place : Place)
  | linked (place : Place) (text : LinkText) (rest : Path)
  deriving DecidableEq, Repr

/-- Goes on from a place up to the first link; with `create` the last component may be missing. -/
def walk (t : FileTree) (create : Bool) (p : Place) : Path → Except PathError Walked
  | [] => .ok (.arrived p)
  | c :: rest =>
    if t.node p = some .dir then
      if c = "" ∨ c = "." then walk t create p rest
      else if c = ".." then walk t create p.tail rest
      else
        match t.node (c :: p) with
        | none =>
          if create = true ∧ rest = [] then .ok (.arrived (c :: p)) else .error .notFound
        | some (.link text) => .ok (.linked p text rest)
        | some (.file _) => walk t create (c :: p) rest
        | some .dir => walk t create (c :: p) rest
    else .error .notADirectory

def resolveFrom (t : FileTree) (create : Bool) (links : ℕ) (p : Place) (path : Path) :
    Except PathError Place :=
  match t.walk create p path with
  | .error e => .error e
  | .ok (.arrived q) => .ok q
  | .ok (.linked q text rest) =>
    match links with
    | 0 => .error .tooManyLinks
    | links + 1 =>
      resolveFrom t create links (if text.absolute then [] else q) (text.components ++ rest)

/-- How many links the system follows in one path. -/
def maxLinks : ℕ := 40

/-- The place a path leads to. -/
def resolve (t : FileTree) (path : Path) : Except PathError Place :=
  t.resolveFrom false maxLinks [] path

/-- The place a path leads to, where the entry itself may be missing. -/
def resolveNew (t : FileTree) (path : Path) : Except PathError Place :=
  t.resolveFrom true maxLinks [] path

/-- The place of the directory a path leads to. -/
def openDir (t : FileTree) (path : Path) : Except PathError Place :=
  match t.resolve path with
  | .error e => .error e
  | .ok p => if t.node p = some .dir then .ok p else .error .notADirectory

theorem openDir_eq_ok {t : FileTree} {path : Path} {p : Place} :
    t.openDir path = .ok p ↔ t.resolve path = .ok p ∧ t.node p = some .dir := by
  unfold openDir
  rcases t.resolve path with e | q
  · simp
  · by_cases hq : t.node q = some .dir
    · simp only [hq, ↓reduceIte, Except.ok.injEq]
      exact ⟨fun h => ⟨h, h ▸ hq⟩, And.left⟩
    · simp only [hq, ↓reduceIte, reduceCtorEq, Except.ok.injEq, false_iff, not_and]
      rintro rfl
      exact hq

section Walk

variable {t : FileTree} {create : Bool} {p : Place} {c : String} {rest : Path}

theorem dir_of_walk {w : Walked} (h : t.walk create p (c :: rest) = .ok w) :
    t.node p = some .dir := by
  by_contra hno
  simp [walk, hno] at h

theorem walk_dot (hp : t.node p = some .dir) (hc : c = "" ∨ c = ".") :
    t.walk create p (c :: rest) = t.walk create p rest := by
  rw [walk, if_pos hp, if_pos hc]

theorem walk_up (hp : t.node p = some .dir) (hdot : ¬ (c = "" ∨ c = ".")) (hc : c = "..") :
    t.walk create p (c :: rest) = t.walk create p.tail rest := by
  rw [walk, if_pos hp, if_neg hdot, if_pos hc]

/-- What stands at an ordinary component settles where the walk goes on. -/
theorem walk_child (hp : t.node p = some .dir) (hdot : ¬ (c = "" ∨ c = ".")) (hup : c ≠ "..") :
    t.walk create p (c :: rest) =
      match t.node (c :: p) with
      | none => if create = true ∧ rest = [] then .ok (.arrived (c :: p)) else .error .notFound
      | some (.link text) => .ok (.linked p text rest)
      | some (.file _) => t.walk create (c :: p) rest
      | some .dir => t.walk create (c :: p) rest := by
  rw [walk, if_pos hp, if_neg hdot, if_neg hup]

end Walk

section Stable

variable {t t' : FileTree}

/-- The same entry, but for the bytes of a file. -/
def Like : Node → Node → Prop
  | .file _, .file _ => True
  | x, y => x = y

@[refl] theorem Like.refl : ∀ x : Node, Like x x
  | .file _ => trivial
  | .link _ => rfl
  | .dir => rfl

theorem Like.trans : ∀ {x y z : Node}, Like x y → Like y z → Like x z
  | .file _, .file _, .file _, _, _ => trivial
  | .link _, .link _, .link _, h, h' => Eq.trans h h'
  | .dir, .dir, .dir, _, _ => rfl

theorem Like.dir_eq : ∀ {x : Node}, Like .dir x → x = .dir
  | .dir, _ => rfl

/-- Nothing is replaced: what was there is there, or gone. -/
def Keeps (t t' : FileTree) : Prop :=
  ∀ q x, t.node q = some x → t'.node q = none ∨ ∃ y, t'.node q = some y ∧ Like x y

/-- What was there is there. -/
def Grows (t t' : FileTree) : Prop := ∀ q x, t.node q = some x → ∃ y, t'.node q = some y ∧ Like x y

theorem Grows.keeps (h : Grows t t') : Keeps t t' := fun q x hq => .inr (h q x hq)

@[refl] theorem Grows.refl (t : FileTree) : Grows t t := fun _ x h => ⟨x, h, .refl x⟩

theorem Grows.trans {t'' : FileTree} (h : Grows t t') (h' : Grows t' t'') : Grows t t'' := by
  intro q x hq
  obtain ⟨y, hy, hxy⟩ := h q x hq
  obtain ⟨z, hz, hyz⟩ := h' q y hy
  exact ⟨z, hz, hxy.trans hyz⟩

theorem Grows.dir {q : Place} (h : Grows t t') (hq : t.node q = some .dir) :
    t'.node q = some .dir := by
  obtain ⟨y, hy, hlike⟩ := h q _ hq
  rw [hy, hlike.dir_eq]

/-- Something that was there is gone. -/
def Loses (t t' : FileTree) : Prop := ∃ q, (t.node q).isSome ∧ t'.node q = none

theorem Grows.not_loses (h : Grows t t') : ¬ Loses t t' := by
  rintro ⟨q, hq, hq'⟩
  obtain ⟨x, hx⟩ := Option.isSome_iff_exists.1 hq
  obtain ⟨y, hy, -⟩ := h q x hx
  rw [hy] at hq'
  cases hq'

theorem walk_stable (h : Keeps t t') : ∀ {path : Path} {p : Place} {w : Walked},
    t.walk false p path = .ok w →
      t'.walk false p path = .ok w ∨ (∃ e, t'.walk false p path = .error e) ∧ Loses t t'
  | [], p, w, hw => .inl hw
  | c :: rest, p, w, hw => by
    have hdir := dir_of_walk hw
    rcases h p _ hdir with hgone | ⟨y, hy, hlike⟩
    · exact .inr ⟨⟨.notADirectory, by simp [walk, hgone]⟩, p, by rw [hdir]; rfl, hgone⟩
    · have hdir' : t'.node p = some .dir := by rw [hy, hlike.dir_eq]
      by_cases hdot : c = "" ∨ c = "."
      · rw [walk_dot hdir hdot] at hw
        rw [walk_dot hdir' hdot]
        exact walk_stable h hw
      · by_cases hup : c = ".."
        · rw [walk_up hdir hdot hup] at hw
          rw [walk_up hdir' hdot hup]
          exact walk_stable h hw
        · rw [walk_child hdir hdot hup] at hw
          rw [walk_child hdir' hdot hup]
          rcases hc : t.node (c :: p) with _ | x
          · simp [hc] at hw
          · rw [hc] at hw
            rcases h _ _ hc with hgone | ⟨y, hy, hlike⟩
            · rw [hgone]
              exact .inr ⟨⟨.notFound, by simp⟩, c :: p, by rw [hc]; rfl, hgone⟩
            · rw [hy]
              cases x with
              | file bytes =>
                cases y with
                | file bytes' => exact walk_stable h hw
                | link text => cases hlike
                | dir => cases hlike
              | link text =>
                cases hlike
                exact .inl hw
              | dir =>
                cases hlike
                exact walk_stable h hw

theorem resolveFrom_stable (h : Keeps t t') : ∀ {links : ℕ} {p q : Place} {path : Path},
    t.resolveFrom false links p path = .ok q → t'.resolveFrom false links p path = .ok q
      ∨ (∃ e, t'.resolveFrom false links p path = .error e) ∧ Loses t t' := by
  intro links
  induction links with
  | zero =>
    intro p q path hq
    rw [resolveFrom] at hq ⊢
    rcases hw : t.walk false p path with e | ⟨r | ⟨r, text, rest⟩⟩
    · simp [hw] at hq
    · rcases walk_stable h hw with hw' | ⟨⟨e, hw'⟩, hloses⟩
      · rw [hw']
        rw [hw] at hq
        exact .inl hq
      · rw [hw']
        exact .inr ⟨⟨e, rfl⟩, hloses⟩
    · simp [hw] at hq
  | succ links ih =>
    intro p q path hq
    rw [resolveFrom] at hq ⊢
    rcases hw : t.walk false p path with e | ⟨r | ⟨r, text, rest⟩⟩
    · simp [hw] at hq
    · rcases walk_stable h hw with hw' | ⟨⟨e, hw'⟩, hloses⟩
      · rw [hw']
        rw [hw] at hq
        exact .inl hq
      · rw [hw']
        exact .inr ⟨⟨e, rfl⟩, hloses⟩
    · rw [hw] at hq
      rcases walk_stable h hw with hw' | ⟨⟨e, hw'⟩, hloses⟩
      · rw [hw']
        exact ih hq
      · rw [hw']
        exact .inr ⟨⟨e, rfl⟩, hloses⟩

theorem resolve_stable {path : Path} {q : Place} (h : Keeps t t') (hq : t.resolve path = .ok q) :
    t'.resolve path = .ok q ∨ ∃ e, t'.resolve path = .error e :=
  (resolveFrom_stable h hq).imp_right And.left

theorem openDir_stable {path : Path} {p : Place} (h : Keeps t t') (hp : t.openDir path = .ok p) :
    t'.openDir path = .ok p ∨ ∃ e, t'.openDir path = .error e := by
  obtain ⟨hresolve, -⟩ := openDir_eq_ok.1 hp
  rcases hopen : t'.openDir path with e | q
  · exact .inr ⟨e, rfl⟩
  · obtain ⟨hresolve', -⟩ := openDir_eq_ok.1 hopen
    rcases resolve_stable h hresolve with hstable | ⟨e, herror⟩
    · rw [hresolve'] at hstable
      exact .inl hstable
    · rw [hresolve'] at herror
      cases herror

theorem openDir_grows {path : Path} {p : Place} (h : Grows t t') (hp : t.openDir path = .ok p) :
    t'.openDir path = .ok p := by
  obtain ⟨hresolve, hdir⟩ := openDir_eq_ok.1 hp
  refine openDir_eq_ok.2 ⟨?_, h.dir hdir⟩
  exact (resolveFrom_stable h.keeps hresolve).resolve_right fun hno => h.not_loses hno.2

end Stable

section Append

variable {t : FileTree} {create : Bool} {n : String} {p q : Place}

/-- A name that stands for nothing but an entry. -/
def Ordinary (n : String) : Prop := ¬ (n = "" ∨ n = ".") ∧ n ≠ ".."

theorem ordinary_of_legal (h : legalComponent n = true) : Ordinary n := by
  simp only [legalComponent, decide_eq_true_eq] at h
  exact ⟨not_or.2 ⟨h.1, h.2.1⟩, h.2.2.1⟩

/-- One more component after a path that has arrived, or has met a link. -/
theorem walk_append : ∀ {path : Path} {p : Place} {w : Walked}, t.walk false p path = .ok w →
    t.walk create p (path ++ [n]) =
      match w with
      | .arrived q => t.walk create q [n]
      | .linked q text rest => .ok (.linked q text (rest ++ [n]))
  | [], p, w, hw => by
    cases hw
    rfl
  | c :: rest, p, w, hw => by
    have hdir := dir_of_walk hw
    rw [List.cons_append]
    by_cases hdot : c = "" ∨ c = "."
    · rw [walk_dot hdir hdot] at hw ⊢
      exact walk_append hw
    · by_cases hup : c = ".."
      · rw [walk_up hdir hdot hup] at hw ⊢
        exact walk_append hw
      · rw [walk_child hdir hdot hup] at hw ⊢
        rcases hc : t.node (c :: p) with _ | x
        · simp [hc] at hw
        · rw [hc] at hw
          cases x with
          | file bytes => exact walk_append hw
          | link text =>
            cases hw
            rfl
          | dir => exact walk_append hw

theorem resolveFrom_append : ∀ {links : ℕ} {p q : Place} {path : Path},
    t.resolveFrom false links p path = .ok q →
      (∀ q', t.walk create q [n] = .ok (.arrived q') →
        t.resolveFrom create links p (path ++ [n]) = .ok q')
      ∧ ∀ e, t.walk create q [n] = .error e →
        t.resolveFrom create links p (path ++ [n]) = .error e := by
  intro links
  induction links with
  | zero =>
    intro p q path hq
    rw [resolveFrom] at hq
    rcases hw : t.walk false p path with e | ⟨r | ⟨r, text, rest⟩⟩
    · simp [hw] at hq
    · rw [hw] at hq
      cases hq
      rw [resolveFrom, walk_append hw]
      exact ⟨fun q' h => by simp only [h], fun e h => by simp only [h]⟩
    · simp [hw] at hq
  | succ links ih =>
    intro p q path hq
    rw [resolveFrom] at hq
    rcases hw : t.walk false p path with e | ⟨r | ⟨r, text, rest⟩⟩
    · simp [hw] at hq
    · rw [hw] at hq
      cases hq
      rw [resolveFrom, walk_append hw]
      exact ⟨fun q' h => by simp only [h], fun e h => by simp only [h]⟩
    · rw [hw] at hq
      rw [resolveFrom, walk_append hw]
      simp only [← List.append_assoc]
      exact ih hq

theorem walk_append_error : ∀ {path : Path} {p : Place} {e : PathError},
    t.walk false p path = .error e → ∃ e', t.walk create p (path ++ [n]) = .error e'
  | [], p, e, h => by cases h
  | c :: rest, p, e, h => by
    rw [List.cons_append]
    by_cases hdir : t.node p = some .dir
    · by_cases hdot : c = "" ∨ c = "."
      · rw [walk_dot hdir hdot] at h ⊢
        exact walk_append_error h
      · by_cases hup : c = ".."
        · rw [walk_up hdir hdot hup] at h ⊢
          exact walk_append_error h
        · rw [walk_child hdir hdot hup] at h ⊢
          rcases hc : t.node (c :: p) with _ | x
          · exact ⟨.notFound, by simp⟩
          · rw [hc] at h
            cases x with
            | file bytes => exact walk_append_error h
            | link text => cases h
            | dir => exact walk_append_error h
    · exact ⟨.notADirectory, by rw [walk, if_neg hdir]⟩

theorem resolveFrom_append_error : ∀ {links : ℕ} {p : Place} {path : Path} {e : PathError},
    t.resolveFrom false links p path = .error e →
      ∃ e', t.resolveFrom create links p (path ++ [n]) = .error e' := by
  intro links
  induction links with
  | zero =>
    intro p path e h
    rw [resolveFrom] at h ⊢
    rcases hw : t.walk false p path with e | ⟨r | ⟨r, text, rest⟩⟩
    · obtain ⟨e', he'⟩ := walk_append_error hw
      rw [he']
      exact ⟨e', rfl⟩
    · simp [hw] at h
    · rw [walk_append hw]
      exact ⟨.tooManyLinks, rfl⟩
  | succ links ih =>
    intro p path e h
    rw [resolveFrom] at h ⊢
    rcases hw : t.walk false p path with e | ⟨r | ⟨r, text, rest⟩⟩
    · obtain ⟨e', he'⟩ := walk_append_error hw
      rw [he']
      exact ⟨e', rfl⟩
    · simp [hw] at h
    · rw [hw] at h
      rw [walk_append hw]
      simp only [← List.append_assoc]
      exact ih h

/-- A path that leads somewhere goes through a directory. -/
theorem openDir_of_append {path : Path}
    (h : t.resolveFrom create maxLinks [] (path ++ [n]) = .ok q) : ∃ p, t.openDir path = .ok p := by
  rcases hresolve : t.resolve path with e | p
  · obtain ⟨e', he'⟩ := resolveFrom_append_error hresolve
    rw [he'] at h
    cases h
  · by_cases hdir : t.node p = some .dir
    · exact ⟨p, openDir_eq_ok.2 ⟨hresolve, hdir⟩⟩
    · have hno : t.walk create p [n] = .error .notADirectory := by rw [walk, if_neg hdir]
      rw [(resolveFrom_append hresolve).2 _ hno] at h
      cases h

/-- A name in a directory a path leads to, where no link stands. -/
theorem resolve_child {path : Path} (hq : t.resolve path = .ok q) (hdir : t.node q = some .dir)
    (hn : Ordinary n) :
    (∀ x, t.node (n :: q) = some x → (∀ text, x ≠ .link text) →
      t.resolve (path ++ [n]) = .ok (n :: q))
      ∧ (t.node (n :: q) = none → t.resolveNew (path ++ [n]) = .ok (n :: q)
        ∧ t.resolve (path ++ [n]) = .error .notFound) := by
  obtain ⟨hdot, hup⟩ := hn
  refine ⟨fun x hx hlink => ?_, fun hnone => ⟨?_, ?_⟩⟩
  · refine (resolveFrom_append hq).1 _ ?_
    rw [walk_child hdir hdot hup, hx]
    cases x with
    | file bytes => rfl
    | link text => exact absurd rfl (hlink text)
    | dir => rfl
  · refine (resolveFrom_append hq).1 _ ?_
    rw [walk_child hdir hdot hup, hnone]
    exact if_pos ⟨rfl, rfl⟩
  · refine (resolveFrom_append hq).2 _ ?_
    rw [walk_child hdir hdot hup, hnone]
    exact if_neg (by simp)

end Append

section Lands

variable {t : FileTree} {p q : Place} {path : Path}

/-- Where a path can end: at an entry that is no link, or right beneath a directory. -/
def Lands (t : FileTree) (q : Place) : Prop :=
  (∃ x, t.node q = some x ∧ ∀ text, x ≠ .link text)
    ∨ t.node q = none ∧ ∃ n p, q = n :: p ∧ t.node p = some .dir

theorem lands_dir (h : t.node q = some .dir) : Lands t q := .inl ⟨.dir, h, nofun⟩

theorem dir_tail (h : t.node p = some .dir) : t.node p.tail = some .dir := by
  cases p with
  | nil => exact h
  | cons n p =>
    have hsome : (t.node (n :: p)).isSome := by rw [h]; rfl
    exact parent_of_node hsome

/-- What holds of the entries that are no links, and of a name that may be missing, holds of the end
of a walk. -/
theorem walk_ends {create : Bool} {P : Place → Prop}
    (hstands : ∀ q x, t.node q = some x → (∀ text, x ≠ .link text) → P q)
    (hmissing : create = true → ∀ n p, t.node p = some .dir → t.node (n :: p) = none → P (n :: p)) :
    ∀ {path : Path} {p q : Place}, P p → t.walk create p path = .ok (.arrived q) → P q
  | [], p, q, hp, h => by
    cases h
    exact hp
  | c :: rest, p, q, hp, h => by
    have hdir := dir_of_walk h
    by_cases hdot : c = "" ∨ c = "."
    · rw [walk_dot hdir hdot] at h
      exact walk_ends hstands hmissing hp h
    · by_cases hup : c = ".."
      · rw [walk_up hdir hdot hup] at h
        exact walk_ends hstands hmissing (hstands _ _ (dir_tail hdir) nofun) h
      · rw [walk_child hdir hdot hup] at h
        rcases hc : t.node (c :: p) with _ | x
        · simp only [hc] at h
          split_ifs at h with hlast
          cases h
          exact hmissing hlast.1 c p hdir hc
        · rw [hc] at h
          cases x with
          | file bytes => exact walk_ends hstands hmissing (hstands _ _ hc nofun) h
          | link text => cases h
          | dir => exact walk_ends hstands hmissing (hstands _ _ hc nofun) h

theorem dir_of_linked {create : Bool} : ∀ {path : Path} {p q : Place} {text : LinkText}
    {rest : Path}, t.walk create p path = .ok (.linked q text rest) → t.node q = some .dir
  | [], p, q, text, rest, h => by cases h
  | c :: path, p, q, text, rest, h => by
    have hdir := dir_of_walk h
    by_cases hdot : c = "" ∨ c = "."
    · rw [walk_dot hdir hdot] at h
      exact dir_of_linked h
    · by_cases hup : c = ".."
      · rw [walk_up hdir hdot hup] at h
        exact dir_of_linked h
      · rw [walk_child hdir hdot hup] at h
        rcases hc : t.node (c :: p) with _ | x
        · simp only [hc] at h
          split_ifs at h; cases h
        · rw [hc] at h
          cases x with
          | file bytes => exact dir_of_linked h
          | link text =>
            cases h
            exact hdir
          | dir => exact dir_of_linked h

theorem resolveFrom_ends {create : Bool} {P : Place → Prop}
    (hstands : ∀ q x, t.node q = some x → (∀ text, x ≠ .link text) → P q)
    (hmissing : create = true → ∀ n p, t.node p = some .dir → t.node (n :: p) = none → P (n :: p))
    {links : ℕ} : ∀ {path : Path} {p q : Place}, P p →
      t.resolveFrom create links p path = .ok q → P q := by
  induction links with
  | zero =>
    intro path p q hp h
    rw [resolveFrom] at h
    rcases hw : t.walk create p path with e | ⟨r | ⟨r, text, rest⟩⟩
    · simp [hw] at h
    · rw [hw] at h
      cases h
      exact walk_ends hstands hmissing hp hw
    · simp [hw] at h
  | succ links ih =>
    intro path p q hp h
    rw [resolveFrom] at h
    rcases hw : t.walk create p path with e | ⟨r | ⟨r, text, rest⟩⟩
    · simp [hw] at h
    · rw [hw] at h
      cases h
      exact walk_ends hstands hmissing hp hw
    · rw [hw] at h
      refine ih (hstands _ .dir ?_ nofun) h
      split_ifs
      · exact node_root t
      · exact dir_of_linked hw

theorem resolveNew_lands (h : t.resolveNew path = .ok q) : Lands t q :=
  resolveFrom_ends (fun _ x hx hlink => .inl ⟨x, hx, hlink⟩)
    (fun _ n p hp hnone => .inr ⟨hnone, n, p, rfl, hp⟩) (lands_dir (node_root t)) h

/-- A path leads to an entry that is no link. -/
theorem node_of_resolve (h : t.resolve path = .ok q) :
    ∃ x, t.node q = some x ∧ ∀ text, x ≠ .link text := by
  have hends := @resolveFrom_ends t false fun q => ∃ x, t.node q = some x ∧ ∀ text, x ≠ .link text
  exact hends (fun _ x hx hlink => ⟨x, hx, hlink⟩) nofun ⟨.dir, node_root t, nofun⟩ h

end Lands

end OnixCore.FileTree
