import OnixCore.ClaudeMd.Adoption

/-!
# When adopting a directory is atomic

A copy that reports no failure is the whole tree (`copyEntry_ok`) and a removal that reports none
leaves nothing (`removeEntry_ok`), so content is never lost. But nothing is taken back: once the
directory in the central repository has been made, only a move without any failure ends well
(`moveAndLink_atomic_iff`), and the move of a link always fails at its removal. Everything else
either ends at once or changes nothing (`adoption_iff`).
-/

namespace OnixCore.ClaudeMd

section Specification

/-- The local path leads to the central one, and there is a tree that was there before. -/
def Adopted (before after : Paths) : Prop :=
  after.localDir = .link .central ∧ ∃ entries, after.centralDir = some entries
    ∧ (readDir before = some entries ∨ before.centralDir = some entries)

/-- The two paths end adopted, or the command fails and they are as they were; and each tree is
still at one of them. -/
structure Atomic (before : Paths) (result : Outcome) : Prop where
  outcome : Adopted before result.1 ∨ ((∃ failure, result.2 = .error failure) ∧ result.1 = before)
  keepsLocal : ∀ entries, before.localDir = .dir entries →
    result.1.localDir = .dir entries ∨ result.1.centralDir = some entries
  keepsCentral : ∀ entries, before.centralDir = some entries → result.1.centralDir = some entries

variable (faults : Faults)

mutual

/-- No call fails that copies the entry. -/
def CopyFree (path : Path) : Tree → Prop
  | .file _ => faults.copyFile path = none
  | .link _ => faults.copyLink path = false ∧ faults.copyStat path = false
  | .dir entries => (faults.listSource path = false ∧ faults.makeDir path = false
      ∧ faults.copyStat path = false) ∧ CopyFreeAll path entries

def CopyFreeAll (path : Path) : Dir → Prop
  | [] => True
  | (name, tree) :: rest => CopyFree (name :: path) tree ∧ CopyFreeAll path rest

end

mutual

/-- No call fails that removes the entry. -/
def RemoveFree (path : Path) : Tree → Prop
  | .file _ => faults.unlink path = false
  | .link _ => faults.unlink path = false
  | .dir entries => (faults.listRemoved path = false ∧ faults.rmdir path = false)
      ∧ RemoveFreeAll path entries

def RemoveFreeAll (path : Path) : Dir → Prop
  | [] => True
  | (name, tree) :: rest => RemoveFree (name :: path) tree ∧ RemoveFreeAll path rest

end

/-- The move fails before the central directory is made. -/
def EarlyFault : Prop :=
  faults.makeParents = true ∨ faults.listSource [] = true ∨ faults.makeDir [] = true

/-- No call of the move of a directory fails. -/
structure Movable (entries : Dir) : Prop where
  copies : CopyFree faults [] (.dir entries)
  removes : RemoveFree faults [] (.dir entries)
  links : faults.symlink = false

/-- Where nothing is in the central repository: what is moved is a directory and the move meets no
failure, or it fails before anything is made. -/
structure SafeMove (paths : Paths) : Prop where
  directory : paths.centralDir = none → ∀ entries, paths.localDir = .dir entries →
    EarlyFault faults ∨ Movable faults entries
  link : paths.centralDir = none → ∀ entries, paths.localDir = .link (.dir entries) →
    EarlyFault faults

end Specification

section Calls

variable {faults : Faults}

theorem filledDir_ok {path : Path} {copies : Dir × Bool} :
    (filledDir faults path copies).2 = true
      ↔ (faults.listSource path = false ∧ faults.makeDir path = false
        ∧ faults.copyStat path = false) ∧ copies.2 = true := by
  unfold filledDir
  split_ifs with h
  · rcases h with h | h <;> simp [h]
  · simp only [not_or, Bool.not_eq_true] at h
    simp [h, and_comm]

mutual

/-- A copy reports no failure exactly when none of its calls fails. -/
theorem copyEntry_ok_iff {path : Path} : ∀ tree : Tree,
    (copyEntry faults path tree).2 = true ↔ CopyFree faults path tree
  | .file content => by
    rw [copyEntry, CopyFree]
    rcases faults.copyFile path with _ | left <;> simp
  | .link target => by
    rw [copyEntry, CopyFree]
    split_ifs with h <;> simp [h]
  | .dir entries => by
    rw [copyEntry, CopyFree, ← copyEntries_ok_iff entries]
    exact filledDir_ok

theorem copyEntries_ok_iff {path : Path} : ∀ entries : Dir,
    (copyEntries faults path entries).2 = true ↔ CopyFreeAll faults path entries
  | [] => by simp [copyEntries, CopyFreeAll]
  | (name, tree) :: rest => by
    rw [copyEntries, CopyFreeAll, ← copyEntry_ok_iff tree, ← copyEntries_ok_iff rest]
    exact Bool.and_eq_true _ _ ▸ Iff.rfl

end

theorem filledDir_eq {path : Path} {copies : Dir × Bool} (h : (filledDir faults path copies).2 = true) :
    (filledDir faults path copies).1 = some copies.1 := by
  obtain ⟨⟨hlist, hmake, -⟩, -⟩ := filledDir_ok.1 h
  simp [filledDir, hlist, hmake]

mutual

/-- A copy that reports no failure is the whole of its source. -/
theorem copyEntry_ok {path : Path} : ∀ tree : Tree,
    (copyEntry faults path tree).2 = true → (copyEntry faults path tree).1 = some tree
  | .file content, h => by
    rw [copyEntry] at h ⊢
    rcases hfile : faults.copyFile path with _ | left
    · rfl
    · rw [hfile] at h
      cases h
  | .link target, h => by
    rw [copyEntry] at h ⊢
    split_ifs at h ⊢ with hlink
    rfl
  | .dir entries, h => by
    rw [copyEntry] at h ⊢
    have hcopies := copyEntries_ok entries (filledDir_ok.1 h).2
    show (filledDir faults path (copyEntries faults path entries)).1.map Tree.dir = _
    rw [filledDir_eq h, hcopies]
    rfl

theorem copyEntries_ok {path : Path} : ∀ entries : Dir,
    (copyEntries faults path entries).2 = true → (copyEntries faults path entries).1 = entries
  | [], _ => rfl
  | (name, tree) :: rest, h => by
    rw [copyEntries] at h ⊢
    obtain ⟨htree, hrest⟩ := Bool.and_eq_true_iff.1 h
    show (copyEntry faults (name :: path) tree).1.toList.map (name, ·) ++ _ = _
    rw [copyEntry_ok tree htree, copyEntries_ok rest hrest]
    rfl

end

theorem emptiedDir_ok {path : Path} {entries : Dir} {left : Dir × Bool} :
    (emptiedDir faults path entries left).2 = true
      ↔ (faults.listRemoved path = false ∧ faults.rmdir path = false) ∧ left.2 = true := by
  unfold emptiedDir
  split_ifs with hlist hleft hrmdir <;> simp_all

theorem emptiedDir_eq {path : Path} {entries : Dir} {left : Dir × Bool}
    (h : (emptiedDir faults path entries left).2 = true) :
    (emptiedDir faults path entries left).1 = none := by
  unfold emptiedDir at h ⊢
  split_ifs at h ⊢
  rfl

mutual

/-- A removal reports no failure exactly when none of its calls fails. -/
theorem removeEntry_ok_iff {path : Path} : ∀ tree : Tree,
    (removeEntry faults path tree).2 = true ↔ RemoveFree faults path tree
  | .file content => by
    rw [removeEntry, RemoveFree]
    split_ifs with h <;> simp [h]
  | .link target => by
    rw [removeEntry, RemoveFree]
    split_ifs with h <;> simp [h]
  | .dir entries => by
    rw [removeEntry, RemoveFree, ← removeEntries_ok_iff entries]
    exact emptiedDir_ok

theorem removeEntries_ok_iff {path : Path} : ∀ entries : Dir,
    (removeEntries faults path entries).2 = true ↔ RemoveFreeAll faults path entries
  | [] => by simp [removeEntries, RemoveFreeAll]
  | (name, tree) :: rest => by
    rw [removeEntries, RemoveFreeAll, ← removeEntry_ok_iff tree, ← removeEntries_ok_iff rest]
    rcases (removeEntry faults (name :: path) tree).2 <;> simp

end

end Calls

section Move

variable {faults : Faults} {paths : Paths} {entries : Dir}

theorem andThen_error {first : Outcome} {next : Paths → Outcome} {failure : Failure}
    (h : first.2 = .error failure) : andThen first next = first := by
  rcases first with ⟨paths, _ | _⟩
  · rfl
  · cases h

theorem andThen_ok {first : Outcome} {next : Paths → Outcome} (h : first.2 = .ok ()) :
    andThen first next = next first.1 := by
  rcases first with ⟨paths, _ | _⟩
  · cases h
  · rfl

/-- A failure that changes nothing is what may happen. -/
theorem Atomic.of_unchanged {result : Outcome} {failure : Failure}
    (h : result = (paths, .error failure)) : Atomic paths result := by
  rw [h]
  exact ⟨.inr ⟨⟨failure, rfl⟩, rfl⟩, fun _ hlocal => .inl hlocal, fun _ hcentral => hcentral⟩

/-- A central path that has been made and not linked to is what may not. -/
theorem not_atomic_of_made {result : Outcome} (hcentral : paths.centralDir = none)
    (hmade : result.1.centralDir ≠ none) (hlink : result.1.localDir ≠ .link .central) :
    ¬ Atomic paths result := by
  rintro ⟨⟨hlocal, -⟩ | ⟨-, hsame⟩, -, -⟩
  · exact hlink hlocal
  · rw [hsame] at hmade
    exact hmade hcentral

theorem filledDir_eq_none {path : Path} {copies : Dir × Bool} :
    (filledDir faults path copies).1 = none
      ↔ faults.listSource path = true ∨ faults.makeDir path = true := by
  unfold filledDir
  split_ifs with h <;> simp [h]

theorem copytree_eq (hcentral : paths.centralDir = none) (hread : readDir paths = some entries) :
    copytree faults paths
      = ({ paths with centralDir := (filledDir faults [] (copyEntries faults [] entries)).1 },
        if (filledDir faults [] (copyEntries faults [] entries)).2 then .ok ()
        else .error .raised) := by
  unfold copytree
  rw [hread, hcentral]

theorem mkdirParents_ok (h : faults.makeParents = false) :
    mkdirParents faults paths = (paths, .ok ()) := by
  rw [mkdirParents, h]
  rfl

theorem moved_early (hcentral : paths.centralDir = none) (hread : readDir paths = some entries)
    (h : EarlyFault faults) : moveAndLink faults paths = (paths, .error .raised) := by
  rcases hparents : faults.makeParents
  · have hnone : (filledDir faults [] (copyEntries faults [] entries)).1 = none :=
      filledDir_eq_none.2 (h.resolve_left (by simp [hparents]))
    have hfails : (filledDir faults [] (copyEntries faults [] entries)).2 = false := by
      by_contra hok
      cases hnone.symm.trans (filledDir_eq (Bool.not_eq_false _ ▸ hok))
    have hcopy : copytree faults paths = (paths, .error .raised) := by
      rw [copytree_eq hcentral hread, hnone, hfails, ← hcentral]
      rfl
    rw [moveAndLink, mkdirParents_ok hparents, andThen_ok rfl, hcopy]
    rfl
  · have hfails : mkdirParents faults paths = (paths, .error .raised) := by
      rw [mkdirParents, hparents]
      rfl
    rw [moveAndLink, hfails]
    rfl

/-- A copy that fails leaves what it has made. -/
theorem moved_copyFault (hcentral : paths.centralDir = none) (hread : readDir paths = some entries)
    (h : ¬ EarlyFault faults) (hcopy : ¬ CopyFree faults [] (.dir entries)) :
    (moveAndLink faults paths).1.centralDir ≠ none
      ∧ (moveAndLink faults paths).1.localDir = paths.localDir := by
  obtain ⟨hparents, hearly⟩ := not_or.1 h
  have hfails : (filledDir faults [] (copyEntries faults [] entries)).2 = false := by
    by_contra hok
    exact hcopy ((copyEntry_ok_iff (.dir entries)).1 (Bool.not_eq_false _ ▸ hok))
  rw [moveAndLink, mkdirParents_ok (by simpa using hparents), andThen_ok rfl,
    copytree_eq hcentral hread, hfails]
  exact ⟨fun hnone => hearly (filledDir_eq_none.1 hnone), rfl⟩

theorem moved_copied (hcentral : paths.centralDir = none) (hread : readDir paths = some entries)
    (h : ¬ EarlyFault faults) (hcopy : CopyFree faults [] (.dir entries)) :
    moveAndLink faults paths
      = andThen (rmtree faults { paths with centralDir := some entries }) fun paths =>
        andThen (symlinkTo faults paths) (gitStage faults) := by
  have hok := (copyEntry_ok_iff (.dir entries)).2 hcopy
  have hall : (filledDir faults [] (copyEntries faults [] entries)).1 = some entries := by
    rw [filledDir_eq hok, copyEntries_ok entries (filledDir_ok.1 hok).2]
  rw [moveAndLink, mkdirParents_ok (by simpa using (not_or.1 h).1), andThen_ok rfl,
    copytree_eq hcentral hread, hall]
  exact andThen_ok (if_pos hok)

theorem rmtree_unlinked (hlocal : paths.localDir = .dir entries) :
    (rmtree faults paths).1.localDir ≠ .link .central := by
  rw [rmtree, hlocal]
  rcases hleft : (emptiedDir faults [] entries (removeEntries faults [] entries)).1 <;>
    simp [hleft]

/-- A directory that has been copied is linked only where nothing fails after the copy. -/
theorem removed_cases (hcopied : paths.centralDir = some entries)
    (hlocal : paths.localDir = .dir entries) :
    (andThen (rmtree faults paths) fun paths =>
        andThen (symlinkTo faults paths) (gitStage faults)).1.centralDir = some entries
      ∧ ((andThen (rmtree faults paths) fun paths =>
          andThen (symlinkTo faults paths) (gitStage faults)).1.localDir = .link .central
        ↔ RemoveFree faults [] (.dir entries) ∧ faults.symlink = false) := by
  have hiff : (emptiedDir faults [] entries (removeEntries faults [] entries)).2 = true
      ↔ RemoveFree faults [] (.dir entries) := removeEntry_ok_iff (.dir entries)
  rw [← hiff]
  rcases hok : (emptiedDir faults [] entries (removeEntries faults [] entries)).2
  · have hfails : (rmtree faults paths).2 = .error .raised := by
      rw [rmtree, hlocal]
      exact if_neg (by simp [hok])
    rw [andThen_error hfails]
    refine ⟨?_, iff_of_false (rmtree_unlinked hlocal) (by simp)⟩
    rw [rmtree, hlocal]
    exact hcopied
  · have hremoved : rmtree faults paths = ({ paths with localDir := .missing }, .ok ()) := by
      rw [rmtree, hlocal]
      simp only [hok, emptiedDir_eq hok]
      rfl
    rw [hremoved, andThen_ok rfl]
    rcases hlink : faults.symlink
    · have hlinked : symlinkTo faults { paths with localDir := .missing }
          = ({ paths with localDir := .link .central }, .ok ()) := by
        rw [symlinkTo, hlink]
        rfl
      rw [hlinked, andThen_ok rfl]
      exact ⟨hcopied, iff_of_true rfl ⟨rfl, rfl⟩⟩
    · have hfails : symlinkTo faults { paths with localDir := .missing }
          = ({ paths with localDir := .missing }, .error .raised) := by
        rw [symlinkTo, hlink]
        rfl
      rw [hfails, andThen_error rfl]
      exact ⟨hcopied, iff_of_false nofun (by simp)⟩

/-- What is moved is at one of the two paths whatever fails. -/
theorem moveAndLink_keeps (hcentral : paths.centralDir = none)
    (hlocal : paths.localDir = .dir entries) :
    (moveAndLink faults paths).1.localDir = .dir entries
      ∨ (moveAndLink faults paths).1.centralDir = some entries := by
  have hread : readDir paths = some entries := by rw [readDir, hlocal]
  by_cases hearly : EarlyFault faults
  · rw [moved_early hcentral hread hearly]
    exact .inl hlocal
  by_cases hcopy : CopyFree faults [] (.dir entries)
  · rw [moved_copied hcentral hread hearly hcopy]
    exact .inr (@removed_cases faults { paths with centralDir := some entries } entries rfl hlocal).1
  · exact .inl ((moved_copyFault hcentral hread hearly hcopy).2.trans hlocal)

theorem moveAndLink_dir (hcentral : paths.centralDir = none) (hlocal : paths.localDir = .dir entries) :
    Atomic paths (moveAndLink faults paths) ↔ EarlyFault faults ∨ Movable faults entries := by
  have hread : readDir paths = some entries := by rw [readDir, hlocal]
  by_cases hearly : EarlyFault faults
  · exact iff_of_true (.of_unchanged (moved_early hcentral hread hearly)) (.inl hearly)
  by_cases hcopy : CopyFree faults [] (.dir entries)
  · obtain ⟨hkept, hlinked⟩ := @removed_cases faults
      { paths with centralDir := some entries } entries rfl hlocal
    rw [← moved_copied hcentral hread hearly hcopy] at hkept hlinked
    constructor
    · intro h
      have hlink : (moveAndLink faults paths).1.localDir = .link .central := by
        by_contra hlink
        exact not_atomic_of_made hcentral (by rw [hkept]; nofun) hlink h
      exact .inr ⟨hcopy, (hlinked.1 hlink).1, (hlinked.1 hlink).2⟩
    · rintro (h | h)
      · exact absurd h hearly
      · refine ⟨.inl ⟨hlinked.2 ⟨h.removes, h.links⟩, entries, hkept, .inl hread⟩, ?_, ?_⟩
        · intro other hother
          obtain rfl := Local.dir.inj (hlocal.symm.trans hother)
          exact .inr hkept
        · intro other hother
          cases hcentral.symm.trans hother
  · obtain ⟨hmade, hsame⟩ := moved_copyFault hcentral hread hearly hcopy
    refine iff_of_false (not_atomic_of_made hcentral hmade ?_) ?_
    · rw [hsame, hlocal]
      nofun
    · rintro (h | h)
      · exact hearly h
      · exact hcopy h.copies

/-- The move of a link copies what it leads to and then cannot remove it. -/
theorem moveAndLink_link (hcentral : paths.centralDir = none)
    (hlocal : paths.localDir = .link (.dir entries)) :
    Atomic paths (moveAndLink faults paths) ↔ EarlyFault faults := by
  have hread : readDir paths = some entries := by rw [readDir, hlocal]
  refine ⟨fun h => ?_, fun h => .of_unchanged (moved_early hcentral hread h)⟩
  by_contra hearly
  by_cases hcopy : CopyFree faults [] (.dir entries)
  · have hfails : rmtree faults { paths with centralDir := some entries }
        = ({ paths with centralDir := some entries }, .error .raised) := by
      rw [rmtree, hlocal]
    rw [moved_copied hcentral hread hearly hcopy, hfails, andThen_error rfl] at h
    refine not_atomic_of_made hcentral (Option.some_ne_none entries) ?_ h
    rw [hlocal]
    nofun
  · obtain ⟨hmade, hsame⟩ := moved_copyFault hcentral hread hearly hcopy
    refine not_atomic_of_made hcentral hmade ?_ h
    rw [hsame, hlocal]
    nofun

/-- Nothing is done about a local path that has no directory, or where the central one is there. -/
theorem moveAndLink_nothing (h : readDir paths = none ∨ paths.centralDir ≠ none) :
    moveAndLink faults paths = (paths, .error .raised) := by
  have hcopy : copytree faults paths = (paths, .error .raised) := by
    unfold copytree
    rcases h with h | h
    · rw [h]
    · rcases hcentral : paths.centralDir with _ | entries
      · exact absurd hcentral h
      · rcases readDir paths <;> rfl
  rcases hparents : faults.makeParents
  · rw [moveAndLink, mkdirParents_ok hparents, andThen_ok rfl, hcopy]
    rfl
  · have hfails : mkdirParents faults paths = (paths, .error .raised) := by
      rw [mkdirParents, hparents]
      rfl
    rw [moveAndLink, hfails]
    rfl

end Move

section Adoption

variable {faults : Faults} {paths : Paths}

theorem symlinkTo_atomic {entries : Dir} (hcentral : paths.centralDir = some entries) :
    Atomic paths (symlinkTo faults paths) := by
  unfold symlinkTo
  rcases hlocal : paths.localDir with _ | _ | _
  · by_cases hlink : faults.symlink
    · exact .of_unchanged (if_pos hlink)
    · show Atomic paths (if faults.symlink then _ else _)
      rw [if_neg hlink]
      refine ⟨.inl ⟨rfl, entries, hcentral, .inr hcentral⟩, fun _ h => ?_, fun _ h => h⟩
      cases hlocal.symm.trans h
  · exact .of_unchanged rfl
  · exact .of_unchanged rfl

theorem unchanged_of_linked (hlocal : paths.localDir = .link .central) {entries : Dir}
    (hcentral : paths.centralDir = some entries) : Atomic paths (paths, .ok ()) :=
  ⟨.inl ⟨hlocal, entries, hcentral, .inr hcentral⟩, fun _ h => .inl h, fun _ h => h⟩

/-- Where something stands at the central path both commands are atomic. -/
theorem atomic_of_central {entries : Dir} (hcentral : paths.centralDir = some entries) :
    Atomic paths (addGlobalItem faults paths) ∧ Atomic paths (linkDirectory faults paths) := by
  have hmove : Atomic paths (moveAndLink faults paths) :=
    .of_unchanged (moveAndLink_nothing (.inr (by rw [hcentral]; exact Option.some_ne_none _)))
  have hlink := @symlinkTo_atomic faults paths entries hcentral
  have hexit : Atomic paths (paths, .error .exit) := .of_unchanged rfl
  unfold addGlobalItem getItemStatus linkDirectory
  cases hlocal : paths.localDir with
  | missing =>
    simp only [localExists, localIsSymlink, hlocal, hcentral, Option.isSome_some]
    refine ⟨?_, hlink⟩
    by_cases hparents : faults.makeParents
    · have hfails : mkdirParents faults paths = (paths, .error .raised) := by
        rw [mkdirParents, hparents]
        rfl
      rw [hfails]
      exact .of_unchanged rfl
    · rw [mkdirParents_ok (by simpa using hparents)]
      exact hlink
  | dir =>
    simp only [localExists, localIsSymlink, hlocal, hcentral, Option.isSome_some]
    exact ⟨hexit, hexit⟩
  | link target =>
    cases target with
    | central =>
      simp only [localExists, localIsSymlink, sameResolved, hlocal, hcentral, Option.isSome_some]
      exact ⟨unchanged_of_linked hlocal hcentral, unchanged_of_linked hlocal hcentral⟩
    | nothing =>
      simp only [localExists, localIsSymlink, sameResolved, hlocal, hcentral, Option.isSome_some]
      exact ⟨hmove, hlink⟩
    | _ =>
      simp only [localExists, localIsSymlink, sameResolved, hlocal, hcentral, Option.isSome_some]
      exact ⟨hmove, hexit⟩

/-- Where nothing is there a path that reads as a directory is moved, and any other is refused, or
passed over by `link_directory`. -/
theorem atomic_of_no_central (hcentral : paths.centralDir = none) :
    (Atomic paths (addGlobalItem faults paths) ↔ SafeMove faults paths)
      ∧ (Atomic paths (linkDirectory faults paths)
        ↔ SafeMove faults paths ∧ localExists paths = true) := by
  have hskip : ¬ Atomic paths (paths, .ok ()) := by
    rintro ⟨⟨-, entries, hsome, -⟩ | ⟨⟨failure, hfailure⟩, -⟩, -, -⟩
    · cases hcentral.symm.trans hsome
    · cases hfailure
  have hexit : Atomic paths (paths, .error .exit) := .of_unchanged rfl
  have hother : (∀ entries, paths.localDir ≠ .dir entries) →
      (∀ entries, paths.localDir ≠ .link (.dir entries)) → SafeMove faults paths := fun hdir hlink =>
    ⟨fun _ entries h => absurd h (hdir entries), fun _ entries h => absurd h (hlink entries)⟩
  unfold addGlobalItem getItemStatus linkDirectory
  cases hlocal : paths.localDir with
  | missing =>
    have hsafe : SafeMove faults paths := hother (by simp [hlocal]) (by simp [hlocal])
    simp only [localExists, localIsSymlink, hlocal, hcentral, Option.isSome_none]
    exact ⟨iff_of_true hexit hsafe, iff_of_false hskip (by simp)⟩
  | dir entries =>
    have hsafe : SafeMove faults paths ↔ EarlyFault faults ∨ Movable faults entries := by
      refine ⟨fun h => h.directory hcentral entries hlocal, fun h => ⟨fun _ other heq => ?_, ?_⟩⟩
      · obtain rfl := Local.dir.inj (hlocal.symm.trans heq)
        exact h
      · simp [hlocal]
    simp only [localExists, localIsSymlink, hlocal, hcentral, Option.isSome_none,
      Option.isNone_none, and_true]
    rw [hsafe]
    exact ⟨moveAndLink_dir hcentral hlocal, moveAndLink_dir hcentral hlocal⟩
  | link target =>
    cases target with
    | dir entries =>
      have hsafe : SafeMove faults paths ↔ EarlyFault faults := by
        refine ⟨fun h => h.link hcentral entries hlocal, fun h => ⟨?_, fun _ other heq => h⟩⟩
        simp [hlocal]
      simp only [localExists, localIsSymlink, hlocal, hcentral, Option.isSome_none,
        Option.isNone_none, and_true]
      rw [hsafe]
      exact ⟨moveAndLink_link hcentral hlocal, moveAndLink_link hcentral hlocal⟩
    | central =>
      have hsafe : SafeMove faults paths := hother (by simp [hlocal]) (by simp [hlocal])
      have hmove : Atomic paths (moveAndLink faults paths) :=
        .of_unchanged (moveAndLink_nothing (.inl (by rw [readDir, hlocal]; exact hcentral)))
      simp only [localExists, localIsSymlink, hlocal, hcentral, Option.isSome_none]
      exact ⟨iff_of_true hmove hsafe, iff_of_false hskip (by simp)⟩
    | file =>
      have hsafe : SafeMove faults paths := hother (by simp [hlocal]) (by simp [hlocal])
      have hmove : Atomic paths (moveAndLink faults paths) :=
        .of_unchanged (moveAndLink_nothing (.inl (by rw [readDir, hlocal])))
      simp only [localExists, localIsSymlink, hlocal, hcentral, Option.isSome_none,
        Option.isNone_none, and_true]
      exact ⟨iff_of_true hmove hsafe, iff_of_true hmove hsafe⟩
    | nothing =>
      have hsafe : SafeMove faults paths := hother (by simp [hlocal]) (by simp [hlocal])
      have hmove : Atomic paths (moveAndLink faults paths) :=
        .of_unchanged (moveAndLink_nothing (.inl (by rw [readDir, hlocal])))
      simp only [localExists, localIsSymlink, hlocal, hcentral, Option.isSome_none]
      exact ⟨iff_of_true hmove hsafe, iff_of_false hskip (by simp)⟩

/-- Adopting is atomic exactly where the move, if there is one, is safe, and `link_directory` besides
only where one of the two paths exists. -/
theorem adoption_iff (faults : Faults) (paths : Paths) :
    (Atomic paths (addGlobalItem faults paths) ↔ SafeMove faults paths)
      ∧ (Atomic paths (linkDirectory faults paths) ↔ SafeMove faults paths
        ∧ (paths.centralDir.isSome = true ∨ localExists paths = true)) := by
  rcases hcentral : paths.centralDir with _ | entries
  · obtain ⟨hadd, hlink⟩ := @atomic_of_no_central faults paths hcentral
    refine ⟨hadd, hlink.trans ?_⟩
    simp
  · obtain ⟨hadd, hlink⟩ := @atomic_of_central faults paths _ hcentral
    have hsome : paths.centralDir ≠ none := by
      rw [hcentral]
      exact Option.some_ne_none entries
    have hsafe : SafeMove faults paths := ⟨fun h => absurd h hsome, fun h => absurd h hsome⟩
    exact ⟨iff_of_true hadd hsafe, iff_of_true hlink ⟨hsafe, .inl rfl⟩⟩

/-- Whatever fails, no tree is lost. -/
theorem tree_kept (faults : Faults) {paths : Paths} {entries : Dir}
    (h : paths.localDir = .dir entries ∨ paths.centralDir = some entries) :
    ∀ result ∈ [addGlobalItem faults paths, linkDirectory faults paths],
      result.1.localDir = .dir entries ∨ result.1.centralDir = some entries := by
  rw [List.forall_mem_cons, List.forall_mem_singleton]
  rcases hcentral : paths.centralDir with _ | central
  · have hlocal := h.resolve_right (by simp [hcentral])
    have hmove := @moveAndLink_keeps faults paths entries hcentral hlocal
    unfold addGlobalItem getItemStatus linkDirectory
    simp only [localExists, localIsSymlink, hlocal, hcentral]
    exact ⟨hmove, hmove⟩
  · obtain ⟨hadd, hlink⟩ := @atomic_of_central faults paths _ hcentral
    rcases h with h | h
    · exact ⟨hadd.keepsLocal entries h, hlink.keepsLocal entries h⟩
    · exact ⟨.inr (hadd.keepsCentral entries h), .inr (hlink.keepsCentral entries h)⟩

/-- Every call does what it is asked to. -/
def noFaults : Faults where
  makeParents := false
  listSource _ := false
  makeDir _ := false
  copyFile _ := none
  copyLink _ := false
  copyStat _ := false
  listRemoved _ := false
  unlink _ := false
  rmdir _ := false
  symlink := false
  stage := none

def linkedSkill : Paths :=
  { localDir := .link (.dir [("SKILL.md", .file [35])]), centralDir := none }

/-- A skill that is a link to a directory elsewhere is copied, and stays what it is. -/
theorem linkedSkill_copied : ¬ Atomic linkedSkill (addGlobalItem noFaults linkedSkill) := by
  rintro ⟨⟨hlocal, -⟩ | ⟨-, hsame⟩, -, -⟩
  · cases hlocal
  · cases congrArg Paths.centralDir hsame

end Adoption

end OnixCore.ClaudeMd
