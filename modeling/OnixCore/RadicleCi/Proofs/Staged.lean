import OnixCore.RadicleCi.Proofs.CommandRules

/-!
# Directories in the making

A command fills a directory in `staging` before it renames it into a queue. Nobody else is there, so
what was written into the directory is still in it when it is moved.
-/

namespace OnixCore.RadicleCi

/-- The directory stands in `staging`, with these files. -/
def Staged (n : String) (F : Names Bytes → Prop) (s : Noted) : Prop :=
  ∃ files, s.1.queues.get .staging n = some (.dir files) ∧ F files

/-- What will be in the directory once it stands there. -/
def Fills (n : String) (F : Names Bytes → Prop) (s : Noted) : Prop :=
  (s.1.queues.get .staging n = none → F ∅)
    ∧ ∀ files, s.1.queues.get .staging n = some (.dir files) → F files

section Staging

variable {codec : Codec} {k : Command} {n f : String} {F : Names Bytes → Prop} {pid : ℕ}
  {bytes : Bytes} {M : Queue × String → Prop} {path : ExchangePath} {s : Noted}

theorem Staged.fills (h : Staged n F s) : Fills n F s := by
  obtain ⟨files, hdir, hfiles⟩ := h
  refine ⟨fun hnone => ?_, fun files' hdir' => ?_⟩
  · cases hdir.symm.trans hnone
  · cases hdir.symm.trans hdir'
    exact hfiles

theorem Staged.mono {F' : Names Bytes → Prop} (h : Staged n F s)
    (hF : ∀ files, F files → F' files) : Staged n F' s := by
  obtain ⟨files, hdir, hfiles⟩ := h
  exact ⟨files, hdir, hF files hfiles⟩

theorem staged_put {w : Exchange} {g : Option String} {files : Names Bytes} (hfiles : F files) :
    Staged n F (w.withQueues (w.queues.put .staging n (some (.dir files))), g) :=
  ⟨files, by simp, hfiles⟩

theorem lasts_staged (h : Mine k (.staging, n)) : Lasts codec k (Staged n F) :=
  lasts_staging h fun slot => ∃ files, slot = some (.dir files) ∧ F files

theorem does_createDirectory (h : Mine k (.staging, n)) :
    Does codec k (Fills n F) (createDirectory .staging n) (fun _ => Staged n F) fun _ => True := by
  have hlasts : Lasts codec k (Fills n F) := lasts_staging h fun slot =>
    (slot = none → F ∅) ∧ ∀ files, slot = some (.dir files) → F files
  refine .bind (Q := fun _ => Fills n F) (.idle trivial hlasts fun t _ ht _ => ht) fun found => ?_
  split
  · refine .bind (Q := fun isDir s => isDir = true → Staged n F s)
      (.idle trivial hlasts fun t _ ht _ => ?_) fun isDir => ?_
    · intro hdir
      obtain ⟨x, hx, hisDir⟩ := (Option.any_eq_true _ _).1 hdir
      cases x with
      | file bytes => cases hisDir
      | dir files => exact ⟨files, hx, ht.2 files hx⟩
    · exact .check (fun hdir s hs => hs hdir) fun _ _ => trivial
  · refine .bind (Q := fun r s => r = .ok () → Staged n F s)
      (.idle h hlasts fun t _ ht _ => ?_) fun r => ?_
    · rcases hcreate : t.1.queues.createDir .staging n with e | s'
      · simp only [exchangePerform, hcreate, change_error]
        rintro ⟨⟩
      · simp only [exchangePerform, hcreate, change_ok]
        rintro -
        unfold Spool.createDir at hcreate
        split at hcreate
        next hnone =>
          cases hcreate
          exact staged_put (ht.1 hnone)
        · cases hcreate
    · exact .shellIo (fun a hr s hs => hs hr) fun _ _ => trivial

theorem does_writeFile (h : Mine k (.staging, n))
    (hF : ∀ files m y, m = temporaryName pid f ∨ m = f → F files → F (files.assign m y)) :
    Does codec k (Staged n F) (writeFile pid (.inside .staging n f) bytes)
      (fun _ => Staged n fun files => F files ∧ files.lookup f = some bytes) fun _ => True := by
  have hne : temporaryName pid f ≠ f := temporaryName_ne pid f
  refine .bind (Q := fun _ => Staged n F) ?_ fun _ => ?_
  · exact (does_createDirectory h).conseq (fun _ _ => Staged.fills) (fun _ _ => id) fun _ => id
  refine .bind (Q := fun r s => r = .ok () → Staged n F s)
    (.idle h (lasts_staged h) ?_) fun r => .bind (Q := fun _ => Staged n F)
      (.shellIo (fun a hr s hs => hs hr) fun _ _ => trivial) fun _ => ?_
  · rintro t - ⟨files, hdir, hfiles⟩ -
    rcases hcreate : t.1.queues.createNew (.inside .staging n (temporaryName pid f)) with e | s'
    · simp only [exchangePerform, temporaryPath, hcreate, change_error]
      rintro ⟨⟩
    · obtain ⟨files', hdir', rfl⟩ := Spool.createNew_inside_eq_ok hcreate
      cases hdir.symm.trans hdir'
      simp only [exchangePerform, temporaryPath, hcreate, change_ok]
      exact fun _ => staged_put (hF _ _ _ (.inl rfl) hfiles)
  refine .bind (Q := fun r s => r = .ok () → Staged n
      (fun files => F files ∧ files.lookup (temporaryName pid f) = some bytes) s)
    (.idle h (lasts_staged h) ?_) fun r => .bind
      (.shellIo (fun a hr s hs => hs hr) fun _ _ => trivial) fun _ => ?_
  · rintro t - ⟨files, hdir, hfiles⟩ -
    rcases hwrite : t.1.queues.write (.inside .staging n (temporaryName pid f)) bytes with e | s'
    · simp only [exchangePerform, temporaryPath, hwrite, change_error]
      rintro ⟨⟩
    · obtain ⟨files', hdir', rfl⟩ := Spool.write_inside_eq_ok hwrite
      cases hdir.symm.trans hdir'
      simp only [exchangePerform, temporaryPath, hwrite, change_ok]
      exact fun _ => staged_put ⟨hF _ _ _ (.inl rfl) hfiles, Names.lookup_assign_self _ _ _⟩
  refine .bind (Q := fun r s => r = .ok () → Staged n
      (fun files => F files ∧ files.lookup f = some bytes) s)
    (.idle ⟨h, h⟩ (lasts_staged h) ?_) fun r =>
      .shellIo (fun a hr s hs => hs hr) fun _ _ => trivial
  rintro t - ⟨files, hdir, hfiles, htmp⟩ -
  rcases hrename : t.1.queues.rename (.inside .staging n (temporaryName pid f))
    (.inside .staging n f) with e | s'
  · simp only [exchangePerform, temporaryPath, hrename, change_error]
    rintro ⟨⟩
  · obtain ⟨files', file, hdir', hfile, rfl⟩ := Spool.rename_inside_eq_ok hne hrename
    cases hdir.symm.trans hdir'
    cases htmp.symm.trans hfile
    simp only [exchangePerform, temporaryPath, hrename, change_ok]
    exact fun _ => staged_put
      ⟨hF _ _ _ (.inr rfl) (hF _ _ _ (.inl rfl) hfiles), Names.lookup_assign_self _ _ _⟩

theorem uses_createDirectory {q : Queue} (h : M (q, n)) :
    (createDirectory q n).Uses (Confined M) := by
  refine Prog.uses_bind (Prog.uses_act.2 trivial) fun found => ?_
  split
  · exact Prog.uses_bind (Prog.uses_act.2 trivial) fun _ => Prog.uses_check
  · exact Prog.uses_bind (Prog.uses_act.2 h) (uses_shellIo _)

theorem uses_writeFile (h : M path.spot) (htmp : M (temporaryPath pid path).spot) :
    (writeFile pid path bytes).Uses (Confined M) := by
  have hparent : (createParent path).Uses (Confined M) := by
    cases path with
    | entry q n => exact Prog.uses_done _
    | inside q n f => exact uses_createDirectory h
  exact Prog.uses_bind hparent fun _ =>
    Prog.uses_bind (Prog.uses_act.2 htmp) fun _ => Prog.uses_bind (uses_shellIo _ _) fun _ =>
      Prog.uses_bind (Prog.uses_act.2 htmp) fun _ => Prog.uses_bind (uses_shellIo _ _) fun _ =>
        Prog.uses_bind (Prog.uses_act.2 ⟨htmp, h⟩) (uses_shellIo _)

theorem uses_clear {q : Queue} (h : M (q, n)) (context : String) :
    (clearDirectory q n context).Uses (Confined M) :=
  (uses_clearDirectory q n context).mono fun _ hi => hi.confined h

end Staging

end OnixCore.RadicleCi
