import Mathlib.Data.List.Flatten
import OnixCore.HxOil.Proofs.Commands
import OnixCore.HxOil.Proofs.Ids

/-!
# The sidecar along a session

A sidecar is consistent when each path has at most one state and all its ids are distinct and
below the next one. A command that writes the session anew keeps it so exactly when no directory
has two blocks, and inserting a subdirectory does exactly when the sidecar holds no state of it yet
(`consistent_step`). So a run stays consistent exactly as long as its steps are unambiguous
(`consistent_iff_unambiguous`).
-/

namespace OnixCore.HxOil

variable {γ E : Type} {links : Links γ E} {w : World γ E}

section Rewrite

variable {root : Text} {previous : Option Sidecar} {names : List String} {now : ℕ}
  {session : Session}

/-- Written anew, a sidecar is consistent exactly when no directory is listed twice. -/
theorem consistent_rewrite (hprev : ∀ s ∈ previous, s.Consistent ∧ s.Numbered)
    (h : rewriteSessionFiles links root previous names now w = .ok session) :
    (session.sidecar.Consistent ↔ (openDirs w names).Nodup)
      ∧ (session.sidecar.Consistent → session.sidecar.Numbered) := by
  have hap := apart_previous hprev
  simp only [rewriteSessionFiles, bind_eq_ok, pure_eq_ok] at h
  obtain ⟨subdirs, hsub, rfl⟩ := h
  have hdirs := dirs_collect w (rootKnown previous) (nextKnown previous)
  have hpaths := paths_rewriteSubdirs hdirs hsub
  have hroot := draws_collect w.root hap.root_nodup (fun i hi => (hap.root_within i hi).2) hap.pos
  have hdraws : (openDirs w names).Nodup → Draws
      ({i | i ∈ idsOf (rootKnown previous)} ∪
        {i | ∃ name ∈ openDirs w names, i ∈ idsOf (subdirKnown previous name)})
      (nextKnown previous) subdirs.2
      (idsOf (collectSnapshotWithIds w.root (rootKnown previous) (nextKnown previous)).1
        ++ subdirs.1.flatMap fun state => idsOf state.entries) := by
    intro hnd
    refine hroot.append (draws_rewriteSubdirs hdirs hap hsub hroot.le hnd) ?_
      (fun i hi => (hap.root_within i hi).2) ?_
    · rintro i hi ⟨name, -, hk⟩
      exact hap.root_apart name i hi hk
    · rintro i ⟨name, -, hk⟩
      exact (hap.known_within name i hk).2
  have hwithin : ∀ i ∈ {i | i ∈ idsOf (rootKnown previous)} ∪
      {i | ∃ name ∈ openDirs w names, i ∈ idsOf (subdirKnown previous name)},
      0 < i ∧ i < nextKnown previous := by
    rintro i (hi | ⟨name, -, hk⟩)
    · exact hap.root_within i hi
    · exact hap.known_within name i hk
  refine ⟨⟨fun hc => hpaths ▸ hc.paths, fun hnd => ⟨?_, (hdraws hnd).nodup,
    (hdraws hnd).below fun i hi => (hwithin i hi).2⟩⟩, fun hc => ?_⟩
  · rw [hpaths]
    exact hnd
  · have hd := hdraws (hpaths ▸ hc.paths)
    refine ⟨rfl, hap.pos.trans_le hd.le, fun i hi => ?_⟩
    rcases hd.source i hi with ho | ⟨hle, -⟩
    · exact (hwithin i ho).1
    · exact hap.pos.trans_le hle

end Rewrite

section Subdirs

variable {s : Sidecar} {name : String} {collected : List SnapshotEntry × ℕ}

theorem draws_collectSubdir (hc : s.Consistent) (hn : s.Numbered)
    (h : collectSubdir links s name w = .ok collected) :
    Draws {i | i ∈ idsOf (s.known name)} s.nextEntryId collected.2 (idsOf collected.1) := by
  have hap := hc.apart hn
  unfold collectSubdir at h
  split at h
  · rename_i sub _
    rw [pure_eq_ok] at h
    subst h
    exact draws_collect sub (hap.known_nodup name) (fun i hi => (hap.known_within name i hi).2)
      hap.pos
  · simp at h

theorem findSubdir_eq_none : s.findSubdir name = none
    ↔ name ∉ s.subdirs.map (·.relativePath) := by
  simp [Sidecar.findSubdir]

/-- A subdirectory is inserted well exactly when the sidecar has no state of it. -/
theorem consistent_insert (hc : s.Consistent) (hn : s.Numbered)
    (h : collectSubdir links s name w = .ok collected) {t : Sidecar}
    (ht : t = { s with
      nextEntryId := collected.2, subdirs := s.subdirs ++ [⟨name, collected.1⟩] }) :
    (t.Consistent ↔ s.findSubdir name = none) ∧ (t.Consistent → t.Numbered) := by
  have hd := draws_collectSubdir hc hn h
  have hids : t.ids = s.ids ++ idsOf collected.1 := by simp [ht, Sidecar.ids]
  have hpaths : t.subdirs.map (·.relativePath) = s.subdirs.map (·.relativePath) ++ [name] := by
    simp [ht]
  have hnew : t.Consistent ↔ s.findSubdir name = none := by
    constructor
    · intro hct
      have hnd := hct.paths
      rw [hpaths, List.nodup_append] at hnd
      exact findSubdir_eq_none.2 fun hmem => hnd.2.2 name hmem name (by simp) rfl
    · intro hnone
      have hknown : s.known name = [] := by simp [Sidecar.known, hnone]
      rw [hknown] at hd
      refine ⟨?_, ?_, fun i hi => ?_⟩
      · rw [hpaths, List.nodup_append]
        refine ⟨hc.paths, List.nodup_singleton name, ?_⟩
        rintro a ha _ hb rfl
        rw [List.mem_singleton] at hb
        exact findSubdir_eq_none.1 hnone (hb ▸ ha)
      · rw [hids]
        have hnd : (s.ids ++ (idsOf [] ++ [])).Nodup := by simpa [idsOf] using hc.ids
        have hlt : ∀ i ∈ s.ids ++ (idsOf [] ++ []), i < s.nextEntryId := by
          simpa [idsOf] using hc.below
        simpa using hd.replace hnd hlt
      · rw [hids, List.mem_append] at hi
        rw [ht]
        rcases hi with hi | hi
        · exact (hc.below i hi).trans_le hd.le
        · exact hd.below (by simp [idsOf]) i hi
  refine ⟨hnew, fun hct => ⟨by rw [ht]; exact hn.version, ?_, fun i hi => ?_⟩⟩
  · rw [ht]
    exact hn.next.trans_le hd.le
  · rw [hids, List.mem_append] at hi
    rcases hi with hi | hi
    · exact hn.ids i hi
    · rcases hd.source i hi with ho | ⟨hle, -⟩
      · exact ((hc.apart hn).known_within name i ho).1
      · exact hn.next.trans_le hle

theorem consistent_collapse (hc : s.Consistent) (hn : s.Numbered) (keep : SubdirState → Bool)
    {t : Sidecar} (ht : t = { s with subdirs := s.subdirs.filter keep }) :
    t.Consistent ∧ t.Numbered := by
  have hsub : t.subdirs.Sublist s.subdirs := by
    rw [ht]
    exact List.filter_sublist
  have hids : t.ids.Sublist s.ids := by
    have hroot : t.entries = s.entries := by rw [ht]
    rw [Sidecar.ids, Sidecar.ids, hroot]
    exact (List.Sublist.refl _).append (hsub.flatMap _)
  have hnext : t.nextEntryId = s.nextEntryId := by rw [ht]
  refine ⟨⟨hc.paths.sublist (hsub.map _), hc.ids.sublist hids, fun i hi => ?_⟩,
    ⟨by rw [ht]; exact hn.version, hnext ▸ hn.next, fun i hi => hn.ids i (hids.subset hi)⟩⟩
  rw [hnext]
  exact hc.below i (hids.subset hi)

/-- A listed subdirectory keeps its one state. -/
theorem consistent_refresh (hc : s.Consistent) (hn : s.Numbered)
    (h : collectSubdir links s name w = .ok collected) (hfind : (s.findSubdir name).isSome)
    {t : Sidecar} (ht : t = { s with
      nextEntryId := collected.2, subdirs := setSubdir name collected.1 s.subdirs }) :
    t.Consistent ∧ t.Numbered := by
  have hd := draws_collectSubdir hc hn h
  obtain ⟨state, before, after, hstate, hname, hsplit, hset⟩ := setSubdir_split collected.1 hfind
  have hknown : s.known name = state.entries := by simp [Sidecar.known, hstate]
  have hold : s.ids = (idsOf s.entries ++ before.flatMap fun st => idsOf st.entries)
      ++ (idsOf state.entries ++ after.flatMap fun st => idsOf st.entries) := by
    simp [Sidecar.ids, hsplit]
  have hnew : t.ids = (idsOf s.entries ++ before.flatMap fun st => idsOf st.entries)
      ++ (idsOf collected.1 ++ after.flatMap fun st => idsOf st.entries) := by
    simp [ht, Sidecar.ids, hset]
  have hsource : ∀ i ∈ t.ids, i ∈ s.ids ∨ s.nextEntryId ≤ i ∧ i < collected.2 := by
    intro i hi
    rw [hknown] at hd
    rw [hnew] at hi
    rw [hold]
    simp only [List.mem_append] at hi ⊢
    rcases hi with hi | hi | hi
    · exact .inl (.inl hi)
    · exact (hd.source i hi).imp_left fun ho => .inr (.inl ho)
    · exact .inl (.inr (.inr hi))
  refine ⟨⟨?_, ?_, fun i hi => ?_⟩, ⟨by rw [ht]; exact hn.version, ?_, fun i hi => ?_⟩⟩
  · have hpaths := hc.paths
    rw [hsplit] at hpaths
    simpa [ht, hset] using hpaths
  · rw [hnew]
    rw [hknown] at hd
    exact hd.replace (hold ▸ hc.ids) (hold ▸ hc.below)
  · rw [ht]
    rcases hsource i hi with ho | ho
    · exact (hc.below i ho).trans_le hd.le
    · exact ho.2
  · rw [ht]
    exact hn.next.trans_le hd.le
  · rcases hsource i hi with ho | ho
    · exact hn.ids i ho
    · exact hn.next.trans_le ho.1

end Subdirs

section Step

variable [Content γ] (host : Host γ E)

/-- The step cannot make two states of one path: a session is only written anew while no directory
has two blocks, and a subdirectory is only inserted while the sidecar has no state of it. -/
def Unambiguous (s : SessionState host) (op : SessionOp γ E) : Prop :=
  ∀ document, parseManifestDocument s.session.text = .ok document →
    (op.rewrites = true →
      (openDirs (runOp host s.session s.world op).1 document.visibleSubdirs).Nodup)
    ∧ ∀ line target, op = .insertSubdir line → insertTarget document line = .ok target →
      s.session.sidecar.findSubdir target.2.relativePath = none

variable {host} {s t : SessionState host} {op : SessionOp γ E}

theorem unambiguous_of_kept (hrewrites : op.rewrites = false)
    (hinsert : ∀ line, op ≠ .insertSubdir line) : Unambiguous host s op :=
  fun _ _ => ⟨fun h => by simp [hrewrites] at h, fun line _ heq => absurd heq (hinsert line)⟩

/-- A step keeps the sidecar consistent exactly when it is unambiguous. -/
theorem consistent_step (hc : s.session.sidecar.Consistent) (hn : s.session.sidecar.Numbered)
    (h : SessionStep host s op t) : (t.session.sidecar.Consistent ↔ Unambiguous host s op)
      ∧ (t.session.sidecar.Consistent → t.session.sidecar.Numbered) := by
  have hworld : (runOp host s.session s.world op).1 = t.world := by rw [h]
  have hload := upgradeSidecar_eq hc hn
  have hkeep : ∀ new : Sidecar, new.Consistent ∧ new.Numbered → Unambiguous host s op →
      (new.Consistent ↔ Unambiguous host s op) ∧ (new.Consistent → new.Numbered) :=
    fun new hnew hop => ⟨iff_of_true hnew.1 hop, fun _ => hnew.2⟩
  have hstep := sidecarStep_of_step h
  generalize t.session.sidecar = new at hstep ⊢
  cases hstep with
  | edit => exact hkeep _ ⟨hc, hn⟩ (unambiguous_of_kept rfl (by simp))
  | external => exact hkeep _ ⟨hc, hn⟩ (unambiguous_of_kept rfl (by simp))
  | markToggle => exact hkeep _ ⟨hc, hn⟩ (unambiguous_of_kept rfl (by simp))
  | clearMarks => exact hkeep _ ⟨hc, hn⟩ (unambiguous_of_kept rfl (by simp))
  | flagDelete => exact hkeep _ ⟨hc, hn⟩ (unambiguous_of_kept rfl (by simp))
  | @rewrite _ document now session hop hparse hwrite =>
    rw [hload] at hwrite
    obtain ⟨hiff, hnum⟩ := consistent_rewrite (by simpa using ⟨hc, hn⟩) hwrite
    refine ⟨hiff.trans ⟨fun hnd document' hparse' => ⟨fun _ => ?_, ?_⟩, fun hun => ?_⟩, hnum⟩
    · rw [hworld, Except.ok.inj (hparse'.symm.trans hparse)]
      exact hnd
    · rintro line target rfl
      simp [SessionOp.rewrites] at hop
    · rw [← hworld]
      exact (hun document hparse).1 hop
  | @insert line document target collected hparse htarget hlist =>
    rw [hload] at hlist
    obtain ⟨hiff, hnum⟩ := consistent_insert hc hn hlist rfl
    rw [hload]
    refine ⟨hiff.trans ⟨fun hnone document' hparse' => ⟨fun hop => ?_, ?_⟩, fun hun => ?_⟩, hnum⟩
    · simp [SessionOp.rewrites] at hop
    · rintro line' target' heq htarget'
      obtain rfl : line = line' := by simpa using heq
      rw [Except.ok.inj (hparse'.symm.trans hparse), htarget, Except.ok.injEq] at htarget'
      rw [← htarget']
      exact hnone
    · exact (hun document hparse).2 line target rfl htarget
  | collapse keep =>
    rw [hload]
    exact hkeep _ (consistent_collapse hc hn keep rfl) (unambiguous_of_kept rfl (by simp))
  | refresh hlist hfind =>
    rw [hload] at hlist hfind ⊢
    exact hkeep _ (consistent_refresh hc hn hlist hfind rfl) (unambiguous_of_kept rfl (by simp))

omit [Content γ] in
theorem consistent_rendered (hs : Rendered host s) :
    s.session.sidecar.Consistent ∧ s.session.sidecar.Numbered := by
  obtain ⟨root, now, hwrite⟩ := hs
  have hnone : ∀ s ∈ (none : Option Sidecar), s.Consistent ∧ s.Numbered := by simp
  obtain ⟨hiff, hnum⟩ := consistent_rewrite hnone hwrite
  have hc := hiff.2 List.nodup_nil
  exact ⟨hc, hnum hc⟩

/-- A rendered session stays consistent exactly as long as its steps are unambiguous. -/
theorem consistent_iff_unambiguous {steps : List (SessionOp γ E × SessionState host)}
    (hs : Rendered host s) (hr : Run (SessionStep host) s steps) :
    (∀ t ∈ visited s steps, t.session.sidecar.Consistent) ↔ Guarded (Unambiguous host) s steps :=
  hr.forall_iff (Q := fun t => t.session.sidecar.Numbered)
    (fun _ _ _ hc hn h => consistent_step hc hn h) (consistent_rendered hs).1
    (consistent_rendered hs).2

end Step

section Reinserted

instance : DecidablePred Sidecar.Consistent := fun s =>
  decidable_of_iff ((s.subdirs.map (·.relativePath)).Nodup ∧ s.ids.Nodup
      ∧ ∀ i ∈ s.ids, i < s.nextEntryId)
    ⟨fun h => ⟨h.1, h.2.1, h.2.2⟩, fun h => ⟨h.paths, h.ids, h.below⟩⟩

/-- A system without symbolic links in which no bulk operation succeeds. -/
def plainHost : Host Unit Unit where
  links := ⟨fun _ _ => none, fun _ _ => none, fun _ _ _ => .error .notFound⟩
  fresh := fun _ => ⟨9, 0⟩
  transfer := fun _ _ _ w => (w, .error "bulk target collision")

def childNames : Obj (Folder Unit) → List String
  | .dir _ sub => sub.keys
  | .leaf _ _ => []

theorem legal_of_names {w : World Unit Unit}
    (hroot : ∀ n ∈ w.root.keys, singleComponent n = true)
    (hsub : ∀ p ∈ w.root.entries, ∀ n ∈ childNames p.2, singleComponent n = true) :
    w.Legal plainHost.links := by
  refine ⟨fun n hn => hroot n (AList.lookup_isSome.1 hn), fun name sub hread n hn => ?_⟩
  rcases hlook : w.root.lookup name with _ | ⟨st, bytes | target⟩ | ⟨st, sub'⟩
  · simp [World.readSubdir, hlook, plainHost] at hread
  · simp [World.readSubdir, hlook] at hread
  · simp [World.readSubdir, hlook, plainHost] at hread
  · simp only [World.readSubdir, hlook, Option.some.injEq] at hread
    subst hread
    exact hsub ⟨name, _⟩ (AList.mem_lookup_iff.1 hlook) n (AList.lookup_isSome.1 hn)

/-- A root with one directory that holds one file. -/
def notesWorld : World Unit Unit :=
  ⟨.ofList [("notes", .dir ⟨1, 0⟩ (.ofList [("a.txt", .leaf ⟨2, 3⟩ (.regular []))]))], ()⟩

theorem notesWorld_legal : notesWorld.Legal plainHost.links :=
  legal_of_names (by decide) (by decide)

def notesState (session : Session) : SessionState plainHost := ⟨notesWorld, session, notesWorld_legal⟩

/-- The session a command leaves behind in that root, when it succeeds. -/
def notesAfter (session : Session) (op : SessionOp Unit Unit) : Session :=
  match (runOp plainHost session notesWorld op).2 with
  | .ok next => next
  | .error _ => session

theorem notes_step {session : Session} {op : SessionOp Unit Unit}
    (hworld : (runOp plainHost session notesWorld op).1 = notesWorld)
    (hok : (runOp plainHost session notesWorld op).2.isOk = true) :
    SessionStep plainHost (notesState session) op (notesState (notesAfter session op)) := by
  refine Prod.ext hworld ?_
  rcases h : (runOp plainHost session notesWorld op).2 with e | next
  · simp [h, Except.isOk, Except.toBool] at hok
  · simp [notesState, notesAfter, h]

def notesRendered : Session :=
  ⟨⟨2, "/r".toList, 5, 2, [⟨1, 0, "notes", .directory, 1, 0⟩], []⟩,
    "# hx-oil root: /r\n# blank lines and comment lines are ignored\n  notes/\n".toList⟩

theorem notes_rendered : Rendered plainHost (notesState notesRendered) :=
  ⟨"/r".toList, 5, by decide⟩

def notesInserted : Session := notesAfter notesRendered (.insertSubdir 3)

theorem notes_inserted :
    SessionStep plainHost (notesState notesRendered) (.insertSubdir 3) (notesState notesInserted) :=
  notes_step rfl (by decide)

theorem notesInserted_reachable : ReachableSession plainHost (notesState notesInserted) :=
  ⟨notesState notesRendered, [(.insertSubdir 3, notesState notesInserted)], notes_rendered,
    .cons notes_inserted (.nil _), by simp [visited]⟩

/-- The user deletes the block. -/
def notesEdited : Session := notesAfter notesInserted (.edit notesRendered.text)

def notesReinserted : Session := notesAfter notesEdited (.insertSubdir 3)

/-- Inserted again after its block was deleted by hand, a subdirectory has two states with the same
ids. -/
theorem reinserted_inconsistent : ReachableSession plainHost (notesState notesReinserted)
    ∧ notesReinserted.sidecar.subdirs.map (·.relativePath) = ["notes", "notes"]
    ∧ notesReinserted.sidecar.ids = [1, 2, 2] ∧ ¬ notesReinserted.sidecar.Consistent := by
  refine ⟨⟨notesState notesRendered, [(.insertSubdir 3, notesState notesInserted),
    (.edit notesRendered.text, notesState notesEdited),
    (.insertSubdir 3, notesState notesReinserted)], notes_rendered, ?_, by simp [visited]⟩,
    by decide, by decide, by decide⟩
  exact .cons notes_inserted (.cons (notes_step rfl rfl)
    (.cons (notes_step rfl (by decide)) (.nil _)))

theorem inserted_unambiguous : Guarded (Unambiguous plainHost) (notesState notesRendered)
    [(.insertSubdir 3, notesState notesInserted),
      (.refresh 6, notesState (notesAfter notesInserted (.refresh 6)))] := by
  refine (consistent_iff_unambiguous notes_rendered (.cons notes_inserted
    (.cons (notes_step rfl (by decide)) (.nil _)))).1 ?_
  simp only [visited_cons, visited_nil, List.forall_mem_cons]
  exact ⟨by decide, by decide, by decide, List.forall_mem_nil _⟩

end Reinserted

end OnixCore.HxOil
