import OnixCore.HxOil.Proofs.Document
import OnixCore.HxOil.Session

/-!
# What a command does to the sidecar

`SidecarStep` says everything a step of a session can do to its sidecar: keep it, write it anew
from the blocks of the manifest, or change the state of one subdirectory. Every step is one of
these (`sidecarStep_of_step`).
-/

namespace OnixCore.HxOil

variable {γ E : Type}

section Step

variable (links : Links γ E) (stored : Session) (w : World γ E)

inductive SidecarStep : SessionOp γ E → Sidecar → Prop
  | edit {text : Text} : SidecarStep (.edit text) stored.sidecar
  | external {w' : World γ E} : SidecarStep (.external w') stored.sidecar
  | markToggle {lines : List ℕ} : SidecarStep (.markToggle lines) stored.sidecar
  | clearMarks : SidecarStep .clearMarks stored.sidecar
  | flagDelete {lines : List ℕ} : SidecarStep (.flagDelete lines) stored.sidecar
  | rewrite {op : SessionOp γ E} {document : ManifestDocument} {now : ℕ} {session : Session}
      (hop : op.rewrites = true) (hparse : parseManifestDocument stored.text = .ok document)
      (hwrite : rewriteSessionFiles links (upgradeSidecar stored.sidecar).root
        (some (upgradeSidecar stored.sidecar)) document.visibleSubdirs now w = .ok session) :
      SidecarStep op session.sidecar
  | insert {line : ℕ} {document : ManifestDocument} {target : ℕ × ManifestEntry}
      {collected : List SnapshotEntry × ℕ}
      (hparse : parseManifestDocument stored.text = .ok document)
      (htarget : insertTarget document line = .ok target)
      (hlist : collectSubdir links (upgradeSidecar stored.sidecar) target.2.relativePath w
        = .ok collected) :
      SidecarStep (.insertSubdir line)
        { upgradeSidecar stored.sidecar with
          nextEntryId := collected.2
          subdirs := (upgradeSidecar stored.sidecar).subdirs
            ++ [⟨target.2.relativePath, collected.1⟩] }
  | collapse {line : ℕ} (keep : SubdirState → Bool) :
      SidecarStep (.collapseSubdir line)
        { upgradeSidecar stored.sidecar with
          subdirs := (upgradeSidecar stored.sidecar).subdirs.filter keep }
  | refresh {line : ℕ} {target : String} {collected : List SnapshotEntry × ℕ}
      (hlist : collectSubdir links (upgradeSidecar stored.sidecar) target w = .ok collected)
      (hfind : ((upgradeSidecar stored.sidecar).findSubdir target).isSome) :
      SidecarStep (.refreshSubdir line)
        { upgradeSidecar stored.sidecar with
          nextEntryId := collected.2
          subdirs := setSubdir target collected.1 (upgradeSidecar stored.sidecar).subdirs }

end Step

theorem parsed_of_validated {session : Session} {document : ManifestDocument}
    (h : parseAndValidateDocument session = .ok document) :
    parseManifestDocument session.text = .ok document := by
  simp only [parseAndValidateDocument, bind_eq_ok, ensure_eq_ok, pure_eq_ok] at h
  obtain ⟨_, hparse, -, -, rfl⟩ := h
  exact hparse

theorem keepSidecar_eq_ok {stored session : Session} {changed : Except String Session}
    (h : keepSidecar stored changed = .ok session) : session.sidecar = stored.sidecar := by
  rcases changed with e | s
  · simp [keepSidecar, Except.map] at h
  · simp only [keepSidecar, Except.map, Except.ok.injEq] at h
    rw [← h]

section States

variable {s : Sidecar} {name : String}

theorem findSubdir_eq_some {state : SubdirState}
    (h : s.findSubdir name = some state) : state ∈ s.subdirs ∧ state.relativePath = name :=
  ⟨List.mem_of_find?_eq_some h, by simpa using List.find?_some h⟩

/-- The state that is set is the one a lookup finds; the others stay. -/
theorem setSubdir_split (entries : List SnapshotEntry) (hfind : (s.findSubdir name).isSome) :
    ∃ state before after, s.findSubdir name = some state ∧ state.relativePath = name
      ∧ s.subdirs = before ++ state :: after
      ∧ setSubdir name entries s.subdirs = before ++ { state with entries } :: after := by
  obtain ⟨found, hf⟩ := Option.isSome_iff_exists.1 hfind
  obtain ⟨hmem, hname⟩ := findSubdir_eq_some hf
  obtain ⟨state, changed, before, after, hbefore, hset, hsplit, hreplace⟩ :=
    List.exists_of_replaceF (p := fun state : SubdirState =>
      if state.relativePath = name then some { state with entries } else none) hmem
      (if_pos hname)
  simp only [ite_eq_right_iff, reduceCtorEq, imp_false] at hbefore
  split_ifs at hset with hstate
  rw [Option.some.injEq] at hset
  subst hset
  refine ⟨state, before, after, ?_, hstate, hsplit, hreplace⟩
  rw [Sidecar.findSubdir, hsplit, List.find?_append, List.find?_eq_none.2 (by simpa using hbefore)]
  simp [hstate]

end States

section Host

variable [Content γ] {host : Host γ E}

omit [Content γ] in
theorem changeAndRewrite_eq_ok {session session' : Session} {document : ManifestDocument} {now : ℕ}
    {change : World γ E × Except String Unit} {w' : World γ E}
    (h : changeAndRewrite host session document now change = (w', .ok session')) :
    rewriteSessionFiles host.links session.sidecar.root (some session.sidecar)
      document.visibleSubdirs now w' = .ok session' := by
  unfold changeAndRewrite at h
  split at h
  · simp at h
  · rw [Prod.mk.injEq] at h
    obtain ⟨rfl, h⟩ := h
    exact h

omit [Content γ] in
theorem checkedDocument_eq_ok {session : Session} {w : World γ E} {document : ManifestDocument}
    (h : checkedDocument host session w = .ok document) :
    parseManifestDocument session.text = .ok document := by
  simp only [checkedDocument, bind_eq_ok, pure_eq_ok] at h
  obtain ⟨_, hparse, -, -, -, -, rfl⟩ := h
  exact parsed_of_validated hparse

theorem applyManifest_eq_ok {session session' : Session} {now : ℕ} {w w' : World γ E}
    {report : String}
    (h : applyManifest host.links host.fresh session now w = (w', .ok (report, session'))) :
    ∃ document, parseManifestDocument session.text = .ok document
      ∧ rewriteSessionFiles host.links session.sidecar.root (some session.sidecar)
        document.visibleSubdirs now w' = .ok session' := by
  unfold applyManifest at h
  rcases hpre : preflight host.links session w with e | ⟨document, plans⟩
  · simp [hpre] at h
  · simp only [hpre] at h
    split at h
    · simp at h
    · rw [Prod.mk.injEq] at h
      obtain ⟨rfl, h⟩ := h
      refine ⟨document, (accepted_of_preflight hpre).parsed, ?_⟩
      rcases hw : rewriteSessionFiles host.links session.sidecar.root (some session.sidecar)
        document.visibleSubdirs now _ with e | written
      · rw [hw] at h
        simp [Except.map] at h
      · rw [hw] at h
        simp only [Except.map, Except.ok.injEq, Prod.mk.injEq] at h
        rw [← h.2]

omit [Content γ] in
/-- A command that changes the directories first writes the session anew after that. -/
theorem sidecarStep_of_change {s t : SessionState host} {op : SessionOp γ E}
    (hop : op.rewrites = true) {document : ManifestDocument} {now : ℕ}
    {change : World γ E × Except String Unit}
    (hdoc : checkedDocument host (loadSession s.session) s.world = .ok document)
    (h : changeAndRewrite host (loadSession s.session) document now change
      = (t.world, .ok t.session)) :
    SidecarStep host.links s.session t.world op t.session.sidecar := by
  have hparse := checkedDocument_eq_ok hdoc
  have hwrite := changeAndRewrite_eq_ok h
  exact .rewrite hop hparse hwrite

/-- Every step of a session is one of the listed ones. -/
theorem sidecarStep_of_step {s t : SessionState host} {op : SessionOp γ E}
    (h : SessionStep host s op t) :
    SidecarStep host.links s.session t.world op t.session.sidecar := by
  unfold SessionStep runOp at h
  cases op with
  | edit text =>
    simp only [Prod.mk.injEq, Except.ok.injEq] at h
    rw [← h.2]
    exact .edit
  | external w' =>
    simp only [Prod.mk.injEq, Except.ok.injEq] at h
    rw [← h.2]
    exact .external
  | refresh now =>
    simp only [Prod.mk.injEq, refreshSession, bind_eq_ok] at h
    obtain ⟨hw, document, hparse, hwrite⟩ := h
    exact .rewrite rfl hparse (hw ▸ hwrite)
  | apply now =>
    rw [Prod.mk.injEq] at h
    obtain ⟨hw, hok⟩ := h
    rcases ha : (applyManifest host.links host.fresh (loadSession s.session) now s.world).2
      with e | ⟨report, session⟩
    · simp [ha, Except.map] at hok
    · simp only [ha, Except.map, Except.ok.injEq] at hok
      obtain ⟨document, hparse, hwrite⟩ := applyManifest_eq_ok (Prod.ext hw ha)
      rw [← hok]
      exact .rewrite rfl hparse hwrite
  | markToggle lines =>
    rw [Prod.mk.injEq] at h
    rw [keepSidecar_eq_ok h.2]
    exact .markToggle
  | clearMarks =>
    rw [Prod.mk.injEq] at h
    rw [keepSidecar_eq_ok h.2]
    exact .clearMarks
  | flagDelete lines =>
    rw [Prod.mk.injEq] at h
    rw [keepSidecar_eq_ok h.2]
    exact .flagDelete
  | insertSubdir line =>
    simp only [Prod.mk.injEq, insertSubdir, bind_eq_ok, pure_eq_ok] at h
    obtain ⟨hw, document, hdoc, target, htarget, collected, hlist, hs⟩ := h
    rw [← hs]
    exact .insert (parsed_of_validated hdoc) htarget (hw ▸ hlist)
  | collapseSubdir line =>
    simp only [Prod.mk.injEq, collapseSubdir, bind_eq_ok, pure_eq_ok] at h
    obtain ⟨-, _, -, target, -, _, -, hs⟩ := h
    rw [← hs]
    exact .collapse _
  | refreshSubdir line =>
    simp only [Prod.mk.injEq, refreshSubdir, bind_eq_ok, ensure_eq_ok, pure_eq_ok] at h
    obtain ⟨hw, _, -, target, -, collected, hlist, -, hfind, _, -, hs⟩ := h
    rw [← hs]
    exact .refresh (hw ▸ hlist) hfind
  | transform transform now =>
    simp only [runTransform] at h
    split at h
    · simp at h
    · rename_i document hdoc
      split at h
      · simp at h
      · exact sidecarStep_of_change rfl hdoc h
  | bulk kind now =>
    simp only [runBulkOp] at h
    split at h
    · simp at h
    · rename_i document hdoc
      exact sidecarStep_of_change rfl hdoc h

end Host

end OnixCore.HxOil
