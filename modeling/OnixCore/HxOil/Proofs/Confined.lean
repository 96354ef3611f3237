import OnixCore.HxOil.Paths
import OnixCore.HxOil.Proofs.Sidecar
import OnixCore.HxOil.Proofs.Unedited

/-!
# An apply stays below its root

The names in a plan come from the lines of the manifest, from its block markers and from the
sidecar. Lines are checked one by one and markers against the lines of the root
(`Accepted.operation_names`); names in the sidecar were read from a directory, whatever the user
typed (`oneComponent_reachable`). So every path an apply changes is an entry of the root, or of a
directory that has a line in the root and a block of its own (`callPaths_confined`).
-/

namespace OnixCore.HxOil

variable {γ E : Type}

/-- The path of an entry of a directory. -/
def entryPath (directory n : String) : String :=
  if directory = "" ∨ directory.toList.getLast? = some '/' then directory ++ n
  else directory ++ "/" ++ n

theorem joinPath_component {n : String} (h : singleComponent n = true) (directory : String) :
    joinPath directory n = entryPath directory n := by
  simp only [singleComponent, decide_eq_true_eq] at h
  have hhead : n.toList.head? ≠ some '/' := fun hn => h.2.2.2 (List.mem_of_mem_head? hn)
  rw [joinPath, if_neg hhead, entryPath]

/-- Every name in the snapshots is one component of a path. -/
structure Sidecar.OneComponent (s : Sidecar) : Prop where
  root : ∀ e ∈ s.entries, singleComponent e.relativePath = true
  subdirs : ∀ state ∈ s.subdirs, ∀ e ∈ state.entries, singleComponent e.relativePath = true

section Upgrade

theorem names_fillIds : ∀ (l : List SnapshotEntry) (next : ℕ),
    (fillIds next l).1.map (·.relativePath) = l.map (·.relativePath)
  | [], _ => rfl
  | e :: rest, next => by
    simp only [fillIds]
    split_ifs <;> simp [names_fillIds rest]

theorem mem_fillSubdirs : ∀ {l : List SubdirState} {next : ℕ} {state : SubdirState},
    state ∈ (fillSubdirs next l).1 →
    ∃ old ∈ l, state.entries.map (·.relativePath) = old.entries.map (·.relativePath)
  | [], _, _, h => by simp [fillSubdirs] at h
  | old :: rest, next, state, h => by
    rcases List.mem_cons.1 h with rfl | h
    · exact ⟨old, List.mem_cons_self, names_fillIds old.entries next⟩
    · obtain ⟨other, hother, heq⟩ := mem_fillSubdirs h
      exact ⟨other, List.mem_cons_of_mem _ hother, heq⟩

theorem forall_names {P : String → Prop} {l l' : List SnapshotEntry}
    (heq : l.map (·.relativePath) = l'.map (·.relativePath)) (h : ∀ e ∈ l', P e.relativePath) :
    ∀ e ∈ l, P e.relativePath := by
  have hnames : ∀ n ∈ l'.map (·.relativePath), P n := List.forall_mem_map.2 h
  rw [← heq] at hnames
  exact List.forall_mem_map.1 hnames

theorem Sidecar.OneComponent.upgrade {s : Sidecar} (h : s.OneComponent) :
    (upgradeSidecar s).OneComponent := by
  refine ⟨forall_names (P := fun n => singleComponent n = true) (names_fillIds s.entries _) h.root,
    fun state hs => ?_⟩
  obtain ⟨old, hold, heq⟩ := mem_fillSubdirs hs
  exact forall_names (P := fun n => singleComponent n = true) heq (h.subdirs old hold)

end Upgrade

section Invariant

variable {links : Links γ E} {w : World γ E}

theorem World.Legal.listing (hw : w.Legal links) {name : String} {sub : Folder γ}
    (hread : w.readSubdir links name = some sub) {l : List SnapshotEntry}
    (hkeys : ∀ k ∈ l.map (·.key), ∃ o, sub.lookup k.1 = some o ∧ kindOf o = k.2) :
    ∀ e ∈ l, singleComponent e.relativePath = true := by
  intro e he
  obtain ⟨o, ho, -⟩ := hkeys e.key (List.mem_map_of_mem he)
  exact hw.subdir name sub hread e.relativePath (Option.isSome_iff_exists.2 ⟨o, ho⟩)

theorem oneComponent_rewrite (hw : w.Legal links) {root : Text} {previous : Option Sidecar}
    {names : List String} {now : ℕ} {session : Session}
    (h : rewriteSessionFiles links root previous names now w = .ok session) :
    session.sidecar.OneComponent := by
  simp only [rewriteSessionFiles, bind_eq_ok, pure_eq_ok] at h
  obtain ⟨subdirs, hsub, rfl⟩ := h
  refine ⟨fun e he => ?_, fun state hs => ?_⟩
  · obtain ⟨o, ho, -⟩ := mem_collectSnapshotWithIds.1 (List.mem_map_of_mem he)
    exact hw.root e.relativePath (Option.isSome_iff_exists.2 ⟨o, ho⟩)
  · obtain ⟨sub, hread, hkeys⟩ := mem_rewriteSubdirs hsub state hs
    exact hw.listing hread fun k hk => (hkeys k).1 hk

theorem oneComponent_collect (hw : w.Legal links) {s : Sidecar} {name : String}
    {collected : List SnapshotEntry × ℕ} (h : collectSubdir links s name w = .ok collected) :
    ∀ e ∈ collected.1, singleComponent e.relativePath = true := by
  unfold collectSubdir at h
  split at h
  · rename_i sub hread
    rw [pure_eq_ok] at h
    subst h
    exact hw.listing hread fun k hk => mem_collectSnapshotWithIds.1 hk
  · simp at h

theorem oneComponent_step {stored : Session} {op : SessionOp γ E} {new : Sidecar}
    (hw : w.Legal links) (h : stored.sidecar.OneComponent)
    (hstep : SidecarStep links stored w op new) : new.OneComponent := by
  cases hstep with
  | edit => exact h
  | external => exact h
  | markToggle => exact h
  | clearMarks => exact h
  | flagDelete => exact h
  | rewrite _ _ hwrite => exact oneComponent_rewrite hw hwrite
  | insert _ _ hlist =>
    refine ⟨h.upgrade.root, fun state hs => ?_⟩
    rcases List.mem_append.1 hs with hs | hs
    · exact h.upgrade.subdirs state hs
    · obtain rfl := List.mem_singleton.1 hs
      exact oneComponent_collect hw hlist
  | collapse keep =>
    exact ⟨h.upgrade.root, fun state hs => h.upgrade.subdirs state (List.mem_filter.1 hs).1⟩
  | @refresh _ target collected hlist hfind =>
    refine ⟨h.upgrade.root, fun state hs => ?_⟩
    obtain ⟨old, before, after, -, -, hsplit, hset⟩ := setSubdir_split collected.1 hfind
    have hold := h.upgrade.subdirs
    rw [hsplit] at hold
    rw [hset] at hs
    rcases List.mem_append.1 hs with hs | hs
    · exact hold state (List.mem_append_left _ hs)
    · rcases List.mem_cons.1 hs with rfl | hs
      · exact oneComponent_collect hw hlist
      · exact hold state (List.mem_append_right _ (List.mem_cons_of_mem _ hs))

/-- Whatever the user types, the snapshots of a session hold names of single entries. -/
theorem oneComponent_reachable [Content γ] {host : Host γ E} {s : SessionState host}
    (h : ReachableSession host s) : s.session.sidecar.OneComponent :=
  Reachable.invariant (I := fun s : SessionState host => s.session.sidecar.OneComponent)
    (fun s hs => by
      obtain ⟨root, now, hwrite⟩ := hs
      exact oneComponent_rewrite s.legal hwrite)
    (fun _ _ t hs hstep => oneComponent_step t.legal hs (sidecarStep_of_step hstep)) h

end Invariant

section Plans

theorem singleComponent_of_validate {name : String} {kind : EntryKind} {lineNumber : ℕ}
    (h : validateEntryName name kind lineNumber = .ok ()) : singleComponent name = true := by
  simp only [validateEntryName, bind_eq_ok, ensure_eq_ok] at h
  obtain ⟨_, hne, -, -, -, hslash, -, hdots, -⟩ := h
  simp only [singleComponent, decide_eq_true_eq]
  exact ⟨hne, hdots.1, hdots.2, hslash⟩

/-- A plan names entries of the snapshot and of the edited lines only. -/
theorem names_buildPlan {root : String} {original : List SnapshotEntry} {edited : List ManifestEntry}
    {plan : Plan} (h : buildPlan root original edited = .ok plan) {op : Operation}
    (hop : op ∈ plan.operations) {n : String} (hn : n ∈ op.names) :
    n ∈ original.map (·.relativePath) ∨ n ∈ edited.map (·.relativePath) := by
  obtain ⟨kept, hacc, -⟩ := buildPlan_accounts h
  have horiginal : ∀ k : Key, k ∈ original.map (·.key) → k.1 ∈ original.map (·.relativePath) := by
    intro k hk
    rw [names_eq_keys]
    exact List.mem_map_of_mem hk
  have hedited : ∀ k : Key, k ∈ edited.map (·.key) → k.1 ∈ edited.map (·.relativePath) := by
    intro k hk
    obtain ⟨e, he, rfl⟩ := List.mem_map.1 hk
    exact List.mem_map_of_mem he
  cases op with
  | create path kind =>
    rw [List.mem_singleton.1 hn]
    exact .inr (hedited (path, kind) (hacc.mem_edited.2 (.inr (.inr (mem_createdKeys.2 hop)))))
  | delete path kind =>
    rw [List.mem_singleton.1 hn]
    exact .inl (horiginal (path, kind) (hacc.mem_original.2 (.inr (.inl (mem_deletedKeys.2 hop)))))
  | rename source target kind =>
    rcases List.mem_cons.1 hn with rfl | hn
    · exact .inl (horiginal (n, kind)
        (hacc.mem_original.2 (.inr (.inr (mem_renamedFrom.2 ⟨target, hop⟩)))))
    · rw [List.mem_singleton.1 hn]
      exact .inr (hedited (target, kind)
        (hacc.mem_edited.2 (.inr (.inl (mem_renamedTo.2 ⟨source, hop⟩)))))

/-- A directory with a line in the root listing and a block of its own. -/
structure Inserted (document : ManifestDocument) (d : String) : Prop where
  component : singleComponent d = true
  line : d ∈ rootDirectoryLines document
  block : d ∈ document.visibleSubdirs

variable [Content γ] {links : Links γ E} {session : Session} {w : World γ E}
  {document : ManifestDocument} {plans : List (EntryScope × Plan)}

theorem Accepted.component (h : Accepted links session w document plans) {e : ManifestEntry}
    (he : e ∈ document.entries) : singleComponent e.relativePath = true :=
  singleComponent_of_validate ((names_of_validate h.entries).1 e he)

theorem Accepted.inserted (h : Accepted links session w document plans) {d : String}
    (hd : d ∈ document.visibleSubdirs) : Inserted document d := by
  refine ⟨?_, h.parents d hd, hd⟩
  obtain ⟨e, he, rfl⟩ := List.mem_map.1 (h.parents d hd)
  exact h.component (List.mem_filter.1 he).1

/-- Every plan is of the root or of an inserted directory, and names single entries. -/
theorem Accepted.operation_names (h : Accepted links session w document plans)
    (hone : session.sidecar.OneComponent) {p : EntryScope × Plan} (hp : p ∈ plans) :
    (∀ d, p.1 = .subdir d → Inserted document d)
      ∧ ∀ op ∈ p.2.operations, ∀ n ∈ op.names, singleComponent n = true := by
  rcases h.plan_of_mem hp with ⟨original, ho, hb, hne⟩ | ⟨state, hs, rfl⟩
  · refine ⟨fun d hd => ?_, fun op hop n hn => ?_⟩
    · obtain ⟨e, he⟩ := List.exists_mem_of_ne_nil _ hne
      obtain ⟨he, -, hscope⟩ := mem_keptLines.1 he
      exact h.inserted (h.visible he (hscope.trans hd))
    · have horiginal : ∀ e ∈ original, singleComponent e.relativePath = true := by
        rcases hscope : p.1 with _ | d
        · rw [hscope, snapshotOf, pure_eq_ok] at ho
          exact ho ▸ hone.root
        · rcases hfind : session.sidecar.findSubdir d with _ | state
          · simp [hscope, snapshotOf, hfind] at ho
          · simp only [hscope, snapshotOf, hfind, pure_eq_ok] at ho
            exact ho ▸ hone.subdirs state (findSubdir_eq_some hfind).1
      rcases names_buildPlan hb hop hn with hn | hn
      · obtain ⟨e, he, rfl⟩ := List.mem_map.1 hn
        exact horiginal e he
      · obtain ⟨e, he, rfl⟩ := List.mem_map.1 hn
        exact h.component (mem_keptLines.1 he).1
  · obtain ⟨hmem, hempty⟩ := mem_emptiedStates.1 hs
    refine ⟨fun d hd => ?_, fun op hop n hn => ?_⟩
    · obtain rfl : state.relativePath = d := by simpa [emptiedPlan] using hd
      exact h.inserted (emptiedBlock_iff.1 hempty).1
    · obtain ⟨e, he, rfl⟩ := List.mem_map.1 hop
      rw [List.mem_singleton.1 hn]
      exact hone.subdirs state hmem e he

end Plans

section Apply

variable [Content γ]

/-- The path of an entry of the root, or of an entry of an inserted directory. -/
def Confined (root : String) (document : ManifestDocument) (path : String) : Prop :=
  (∃ n, singleComponent n = true ∧ path = entryPath root n)
    ∨ ∃ d n, Inserted document d ∧ singleComponent n = true
      ∧ path = entryPath (entryPath root d) n

omit [Content γ] in
theorem confined_of_names {root : String} {document : ManifestDocument} {scope : EntryScope}
    (hscope : ∀ d, scope = .subdir d → Inserted document d) {op : Operation}
    (hop : ∀ n ∈ op.names, singleComponent n = true) :
    ∀ path ∈ op.paths (scope.scopeRoot root), Confined root document path := by
  intro path hpath
  obtain ⟨n, hn, rfl⟩ := List.mem_map.1 hpath
  rw [joinPath_component (hop n hn)]
  cases scope with
  | root => exact .inl ⟨n, hop n hn, rfl⟩
  | subdir d =>
    have hd := hscope d rfl
    refine .inr ⟨d, n, hd, hop n hn, ?_⟩
    rw [EntryScope.scopeRoot, joinPath_component hd.component]

variable {links : Links γ E} {fresh : EntryKind → Stat} {root : String}

/-- Keeping the record changes nothing else. -/
theorem recordPlans_world : ∀ (plans : List (EntryScope × Plan)) (s : World γ E × List String),
    (recordPlans links fresh root plans s).1 = (executePlans links fresh plans s.1).1
  | [], s => rfl
  | p :: rest, s => by
    obtain ⟨hworld, hres⟩ := runAll_simulation
      (f := fun op s => withContext (op.context p.2.root) (recorded links fresh root p.1 s op))
      (g := fun op w => withContext (op.context p.2.root) (World.perform links fresh p.1 w op))
      (R := fun s w => s.1 = w) p.2.phases (s := s) (t := s.1) (fun op _ s w hs => by
        subst hs
        rcases h : World.perform links fresh p.1 s.1 op with e | w' <;>
          simp [recorded, h, withContext, Except.map, Except.mapError]) rfl
    rcases hrec : executePlan (recorded links fresh root p.1) p.2 s with ⟨s', r⟩
    rcases hexec : executePlan (World.perform links fresh p.1) p.2 s.1 with ⟨w', r'⟩
    unfold executePlan at hrec hexec
    rw [hrec, hexec] at hworld hres
    obtain rfl : s'.1 = w' := hworld
    obtain rfl : r = r' := hres
    rcases r with e | u
    · simp only [recordPlans, executePlans, executePlan, hrec, hexec]
    · simp only [recordPlans, executePlans, executePlan, hrec, hexec]
      exact recordPlans_world rest s'

theorem recorded_eq_ok {scope : EntryScope} {s s' : World γ E × List String} {op : Operation}
    (h : recorded links fresh root scope s op = .ok s') :
    s'.2 = s.2 ++ op.paths (scope.scopeRoot root) := by
  unfold recorded at h
  rcases hw : World.perform links fresh scope s.1 op with e | w'
  · simp [hw, Except.map] at h
  · simp only [hw, Except.map, Except.ok.injEq] at h
    rw [← h]

/-- What takes effect is among the calls of the plans. -/
theorem recordPlans_subset : ∀ {plans : List (EntryScope × Plan)} {s : World γ E × List String},
    (recordPlans links fresh root plans s).2 ⊆ s.2 ++ plansPaths root plans
  | [], s => by simp [recordPlans]
  | p :: rest, s => by
    have hrun := runAll_invariant
      (f := fun op s => withContext (op.context p.2.root) (recorded links fresh root p.1 s op))
      (I := fun t => t.2 ⊆ s.2 ++ p.2.phases.flatMap (·.paths (p.1.scopeRoot root))) p.2.phases
      (s := s) (fun op hop t t' ht h => by
        rw [recorded_eq_ok (withContext_eq_ok.1 h)]
        exact List.append_subset.2 ⟨ht, fun path hpath =>
          List.mem_append_right _ (List.mem_flatMap.2 ⟨op, hop, hpath⟩)⟩)
      (List.subset_append_left _ _)
    rw [plansPaths, List.flatMap_cons, ← List.append_assoc, ← plansPaths]
    rcases hrec : executePlan (recorded links fresh root p.1) p.2 s with ⟨s', e | u⟩
    · simp only [recordPlans, hrec]
      unfold executePlan at hrec
      rw [hrec] at hrun
      exact List.subset_append_of_subset_left _ hrun
    · simp only [recordPlans, hrec]
      unfold executePlan at hrec
      rw [hrec] at hrun
      refine List.Subset.trans recordPlans_subset
        (List.append_subset.2 ⟨?_, List.subset_append_right _ _⟩)
      exact List.subset_append_of_subset_left _ hrun

/-- Whatever the text says, every path an apply deletes, renames or creates is an entry of the root
or of an inserted directory of it. -/
theorem callPaths_confined {host : Host γ E} {s : SessionState host}
    (hs : ReachableSession host s) (text : Text) :
    ∀ path ∈ callPaths host.links (loadSession { s.session with text }) s.world,
      ∃ document, parseManifestDocument text = .ok document
        ∧ Confined s.session.sidecar.rootPath document path := by
  intro path hpath
  unfold callPaths at hpath
  split at hpath
  · rename_i accepted hpre
    have hacc := accepted_of_preflight hpre
    refine ⟨accepted.1, hacc.parsed, ?_⟩
    obtain ⟨p, hp, hpath⟩ := List.mem_flatMap.1 hpath
    obtain ⟨op, hop, hpath⟩ := List.mem_flatMap.1 hpath
    obtain ⟨hscope, hnames⟩ := hacc.operation_names (oneComponent_reachable hs).upgrade hp
    exact confined_of_names hscope (hnames op (mem_phases.1 hop)) path hpath
  · simp at hpath

end Apply

/-- The inserted block gets a second file, and the root a directory. -/
def grownText : Text :=
  writeLines (["# hx-oil root: /r", "  notes/", "# hx-oil subdir: notes", "      a.txt",
    "      b.txt", "# hx-oil end-subdir: notes", "new/"].map String.toList)

theorem grownText_confined :
    callPaths plainHost.links (loadSession { notesInserted with text := grownText }) notesWorld
        = ["/r/new", "/r/notes/b.txt"]
      ∧ ∀ path ∈ callPaths plainHost.links (loadSession { notesInserted with text := grownText })
          notesWorld, ∃ document, parseManifestDocument grownText = .ok document
        ∧ Confined notesInserted.sidecar.rootPath document path :=
  ⟨by decide, callPaths_confined notesInserted_reachable grownText⟩

end OnixCore.HxOil
