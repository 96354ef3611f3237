import OnixCore.HxOil.Proofs.Plans
import OnixCore.HxOil.Proofs.SingleScope

/-!
# When an apply does what the dry-run said

The plans are checked against one state and executed one after another. A plan of a subdirectory
runs there as it would alone (`executePlan_subdir`), and plans of different subdirectories do not
meet; what comes between a plan and its check is the root's plan, which runs first and may take
the directory away, and an earlier plan of the same block. `KeepsParents` excludes both, and
under it every accepted session applies (`executePlans_of_keepsParents`).
-/

namespace OnixCore.HxOil

variable {γ E : Type} [Content γ] {links : Links γ E} {fresh : EntryKind → Stat}
  {w : World γ E}

section Worlds

theorem withContext_map {α α' : Type} (m : String) (r : Except IoError α) (f : α → α') :
    withContext m (r.map f) = (withContext m r).map f := by
  cases r <;> rfl

/-- A plan of the root does to the world what it does to the root directory. -/
theorem executePlan_root (links : Links γ E) (fresh : EntryKind → Stat) (w : World γ E)
    (plan : Plan) :
    (executePlan (World.perform links fresh .root) plan w).1.root
        = (executePlan (performOperation fresh) plan w.root).1
      ∧ (executePlan (World.perform links fresh .root) plan w).2
        = (executePlan (performOperation fresh) plan w.root).2 := by
  refine runAll_simulation (R := fun (w' : World γ E) d => w'.root = d) _ ?_ rfl
  rintro op - w' _ rfl
  simp only [World.perform, withContext_map]
  rcases withContext (op.context plan.root) (performOperation fresh w'.root op) with e | d'
  · rfl
  · rfl

/-- A plan of a subdirectory does to the world what it does to that directory. -/
theorem executePlan_subdir (links : Links γ E) (fresh : EntryKind → Stat) {name : String} {st : Stat} {sub : Folder γ}
    (h : w.root.lookup name = some (.dir st sub)) (plan : Plan) :
    ((executePlan (World.perform links fresh (.subdir name)) plan w).1.root.lookup name
          = some (.dir st (executePlan (performOperation fresh) plan sub).1)
        ∧ ∀ n ≠ name, (executePlan (World.perform links fresh (.subdir name)) plan w).1.root.lookup n
          = w.root.lookup n)
      ∧ (executePlan (World.perform links fresh (.subdir name)) plan w).2
        = (executePlan (performOperation fresh) plan sub).2 := by
  refine runAll_simulation (R := fun (w' : World γ E) sub' => w'.root.lookup name = some (.dir st sub')
    ∧ ∀ n ≠ name, w'.root.lookup n = w.root.lookup n) _ ?_ ⟨h, fun _ _ => rfl⟩
  rintro op - w' sub' ⟨hw, hrest⟩
  simp only [World.perform, hw, withContext_map]
  rcases withContext (op.context plan.root) (performOperation fresh sub' op) with e | d'
  · rfl
  · refine ⟨AList.lookup_insert _, fun n hn => ?_⟩
    rw [← hrest n hn]
    exact AList.lookup_insert_ne hn

theorem phases_of_nil {plan : Plan} (h : plan.operations = []) : plan.phases = [] := by
  simp [Plan.phases, h]

theorem executePlan_of_nil {σ : Type} {perform : σ → Operation → Except IoError σ} {plan : Plan}
    (h : plan.operations = []) (s : σ) : executePlan perform plan s = (s, .ok ()) := by
  rw [executePlan, phases_of_nil h, runAll_nil]

theorem executePlans_cons_ok {scope : EntryScope} {plan : Plan} {rest : List (EntryScope × Plan)}
    {w' : World γ E} (h : executePlan (World.perform links fresh scope) plan w = (w', .ok ())) :
    executePlans links fresh ((scope, plan) :: rest) w = executePlans links fresh rest w' := by
  simp only [executePlans, h]

/-- Plans of different subdirectories, each runnable in its own, run one after another. -/
theorem executePlans_subdirs : ∀ {plans : List (EntryScope × Plan)} {w : World γ E},
    (plans.map Prod.fst).Nodup →
    (∀ p ∈ plans, p.2.operations = [] ∨ ∃ name st sub, p.1 = .subdir name
      ∧ w.root.lookup name = some (.dir st sub) ∧ Runnable sub p.2.operations) →
    ∃ w', executePlans links fresh plans w = (w', .ok ())
  | [], w, _, _ => ⟨w, rfl⟩
  | (scope, plan) :: rest, w, hnd, hrun => by
    rw [List.map_cons, List.nodup_cons] at hnd
    rw [List.forall_mem_cons] at hrun
    rcases hrun.1 with hnil | ⟨name, st, sub, rfl, hlook, hplan⟩
    · rw [executePlans_cons_ok (executePlan_of_nil hnil w)]
      exact executePlans_subdirs hnd.2 hrun.2
    · obtain ⟨sub', hsub, -, -⟩ := hplan.run fresh
      obtain ⟨⟨-, hrest⟩, hok⟩ :=
        executePlan_subdir links fresh hlook plan
      rw [hsub] at hok
      rw [executePlans_cons_ok (Prod.ext rfl hok)]
      refine executePlans_subdirs hnd.2 fun p hp => ?_
      rcases hrun.2 p hp with hnil | ⟨name', st', sub', hscope, hlook', hplan'⟩
      · exact .inl hnil
      · refine .inr ⟨name', st', sub', hscope, ?_, hplan'⟩
        rw [hrest name' fun heq => ?_, hlook']
        rw [heq] at hscope
        exact hnd.1 (List.mem_map.2 ⟨p, hp, hscope⟩)

end Worlds

section Condition

variable (sidecar : Sidecar) (document : ManifestDocument)

/-- The block of an inserted subdirectory asks for a change: its unflagged lines do not list the
snapshot, or it is empty and the snapshot is not. -/
def BlockChanges (name : String) : Prop :=
  (keptLines document (.subdir name) ≠ [] ∧ ∃ state, sidecar.findSubdir name = some state
      ∧ ¬ ∀ k, k ∈ (keptLines document (.subdir name)).map (·.key) ↔ k ∈ state.entries.map (·.key))
    ∨ ∃ state ∈ emptiedStates sidecar document, state.relativePath = name

/-- The condition under which an apply does what its dry-run said. -/
structure KeepsParents : Prop where
  directory : ∀ name, BlockChanges sidecar document name →
    (name, .directory) ∈ sidecar.entries.map (·.key)
  parent : ∀ name, BlockChanges sidecar document name → keptLines document .root ≠ [] →
    (name, .directory) ∈ (keptLines document .root).map (·.key)
  single : sidecar.subdirs.Pairwise fun a b =>
    a.relativePath = b.relativePath → emptiedBlock document b = false

variable {sidecar document}

/-- The plan of an emptied block is the plan of a block without lines. -/
theorem buildPlan_emptied (sidecar : Sidecar) (state : SubdirState) :
    buildPlan ((EntryScope.subdir state.relativePath).absoluteRoot sidecar.rootPath) state.entries []
      = .ok (emptiedPlan sidecar state).2 := by
  rcases he : state.entries with _ | ⟨s, rest⟩
  · simp [buildPlan, exactMatches, planHunks, planHunk, slice, emptiedPlan, he]
  · simp [buildPlan, exactMatches, planHunks, planHunk, slice, emptiedPlan, he]

/-- Under the condition a state of an emptied block is the one every lookup finds. -/
theorem findSubdir_of_single {states : List SubdirState} {state : SubdirState}
    (h : states.Pairwise fun a b => a.relativePath = b.relativePath → emptiedBlock document b = false)
    (hmem : state ∈ states) (hempty : emptiedBlock document state = true) :
    states.find? (fun s => s.relativePath = state.relativePath) = some state := by
  induction states with
  | nil => simp at hmem
  | cons a rest ih =>
    rw [List.pairwise_cons] at h
    rcases List.mem_cons.1 hmem with rfl | hmem
    · simp
    · have hne : a.relativePath ≠ state.relativePath := fun heq => by
        simp [h.1 state hmem heq] at hempty
      rw [List.find?_cons_of_neg (by simpa using hne)]
      exact ih h.2 hmem

theorem nodup_emptiedStates
    (h : sidecar.subdirs.Pairwise fun a b =>
      a.relativePath = b.relativePath → emptiedBlock document b = false) :
    ((emptiedStates sidecar document).map (·.relativePath)).Nodup := by
  rw [List.Nodup, List.pairwise_map]
  refine (h.sublist List.filter_sublist).imp_of_mem fun {a b} _ hb hab heq => ?_
  have := (mem_emptiedStates.1 hb).2
  simp [hab heq] at this

end Condition

section Plans

variable {session : Session} {document : ManifestDocument} {plans : List (EntryScope × Plan)}

/-- Every plan of a session is the plan of the unflagged lines of its scope. -/
theorem Accepted.plan_of_mem (h : Accepted links session w document plans)
    {p : EntryScope × Plan} (hp : p ∈ plans) :
    (∃ original, snapshotOf session.sidecar p.1 = .ok original
      ∧ buildPlan (p.1.absoluteRoot session.sidecar.rootPath) original (keptLines document p.1)
        = .ok p.2 ∧ keptLines document p.1 ≠ [])
    ∨ ∃ state ∈ emptiedStates session.sidecar document, p = emptiedPlan session.sidecar state := by
  obtain ⟨grouped, hg, rfl⟩ := buildApplyPlans_eq_ok.1 h.planned
  rcases List.mem_append.1 hp with hp | hp
  · obtain ⟨original, ho, hb, -⟩ := planScope_eq_ok.1 (hg.planned hp)
    refine .inl ⟨original, ho, hb, mem_groupedScopes.1 ?_⟩
    rw [← hg.scopes]
    exact List.mem_map_of_mem hp
  · obtain ⟨state, hs, rfl⟩ := List.mem_map.1 hp
    exact .inr ⟨state, hs, rfl⟩

/-- The plan of the root runs. -/
theorem Accepted.root_runnable (h : Accepted links session w document plans)
    (hlegal : ∀ e ∈ document.entries, legalComponent e.relativePath = true) {plan : Plan}
    (hp : (.root, plan) ∈ plans) :
    buildPlan (EntryScope.root.absoluteRoot session.sidecar.rootPath) session.sidecar.entries
        (keptLines document .root) = .ok plan
      ∧ validateApplyTargets (links.isEmpty w) w.root plan = .ok ()
      ∧ ∀ e ∈ keptLines document .root, legalComponent e.relativePath = true := by
  refine ⟨?_, h.targets _ hp, fun e he => hlegal e (mem_keptLines.1 he).1⟩
  rcases h.plan_of_mem hp with ⟨original, ho, hb, -⟩ | ⟨state, -, hs⟩
  · simp only [snapshotOf, pure_eq_ok] at ho
    exact ho ▸ hb
  · simp [emptiedPlan] at hs

/-- The plan of a subdirectory runs in it, where the state it was built from is the one the
snapshot check looked at. -/
theorem Accepted.subdir_runnable (h : Accepted links session w document plans)
    (hlegal : ∀ e ∈ document.entries, legalComponent e.relativePath = true)
    (hsingle : ∀ state ∈ emptiedStates session.sidecar document,
      session.sidecar.findSubdir state.relativePath = some state)
    {name : String} {plan : Plan} (hp : (.subdir name, plan) ∈ plans) :
    ∃ sub, w.readSubdir links name = some sub ∧ Runnable sub plan.operations := by
  have hvalid := h.targets _ hp
  have hrun : ∀ {state : SubdirState} (root : String), name ∈ document.visibleSubdirs →
      session.sidecar.findSubdir name = some state →
      buildPlan root state.entries (keptLines document (.subdir name)) = .ok plan →
      ∃ sub, w.readSubdir links name = some sub ∧ Runnable sub plan.operations := by
    intro state _ hvis hfind hb
    obtain ⟨_, sub, hfind', hread, hcur⟩ := h.subdirCurrent name hvis
    rw [hfind, Option.some.injEq] at hfind'
    subst hfind'
    simp only [validateScopeTargets, hread] at hvalid
    exact ⟨sub, hread, runnable_of_checks hcur (h.distinct _)
      (fun e he => hlegal e (mem_keptLines.1 he).1) hb hvalid⟩
  rcases h.plan_of_mem hp with ⟨original, ho, hb, hne⟩ | ⟨state, hs, heq⟩
  · rcases hfind : session.sidecar.findSubdir name with _ | state
    · simp [snapshotOf, hfind] at ho
    · simp only [snapshotOf, hfind, pure_eq_ok] at ho
      subst ho
      obtain ⟨e, he⟩ := List.exists_mem_of_ne_nil _ hne
      obtain ⟨he, -, hsc⟩ := mem_keptLines.1 he
      exact hrun _ (h.visible he hsc) hfind hb
  · simp only [emptiedPlan, Prod.mk.injEq, EntryScope.subdir.injEq] at heq
    obtain ⟨rfl, hplan⟩ := heq
    obtain ⟨-, hempty⟩ := mem_emptiedStates.1 hs
    refine hrun ((EntryScope.subdir state.relativePath).absoluteRoot session.sidecar.rootPath)
      (emptiedBlock_iff.1 hempty).1 (hsingle state hs) ?_
    rw [keptLines_of_emptied hempty, hplan]
    exact buildPlan_emptied session.sidecar state

/-- A plan of a subdirectory with an operation belongs to a block that asks for a change. -/
theorem Accepted.blockChanges (h : Accepted links session w document plans) {name : String}
    {plan : Plan} (hp : (.subdir name, plan) ∈ plans) (hne : plan.operations ≠ []) :
    BlockChanges session.sidecar document name := by
  rcases h.plan_of_mem hp with ⟨original, ho, hb, hkept⟩ | ⟨state, hs, heq⟩
  · rcases hfind : session.sidecar.findSubdir name with _ | state
    · simp [snapshotOf, hfind] at ho
    · simp only [snapshotOf, hfind, pure_eq_ok] at ho
      subst ho
      obtain ⟨e, he⟩ := List.exists_mem_of_ne_nil _ hkept
      obtain ⟨he, -, hsc⟩ := mem_keptLines.1 he
      obtain ⟨_, sub, hfind', -, hcur⟩ := h.subdirCurrent name (h.visible he hsc)
      rw [hfind, Option.some.injEq] at hfind'
      subst hfind'
      refine .inl ⟨hkept, state, hfind, fun hsame => hne ?_⟩
      refine (operations_eq_nil_iff hb ?_).2 hsame
      have hnd := nodup_of_current hcur
      rw [names_eq_keys] at hnd
      exact hnd.of_map
  · simp only [emptiedPlan, Prod.mk.injEq, EntryScope.subdir.injEq] at heq
    exact .inr ⟨state, hs, heq.1.symm⟩

theorem nodup_scopes {grouped : List (EntryScope × Plan)}
    (hg : GroupedPlans session.sidecar document grouped)
    (hsingle : ((emptiedStates session.sidecar document).map (·.relativePath)).Nodup) :
    ((grouped ++ (emptiedStates session.sidecar document).map
      (emptiedPlan session.sidecar)).map Prod.fst).Nodup := by
  rw [List.map_append, List.nodup_append, hg.scopes]
  refine ⟨nodup_groupedScopes document, ?_, ?_⟩
  · rw [List.map_map]
    have := hsingle.map (f := EntryScope.subdir) fun a b heq => by simpa using heq
    rwa [List.map_map] at this
  · rintro scope hscope _ hmem rfl
    rw [List.map_map] at hmem
    obtain ⟨state, hs, rfl⟩ := List.mem_map.1 hmem
    exact mem_groupedScopes.1 hscope (keptLines_of_emptied (mem_emptiedStates.1 hs).2)

end Plans

section Rewrite

omit [Content γ] in
theorem rewriteSubdirs_ok (links : Links γ E) (w : World γ E) (previous : Option Sidecar)
    (known : List SnapshotEntry) (start : ℕ) :
    ∀ (names : List String) (next : ℕ),
      ∃ r, rewriteSubdirs links previous (collectSnapshotWithIds w.root known start).1 w next names
        = .ok r
  | [], next => ⟨_, rfl⟩
  | name :: rest, next => by
    unfold rewriteSubdirs
    split_ifs with hdir
    · obtain ⟨o, ho, hkind⟩ := mem_collectSnapshotWithIds.1 hdir
      cases o with
      | leaf st c => simp [kindOf] at hkind
      | dir st sub =>
        simp only [World.readSubdir, show w.root.lookup name = some (.dir st sub) from ho]
        obtain ⟨r, hr⟩ := rewriteSubdirs_ok links w previous known start rest
          (collectSnapshotWithIds sub
            (((previous.bind (·.findSubdir name)).map (·.entries)).getD []) next).2
        simp only [hr]
        exact ⟨_, rfl⟩
    · exact rewriteSubdirs_ok links w previous known start rest next

omit [Content γ] in
/-- A session can always be listed anew: what its snapshot calls a directory can be read. -/
theorem rewriteSessionFiles_ok (links : Links γ E) (w : World γ E) (root : Text)
    (previous : Option Sidecar) (names : List String) (now : ℕ) :
    ∃ s, rewriteSessionFiles links root previous names now w = .ok s := by
  unfold rewriteSessionFiles
  obtain ⟨r, hr⟩ := rewriteSubdirs_ok links w previous
    ((previous.map (·.entries)).getD []) ((previous.map (·.nextEntryId)).getD 1) names
    (collectSnapshotWithIds w.root ((previous.map (·.entries)).getD [])
      ((previous.map (·.nextEntryId)).getD 1)).2
  simp only [hr]
  exact ⟨_, rfl⟩

end Rewrite

section Enough

variable {session : Session} {document : ManifestDocument} {plans : List (EntryScope × Plan)}

/-- Under the condition every accepted session applies to its end. -/
theorem executePlans_of_keepsParents (fresh : EntryKind → Stat)
    (h : Accepted links session w document plans)
    (hlegal : ∀ e ∈ document.entries, legalComponent e.relativePath = true)
    (hkeep : KeepsParents session.sidecar document) :
    ∃ w', executePlans links fresh plans w = (w', .ok ()) := by
  obtain ⟨grouped, hg, hplans⟩ := buildApplyPlans_eq_ok.1 h.planned
  have hnd : (plans.map Prod.fst).Nodup := hplans ▸ nodup_scopes hg (nodup_emptiedStates hkeep.single)
  have hsingle : ∀ state ∈ emptiedStates session.sidecar document,
      session.sidecar.findSubdir state.relativePath = some state := fun state hs =>
    findSubdir_of_single hkeep.single (mem_emptiedStates.1 hs).1 (mem_emptiedStates.1 hs).2
  -- what a subdirectory needs of the world its plan starts in
  have hready : ∀ {p : EntryScope × Plan} {w' : World γ E}, p ∈ plans → p.1 ≠ .root →
      (∀ name, BlockChanges session.sidecar document name →
        w'.root.lookup name = w.root.lookup name) →
      p.2.operations = [] ∨ ∃ name st sub, p.1 = .subdir name
        ∧ w'.root.lookup name = some (.dir st sub) ∧ Runnable sub p.2.operations := by
    rintro ⟨scope, plan⟩ w' hp hroot hsame
    by_cases hnil : plan.operations = []
    · exact .inl hnil
    · rcases scope with _ | name
      · simp at hroot
      · have hchange := h.blockChanges hp hnil
        obtain ⟨o, ho, hkind⟩ := (mem_of_current h.rootCurrent).1 (hkeep.directory name hchange)
        obtain ⟨sub, hread, hrun⟩ := h.subdir_runnable hlegal hsingle hp
        cases o with
        | leaf st c => simp [kindOf] at hkind
        | dir st sub' =>
          rw [World.readSubdir, show w.root.lookup name = some (.dir st sub') from ho,
            Option.some.injEq] at hread
          subst hread
          exact .inr ⟨name, st, sub', rfl, (hsame name hchange).trans ho, hrun⟩
  obtain ⟨names, -, hscopes⟩ := groupedScopes_eq document
  rw [← hg.scopes] at hscopes
  by_cases hroot : keptLines document .root = []
  · refine executePlans_subdirs hnd fun p hp => hready hp (fun hp1 => ?_) fun _ _ => rfl
    rcases h.plan_of_mem hp with ⟨_, _, _, hne⟩ | ⟨state, _, heq⟩
    · exact hne (hp1 ▸ hroot)
    · simp [heq, emptiedPlan] at hp1
  · rw [if_neg hroot, List.singleton_append, List.map_eq_cons_iff] at hscopes
    obtain ⟨⟨_, plan⟩, rest, rfl, rfl, -⟩ := hscopes
    have hmem : (EntryScope.root, plan) ∈ plans := by simp [hplans]
    obtain ⟨hb, htgt, hleg⟩ := h.root_runnable hlegal hmem
    obtain ⟨d', hrun, -, happ⟩ :=
      executePlan_applies fresh h.rootCurrent (h.distinct .root) hleg hb htgt
    obtain ⟨hd', hok⟩ := executePlan_root links fresh w plan
    rw [hrun] at hd' hok
    rw [hplans, List.cons_append] at hnd ⊢
    rw [executePlans_cons_ok (Prod.ext rfl hok)]
    rw [List.map_cons, List.nodup_cons] at hnd
    refine executePlans_subdirs hnd.2 fun p hp => hready ?_ (fun hp1 => ?_) fun name hname => ?_
    · rw [hplans]
      exact List.mem_cons_of_mem _ hp
    · exact hnd.1 (List.mem_map.2 ⟨p, hp, hp1⟩)
    · rw [hd']
      exact (happ.kept _ (hkeep.directory name hname) (hkeep.parent name hname hroot)).2

end Enough

end OnixCore.HxOil
