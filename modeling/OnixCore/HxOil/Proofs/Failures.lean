import OnixCore.HxOil.Proofs.Preflight

/-!
# When an apply fails after its dry-run

The converse of `Preflight`: where the root holds no symbolic link, an apply that runs to its end
had a session that keeps its parents. A plan with an operation needs its directory
(`executePlan_subdir_inv`), so the root's plan may not have taken it away; and a second plan of
an emptied block finds nothing left to delete.
-/

namespace OnixCore.HxOil

variable {γ E : Type} [Content γ] {links : Links γ E} {fresh : EntryKind → Stat}

section Steps

variable {β : Type}

/-- No entry of the directory is a symbolic link. -/
def LinkFree (d : Folder β) : Prop := ∀ n st t, d.lookup n ≠ some (.leaf st (.symlink t))

/-- After a step every entry is one from before, or new. -/
theorem lookup_performOperation [Content β] {d d' : Folder β} {op : Operation}
    (h : performOperation fresh d op = .ok d') {n : String} {o : Obj β}
    (ho : d'.lookup n = some o) :
    (∃ m, d.lookup m = some o) ∨ ∃ kind, o = newObj fresh kind := by
  have herase : ∀ {p : String}, (d.erase p).lookup n = some o → d.lookup n = some o := by
    intro p hp
    rw [Folder.lookup_erase_eq] at hp
    split_ifs at hp
    exact hp
  have hinsert : ∀ {p : String} {x : Obj β} {e : Folder β}, (e.insert p x).lookup n = some o →
      x = o ∨ e.lookup n = some o := by
    intro p x e hp
    rw [Folder.lookup_insert_eq] at hp
    split_ifs at hp
    · exact .inl (Option.some.inj hp)
    · exact .inr hp
  cases op with
  | delete path kind =>
    cases kind with
    | file => exact .inl ⟨n, herase ((Folder.removeFile_inv h).2 ▸ ho)⟩
    | directory => exact .inl ⟨n, herase ((Folder.removeDir_inv h).2 ▸ ho)⟩
  | rename source target kind =>
    obtain ⟨x, hx, rfl | rfl⟩ := Folder.rename_inv h
    · exact .inl ⟨n, ho⟩
    · rcases hinsert ho with rfl | ho
      · exact .inl ⟨source, hx⟩
      · exact .inl ⟨n, herase ho⟩
  | create path kind =>
    cases kind with
    | file =>
      rcases hinsert (Folder.createNew_inv h ▸ ho) with rfl | ho
      · exact .inr ⟨.file, rfl⟩
      · exact .inl ⟨n, ho⟩
    | directory =>
      rcases hinsert (Folder.createDir_inv h ▸ ho) with rfl | ho
      · exact .inr ⟨.directory, rfl⟩
      · exact .inl ⟨n, ho⟩

theorem withContext_eq_ok {α : Type} {m : String} {r : Except IoError α} {a : α} :
    withContext m r = .ok a ↔ r = .ok a := by
  cases r <;> simp [withContext, Except.mapError]

/-- A plan makes no symbolic link. -/
theorem linkFree_executePlan [Content β] (fresh : EntryKind → Stat) {d : Folder β}
    (h : LinkFree d) (plan : Plan) :
    LinkFree (executePlan (performOperation fresh) plan d).1 := by
  refine runAll_invariant (I := fun d : Folder β => LinkFree d) _ ?_ h
  intro op _ s s' hs hstep n st t hn
  rcases lookup_performOperation (withContext_eq_ok.1 hstep) hn with ⟨m, hm⟩ | ⟨kind, hk⟩
  · exact hs m st t hm
  · cases kind <;> simp [newObj] at hk

end Steps

section Inversion

variable {w w' : World γ E}

theorem mem_phases {plan : Plan} {op : Operation} : op ∈ plan.phases ↔ op ∈ plan.operations := by
  simp only [Plan.phases, List.mem_append, List.mem_filter]
  cases op <;> simp [Operation.isDelete, Operation.isRename, Operation.isCreate]

theorem executePlans_cons_inv {scope : EntryScope} {plan : Plan} {rest : List (EntryScope × Plan)}
    (h : executePlans links fresh ((scope, plan) :: rest) w = (w', .ok ())) :
    ∃ w₁, executePlan (World.perform links fresh scope) plan w = (w₁, .ok ())
      ∧ executePlans links fresh rest w₁ = (w', .ok ()) := by
  simp only [executePlans] at h
  split at h
  · rename_i w₁ hp
    exact ⟨w₁, hp, h⟩
  · simp at h

theorem executePlans_append_inv : ∀ {xs ys : List (EntryScope × Plan)} {w : World γ E},
    executePlans links fresh (xs ++ ys) w = (w', .ok ()) →
    ∃ w₁, executePlans links fresh xs w = (w₁, .ok ()) ∧ executePlans links fresh ys w₁ = (w', .ok ())
  | [], ys, w, h => ⟨w, rfl, h⟩
  | (scope, plan) :: xs, ys, w, h => by
    obtain ⟨w₁, hp, hrest⟩ := executePlans_cons_inv h
    obtain ⟨w₂, hxs, hys⟩ := executePlans_append_inv hrest
    exact ⟨w₂, (executePlans_cons_ok hp).trans hxs, hys⟩

/-- A plan of a subdirectory that runs to its end has nothing to do, or finds the directory and
changes nothing else. -/
theorem executePlan_subdir_inv {name : String} {plan : Plan} (hfree : LinkFree w.root)
    (h : executePlan (World.perform links fresh (.subdir name)) plan w = (w', .ok ())) :
    (plan.operations = [] ∧ w' = w) ∨ ∃ st sub sub', w.root.lookup name = some (.dir st sub)
      ∧ executePlan (performOperation fresh) plan sub = (sub', .ok ())
      ∧ w'.root.lookup name = some (.dir st sub')
      ∧ ∀ n ≠ name, w'.root.lookup n = w.root.lookup n := by
  by_cases hnil : plan.operations = []
  · rw [executePlan_of_nil hnil, Prod.mk.injEq] at h
    exact .inl ⟨hnil, h.1.symm⟩
  · right
    obtain ⟨op, hop⟩ := List.exists_mem_of_ne_nil _ hnil
    obtain ⟨first, more, hphases⟩ := List.exists_cons_of_ne_nil
      (List.ne_nil_of_mem (mem_phases.2 hop))
    have hfirst := h
    rw [executePlan, hphases] at hfirst
    obtain ⟨w₁, hstep, -⟩ := runAll_cons_inv hfirst
    rw [withContext_eq_ok] at hstep
    rcases hlook : w.root.lookup name with _ | ⟨st, bytes | target⟩ | ⟨st, sub⟩
    · simp [World.perform, hlook] at hstep
    · simp [World.perform, hlook] at hstep
    · exact absurd hlook (hfree name st target)
    · obtain ⟨⟨hname, hrest⟩, hok⟩ := executePlan_subdir links fresh hlook plan
      rw [h] at hname hrest hok
      exact ⟨st, sub, _, rfl, Prod.ext rfl hok.symm, hname, hrest⟩

theorem linkFree_subdir {name : String} {plan : Plan} (hfree : LinkFree w.root)
    (h : executePlan (World.perform links fresh (.subdir name)) plan w = (w', .ok ())) :
    LinkFree w'.root := by
  rcases executePlan_subdir_inv hfree h with ⟨-, rfl⟩ | ⟨st, sub, sub', -, -, hname, hrest⟩
  · exact hfree
  · intro n st' t hn
    by_cases heq : n = name
    · rw [heq, hname] at hn
      simp at hn
    · exact hfree n st' t (hrest n heq ▸ hn)

theorem linkFree_executePlans : ∀ {plans : List (EntryScope × Plan)} {w : World γ E},
    LinkFree w.root → (∀ p ∈ plans, p.1 ≠ .root) →
    executePlans links fresh plans w = (w', .ok ()) → LinkFree w'.root
  | [], w, hfree, _, h => by
    rw [executePlans, Prod.mk.injEq] at h
    exact h.1 ▸ hfree
  | (scope, plan) :: rest, w, hfree, hsub, h => by
    rw [List.forall_mem_cons] at hsub
    obtain ⟨w₁, hp, hrest⟩ := executePlans_cons_inv h
    rcases scope with _ | m
    · exact absurd rfl hsub.1
    · exact linkFree_executePlans (linkFree_subdir hfree hp) hsub.2 hrest

/-- Plans of other subdirectories leave an entry as it is. -/
theorem lookup_executePlans {name : String} : ∀ {plans : List (EntryScope × Plan)} {w : World γ E},
    LinkFree w.root → (∀ p ∈ plans, p.1 ≠ .root ∧ p.1 ≠ .subdir name) →
    executePlans links fresh plans w = (w', .ok ()) → w'.root.lookup name = w.root.lookup name
  | [], w, _, _, h => by
    rw [executePlans, Prod.mk.injEq] at h
    rw [h.1]
  | (scope, plan) :: rest, w, hfree, hother, h => by
    rw [List.forall_mem_cons] at hother
    obtain ⟨w₁, hp, hrest⟩ := executePlans_cons_inv h
    rcases scope with _ | m
    · exact absurd rfl hother.1.1
    · refine (lookup_executePlans (linkFree_subdir hfree hp) hother.2 hrest).trans ?_
      rcases executePlan_subdir_inv hfree hp with ⟨-, rfl⟩ | ⟨_, _, _, -, -, -, hsame⟩
      · rfl
      · exact hsame name fun heq => hother.1.2 (by rw [heq])

/-- Where there is no directory, no plan has anything to do. -/
theorem operations_eq_nil_of_noDir {name : String} :
    ∀ {plans : List (EntryScope × Plan)} {w : World γ E}, LinkFree w.root →
    (∀ st sub, w.root.lookup name ≠ some (.dir st sub)) → (∀ p ∈ plans, p.1 ≠ .root) →
    executePlans links fresh plans w = (w', .ok ()) →
    ∀ p ∈ plans, p.1 = .subdir name → p.2.operations = []
  | [], _, _, _, _, _ => by simp
  | (scope, plan) :: rest, w, hfree, hnone, hsub, h => by
    rw [List.forall_mem_cons] at hsub ⊢
    obtain ⟨w₁, hp, hrest⟩ := executePlans_cons_inv h
    rcases scope with _ | m
    · exact absurd rfl hsub.1
    · have hfree₁ := linkFree_subdir hfree hp
      rcases executePlan_subdir_inv hfree hp with ⟨hnil, rfl⟩ | ⟨st, sub, _, hm, -, -, hsame⟩
      · exact ⟨fun _ => hnil, operations_eq_nil_of_noDir hfree hnone hsub.2 hrest⟩
      · have hne : name ≠ m := fun heq => hnone st sub (heq ▸ hm)
        refine ⟨fun heq => absurd (EntryScope.subdir.inj heq).symm hne, ?_⟩
        refine operations_eq_nil_of_noDir hfree₁ (fun st' sub' => ?_) hsub.2 hrest
        rw [hsame name hne]
        exact hnone st' sub'

end Inversion

section Emptied

variable {w w' : World γ E} {sidecar : Sidecar} {document : ManifestDocument}

/-- A directory at `name` holds no other names than the listed ones. -/
def Holds (name : String) (names : List String) (w : World γ E) : Prop :=
  ∀ st sub, w.root.lookup name = some (.dir st sub) → ∀ n, (sub.lookup n).isSome → n ∈ names

theorem deletes_inv {root : String} : ∀ {es : List SnapshotEntry} {d d' : Folder γ},
    runAll (stepIn fresh root) (es.map fun e => .delete e.relativePath e.kind) d = (d', .ok ()) →
    (∀ e ∈ es.head?, (d.lookup e.relativePath).isSome)
      ∧ ∀ n, (d'.lookup n).isSome → (d.lookup n).isSome ∧ n ∉ es.map (·.relativePath)
  | [], d, d', h => by
    rw [List.map_nil, runAll_nil, Prod.mk.injEq] at h
    exact ⟨by simp, fun n hn => ⟨h.1 ▸ hn, by simp⟩⟩
  | e :: es, d, d', h => by
    obtain ⟨d₁, hstep, hrest⟩ := runAll_cons_inv h
    obtain ⟨-, hlater⟩ := deletes_inv hrest
    have hd₁ : (d.lookup e.relativePath).isSome ∧ d₁ = d.erase e.relativePath := by
      have hstep : performOperation fresh d (.delete e.relativePath e.kind) = .ok d₁ :=
        withContext_eq_ok.1 hstep
      rcases hk : e.kind with _ | _
      · rw [hk] at hstep
        exact Folder.removeFile_inv hstep
      · rw [hk] at hstep
        exact Folder.removeDir_inv hstep
    refine ⟨by simpa using hd₁.1, fun n hn => ?_⟩
    obtain ⟨hn₁, hnot⟩ := hlater n hn
    rw [hd₁.2, Folder.lookup_erase_eq] at hn₁
    split_ifs at hn₁ with heq
    · simp at hn₁
    · exact ⟨hn₁, by simpa [heq] using hnot⟩

theorem phases_emptiedPlan (sidecar : Sidecar) (state : SubdirState) :
    (emptiedPlan sidecar state).2.phases
      = state.entries.map fun e => .delete e.relativePath e.kind := by
  simp [Plan.phases, emptiedPlan, List.filter_map, Function.comp_def, Operation.isDelete,
    Operation.isRename, Operation.isCreate]

/-- The plan of an emptied block finds an entry to delete, and leaves none of the listed ones. -/
theorem emptiedPlan_inv {state : SubdirState} (hfree : LinkFree w.root)
    (hne : state.entries ≠ [])
    (h : executePlan (World.perform links fresh (.subdir state.relativePath))
      (emptiedPlan sidecar state).2 w = (w', .ok ())) :
    ¬ Holds state.relativePath [] w
      ∧ (Holds state.relativePath (state.entries.map (·.relativePath)) w →
        Holds state.relativePath [] w')
      ∧ ∀ n ≠ state.relativePath, w'.root.lookup n = w.root.lookup n := by
  rcases executePlan_subdir_inv hfree h with ⟨hnil, -⟩ | ⟨st, sub, sub', hlook, hrun, hlook', hrest⟩
  · simp [emptiedPlan, hne] at hnil
  · have hdel : runAll (stepIn fresh (emptiedPlan sidecar state).2.root)
        (state.entries.map fun e => .delete e.relativePath e.kind) sub = (sub', .ok ()) := by
      rw [← phases_emptiedPlan sidecar state]
      exact hrun
    obtain ⟨hhead, hleft⟩ := deletes_inv hdel
    refine ⟨fun hholds => ?_, fun hholds st' sub'' heq n hn => ?_, hrest⟩
    · obtain ⟨e, more, he⟩ := List.exists_cons_of_ne_nil hne
      have hmem := hholds st sub hlook e.relativePath (hhead e (by simp [he]))
      simp at hmem
    · rw [hlook', Option.some.injEq, Obj.dir.injEq] at heq
      obtain ⟨-, rfl⟩ := heq
      obtain ⟨hn, hnot⟩ := hleft n hn
      exact absurd (hholds st sub hlook n hn) hnot

omit [Content γ] in
theorem Holds.of_lookup {name : String} {names : List String} (h : Holds name names w)
    (heq : w'.root.lookup name = w.root.lookup name) : Holds name names w' :=
  fun st sub hlook => h st sub (heq ▸ hlook)

/-- No plan of an emptied block runs in a directory that holds nothing. -/
theorem emptied_ne_of_holds {name : String} : ∀ {states : List SubdirState} {w : World γ E},
    LinkFree w.root → Holds name [] w → (∀ a ∈ states, a.entries ≠ []) →
    executePlans links fresh (states.map (emptiedPlan sidecar)) w = (w', .ok ()) →
    ∀ a ∈ states, a.relativePath ≠ name
  | [], _, _, _, _, _ => by simp
  | a :: rest, w, hfree, hholds, hne, h => by
    rw [List.forall_mem_cons] at hne ⊢
    obtain ⟨w₁, hp, hrest⟩ := executePlans_cons_inv h
    obtain ⟨hsome, -, hsame⟩ := emptiedPlan_inv hfree hne.1 hp
    have hna : a.relativePath ≠ name := fun heq => hsome (heq ▸ hholds)
    exact ⟨hna, emptied_ne_of_holds (linkFree_subdir hfree hp)
      (hholds.of_lookup (hsame name hna.symm)) hne.2 hrest⟩

/-- Where the plans of the emptied blocks run, none of them comes after another state of its
path: going over the states, each empty block's directory holds nothing, or what the first state
still to come lists. -/
theorem single_of_executed : ∀ {states : List SubdirState} {w : World γ E}, LinkFree w.root →
    (∀ name ∈ document.visibleSubdirs, (∀ e ∈ document.entries, e.scope ≠ .subdir name) →
      Holds name [] w ∨ ∀ f, states.find? (fun s => s.relativePath = name) = some f →
        Holds name (f.entries.map (·.relativePath)) w) →
    executePlans links fresh ((states.filter (emptiedBlock document)).map (emptiedPlan sidecar)) w
      = (w', .ok ()) →
    states.Pairwise fun a b => a.relativePath = b.relativePath → emptiedBlock document b = false
  | [], _, _, _, _ => List.Pairwise.nil
  | a :: rest, w, hfree, hinv, h => by
    -- once the directory of `a` holds nothing, no later state of its path is emptied
    have hlater : ∀ {w₁ : World γ E}, LinkFree w₁.root → Holds a.relativePath [] w₁ →
        executePlans links fresh ((rest.filter (emptiedBlock document)).map (emptiedPlan sidecar)) w₁
          = (w', .ok ()) →
        ∀ b ∈ rest, a.relativePath = b.relativePath → emptiedBlock document b = false := by
      intro w₁ hfree₁ hholds hrest b hb heq
      by_contra hempty
      rw [Bool.not_eq_false] at hempty
      refine emptied_ne_of_holds hfree₁ hholds (fun x hx => ?_) hrest b
        (List.mem_filter.2 ⟨hb, hempty⟩) heq.symm
      exact (emptiedBlock_iff.1 (List.mem_filter.1 hx).2).2.2
    have hfind : ∀ {name : String}, name ≠ a.relativePath →
        (a :: rest).find? (fun s => s.relativePath = name)
          = rest.find? (fun s => s.relativePath = name) := by
      intro name hne
      exact List.find?_cons_of_neg (by simpa using hne.symm)
    rw [List.pairwise_cons]
    by_cases hempty : emptiedBlock document a = true
    · obtain ⟨hvis, hnone, hne⟩ := emptiedBlock_iff.1 hempty
      rw [List.filter_cons_of_pos hempty] at h
      obtain ⟨w₁, hp, hrest⟩ := executePlans_cons_inv h
      obtain ⟨hsome, hclear, hsame⟩ := emptiedPlan_inv hfree hne hp
      have hfree₁ := linkFree_subdir hfree hp
      have hholds : Holds a.relativePath [] w₁ := by
        rcases hinv _ hvis hnone with hnil | hfirst
        · exact absurd hnil hsome
        · exact hclear (hfirst a (by simp))
      refine ⟨hlater hfree₁ hholds hrest,
        single_of_executed hfree₁ (fun name hname hno => ?_) hrest⟩
      by_cases heq : name = a.relativePath
      · exact .inl (heq ▸ hholds)
      · rcases hinv name hname hno with hnil | hfirst
        · exact .inl (hnil.of_lookup (hsame name heq))
        · refine .inr fun f hf => ?_
          exact (hfirst f ((hfind heq).trans hf)).of_lookup (hsame name heq)
    · rw [List.filter_cons_of_neg hempty] at h
      by_cases hopen : a.relativePath ∈ document.visibleSubdirs
          ∧ ∀ e ∈ document.entries, e.scope ≠ .subdir a.relativePath
      · have hnil : a.entries = [] := by
          by_contra hne
          exact hempty (emptiedBlock_iff.2 ⟨hopen.1, hopen.2, hne⟩)
        have hholds : Holds a.relativePath [] w := by
          rcases hinv _ hopen.1 hopen.2 with hnil | hfirst
          · exact hnil
          · simpa [hnil] using hfirst a (by simp)
        refine ⟨hlater hfree hholds h, single_of_executed hfree (fun name hname hno => ?_) h⟩
        by_cases heq : name = a.relativePath
        · exact .inl (heq ▸ hholds)
        · exact (hinv name hname hno).imp id fun hfirst f hf => hfirst f ((hfind heq).trans hf)
      · refine ⟨fun b _ heq => ?_, single_of_executed hfree (fun name hname hno => ?_) h⟩
        · rw [Bool.eq_false_iff]
          intro hb
          obtain ⟨hvis, hnone, -⟩ := emptiedBlock_iff.1 hb
          exact hopen (heq ▸ ⟨hvis, hnone⟩)
        · have hne : name ≠ a.relativePath := fun heq => hopen (heq ▸ ⟨hname, hno⟩)
          exact (hinv name hname hno).imp id fun hfirst f hf => hfirst f ((hfind hne).trans hf)

end Emptied

section Exact

variable {session : Session} {document : ManifestDocument} {plans : List (EntryScope × Plan)}
  {w w' : World γ E}

/-- What the run of the root's plan leaves to the others: a directory is one the root's lines
keep, and the one that was checked. -/
theorem Accepted.root_stage (h : Accepted links session w document plans)
    (hlegal : ∀ e ∈ document.entries, legalComponent e.relativePath = true)
    (hfree : LinkFree w.root) {grouped emptied : List (EntryScope × Plan)}
    (hg : GroupedPlans session.sidecar document grouped) (hplans : plans = grouped ++ emptied)
    (hexec : executePlans links fresh plans w = (w', .ok ())) :
    ∃ subs w₁, (∀ p ∈ subs, p.1 ≠ .root) ∧ (∀ p ∈ grouped, p.1 ≠ .root → p ∈ subs)
      ∧ (∀ p ∈ subs, p ∈ grouped) ∧ executePlans links fresh (subs ++ emptied) w₁ = (w', .ok ())
      ∧ LinkFree w₁.root
      ∧ ∀ name st sub, w₁.root.lookup name = some (.dir st sub) →
        (keptLines document .root ≠ [] → (name, .directory) ∈ (keptLines document .root).map (·.key))
        ∧ ((name, .directory) ∈ session.sidecar.entries.map (·.key) →
          w.root.lookup name = some (.dir st sub)) := by
  obtain ⟨names, -, hscopes⟩ := groupedScopes_eq document
  rw [← hg.scopes] at hscopes
  have hsub : ∀ {ps : List (EntryScope × Plan)}, ps.map Prod.fst = names.map .subdir →
      ∀ p ∈ ps, p.1 ≠ .root := by
    intro ps hps p hp heq
    have hmem : p.1 ∈ names.map EntryScope.subdir := hps ▸ List.mem_map_of_mem hp
    simp [heq] at hmem
  by_cases hroot : keptLines document .root = []
  · rw [if_pos hroot, List.nil_append] at hscopes
    exact ⟨grouped, w, hsub hscopes, fun p hp _ => hp, fun p hp => hp, hplans ▸ hexec, hfree,
      fun name st sub hlook => ⟨fun hne => absurd hroot hne, fun _ => hlook⟩⟩
  · rw [if_neg hroot, List.singleton_append, List.map_eq_cons_iff] at hscopes
    obtain ⟨⟨_, plan⟩, rest, rfl, rfl, hrest⟩ := hscopes
    have hmem : (EntryScope.root, plan) ∈ plans := by simp [hplans]
    obtain ⟨hb, htgt, hleg⟩ := h.root_runnable hlegal hmem
    obtain ⟨d', hrun, -, happ⟩ :=
      executePlan_applies fresh h.rootCurrent (h.distinct .root) hleg hb htgt
    rw [hplans, List.cons_append] at hexec
    obtain ⟨w₁, hp, hlater⟩ := executePlans_cons_inv hexec
    obtain ⟨hd', -⟩ := executePlan_root links fresh w plan
    rw [hp, hrun] at hd'
    simp only [] at hd'
    refine ⟨rest, w₁, hsub hrest, fun p hp hne => ?_, fun p hp => List.mem_cons_of_mem _ hp, hlater,
      ?_, fun name st sub hlook => ?_⟩
    · rcases List.mem_cons.1 hp with rfl | hp
      · exact absurd rfl hne
      · exact hp
    · have := linkFree_executePlan fresh hfree plan
      rwa [hrun, ← hd'] at this
    · rw [hd'] at hlook
      have hkept := (happ.listing (name, .directory)).1 ⟨_, hlook, rfl⟩
      exact ⟨fun _ => hkept, fun hmem => (happ.kept _ hmem hkept).2 ▸ hlook⟩

/-- Without symbolic links the condition is also needed: a session whose plans run to the end
keeps its parents. -/
theorem keepsParents_of_executed (h : Accepted links session w document plans)
    (hlegal : ∀ e ∈ document.entries, legalComponent e.relativePath = true)
    (hfree : LinkFree w.root) (hexec : executePlans links fresh plans w = (w', .ok ())) :
    KeepsParents session.sidecar document := by
  obtain ⟨grouped, hg, hplans⟩ := buildApplyPlans_eq_ok.1 h.planned
  obtain ⟨subs, w₁, hsubs, hin, hof, hrun, hfree₁, hdirs⟩ :=
    h.root_stage hlegal hfree hg hplans hexec
  -- a visible inserted subdirectory is a directory of the root
  have hvisible : ∀ name ∈ document.visibleSubdirs, ∃ state st sub,
      session.sidecar.findSubdir name = some state ∧ w.root.lookup name = some (.dir st sub)
        ∧ snapshotListsMatch (collectSnapshot sub) state.entries = true := by
    intro name hname
    obtain ⟨state, sub, hfind, hread, hcur⟩ := h.subdirCurrent name hname
    rcases hlook : w.root.lookup name with _ | ⟨st, bytes | target⟩ | ⟨st, sub'⟩
    · obtain ⟨e, he, rfl⟩ := List.mem_map.1 (h.parents name hname)
      have hone := singleComponent_of_legal (hlegal e (List.mem_filter.1 he).1)
      simp [World.readSubdir, hlook, hone] at hread
    · simp [World.readSubdir, hlook] at hread
    · exact absurd hlook (hfree name st target)
    · simp only [World.readSubdir, hlook, Option.some.injEq] at hread
      exact ⟨state, st, sub', hfind, rfl, hread ▸ hcur⟩
  have hlisted : ∀ name ∈ document.visibleSubdirs,
      (name, .directory) ∈ session.sidecar.entries.map (·.key) := by
    intro name hname
    obtain ⟨_, st, sub, -, hlook, -⟩ := hvisible name hname
    exact (mem_of_current h.rootCurrent).2 ⟨_, hlook, rfl⟩
  have hchange : ∀ name, BlockChanges session.sidecar document name →
      name ∈ document.visibleSubdirs ∧ ∃ plan, (.subdir name, plan) ∈ subs
          ++ (emptiedStates session.sidecar document).map (emptiedPlan session.sidecar)
        ∧ plan.operations ≠ [] := by
    rintro name (⟨hkept, state, hfind, hdiff⟩ | ⟨state, hs, rfl⟩)
    · obtain ⟨e, he⟩ := List.exists_mem_of_ne_nil _ hkept
      obtain ⟨he, -, hsc⟩ := mem_keptLines.1 he
      have hname := h.visible he hsc
      obtain ⟨plan, hp⟩ := hg.exists_plan hkept
      refine ⟨hname, plan, List.mem_append_left _ (hin _ hp (by simp)), fun hnil => hdiff ?_⟩
      obtain ⟨original, ho, hb, -⟩ := planScope_eq_ok.1 (hg.planned hp)
      obtain ⟨state', _, sub, hfind', -, hcur⟩ := hvisible name hname
      rw [hfind, Option.some.injEq] at hfind'
      subst hfind'
      simp only [snapshotOf, hfind, pure_eq_ok] at ho
      subst ho
      refine (operations_eq_nil_iff hb ?_).1 hnil
      have hnd := nodup_of_current hcur
      rw [names_eq_keys] at hnd
      exact hnd.of_map
    · obtain ⟨hvis, -, hne⟩ := emptiedBlock_iff.1 (mem_emptiedStates.1 hs).2
      exact ⟨hvis, _, List.mem_append_right _ (List.mem_map_of_mem hs), by simp [hne]⟩
  have hnoroot : ∀ p ∈ subs
      ++ (emptiedStates session.sidecar document).map (emptiedPlan session.sidecar),
      p.1 ≠ .root := by
    intro p hp
    rcases List.mem_append.1 hp with hp | hp
    · exact hsubs p hp
    · obtain ⟨state, -, rfl⟩ := List.mem_map.1 hp
      simp [emptiedPlan]
  refine ⟨fun name hname => hlisted name (hchange name hname).1, fun name hname hroot => ?_, ?_⟩
  · obtain ⟨-, plan, hp, hne⟩ := hchange name hname
    by_contra hgone
    refine hne (operations_eq_nil_of_noDir hfree₁ (fun st sub hlook => ?_) hnoroot hrun _ hp rfl)
    exact hgone ((hdirs name st sub hlook).1 hroot)
  · obtain ⟨w₂, hfirst, hrest⟩ := executePlans_append_inv hrun
    have hother : ∀ name, (∀ e ∈ document.entries, e.scope ≠ .subdir name) →
        ∀ p ∈ subs, p.1 ≠ .root ∧ p.1 ≠ .subdir name := by
      intro name hnone p hp
      refine ⟨hsubs p hp, fun heq => ?_⟩
      have hmem : p.1 ∈ groupedScopes document.entries :=
        hg.scopes ▸ List.mem_map_of_mem (hof p hp)
      obtain ⟨e, he⟩ := List.exists_mem_of_ne_nil _ (mem_groupedScopes.1 hmem)
      obtain ⟨he, -, hsc⟩ := mem_keptLines.1 he
      exact hnone e he (hsc.trans heq)
    have hfree₂ := linkFree_executePlans hfree₁ hsubs hfirst
    refine single_of_executed hfree₂ (fun name hname hno => .inr fun f hf => ?_) hrest
    have hsame := lookup_executePlans hfree₁ (hother name hno) hfirst
    obtain ⟨state, st, sub, hfind, hlook, hcur⟩ := hvisible name hname
    have hfs : state = f := Option.some.inj (hfind.symm.trans hf)
    intro st' sub' hlook₂ n hn
    rw [hsame] at hlook₂
    have hlook' := (hdirs name st' sub' hlook₂).2 (hlisted name hname)
    rw [hlook, Option.some.injEq, Obj.dir.injEq] at hlook'
    obtain ⟨-, rfl⟩ := hlook'
    rw [← hfs, names_eq_keys]
    obtain ⟨o, ho⟩ := Option.isSome_iff_exists.1 hn
    exact List.mem_map.2 ⟨(n, kindOf o), (mem_of_current hcur).2 ⟨o, ho, rfl⟩, rfl⟩

/-- The apply after a dry-run: it executes every plan of the report and returns the report. -/
def AppliesAsReported (links : Links γ E) (fresh : EntryKind → Stat) (session : Session) (now : ℕ)
    (w : World γ E) (report : String) : Prop :=
  ∃ document plans w' s, preflight links session w = .ok (document, plans)
    ∧ report = renderPlans plans ∧ executePlans links fresh plans w = (w', .ok ())
    ∧ applyManifest links fresh session now w = (w', .ok (report, s))

/-- An accepted session applies as its dry-run reported when it keeps its parents, and where the
root has no symbolic links only then. -/
theorem appliesAsReported_of_keepsParents {report : String} (now : ℕ)
    (hdry : dryRunApply links session w = .ok report)
    (hparse : parseManifestDocument session.text = .ok document)
    (hlegal : ∀ e ∈ document.entries, legalComponent e.relativePath = true) :
    (KeepsParents session.sidecar document →
        AppliesAsReported links fresh session now w report)
      ∧ (LinkFree w.root → AppliesAsReported links fresh session now w report →
        KeepsParents session.sidecar document) := by
  obtain ⟨document', plans, hpre, hreport⟩ := dryRunApply_eq_ok.1 hdry
  have hacc := accepted_of_preflight hpre
  have hdoc : document' = document := Except.ok.inj (hacc.parsed.symm.trans hparse)
  subst hdoc
  constructor
  · intro hkeep
    obtain ⟨w', hexec⟩ := executePlans_of_keepsParents fresh hacc hlegal hkeep
    obtain ⟨s, hs⟩ := rewriteSessionFiles_ok links w' session.sidecar.root
      (some session.sidecar) document'.visibleSubdirs now
    refine ⟨document', plans, w', s, hpre, hreport.symm, hexec, ?_⟩
    simp only [applyManifest, hpre, hexec, hs, ← hreport]
    rfl
  · rintro hfree ⟨document, plans', w', s, hpre', -, hexec, -⟩
    rw [hpre, Except.ok.injEq, Prod.mk.injEq] at hpre'
    obtain ⟨rfl, rfl⟩ := hpre'
    exact keepsParents_of_executed hacc hlegal hfree hexec

/-- A root with an empty directory and a file, and no links. -/
def draftsWorld : World Unit Unit :=
  ⟨.ofList [("drafts", .dir ⟨1, 0⟩ ∅), ("keep.txt", .leaf ⟨2, 1⟩ (.regular [9]))], ()⟩

def noLinks : Links Unit Unit :=
  ⟨fun _ _ => none, fun _ _ => none, fun _ _ _ => .error .notFound⟩

/-- The sidecar of that root with its directory inserted. -/
def draftsSidecar : Sidecar :=
  ⟨2, "/r".toList, 5, 3, [⟨1, 0, "drafts", .directory, 1, 0⟩, ⟨2, 1, "keep.txt", .file, 2, 1⟩],
    [⟨"drafts", []⟩]⟩

/-- A manifest that adds a file to the directory; the two lines of the root are given. -/
def draftsText (drafts keep : String) : Text :=
  writeLines (["# hx-oil root: /r", "# blank lines and comment lines are ignored", drafts,
    "# hx-oil subdir: drafts", "      new.txt", "# hx-oil end-subdir: drafts", keep].map
      String.toList)

/-- The directory is flagged for deletion and gets a file all the same. -/
def flaggedParent : Session := ⟨draftsSidecar, draftsText "D drafts/" "  keep.txt"⟩

/-- The dry-run accepts the flagged parent; the apply deletes it and then fails. -/
theorem flaggedParent_fails :
    (parseManifestDocument flaggedParent.text).map
        (fun d => d.entries.all fun e => legalComponent e.relativePath) = .ok true
      ∧ dryRunApply noLinks flaggedParent draftsWorld
        = .ok "DELETE DIR drafts/\nCREATE FILE new.txt\n"
      ∧ (applyManifest noLinks mixedStamp flaggedParent 7 draftsWorld).2
        = .error "failed to create /r/drafts/new.txt: No such file or directory"
      ∧ (applyManifest noLinks mixedStamp flaggedParent 7 draftsWorld).1.root.lookup "drafts" = none
      ∧ ¬ AppliesAsReported noLinks mixedStamp flaggedParent 7 draftsWorld
        "DELETE DIR drafts/\nCREATE FILE new.txt\n" := by
  have hfail : (applyManifest noLinks mixedStamp flaggedParent 7 draftsWorld).2
      = .error "failed to create /r/drafts/new.txt: No such file or directory" := by decide
  refine ⟨by decide, by decide, hfail, by decide, ?_⟩
  rintro ⟨_, _, w', s, -, -, -, happly⟩
  rw [happly] at hfail
  simp at hfail

/-- The same edit with the directory kept and the file of the root flagged. -/
def keptParent : Session := ⟨draftsSidecar, draftsText "  drafts/" "D keep.txt"⟩

def keptParentDocument : ManifestDocument :=
  ⟨"/r".toList, [.entry ⟨"drafts", .directory, 3, .none, .root⟩, .subdirStart "drafts" 4,
    .entry ⟨"new.txt", .file, 5, .none, .subdir "drafts"⟩, .subdirEnd "drafts" 6,
    .entry ⟨"keep.txt", .file, 7, .deleteFlagged, .root⟩]⟩

theorem keptParent_keepsParents : KeepsParents draftsSidecar keptParentDocument := by
  have hscope : ∀ e ∈ keptParentDocument.entries, e.scope = .root ∨ e.scope = .subdir "drafts" := by
    decide
  have hname : ∀ name, BlockChanges draftsSidecar keptParentDocument name → name = "drafts" := by
    rintro name (⟨hkept, -⟩ | ⟨state, hs, -⟩)
    · obtain ⟨e, he⟩ := List.exists_mem_of_ne_nil _ hkept
      obtain ⟨he, -, hsc⟩ := mem_keptLines.1 he
      simpa [hsc] using hscope e he
    · exact absurd hs (by rw [show emptiedStates draftsSidecar keptParentDocument = [] by decide]; simp)
  refine ⟨fun name h => ?_, fun name h _ => ?_, by decide⟩
  · rw [hname name h]
    decide
  · rw [hname name h]
    decide

theorem keptParent_applies :
    AppliesAsReported noLinks mixedStamp keptParent 7 draftsWorld
      "DELETE FILE keep.txt\nCREATE FILE new.txt\n" :=
  (appliesAsReported_of_keepsParents 7 (by decide)
    (show parseManifestDocument keptParent.text = .ok keptParentDocument by decide)
    (by decide)).1 keptParent_keepsParents

end Exact

end OnixCore.HxOil
