import OnixCore.HxOil.Proofs.Execution

/-!
# One scope: from an accepted plan to the edited listing

The snapshot is current, so what a plan deletes or renames is in the directory; the target check
leaves every other name the plan uses free or deleted. So the plan is runnable
(`runnable_of_checks`), and what the run leaves, read against the accounts of the plan, is the
edited listing.
-/

namespace OnixCore.HxOil

variable {β : Type} [Content β] {linkEmpty : String → Option Bool} {d : Folder β} {plan : Plan}

section TargetChecks

theorem mem_deletePaths {ops : List Operation} {n : String} :
    n ∈ deletePaths ops ↔ n ∈ (deletedKeys ops).map Prod.fst := by
  have h : deletePaths ops = (deletedKeys ops).map Prod.fst := by
    rw [deletePaths, deletedKeys, List.map_filterMap]
    refine List.filterMap_congr fun op _ => ?_
    cases op <;> rfl
  rw [h]

/-- What the target check says of each operation. -/
structure TargetsFree (d : Folder β) (ops : List Operation) : Prop where
  emptyDir : ∀ path, .delete path .directory ∈ ops → ∀ st sub,
    d.lookup path = some (.dir st sub) → Content.isEmpty sub = true
  create : ∀ path kind, .create path kind ∈ ops →
    d.lookup path = none ∨ path ∈ (deletedKeys ops).map Prod.fst
  rename : ∀ source target kind, .rename source target kind ∈ ops → source ≠ target →
    d.lookup target = none ∨ target ∈ (deletedKeys ops).map Prod.fst

omit [Content β] in
theorem free_of_names {n : String} {P : Prop}
    (h : n ∈ (collectSnapshot d).map (·.relativePath) → P) : d.lookup n = none ∨ P := by
  rcases hn : d.lookup n with _ | o
  · exact .inl rfl
  · exact .inr (h (mem_names_collectSnapshot.2 (by simp [hn])))

theorem targetsFree_of_validate (h : validateApplyTargets linkEmpty d plan = .ok ()) :
    TargetsFree d plan.operations := by
  simp only [validateApplyTargets, bind_eq_ok] at h
  obtain ⟨u, hdel, htgt⟩ := h
  rw [forM_eq_ok] at hdel htgt
  constructor
  · intro path hop st sub hsub
    have hcheck := hdel _ hop
    simpa only [hsub, ensure_eq_ok] using hcheck
  · intro path kind hop
    have hcheck := htgt _ hop
    simp only [ensure_eq_ok, mem_deletePaths] at hcheck
    exact free_of_names hcheck
  · intro source target kind hop hne
    have hcheck := htgt _ hop
    simp only [ensure_eq_ok, mem_deletePaths] at hcheck
    exact free_of_names (hcheck hne)

end TargetChecks

section Sides

variable {o e kept : List Key} {ops : List Operation} {k : Key}

theorem Accounts.mem_original (h : Accounts o e ops kept) :
    k ∈ o ↔ k ∈ kept ∨ k ∈ deletedKeys ops ∨ k ∈ renamedFrom ops := by
  rw [h.original.mem_iff, List.mem_append, List.mem_append]

theorem Accounts.mem_edited (h : Accounts o e ops kept) :
    k ∈ e ↔ k ∈ kept ∨ k ∈ renamedTo ops ∨ k ∈ createdKeys ops := by
  rw [h.edited.mem_iff, List.mem_append, List.mem_append]

/-- Names that occur once in a list occur on one side only of what accounts for it. -/
theorem name_notMem {l a b : List Key} (hp : l.Perm (a ++ b)) (hnd : (l.map Prod.fst).Nodup)
    (hk : k ∈ a) : k.1 ∉ b.map Prod.fst := by
  have := (hp.map Prod.fst).nodup_iff.1 hnd
  rw [List.map_append, List.nodup_append] at this
  exact fun hb => this.2.2 _ (List.mem_map_of_mem hk) _ hb rfl

theorem names_nodup {l a b : List Key} (hp : l.Perm (a ++ b)) (hnd : (l.map Prod.fst).Nodup) :
    (b.map Prod.fst).Nodup := by
  have := (hp.map Prod.fst).nodup_iff.1 hnd
  rw [List.map_append, List.nodup_append] at this
  exact this.2.1

end Sides

section Apply

variable {original : List SnapshotEntry} {edited : List ManifestEntry} {root : String}

/-- An accepted plan for a current snapshot and an edited list of distinct legal names runs. -/
theorem runnable_of_checks
    (hcur : snapshotListsMatch (collectSnapshot d) original = true)
    (hnd : (edited.map (·.relativePath)).Nodup)
    (hlegal : ∀ e ∈ edited, legalComponent e.relativePath = true)
    (hplan : buildPlan root original edited = .ok plan)
    (htgt : validateApplyTargets linkEmpty d plan = .ok ()) : Runnable d plan.operations := by
  obtain ⟨kept, hacc, hnew⟩ := buildPlan_accounts hplan
  have hfree := targetsFree_of_validate htgt
  have hndO : ((original.map (·.key)).map Prod.fst).Nodup := by
    rw [← names_eq_keys]
    exact nodup_of_current hcur
  have hndE : ((edited.map (·.key)).map Prod.fst).Nodup := by
    simpa [ManifestEntry.key, Function.comp_def] using hnd
  have hin : ∀ k ∈ deletedKeys plan.operations ++ renamedFrom plan.operations,
      ∃ o, d.lookup k.1 = some o ∧ kindOf o = k.2 := by
    intro k hk
    exact (mem_of_current hcur).1 (hacc.mem_original.2 (.inr (List.mem_append.1 hk)))
  constructor
  · intro k hk
    obtain ⟨o, ho, hkind⟩ := hin k (List.mem_append_left _ hk)
    refine ⟨o, ho, ?_⟩
    cases o with
    | leaf st c => exact hkind.symm
    | dir st sub =>
      have hdir : k.2 = .directory := hkind.symm
      have hop : .delete k.1 .directory ∈ plan.operations := hdir ▸ mem_deletedKeys.1 hk
      exact ⟨hdir, hfree.emptyDir k.1 hop st sub ho⟩
  · intro k hk
    obtain ⟨o, ho, -⟩ := hin k (List.mem_append_right _ hk)
    rw [ho]
    rfl
  · exact names_nodup hacc.original hndO
  · exact names_nodup hacc.edited hndE
  · intro k hk
    have hke := hacc.mem_edited.2 (.inr (List.mem_append.1 hk))
    obtain ⟨e, he, rfl⟩ := List.mem_map.1 hke
    exact hlegal e he
  · intro k hk
    rcases List.mem_append.1 hk with hT | hC
    · obtain ⟨source, hop⟩ := mem_renamedTo.1 hT
      refine hfree.rename source k.1 k.2 hop fun hs => hnew k hk ?_
      -- a rename to its own name would be an exact match
      have hsource : (source, k.2) ∈ renamedFrom plan.operations := mem_renamedFrom.2 ⟨_, hop⟩
      rw [hs] at hsource
      exact hacc.mem_original.2 (.inr (.inr hsource))
    · exact hfree.create k.1 k.2 (mem_createdKeys.1 hC)

/-- `d'` is what applying the edited list to `d` is for: the listing is the edited one, and each
entry of it is the old one of that name and kind, a renamed one, or new and empty. -/
structure Applied (fresh : EntryKind → Stat) (d d' : Folder β) (original : List SnapshotEntry)
    (edited : List ManifestEntry) (ops : List Operation) : Prop where
  listing : ∀ k : Key, (∃ o, d'.lookup k.1 = some o ∧ kindOf o = k.2) ↔ k ∈ edited.map (·.key)
  kept : ∀ k ∈ original.map (·.key), k ∈ edited.map (·.key) →
    (d.lookup k.1).isSome ∧ d'.lookup k.1 = d.lookup k.1
  renamed : ∀ source target kind, .rename source target kind ∈ ops →
    (d.lookup source).isSome ∧ d'.lookup target = d.lookup source
  gone : ∀ k ∈ original.map (·.key), k ∉ edited.map (·.key) → k ∉ renamedFrom ops →
    .delete k.1 k.2 ∈ ops ∧ (d'.lookup k.1 = none ∨ k.1 ∈ (renamedTo ops).map Prod.fst
      ∨ ∃ kind, .create k.1 kind ∈ ops)
  new : ∀ k ∈ edited.map (·.key), k ∉ original.map (·.key) → k ∉ renamedTo ops →
    d'.lookup k.1 = some (newObj fresh k.2)

theorem kindOf_newObj (fresh : EntryKind → Stat) (kind : EntryKind) :
    kindOf (newObj fresh kind : Obj β) = kind := by
  cases kind <;> rfl

/-- A single-scope apply: the accepted plan of a current snapshot runs through, no step replaces
an entry, and the directory becomes the edited listing. -/
theorem executePlan_applies (fresh : EntryKind → Stat)
    (hcur : snapshotListsMatch (collectSnapshot d) original = true)
    (hnd : (edited.map (·.relativePath)).Nodup)
    (hlegal : ∀ e ∈ edited, legalComponent e.relativePath = true)
    (hplan : buildPlan root original edited = .ok plan)
    (htgt : validateApplyTargets linkEmpty d plan = .ok ()) :
    ∃ d', executePlan (performOperation fresh) plan d = (d', .ok ())
      ∧ ReplacesNothing fresh plan.root plan.phases d
      ∧ Applied fresh d d' original edited plan.operations := by
  obtain ⟨d', hrun, hrep, hres⟩ := (runnable_of_checks hcur hnd hlegal hplan htgt).run fresh
  obtain ⟨kept, hacc, hnew⟩ := buildPlan_accounts hplan
  have hndO : ((original.map (·.key)).map Prod.fst).Nodup := by
    rw [← names_eq_keys]
    exact nodup_of_current hcur
  have hndE : ((edited.map (·.key)).map Prod.fst).Nodup := by
    simpa [ManifestEntry.key, Function.comp_def] using hnd
  have hkeptD : ∀ k ∈ kept, d'.lookup k.1 = d.lookup k.1 := fun k hk =>
    hres.kept k.1 (name_notMem hacc.edited hndE hk) (name_notMem hacc.original hndO hk)
  have hkept : ∀ k ∈ original.map (·.key), k ∈ edited.map (·.key) → k ∈ kept := by
    intro k hko hke
    rcases hacc.mem_edited.1 hke with hk | hk
    · exact hk
    · exact absurd hko (hnew k (List.mem_append.2 hk))
  have hcreated : ∀ k ∈ createdKeys plan.operations, d'.lookup k.1 = some (newObj fresh k.2) :=
    fun k hk => hres.created k.1 k.2 (mem_createdKeys.1 hk)
  -- each edited line has its entry
  have hlisted : ∀ k ∈ edited.map (·.key), ∃ o, d'.lookup k.1 = some o ∧ kindOf o = k.2 := by
    intro k hk
    rcases hacc.mem_edited.1 hk with hk | hk | hk
    · rw [hkeptD k hk]
      exact (mem_of_current hcur).1 (hacc.mem_original.2 (.inl hk))
    · obtain ⟨source, hop⟩ := mem_renamedTo.1 hk
      rw [hres.renamed source k.1 k.2 hop]
      have hsource : (source, k.2) ∈ renamedFrom plan.operations := mem_renamedFrom.2 ⟨_, hop⟩
      exact (mem_of_current hcur).1 (hacc.mem_original.2 (.inr (.inr hsource)))
    · exact ⟨_, hcreated k hk, kindOf_newObj fresh k.2⟩
  -- a name that no edited line has is free at the end
  have hfree : ∀ n, n ∉ (edited.map (·.key)).map Prod.fst → d'.lookup n = none := by
    intro n hn
    have htarget : n ∉ (renamedTo plan.operations ++ createdKeys plan.operations).map Prod.fst := by
      intro h
      obtain ⟨k, hk, rfl⟩ := List.mem_map.1 h
      exact hn (List.mem_map_of_mem (hacc.mem_edited.2 (.inr (List.mem_append.1 hk))))
    by_cases hsource : n ∈ (deletedKeys plan.operations ++ renamedFrom plan.operations).map Prod.fst
    · exact hres.gone n htarget hsource
    · rw [hres.kept n htarget hsource]
      by_contra hsome
      obtain ⟨o, ho⟩ := Option.ne_none_iff_exists'.1 hsome
      have hko : (n, kindOf o) ∈ original.map (·.key) := (mem_of_current hcur).2 ⟨o, ho, rfl⟩
      rcases hacc.mem_original.1 hko with hk | hk
      · exact hn (List.mem_map.2 ⟨_, hacc.mem_edited.2 (.inl hk), rfl⟩)
      · exact hsource (List.mem_map.2 ⟨_, List.mem_append.2 hk, rfl⟩)
  refine ⟨d', hrun, hrep, ⟨fun k => ⟨?_, hlisted k⟩, ?_, ?_, ?_, ?_⟩⟩
  · rintro ⟨o, ho, hkind⟩
    by_contra hk
    have hn : k.1 ∈ (edited.map (·.key)).map Prod.fst := by
      by_contra hn
      rw [hfree k.1 hn] at ho
      simp at ho
    obtain ⟨k', hk', hname⟩ := List.mem_map.1 hn
    obtain ⟨o', ho', hkind'⟩ := hlisted k' hk'
    rw [hname, ho, Option.some.injEq] at ho'
    have hkk : k' = k := Prod.ext hname (by rw [← hkind', ← ho', hkind])
    exact hk (hkk ▸ hk')
  · intro k hko hke
    obtain ⟨o, ho, -⟩ := (mem_of_current hcur).1 hko
    exact ⟨by simp [ho], hkeptD k (hkept k hko hke)⟩
  · intro source target kind hop
    have hsource : (source, kind) ∈ renamedFrom plan.operations := mem_renamedFrom.2 ⟨_, hop⟩
    obtain ⟨o, ho, -⟩ := (mem_of_current hcur).1 (hacc.mem_original.2 (.inr (.inr hsource)))
    rw [show d.lookup source = some o from ho]
    exact ⟨rfl, (hres.renamed source target kind hop).trans ho⟩
  · intro k hko hke hren
    have hdel : k ∈ deletedKeys plan.operations := by
      rcases hacc.mem_original.1 hko with hk | hk | hk
      · exact absurd (hacc.mem_edited.2 (.inl hk)) hke
      · exact hk
      · exact absurd hk hren
    refine ⟨mem_deletedKeys.1 hdel, ?_⟩
    by_cases htarget :
      k.1 ∈ (renamedTo plan.operations ++ createdKeys plan.operations).map Prod.fst
    · rw [List.map_append, List.mem_append] at htarget
      rcases htarget with hT | hC
      · exact .inr (.inl hT)
      · obtain ⟨k', hk', hname⟩ := List.mem_map.1 hC
        exact .inr (.inr ⟨k'.2, hname ▸ mem_createdKeys.1 hk'⟩)
    · exact .inl (hres.gone k.1 htarget
        (List.mem_map_of_mem (List.mem_append_left _ hdel)))
  · intro k hke hko hren
    rcases hacc.mem_edited.1 hke with hk | hk | hk
    · exact absurd (hacc.mem_original.2 (.inl hk)) hko
    · exact absurd hk hren
    · exact hcreated k hk

/-- A directory with two subdirectories and two files. -/
def mixedDir : Folder Unit :=
  .ofList [("build", .dir ⟨1, 0⟩ ()), ("docs", .dir ⟨2, 0⟩ ()), ("a.txt", .leaf ⟨3, 1⟩ (.regular [7])),
    ("b.txt", .leaf ⟨4, 1⟩ (.regular [8]))]

/-- The same with `build` removed, `a.txt` renamed, and a new directory at the end. -/
def mixedEdit : List ManifestEntry :=
  [⟨"docs", .directory, 3, .none, .root⟩, ⟨"c.txt", .file, 4, .none, .root⟩,
    ⟨"b.txt", .file, 5, .none, .root⟩, ⟨"build", .file, 6, .none, .root⟩]

def mixedPlan : Plan :=
  ⟨"/r", [.delete "build" .directory, .rename "a.txt" "c.txt" .file, .create "build" .file],
    mixedEdit⟩

/-- Every new entry is stamped alike. -/
def mixedStamp : EntryKind → Stat := fun _ => ⟨9, 0⟩

theorem executePlan_applies_mixed :
    ∃ d', executePlan (performOperation mixedStamp) mixedPlan mixedDir = (d', .ok ())
      ∧ ReplacesNothing mixedStamp mixedPlan.root mixedPlan.phases mixedDir
      ∧ Applied mixedStamp mixedDir d' (collectSnapshot mixedDir) mixedEdit mixedPlan.operations :=
  executePlan_applies mixedStamp (by decide) (by decide) (by decide)
    (show buildPlan "/r" (collectSnapshot mixedDir) mixedEdit = .ok mixedPlan by decide)
    (show validateApplyTargets (fun _ => none) mixedDir mixedPlan = .ok () by decide)

end Apply

end OnixCore.HxOil
