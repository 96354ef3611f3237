import OnixCore.HxOil.Proofs.Failures

/-!
# Which delete requests are planned

A scope with an unflagged line is planned as a whole, and its plan deletes what its lines leave
out. A scope without one is planned only as an emptied block: the root never, and an inserted
subdirectory only when its block holds no line at all. `deletesPlanned_iff` says for every scope
of an accepted session whether its delete requests are planned, each once.
-/

namespace OnixCore.HxOil

section Counting

variable {plans grouped : List (EntryScope × Plan)} {scope : EntryScope} {plan : Plan}

/-- The entries the plans delete in a scope. -/
def deletesOf (plans : List (EntryScope × Plan)) (scope : EntryScope) : List Key :=
  (plans.filter fun p => p.1 = scope).flatMap fun p => deletedKeys p.2.operations

/-- Every snapshot entry of the scope without an unflagged line, but for the source of a rename,
is deleted exactly once. -/
def DeletesPlanned (document : ManifestDocument) (plans : List (EntryScope × Plan))
    (scope : EntryScope) (original : List SnapshotEntry) : Prop :=
  ∀ k ∈ original.map (·.key), k ∉ (keptLines document scope).map (·.key) →
    (∀ p ∈ plans, p.1 = scope → k ∉ renamedFrom p.2.operations) →
    (deletesOf plans scope).count k = 1

/-- The states of a path behind the one every lookup finds. -/
def laterStates (sidecar : Sidecar) (name : String) : List SubdirState :=
  (sidecar.subdirs.filter fun s => s.relativePath = name).tail

/-- The condition for it: the scope keeps an unflagged line, or there is nothing to delete, or it
is a block without any line and no other state of the block lists one of its entries. -/
def DeletesReach (sidecar : Sidecar) (document : ManifestDocument) (scope : EntryScope)
    (original : List SnapshotEntry) : Prop :=
  keptLines document scope ≠ [] ∨ original = []
    ∨ ∃ name, scope = .subdir name ∧ (∀ e ∈ document.entries, e.scope ≠ scope)
      ∧ ∀ s ∈ laterStates sidecar name, ∀ k ∈ s.entries.map (·.key), k ∉ original.map (·.key)

theorem filter_scope_eq : ∀ {l : List (EntryScope × Plan)}, (l.map Prod.fst).Nodup →
    (scope, plan) ∈ l → l.filter (fun p => p.1 = scope) = [(scope, plan)]
  | [], _, h => by simp at h
  | q :: l, hnd, h => by
    rw [List.map_cons, List.nodup_cons] at hnd
    rcases List.mem_cons.1 h with rfl | h
    · have hnone : l.filter (fun p => p.1 = scope) = [] := by
        rw [List.filter_eq_nil_iff]
        intro p hp heq
        exact hnd.1 (List.mem_map.2 ⟨p, hp, by simpa using heq⟩)
      simp [hnone]
    · have hne : q.1 ≠ scope := fun heq => hnd.1 (heq ▸ List.mem_map.2 ⟨_, h, rfl⟩)
      rw [List.filter_cons_of_neg (by simpa using hne), filter_scope_eq hnd.2 h]

theorem deletesOf_append (xs ys : List (EntryScope × Plan)) :
    deletesOf (xs ++ ys) scope = deletesOf xs scope ++ deletesOf ys scope := by
  simp [deletesOf]

theorem deletedKeys_emptiedPlan (sidecar : Sidecar) (state : SubdirState) :
    deletedKeys (emptiedPlan sidecar state).2.operations = state.entries.map (·.key) := by
  simp [deletedKeys, emptiedPlan, List.filterMap_map, SnapshotEntry.key]

theorem renamedFrom_emptiedPlan (sidecar : Sidecar) (state : SubdirState) :
    renamedFrom (emptiedPlan sidecar state).2.operations = [] := by
  simp [renamedFrom, emptiedPlan, List.filterMap_map]

variable {sidecar : Sidecar} {document : ManifestDocument}

theorem deletesOf_grouped_of_nil (hg : GroupedPlans sidecar document grouped)
    (h : keptLines document scope = []) : deletesOf grouped scope = [] := by
  have hnone : grouped.filter (fun p => p.1 = scope) = [] := by
    rw [List.filter_eq_nil_iff]
    intro p hp heq
    have hmem : p.1 ∈ groupedScopes document.entries := hg.scopes ▸ List.mem_map_of_mem hp
    exact mem_groupedScopes.1 hmem ((of_decide_eq_true heq) ▸ h)
  rw [deletesOf, hnone]
  rfl

/-- The states of a block without lines are all planned, but for those that list nothing. -/
theorem deletesOf_emptied {name : String} (hvis : name ∈ document.visibleSubdirs)
    (hnone : ∀ e ∈ document.entries, e.scope ≠ .subdir name) :
    deletesOf ((emptiedStates sidecar document).map (emptiedPlan sidecar)) (.subdir name)
      = (sidecar.subdirs.filter fun s => s.relativePath = name).flatMap
        fun s => s.entries.map (·.key) := by
  rw [deletesOf, emptiedStates]
  induction sidecar.subdirs with
  | nil => rfl
  | cons a rest ih =>
    have hscope : (decide ((emptiedPlan sidecar a).1 = .subdir name) : Bool)
        = decide (a.relativePath = name) := by simp [emptiedPlan]
    by_cases hname : a.relativePath = name
    · rw [List.filter_cons_of_pos (p := fun s : SubdirState => decide (s.relativePath = name))
        (by simpa using hname), List.flatMap_cons, ← ih]
      by_cases hempty : emptiedBlock document a = true
      · rw [List.filter_cons_of_pos hempty, List.map_cons, List.filter_cons_of_pos
          (by rw [hscope]; simpa using hname), List.flatMap_cons, deletedKeys_emptiedPlan]
      · have hnil : a.entries = [] := by
          by_contra hne
          exact hempty (emptiedBlock_iff.2 ⟨hname ▸ hvis, hname ▸ hnone, hne⟩)
        rw [List.filter_cons_of_neg hempty, hnil]
        rfl
    · rw [List.filter_cons_of_neg (p := fun s : SubdirState => decide (s.relativePath = name))
        (by simpa using hname), ← ih]
      by_cases hempty : emptiedBlock document a = true
      · rw [List.filter_cons_of_pos hempty, List.map_cons, List.filter_cons_of_neg
          (by rw [hscope]; simpa using hname)]
      · rw [List.filter_cons_of_neg hempty]

theorem states_eq_cons {name : String} {state : SubdirState}
    (h : sidecar.findSubdir name = some state) :
    (sidecar.subdirs.filter fun s => s.relativePath = name) = state :: laterStates sidecar name := by
  have hhead : (sidecar.subdirs.filter fun s => s.relativePath = name).head? = some state := by
    rw [List.head?_filter]
    exact h
  rw [laterStates]
  exact (List.cons_head?_tail hhead).symm

/-- A scope with a line of its own has no emptied block. -/
theorem deletesOf_emptied_of_line {e : ManifestEntry} (he : e ∈ document.entries)
    (hs : e.scope = scope) :
    deletesOf ((emptiedStates sidecar document).map (emptiedPlan sidecar)) scope = [] := by
  have hnone : ((emptiedStates sidecar document).map (emptiedPlan sidecar)).filter
      (fun p => p.1 = scope) = [] := by
    rw [List.filter_eq_nil_iff]
    intro p hp heq
    obtain ⟨state, hstate, rfl⟩ := List.mem_map.1 hp
    have hno := (emptiedBlock_iff.1 (mem_emptiedStates.1 hstate).2).2.1
    exact hno e he (hs.trans (of_decide_eq_true heq).symm)
  rw [deletesOf, hnone]
  rfl

theorem deletesOf_emptied_root :
    deletesOf ((emptiedStates sidecar document).map (emptiedPlan sidecar)) .root = [] := by
  have hnone : ((emptiedStates sidecar document).map (emptiedPlan sidecar)).filter
      (fun p => p.1 = .root) = [] := by
    rw [List.filter_eq_nil_iff]
    intro p hp heq
    obtain ⟨state, -, rfl⟩ := List.mem_map.1 hp
    simp [emptiedPlan] at heq
  rw [deletesOf, hnone]
  rfl

end Counting

section Scopes

variable {γ E : Type} [Content γ] {links : Links γ E} {session : Session} {w : World γ E}
  {document : ManifestDocument} {plans : List (EntryScope × Plan)} {scope : EntryScope}
  {original : List SnapshotEntry}

/-- The root and the visible inserted subdirectories. -/
def Represented (document : ManifestDocument) : EntryScope → Prop
  | .root => True
  | .subdir name => name ∈ document.visibleSubdirs

/-- The snapshot of a scope lists no entry twice: it is the listing of a directory. -/
theorem Accepted.nodup_original (h : Accepted links session w document plans)
    (hscope : Represented document scope)
    (ho : snapshotOf session.sidecar scope = .ok original) : (original.map (·.key)).Nodup := by
  have hnames : (original.map (·.relativePath)).Nodup := by
    rcases scope with _ | name
    · simp only [snapshotOf, pure_eq_ok] at ho
      exact ho ▸ nodup_of_current h.rootCurrent
    · obtain ⟨state, sub, hfind, -, hcur⟩ := h.subdirCurrent name hscope
      simp only [snapshotOf, hfind, pure_eq_ok] at ho
      exact ho ▸ nodup_of_current hcur
  rw [names_eq_keys] at hnames
  exact hnames.of_map

/-- A scope with an unflagged line has all its deletes planned, once. -/
theorem Accepted.deletesPlanned_of_line (h : Accepted links session w document plans)
    (hscope : Represented document scope)
    (ho : snapshotOf session.sidecar scope = .ok original)
    (hkept : keptLines document scope ≠ []) : DeletesPlanned document plans scope original := by
  obtain ⟨grouped, hg, rfl⟩ := buildApplyPlans_eq_ok.1 h.planned
  obtain ⟨plan, hp⟩ := hg.exists_plan hkept
  obtain ⟨original', ho', hb, -⟩ := planScope_eq_ok.1 (hg.planned hp)
  have heq : original' = original := Except.ok.inj (ho'.symm.trans ho)
  rw [heq] at hb
  obtain ⟨kept, hacc, -⟩ := buildPlan_accounts (show _ = Except.ok plan from hb)
  obtain ⟨e, he⟩ := List.exists_mem_of_ne_nil _ hkept
  obtain ⟨he, -, hs⟩ := mem_keptLines.1 he
  intro k hko hke hren
  have hnd : (grouped.map Prod.fst).Nodup := hg.scopes ▸ nodup_groupedScopes document
  rw [deletesOf_append, deletesOf_emptied_of_line he hs, List.append_nil, deletesOf,
    filter_scope_eq hnd hp, List.flatMap_singleton]
  have hone := List.count_eq_one_of_mem (h.nodup_original hscope ho) hko
  have hkept0 : kept.count k = 0 :=
    List.count_eq_zero.2 fun hk => hke (hacc.edited.mem_iff.2 (List.mem_append_left _ hk))
  have hren0 : (renamedFrom plan.operations).count k = 0 :=
    List.count_eq_zero.2 (hren _ (List.mem_append_left _ hp) rfl)
  rw [hacc.original.count_eq, List.count_append, List.count_append] at hone
  show (deletedKeys plan.operations).count k = 1
  omega

/-- Whether the delete requests of a scope are planned. -/
theorem deletesPlanned_iff (hpre : preflight links session w = .ok (document, plans))
    (hscope : Represented document scope)
    (ho : snapshotOf session.sidecar scope = .ok original) :
    DeletesPlanned document plans scope original
      ↔ DeletesReach session.sidecar document scope original := by
  have h := accepted_of_preflight hpre
  by_cases hkept : keptLines document scope ≠ []
  · exact ⟨fun _ => .inl hkept, fun _ => h.deletesPlanned_of_line hscope ho hkept⟩
  rw [not_ne_iff] at hkept
  obtain ⟨grouped, hg, hplans⟩ := buildApplyPlans_eq_ok.1 h.planned
  -- without an unflagged line every entry asks for its deletion, and there is no rename
  have hall : DeletesPlanned document plans scope original
      ↔ ∀ k ∈ original.map (·.key), (deletesOf plans scope).count k = 1 := by
    have hren : ∀ k, ∀ p ∈ plans, p.1 = scope → k ∉ renamedFrom p.2.operations := by
      rintro k p hp rfl
      rcases h.plan_of_mem hp with ⟨_, _, _, hne⟩ | ⟨state, _, heq⟩
      · exact absurd hkept hne
      · rw [heq, renamedFrom_emptiedPlan]
        simp
    constructor
    · exact fun hd k hk => hd k hk (by rw [hkept]; simp) (hren k)
    · exact fun hd k hk _ _ => hd k hk
  have hdel : deletesOf plans scope
      = deletesOf ((emptiedStates session.sidecar document).map (emptiedPlan session.sidecar))
        scope := by
    rw [hplans, deletesOf_append, deletesOf_grouped_of_nil hg hkept, List.nil_append]
  have hnil : deletesOf plans scope = [] →
      (DeletesPlanned document plans scope original ↔ original = []) := by
    intro hd
    rw [hall, hd]
    constructor
    · intro hk
      rcases original with _ | ⟨s, rest⟩
      · rfl
      · simpa using hk s.key (by simp)
    · rintro rfl
      simp
  rcases scope with _ | name
  · rw [hnil (hdel.trans deletesOf_emptied_root)]
    simp [DeletesReach, hkept]
  · by_cases hlines : ∀ e ∈ document.entries, e.scope ≠ .subdir name
    · obtain ⟨state, sub, hfind, -, -⟩ := h.subdirCurrent name hscope
      simp only [snapshotOf, hfind, pure_eq_ok] at ho
      subst ho
      have hnd := h.nodup_original hscope
        (show snapshotOf session.sidecar (.subdir name) = .ok state.entries by
          simp [snapshotOf, hfind])
      rw [hall, hdel, deletesOf_emptied hscope hlines, states_eq_cons hfind, List.flatMap_cons]
      have hcount : ∀ k ∈ state.entries.map (·.key),
          ((state.entries.map (·.key) ++ (laterStates session.sidecar name).flatMap
              fun s => s.entries.map (·.key)).count k = 1
            ↔ ∀ s ∈ laterStates session.sidecar name, k ∉ s.entries.map (·.key)) := by
        intro k hk
        rw [List.count_append, List.count_eq_one_of_mem hnd hk, Nat.add_eq_left,
          List.count_eq_zero, List.mem_flatMap]
        simp only [not_exists, not_and]
      constructor
      · intro hd
        refine .inr (.inr ⟨name, rfl, hlines, fun s hs k hks hk => ?_⟩)
        exact (hcount k hk).1 (hd k hk) s hs hks
      · rintro (hne | hempty | ⟨name', hname, -, hother⟩) k hk
        · exact absurd hkept hne
        · simp [hempty] at hk
        · obtain rfl := EntryScope.subdir.inj hname
          exact (hcount k hk).2 fun s hs hks => hother s hs k hks hk
    · push Not at hlines
      obtain ⟨e, he, hs⟩ := hlines
      rw [hnil (hdel.trans (deletesOf_emptied_of_line he hs)), DeletesReach]
      constructor
      · exact fun hempty => .inr (.inl hempty)
      · rintro (hne | hempty | ⟨name', hname, hno, -⟩)
        · exact absurd hkept hne
        · exact hempty
        · exact absurd hs (hno e he)

/-- A root with two files, listed and both flagged for deletion. -/
def pairWorld : World Unit Unit :=
  ⟨.ofList [("a.txt", .leaf ⟨1, 1⟩ (.regular [7])), ("b.txt", .leaf ⟨2, 1⟩ (.regular [8]))], ()⟩

def pairSidecar : Sidecar :=
  ⟨2, "/r".toList, 5, 3, [⟨1, 0, "a.txt", .file, 1, 1⟩, ⟨2, 1, "b.txt", .file, 2, 1⟩], []⟩

def pairSession (a b : String) : Session :=
  ⟨pairSidecar, writeLines (["# hx-oil root: /r", "# blank lines and comment lines are ignored",
    a, b].map String.toList)⟩

def pairDocument (a b : EntryMark) : ManifestDocument :=
  ⟨"/r".toList, [.entry ⟨"a.txt", .file, 3, a, .root⟩, .entry ⟨"b.txt", .file, 4, b, .root⟩]⟩

/-- Both files flagged: the apply reports no change and leaves both. -/
theorem allFlagged_notPlanned :
    preflight noLinks (pairSession "D a.txt" "D b.txt") pairWorld
        = .ok (pairDocument .deleteFlagged .deleteFlagged, [])
      ∧ (applyManifest noLinks mixedStamp (pairSession "D a.txt" "D b.txt") 7 pairWorld).2.map
          Prod.fst = .ok "No changes.\n"
      ∧ (applyManifest noLinks mixedStamp (pairSession "D a.txt" "D b.txt") 7 pairWorld).1.root.entries
        = pairWorld.root.entries
      ∧ ¬ DeletesPlanned (pairDocument .deleteFlagged .deleteFlagged) [] .root
        pairSidecar.entries := by
  refine ⟨by decide, by decide, by decide, fun h => ?_⟩
  have hcount := h ("a.txt", .file) (by decide) (by decide) (by simp)
  simp [deletesOf] at hcount

/-- One of the two flagged: its delete is planned. -/
theorem oneFlagged_planned :
    DeletesPlanned (pairDocument .deleteFlagged .none)
      [(.root, ⟨"/r", [.delete "a.txt" .file], [⟨"b.txt", .file, 4, .none, .root⟩]⟩)] .root
      pairSidecar.entries :=
  (deletesPlanned_iff
    (show preflight noLinks (pairSession "D a.txt" "  b.txt") pairWorld
      = .ok (pairDocument .deleteFlagged .none,
        [(.root, ⟨"/r", [.delete "a.txt" .file], [⟨"b.txt", .file, 4, .none, .root⟩]⟩)]) by decide)
    (show Represented (pairDocument .deleteFlagged .none) .root from trivial) rfl).2
    (.inl (by decide))

end Scopes

end OnixCore.HxOil
