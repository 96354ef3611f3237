import Mathlib.Data.List.Dedup
import OnixCore.HxOil.Proofs.Accounts
import OnixCore.HxOil.Proofs.Document

/-!
# The plans of a session

A session has one plan for each scope with an unflagged line, the root's first, and one for each
emptied block (`buildApplyPlans_eq_ok`). No scope is planned twice, except through a second
state of an emptied block. A plan without operations is a plan for lines that list the snapshot
(`operations_eq_nil_iff`).
-/

namespace OnixCore.HxOil

variable {sidecar : Sidecar} {document : ManifestDocument} {scope : EntryScope}

section Scopes

theorem mem_groupedScopes :
    scope ∈ groupedScopes document.entries ↔ keptLines document scope ≠ [] := by
  have hne : keptLines document scope ≠ [] ↔ ∃ e, e ∈ keptLines document scope :=
    ⟨List.exists_mem_of_ne_nil _, fun ⟨_, he⟩ => List.ne_nil_of_mem he⟩
  rw [hne]
  simp only [groupedScopes, List.mem_append, List.mem_map, List.mem_insertionSort, List.mem_dedup,
    List.mem_filterMap]
  constructor
  · rintro (h | ⟨name, ⟨e, he, hs⟩, rfl⟩)
    · split_ifs at h with hroot
      · obtain ⟨e, he, hs⟩ := List.any_eq_true.1 hroot
        rw [List.mem_singleton.1 h]
        exact ⟨e, List.mem_filter.2 ⟨he, by simpa using hs⟩⟩
      · simp at h
    · refine ⟨e, List.mem_filter.2 ⟨he, ?_⟩⟩
      rcases hsc : e.scope with _ | path <;> simp [hsc] at hs
      simp [hs]
  · rintro ⟨e, hmem⟩
    obtain ⟨he, hs⟩ := List.mem_filter.1 hmem
    rw [decide_eq_true_eq] at hs
    clear hne hmem
    subst hs
    rcases hsc : e.scope with _ | path
    · left
      rw [if_pos (List.any_eq_true.2 ⟨e, he, by simp [hsc]⟩)]
      exact List.mem_singleton_self _
    · exact .inr ⟨path, ⟨e, he, by simp [hsc]⟩, rfl⟩

/-- The root is planned first, where it is planned, and every inserted subdirectory once. -/
theorem groupedScopes_eq (document : ManifestDocument) : ∃ names : List String, names.Nodup
    ∧ groupedScopes document.entries
      = (if keptLines document .root = [] then [] else [.root]) ++ names.map .subdir := by
  refine ⟨_, (List.perm_insertionSort (· ≤ ·) _).nodup_iff.2 (List.nodup_dedup _),
    congrArg₂ (· ++ ·) ?_ rfl⟩
  by_cases h : keptLines document .root = []
  · rw [if_pos h, if_neg]
    intro hany
    obtain ⟨e, he, hs⟩ := List.any_eq_true.1 hany
    have hmem : e ∈ keptLines document .root := List.mem_filter.2 ⟨he, by simpa using hs⟩
    rw [h] at hmem
    simp at hmem
  · obtain ⟨e, he⟩ := List.exists_mem_of_ne_nil _ h
    obtain ⟨he, hs⟩ := List.mem_filter.1 he
    rw [if_neg h, if_pos (List.any_eq_true.2 ⟨e, he, by simpa using hs⟩)]

theorem nodup_groupedScopes (document : ManifestDocument) :
    (groupedScopes document.entries).Nodup := by
  obtain ⟨names, hnd, heq⟩ := groupedScopes_eq document
  rw [heq, List.nodup_append]
  refine ⟨by split_ifs <;> simp, hnd.map fun a b h => by simpa using h, ?_⟩
  intro a ha b hb hab
  obtain ⟨name, -, rfl⟩ := List.mem_map.1 hb
  split_ifs at ha <;> simp_all

end Scopes

section Plans

variable {p : EntryScope × Plan} {plans grouped : List (EntryScope × Plan)}

theorem planScope_eq_ok : planScope sidecar document scope = .ok p ↔
    ∃ original, snapshotOf sidecar scope = .ok original
      ∧ buildPlan (scope.absoluteRoot sidecar.rootPath) original (keptLines document scope)
        = .ok p.2 ∧ p.1 = scope := by
  simp only [planScope, bind_eq_ok, pure_eq_ok]
  constructor
  · rintro ⟨original, ho, plan, hp, rfl⟩
    exact ⟨original, ho, hp, rfl⟩
  · rintro ⟨original, ho, hp, rfl⟩
    exact ⟨original, ho, p.2, hp, rfl⟩

/-- The plans of the scopes with an unflagged line. -/
def GroupedPlans (sidecar : Sidecar) (document : ManifestDocument)
    (grouped : List (EntryScope × Plan)) : Prop :=
  List.Forall₂ (fun scope p => planScope sidecar document scope = .ok p)
    (groupedScopes document.entries) grouped

/-- The states of the blocks with no line left. -/
def emptiedStates (sidecar : Sidecar) (document : ManifestDocument) : List SubdirState :=
  sidecar.subdirs.filter (emptiedBlock document)

theorem buildApplyPlans_eq_ok : buildApplyPlans sidecar document = .ok plans ↔
    ∃ grouped, GroupedPlans sidecar document grouped
      ∧ plans = grouped ++ (emptiedStates sidecar document).map (emptiedPlan sidecar) := by
  simp only [buildApplyPlans, bind_eq_ok, pure_eq_ok, mapM_eq_ok, GroupedPlans, emptiedStates,
    eq_comm (a := plans)]

theorem GroupedPlans.scopes (h : GroupedPlans sidecar document grouped) :
    grouped.map Prod.fst = groupedScopes document.entries := by
  have key : ∀ {scopes : List EntryScope} {ps : List (EntryScope × Plan)},
      List.Forall₂ (fun scope p => planScope sidecar document scope = .ok p) scopes ps →
      ps.map Prod.fst = scopes := by
    intro scopes ps hf
    induction hf with
    | nil => rfl
    | cons hp _ ih =>
      obtain ⟨_, _, _, hfst⟩ := planScope_eq_ok.1 hp
      rw [List.map_cons, ih, hfst]
  exact key h

theorem GroupedPlans.planned (h : GroupedPlans sidecar document grouped) (hp : p ∈ grouped) :
    planScope sidecar document p.1 = .ok p := by
  have key : ∀ {scopes : List EntryScope} {ps : List (EntryScope × Plan)},
      List.Forall₂ (fun scope p => planScope sidecar document scope = .ok p) scopes ps →
      ∀ p ∈ ps, planScope sidecar document p.1 = .ok p := by
    intro scopes ps hf
    induction hf with
    | nil => simp
    | cons hq _ ih =>
      rw [List.forall_mem_cons]
      obtain ⟨_, _, _, hfst⟩ := planScope_eq_ok.1 hq
      exact ⟨hfst ▸ hq, ih⟩
  exact key h p hp

theorem GroupedPlans.exists_plan (h : GroupedPlans sidecar document grouped)
    (hs : keptLines document scope ≠ []) : ∃ plan, (scope, plan) ∈ grouped := by
  have hmem : scope ∈ grouped.map Prod.fst := h.scopes ▸ mem_groupedScopes.2 hs
  obtain ⟨⟨_, plan⟩, hp, rfl⟩ := List.mem_map.1 hmem
  exact ⟨plan, hp⟩

theorem mem_emptiedStates {state : SubdirState} : state ∈ emptiedStates sidecar document
    ↔ state ∈ sidecar.subdirs ∧ emptiedBlock document state = true := by
  rw [emptiedStates, List.mem_filter]

theorem emptiedBlock_iff {state : SubdirState} : emptiedBlock document state = true
    ↔ state.relativePath ∈ document.visibleSubdirs
      ∧ (∀ e ∈ document.entries, e.scope ≠ .subdir state.relativePath) ∧ state.entries ≠ [] := by
  rw [emptiedBlock, decide_eq_true_eq]

/-- A block with no line has no unflagged line. -/
theorem keptLines_of_emptied {state : SubdirState} (h : emptiedBlock document state = true) :
    keptLines document (.subdir state.relativePath) = [] := by
  rw [List.eq_nil_iff_forall_not_mem]
  intro e he
  obtain ⟨he, -, hs⟩ := mem_keptLines.1 he
  exact (emptiedBlock_iff.1 h).2.1 e he hs

end Plans

section Unchanged

variable {original : List SnapshotEntry} {edited : List ManifestEntry} {root : String} {plan : Plan}

/-- A plan has no operation exactly when the lines list the snapshot. -/
theorem operations_eq_nil_iff (h : buildPlan root original edited = .ok plan)
    (hndO : (original.map (·.key)).Nodup) :
    plan.operations = [] ↔ ∀ k, k ∈ edited.map (·.key) ↔ k ∈ original.map (·.key) := by
  obtain ⟨kept, hacc, hnew⟩ := buildPlan_accounts h
  constructor
  · intro hnil k
    rw [hacc.edited.mem_iff, hacc.original.mem_iff, hnil]
    simp [createdKeys, deletedKeys, renamedFrom, renamedTo]
  · intro hsame
    have htargets : renamedTo plan.operations ++ createdKeys plan.operations = [] := by
      rw [List.eq_nil_iff_forall_not_mem]
      intro k hk
      refine hnew k hk ((hsame k).1 ?_)
      exact hacc.edited.mem_iff.2 (List.mem_append_right _ hk)
    have hnd := hacc.original.nodup_iff.1 hndO
    have hsources : deletedKeys plan.operations ++ renamedFrom plan.operations = [] := by
      rw [List.eq_nil_iff_forall_not_mem]
      intro k hk
      have hke := (hsame k).2 (hacc.original.mem_iff.2 (List.mem_append_right _ hk))
      rw [hacc.edited.mem_iff, htargets, List.append_nil] at hke
      exact (List.nodup_append.1 hnd).2.2 k hke k hk rfl
    rw [List.append_eq_nil_iff] at htargets hsources
    exact eq_nil_of_keys htargets.2 hsources.1 hsources.2

end Unchanged

end OnixCore.HxOil
