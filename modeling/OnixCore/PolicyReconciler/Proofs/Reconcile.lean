import OnixCore.PolicyReconciler.Proofs.Commands

/-!
# Reconciliation

A run of `reconcile` that is stopped anywhere is completed by the next one (`reconcile_resumes`). A
desired repository that has an entry keeps it as it is, so a run that returns has taken effect only
where that entry already was the one asked for (`reconcile_effective_iff`).
-/

namespace OnixCore.PolicyReconciler

open Prog

variable {rad : String} {store final : Store} {desired : Finset String}
  {log : List (Event (List String) (fun _ => Reply) Store)}

section Reconcile

/-- The part of `reconcile` after the plan has been carried out. -/
def confirm (rad : String) (desired : Finset String) (plan : Plan) : Rad Plan := do
  let observed ← list rad
  if observed ≠ desired then
    fail ("policy reconciliation mismatch: expected " ++ debugSet desired ++ ", observed "
      ++ debugSet observed)
  else
    return plan

theorem reconcile_eq : reconcile rad desired = list rad >>= fun current =>
    runAll rad (commands (reconcilePlan current desired)) >>= fun _ =>
      confirm rad desired (reconcilePlan current desired) := by
  simp only [reconcile, apply_eq]
  rfl

theorem confirm_done {plan result : Plan}
    (h : Executes Responds (confirm rad desired plan) store log (.done result) final) :
    issued log = [["seed"]] ∧ final = store ∧ ids store = desired ∧ result = plan := by
  obtain ⟨observed, log₁, log₂, mid, rfl, hlist, hrest⟩ := h.bind_done
  obtain ⟨hissued, rfl, rfl⟩ := list_done hlist
  split_ifs at hrest with hne
  · exact nomatch hrest.of_fail.2.1
  · obtain ⟨rfl, heq, rfl⟩ := hrest.of_done
    exact ⟨by rw [issued_append, hissued]; rfl, rfl, not_not.1 hne, Prog.done.inj heq⟩

theorem confirm_issued {plan : Plan} {q : Rad Plan}
    (h : Executes Responds (confirm rad desired plan) store log q final) :
    issued log <+: [["seed"]] := by
  rcases h.bind_inv with ⟨_, hlist, -⟩ | ⟨observed, log₁, log₂, mid, rfl, hlist, hend⟩
  · exact list_issued hlist
  · have hnil : log₂ = [] := by
      split_ifs at hend
      · exact hend.of_fail.1
      · exact hend.of_done.1
    rw [hnil, List.append_nil]
    exact list_issued hlist

/-- A run that returned: its commands, and the policies it left. -/
theorem reconcile_done {plan : Plan}
    (h : Executes Responds (reconcile rad desired) store log (.done plan) final) :
    plan = reconcilePlan (ids store) desired
      ∧ issued log = ["seed"] :: commands (reconcilePlan (ids store) desired) ++ [["seed"]]
      ∧ requestedAll (commands (reconcilePlan (ids store) desired)) store = some final := by
  rw [reconcile_eq] at h
  obtain ⟨current, log₁, log₂, mid, rfl, hlist, hrest⟩ := h.bind_done
  obtain ⟨hissued, rfl, rfl⟩ := list_done hlist
  obtain ⟨_, log₃, log₄, mid', rfl, happly, hconfirm⟩ := hrest.bind_done
  obtain ⟨hissued', hrequested⟩ := runAll_done happly
  obtain ⟨hissued'', rfl, -, rfl⟩ := confirm_done hconfirm
  refine ⟨rfl, ?_, hrequested⟩
  rw [issued_append, issued_append, hissued, hissued', hissued'']
  rfl

/-- A run that was stopped or failed: it issued a part of the same commands. -/
theorem reconcile_issued {q : Rad Plan}
    (h : Executes Responds (reconcile rad desired) store log q final) : issued log
      <+: ["seed"] :: commands (reconcilePlan (ids store) desired) ++ [["seed"]] := by
  rw [reconcile_eq] at h
  rcases h.bind_inv with ⟨_, hlist, -⟩ | ⟨current, log₁, log₂, mid, rfl, hlist, hrest⟩
  · exact (list_issued hlist).trans (List.prefix_append [["seed"]] _)
  · obtain ⟨hissued, rfl, rfl⟩ := list_done hlist
    have hrest' : issued log₂ <+: commands (reconcilePlan (ids mid) desired) ++ [["seed"]] := by
      rcases hrest.bind_inv with ⟨_, happly, -⟩ | ⟨_, log₃, log₄, mid', rfl, happly, hconfirm⟩
      · exact (runAll_issued happly).trans (List.prefix_append _ _)
      · rw [issued_append, (runAll_done happly).1, List.prefix_append_right_inj]
        exact confirm_issued hconfirm
    rw [issued_append, hissued]
    exact (List.prefix_cons_inj ["seed"]).2 hrest'

theorem reconcile_works {q : Rad Plan}
    (h : Executes Works (reconcile rad desired) store log q final) (hq : q.ended) :
    ∃ plan, q = .done plan := by
  rw [reconcile_eq] at h
  rcases h.bind_ended hq with ⟨e, hlist, -⟩ | ⟨current, log₁, log₂, mid, rfl, hlist, hrest⟩
  · exact nomatch list_works hlist trivial
  · obtain ⟨-, rfl, rfl⟩ := list_done (hlist.mono fun _ _ _ _ => works_responds)
    rcases hrest.bind_ended hq with ⟨e, happly, -⟩ | ⟨_, log₃, log₄, mid', rfl, happly, hconfirm⟩
    · exact nomatch runAll_works (q := .fail e) trivial happly
    · have hids : ids mid' = desired :=
        ids_planned (runAll_done (happly.mono fun _ _ _ _ => works_responds)).2
      rcases hconfirm.bind_ended hq with ⟨e, hlist', -⟩ | ⟨observed, _, _, _, rfl, hlist', hend⟩
      · exact nomatch list_works hlist' trivial
      · obtain ⟨-, rfl, rfl⟩ := list_done (hlist'.mono fun _ _ _ _ => works_responds)
        rw [if_neg (not_not.2 hids)] at hend
        exact ⟨_, hend.of_done.2.1⟩

theorem exists_reconcile (rad : String) (store : Store)
    (hdesired : ∀ id ∈ desired, isCanonicalRid id = true) :
    ∃ log plan final, Executes Works (reconcile rad desired) store log (.done plan) final := by
  obtain ⟨final, hfinal⟩ := exists_planned store hdesired
  obtain ⟨log₁, h₁⟩ := exists_list rad store
  have hchanges : ∀ command ∈ commands (reconcilePlan (ids store) desired), command ≠ ["seed"] := by
    rintro command hcommand rfl
    rcases List.mem_append.1 hcommand with h | h <;> obtain ⟨id, -, heq⟩ := List.mem_map.1 h
    · exact absurd (congrArg List.length heq) (by simp [unseedCommand])
    · exact absurd (congrArg List.length heq) (by simp [seedCommand])
  obtain ⟨log₂, h₂⟩ := exists_runAll rad hchanges hfinal
  obtain ⟨log₃, h₃⟩ := exists_list rad final
  refine ⟨log₁ ++ (log₂ ++ (log₃ ++ [])), reconcilePlan (ids store) desired, final, ?_⟩
  rw [reconcile_eq]
  refine h₁.bind (h₂.bind (h₃.bind ?_))
  rw [if_neg (not_not.2 (ids_planned hfinal))]
  exact .stop _ _

/-- A repository stays known through every command but the one that removes it. -/
theorem requested_keeps {arguments : List String} {id : String}
    (h : requested arguments store = some final) (hne : arguments ≠ unseedCommand id)
    (hid : id ∈ ids store) : id ∈ ids final := by
  obtain ⟨hcanonical, hmem⟩ := mem_ids.1 hid
  refine mem_ids.2 ⟨hcanonical, ?_⟩
  unfold requested at h
  split at h
  · exact Option.some.inj h ▸ hmem
  · rename_i other
    split_ifs at h with hother
    have hneid : id ≠ other := fun heq => hne (heq ▸ rfl)
    exact Option.some.inj h ▸ AList.mem_erase.2 ⟨fun heq => hneid (congrArg Subtype.val heq), hmem⟩
  · split_ifs at h
    exact Option.some.inj h ▸ (AList.mem_insert _).2 (.inr hmem)
  · cases h

theorem responds_keeps {arguments : List String} {reply : Reply} {id : String}
    (h : Responds store arguments reply final) (hne : arguments ≠ unseedCommand id)
    (hid : id ∈ ids store) : id ∈ ids final := by
  have hdone : final = store ∨ requested arguments store = some final := by
    rcases reply with error | ⟨_ | _, stdout, stderr⟩
    · exact h
    · exact h
    · exact .inr h.1
  rcases hdone with rfl | hdone
  · exact hid
  · exact requested_keeps hdone hne hid

theorem reconcile_keeps {q : Rad Plan}
    (h : Executes Responds (reconcile rad desired) store log q final) {id : String}
    (hdesired : id ∈ desired) (hid : id ∈ ids store) :
    (∀ event ∈ log, event.action ≠ unseedCommand id ∧ id ∈ ids event.after) ∧ id ∈ ids final := by
  have hactions : ∀ event ∈ log, event.action ≠ unseedCommand id := by
    intro event hevent
    have hmem := (reconcile_issued h).subset (List.mem_map_of_mem hevent)
    rcases List.mem_cons.1 hmem with heq | hmem
    · exact fun h => absurd (congrArg List.length (heq.symm.trans h)) (by simp [unseedCommand])
    · rcases List.mem_append.1 hmem with hmem | hmem
      · exact ne_unseedCommand hmem id hdesired
      · rw [List.mem_singleton.1 hmem]
        exact fun h => absurd (congrArg List.length h) (by simp [unseedCommand])
  obtain ⟨hlog, hfinal⟩ := h.invariant (P := (· ≠ unseedCommand id)) (I := (id ∈ ids ·))
    (fun _ _ _ _ hne hid hresponds => responds_keeps hresponds hne hid) hactions hid
  exact ⟨fun event hevent => ⟨hactions event hevent, hlog event hevent⟩, hfinal⟩

/-- A reconciliation that was stopped anywhere is completed by the next one. -/
theorem reconcile_resumes {stopped : Store} {rest : Rad Plan}
    (hdesired : ∀ id ∈ desired, isCanonicalRid id = true)
    (hstop : Executes Works (reconcile rad desired) store log rest stopped) :
    (∃ log' plan final, Executes Works (reconcile rad desired) stopped log' (.done plan) final)
      ∧ (∀ log' q final, Executes Works (reconcile rad desired) stopped log' q final →
        (q.ended → (∃ plan, q = .done plan) ∧ ids final = desired)
          ∧ ∀ id ∈ ids store ∩ desired, ∀ event ∈ log ++ log',
            event.action ≠ unseedCommand id ∧ id ∈ ids event.after)
      ∧ issued log <+: ["seed"] :: commands (reconcilePlan (ids store) desired) ++ [["seed"]]
      ∧ (commands (reconcilePlan (ids store) desired)).Nodup
      ∧ (commands (reconcilePlan (ids store) desired)).length
        = (symmDiff (ids store) desired).card := by
  have hresponds := hstop.mono fun _ _ _ _ => works_responds
  refine ⟨exists_reconcile _ _ hdesired, fun log' q final hrerun => ⟨fun hq => ?_, fun id hid => ?_⟩,
    reconcile_issued hresponds, commands_nodup, length_commands⟩
  · obtain ⟨plan, rfl⟩ := reconcile_works hrerun hq
    obtain ⟨-, -, hrequested⟩ := reconcile_done (hrerun.mono fun _ _ _ _ => works_responds)
    exact ⟨⟨plan, rfl⟩, ids_planned hrequested⟩
  · obtain ⟨hstore, hid⟩ := Finset.mem_inter.1 hid
    obtain ⟨hlog, hstopped⟩ := reconcile_keeps hresponds hid hstore
    obtain ⟨hlog', -⟩ :=
      reconcile_keeps (hrerun.mono fun _ _ _ _ => works_responds) hid hstopped
    intro event hevent
    rcases List.mem_append.1 hevent with hevent | hevent
    · exact hlog event hevent
    · exact hlog' event hevent

section Halfway

def ridA : Rid := ⟨"rad:z3gqcJUoA1n9HaHKufZs5FCSGazv5", by decide⟩

def ridB : Rid := ⟨"rad:z4GypKmh1gkEfmkXtarcYnkvtFUfE", by decide⟩

def storeA : Store := AList.singleton ridA ⟨.allow, .all⟩

theorem commands_swap : commands (reconcilePlan (ids storeA) {ridB.1})
    = [unseedCommand ridA.1] ++ [seedCommand ridB.1] := by
  have hremove : ids storeA \ {ridB.1} = {ridA.1} := by decide
  have hadd : ({ridB.1} : Finset String) \ ids storeA = {ridB.1} := by decide
  rw [commands, reconcilePlan, hremove, hadd, Finset.sort_singleton, Finset.sort_singleton]
  rfl

/-- `rad unseed` has run and `rad seed` has not: the node has no policy at all. -/
theorem exists_halfway : ∃ log rest, Executes Works (reconcile "rad" {ridB.1}) storeA log rest ∅ := by
  obtain ⟨log₁, h₁⟩ := exists_list "rad" storeA
  have herase : storeA.erase ridA = ∅ := AList.ext (by decide)
  have hunseed : requestedAll [unseedCommand ridA.1] storeA = some ∅ :=
    requestedAll_cons.2 ⟨_, requested_unseed.2 ⟨ridA.2, herase.symm⟩, rfl⟩
  obtain ⟨log₂, h₂⟩ := exists_runAll "rad" (by decide) hunseed
  have hrest := h₂.bind (f := fun _ => runAll "rad" [seedCommand ridB.1] >>= fun _ =>
    confirm "rad" {ridB.1} (reconcilePlan (ids storeA) {ridB.1})) (.stop _ _)
  rw [← bind_assoc, ← runAll_append, ← commands_swap] at hrest
  have hrun := h₁.bind (f := fun current =>
    runAll "rad" (commands (reconcilePlan current {ridB.1})) >>= fun _ =>
      confirm "rad" {ridB.1} (reconcilePlan current {ridB.1})) hrest
  rw [← reconcile_eq] at hrun
  exact ⟨_, _, hrun⟩

theorem reconcile_resumes_halfway : ∃ log plan final,
    Executes Works (reconcile "rad" {ridB.1}) ∅ log (.done plan) final ∧ ids final = {ridB.1} := by
  obtain ⟨log, rest, hstop⟩ := exists_halfway
  obtain ⟨⟨log', plan, final, hrun⟩, hall, -⟩ := reconcile_resumes (by decide) hstop
  exact ⟨log', plan, final, hrun, ((hall log' _ final hrun).1 trivial).2⟩

end Halfway

/-- Every desired repository is allowed with scope `all`, and no other one is allowed. -/
def TakesEffect (desired : Finset String) (store : Store) : Prop :=
  (∀ id ∈ desired, ∃ h, store.lookup ⟨id, h⟩ = some ⟨.allow, .all⟩)
    ∧ ∀ rid entry, store.lookup rid = some entry → rid.1 ∉ desired → entry.policy ≠ .allow

theorem reconcile_effective_iff (hdesired : ∀ id ∈ desired, isCanonicalRid id = true) :
    (∀ log plan final, Executes Responds (reconcile rad desired) store log (.done plan) final →
        TakesEffect desired final)
      ↔ ∀ rid entry, store.lookup rid = some entry → rid.1 ∈ desired → entry = ⟨.allow, .all⟩ := by
  constructor
  · intro heffect rid entry hentry hrid
    obtain ⟨log, plan, final, hrun⟩ := exists_reconcile rad store hdesired
    have hresponds := hrun.mono fun _ _ _ _ => works_responds
    obtain ⟨-, -, hrequested⟩ := reconcile_done hresponds
    obtain ⟨hid, hlookup⟩ := (heffect log plan final hresponds).1 rid.1 hrid
    rw [show (⟨rid.1, hid⟩ : Rid) = rid from rfl, lookup_planned hrequested, if_pos hrid, hentry]
      at hlookup
    exact Option.some.inj hlookup
  · intro hexact log plan final hrun
    obtain ⟨-, -, hrequested⟩ := reconcile_done hrun
    constructor
    · intro id hid
      refine ⟨hdesired id hid, ?_⟩
      rw [lookup_planned hrequested, if_pos hid]
      rcases hentry : store.lookup ⟨id, hdesired id hid⟩ with _ | entry
      · rw [hentry]
        rfl
      · rw [hentry, hexact _ _ hentry hid]
        rfl
    · intro rid entry hentry hrid
      rw [lookup_planned hrequested, if_neg hrid] at hentry
      cases hentry

theorem reconcile_effective_fresh : storeA.lookup ridB = none ∧ ∀ log plan final,
    Executes Responds (reconcile "rad" {ridB.1}) storeA log (.done plan) final →
      TakesEffect {ridB.1} final := by
  have hnone : storeA.lookup ridB = none := by decide
  refine ⟨hnone, (@reconcile_effective_iff "rad" storeA {ridB.1} (by decide)).2
    fun rid entry hentry hrid => ?_⟩
  obtain rfl : rid = ridB := Subtype.ext (Finset.mem_singleton.1 hrid)
  exact nomatch hnone.symm.trans hentry

/-- The node blocks the repository that is asked for. -/
def blockedStore : Store := AList.singleton ridA ⟨.block, .followed⟩

theorem blockedStore_reconciled : ∃ log plan final,
    Executes Responds (reconcile "rad" {ridA.1}) blockedStore log (.done plan) final
      ∧ ¬ TakesEffect {ridA.1} final := by
  obtain ⟨log, plan, final, hrun⟩ := @exists_reconcile {ridA.1} "rad" blockedStore (by decide)
  have hresponds := hrun.mono fun _ _ _ _ => works_responds
  refine ⟨log, plan, final, hresponds, fun heffect => ?_⟩
  obtain ⟨-, -, hrequested⟩ := reconcile_done hresponds
  obtain ⟨hid, hlookup⟩ := heffect.1 ridA.1 (by decide)
  rw [show (⟨ridA.1, hid⟩ : Rid) = ridA from rfl, lookup_planned hrequested, if_pos (by decide)]
    at hlookup
  exact absurd hlookup (by decide)

end Reconcile

end OnixCore.PolicyReconciler
