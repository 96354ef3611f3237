import Mathlib.Data.List.Nodup
import OnixCore.HxOil.Proofs.Accounts
import OnixCore.HxOil.Proofs.Listing

/-!
# When a plan runs through

`Runnable` is what a list of operations needs of the directory it starts in: what it deletes or
renames is there, no entry is taken twice, and every name it puts an entry under is free or
deleted. Such a plan runs through, puts no entry on a taken name, and leaves the directory
`RunResult` describes. Each phase is an induction over its operations, on what the ones before
left of the directory.
-/

namespace OnixCore.HxOil

variable {β : Type} [Content β]

/-- The entry a create makes. -/
def newObj (fresh : EntryKind → Stat) : EntryKind → Obj β
  | .file => .leaf (fresh .file) (.regular [])
  | .directory => .dir (fresh .directory) Content.empty

/-- A step of an execution in a directory. -/
def stepIn (fresh : EntryKind → Stat) (root : String) (op : Operation) (d : Folder β) :
    Except String (Folder β) :=
  withContext (op.context root) (performOperation fresh d op)

/-- Along a run, every name a step puts an entry under is free when the step is taken. -/
def ReplacesNothing (fresh : EntryKind → Stat) (root : String) : List Operation → Folder β → Prop
  | [], _ => True
  | op :: rest, d => (∀ t ∈ op.target?, d.lookup t = none)
      ∧ ∀ d', stepIn fresh root op d = .ok d' → ReplacesNothing fresh root rest d'

/-- Whether a delete of that kind can remove the entry. -/
def Removable (kind : EntryKind) : Obj β → Prop
  | .leaf _ _ => kind = .file
  | .dir _ sub => kind = .directory ∧ Content.isEmpty sub = true

structure Runnable (d : Folder β) (ops : List Operation) : Prop where
  deleted : ∀ k ∈ deletedKeys ops, ∃ o, d.lookup k.1 = some o ∧ Removable k.2 o
  renamed : ∀ k ∈ renamedFrom ops, (d.lookup k.1).isSome
  sources : ((deletedKeys ops ++ renamedFrom ops).map Prod.fst).Nodup
  targets : ((renamedTo ops ++ createdKeys ops).map Prod.fst).Nodup
  legal : ∀ k ∈ renamedTo ops ++ createdKeys ops, legalComponent k.1 = true
  free : ∀ k ∈ renamedTo ops ++ createdKeys ops,
    d.lookup k.1 = none ∨ k.1 ∈ (deletedKeys ops).map Prod.fst

/-- What a run of the operations makes of the directory `d`. -/
structure RunResult (fresh : EntryKind → Stat) (d d' : Folder β) (ops : List Operation) : Prop where
  renamed : ∀ source target kind, .rename source target kind ∈ ops →
    d'.lookup target = d.lookup source
  created : ∀ path kind, .create path kind ∈ ops → d'.lookup path = some (newObj fresh kind)
  gone : ∀ n ∉ (renamedTo ops ++ createdKeys ops).map Prod.fst,
    n ∈ (deletedKeys ops ++ renamedFrom ops).map Prod.fst → d'.lookup n = none
  kept : ∀ n ∉ (renamedTo ops ++ createdKeys ops).map Prod.fst,
    n ∉ (deletedKeys ops ++ renamedFrom ops).map Prod.fst → d'.lookup n = d.lookup n

section Steps

variable {fresh : EntryKind → Stat} {root : String} {d : Folder β}

omit [Content β] in
@[simp] theorem withContext_ok {α : Type} (m : String) (a : α) :
    withContext m (.ok a) = .ok a := rfl

theorem stepIn_delete {n : String} {kind : EntryKind} {o : Obj β} (h : d.lookup n = some o)
    (ho : Removable kind o) : stepIn fresh root (.delete n kind) d = .ok (d.erase n) := by
  cases o with
  | leaf st c =>
    rw [show kind = .file from ho]
    simp only [stepIn, performOperation, Folder.removeFile_eq h rfl, withContext_ok]
  | dir st sub =>
    obtain ⟨rfl, he⟩ := ho
    simp only [stepIn, performOperation, Folder.removeDir_eq h he, withContext_ok]

theorem stepIn_rename {n m : String} {kind : EntryKind} {o : Obj β} (h : d.lookup n = some o)
    (hm : d.lookup m = none) (hl : legalComponent m = true) :
    stepIn fresh root (.rename n m kind) d = .ok ((d.erase n).insert m o) := by
  have hne : n ≠ m := by
    rintro rfl
    rw [h] at hm
    simp at hm
  simp only [stepIn, performOperation, Folder.rename_eq h hne hm hl, withContext_ok]

theorem stepIn_create {n : String} {kind : EntryKind} (h : d.lookup n = none)
    (hl : legalComponent n = true) :
    stepIn fresh root (.create n kind) d = .ok (d.insert n (newObj fresh kind)) := by
  cases kind
  · simp only [stepIn, performOperation, Folder.createNew_eq _ h hl, withContext_ok, newObj]
  · simp only [stepIn, performOperation, Folder.createDir_eq _ h hl, withContext_ok, newObj]

theorem ReplacesNothing.append : ∀ {xs ys : List Operation} {d d' : Folder β},
    ReplacesNothing fresh root xs d → runAll (stepIn fresh root) xs d = (d', .ok ()) →
    ReplacesNothing fresh root ys d' → ReplacesNothing fresh root (xs ++ ys) d
  | [], ys, d, d', _, hr, hy => by
    simp only [runAll_nil, Prod.mk.injEq] at hr
    rw [List.nil_append, hr.1]
    exact hy
  | op :: xs, ys, d, d', hx, hr, hy => by
    obtain ⟨s, hs, hr⟩ := runAll_cons_inv hr
    refine ⟨hx.1, fun s' hs' => ?_⟩
    rw [hs, Except.ok.injEq] at hs'
    subst hs'
    exact (hx.2 s hs).append hr hy

/-- The state before each step of a run that replaces nothing has the step's name free. -/
theorem ReplacesNothing.split : ∀ {xs ys : List Operation} {op : Operation} {d mid : Folder β},
    ReplacesNothing fresh root (xs ++ op :: ys) d →
    runAll (stepIn fresh root) xs d = (mid, .ok ()) → ∀ t ∈ op.target?, mid.lookup t = none
  | [], ys, op, d, mid, h, hr => by
    simp only [runAll_nil, Prod.mk.injEq] at hr
    rw [← hr.1]
    exact h.1
  | x :: xs, ys, op, d, mid, h, hr => by
    obtain ⟨s, hs, hr⟩ := runAll_cons_inv hr
    exact (h.2 s hs).split hr

end Steps

section Phases

variable (fresh : EntryKind → Stat) (root : String)

theorem run_deletes : ∀ (ops : List Operation) {d : Folder β}, (∀ op ∈ ops, op.isDelete = true) →
    (∀ k ∈ deletedKeys ops, ∃ o, d.lookup k.1 = some o ∧ Removable k.2 o) →
    ((deletedKeys ops).map Prod.fst).Nodup →
    ∃ d', runAll (stepIn fresh root) ops d = (d', .ok ()) ∧ ReplacesNothing fresh root ops d
      ∧ ∀ n, d'.lookup n = if n ∈ (deletedKeys ops).map Prod.fst then none else d.lookup n
  | [], d, _, _, _ => ⟨d, rfl, trivial, fun n => by simp [deletedKeys]⟩
  | .create p k :: ops, d, hall, _, _ =>
    absurd (hall _ List.mem_cons_self) (by simp [Operation.isDelete])
  | .rename s t k :: ops, d, hall, _, _ =>
    absurd (hall _ List.mem_cons_self) (by simp [Operation.isDelete])
  | .delete p k :: ops, d, hall, hdel, hnd => by
    have hkeys : deletedKeys (.delete p k :: ops) = (p, k) :: deletedKeys ops := rfl
    rw [hkeys] at hdel hnd ⊢
    rw [List.map_cons, List.nodup_cons] at hnd
    obtain ⟨o, ho, hrem⟩ := hdel (p, k) List.mem_cons_self
    have hstep : stepIn fresh root (.delete p k) d = .ok (d.erase p) := stepIn_delete ho hrem
    obtain ⟨d', hrun, hrep, hlook⟩ := run_deletes ops (d := d.erase p)
      (fun op hop => hall op (List.mem_cons_of_mem _ hop))
      (fun k' hk' => by
        obtain ⟨o', ho', hrem'⟩ := hdel k' (List.mem_cons_of_mem _ hk')
        have hne : k'.1 ≠ p := fun e => hnd.1 (List.mem_map.2 ⟨k', hk', e⟩)
        exact ⟨o', by rw [Folder.lookup_erase_eq, if_neg hne]; exact ho', hrem'⟩) hnd.2
    refine ⟨d', by rw [runAll_cons_ok hstep, hrun],
      ⟨fun t ht => by simp [Operation.target?] at ht, fun s hs => ?_⟩, fun n => ?_⟩
    · rw [hstep, Except.ok.injEq] at hs
      exact hs ▸ hrep
    · rw [hlook, Folder.lookup_erase_eq, List.map_cons]
      by_cases hn : n = p
      · simp [hn]
      · simp only [List.mem_cons, hn, false_or, ↓reduceIte]

theorem run_renames : ∀ (ops : List Operation) {d : Folder β}, (∀ op ∈ ops, op.isRename = true) →
    (∀ k ∈ renamedFrom ops, (d.lookup k.1).isSome) → ((renamedFrom ops).map Prod.fst).Nodup →
    ((renamedTo ops).map Prod.fst).Nodup →
    (∀ k ∈ renamedTo ops, d.lookup k.1 = none ∧ legalComponent k.1 = true) →
    ∃ d', runAll (stepIn fresh root) ops d = (d', .ok ()) ∧ ReplacesNothing fresh root ops d
      ∧ (∀ source target kind, .rename source target kind ∈ ops →
          d'.lookup target = d.lookup source)
      ∧ ∀ n ∉ (renamedTo ops).map Prod.fst,
          d'.lookup n = if n ∈ (renamedFrom ops).map Prod.fst then none else d.lookup n
  | [], d, _, _, _, _, _ =>
    ⟨d, rfl, trivial, fun _ _ _ h => by simp at h, fun n _ => by simp [renamedFrom]⟩
  | .create p k :: ops, d, hall, _, _, _, _ =>
    absurd (hall _ List.mem_cons_self) (by simp [Operation.isRename])
  | .delete p k :: ops, d, hall, _, _, _, _ =>
    absurd (hall _ List.mem_cons_self) (by simp [Operation.isRename])
  | .rename s t k :: ops, d, hall, hsrc, hnd, hnt, hfree => by
    have hfrom : renamedFrom (.rename s t k :: ops) = (s, k) :: renamedFrom ops := rfl
    have hto : renamedTo (.rename s t k :: ops) = (t, k) :: renamedTo ops := rfl
    rw [hfrom] at hsrc hnd ⊢
    rw [hto] at hnt hfree ⊢
    rw [List.map_cons, List.nodup_cons] at hnd hnt
    obtain ⟨o, ho⟩ := Option.isSome_iff_exists.1 (hsrc (s, k) List.mem_cons_self)
    obtain ⟨ht, hl⟩ := hfree (t, k) List.mem_cons_self
    have hstep : stepIn fresh root (.rename s t k) d = .ok ((d.erase s).insert t o) :=
      stepIn_rename ho ht hl
    have hlook : ∀ n, n ≠ s → n ≠ t → ((d.erase s).insert t o).lookup n = d.lookup n := by
      intro n hs hnt
      rw [Folder.lookup_insert_eq, if_neg hnt, Folder.lookup_erase_eq, if_neg hs]
    -- a later source is there before, so it is not this target; a later target is not there
    have hsrc_ne : ∀ k' ∈ renamedFrom ops, k'.1 ≠ s ∧ k'.1 ≠ t := by
      refine fun k' hk' => ⟨fun e => hnd.1 (List.mem_map.2 ⟨k', hk', e⟩), fun e => ?_⟩
      have := hsrc k' (List.mem_cons_of_mem _ hk')
      rw [e, ht] at this
      simp at this
    have htgt_ne : ∀ k' ∈ renamedTo ops, k'.1 ≠ s ∧ k'.1 ≠ t := by
      refine fun k' hk' => ⟨fun e => ?_, fun e => hnt.1 (List.mem_map.2 ⟨k', hk', e⟩)⟩
      have := (hfree k' (List.mem_cons_of_mem _ hk')).1
      rw [e, ho] at this
      simp at this
    obtain ⟨d', hrun, hrep, hren, hrest⟩ := run_renames ops (d := (d.erase s).insert t o)
      (fun op hop => hall op (List.mem_cons_of_mem _ hop))
      (fun k' hk' => by
        rw [hlook _ (hsrc_ne k' hk').1 (hsrc_ne k' hk').2]
        exact hsrc k' (List.mem_cons_of_mem _ hk'))
      hnd.2 hnt.2
      (fun k' hk' => by
        rw [hlook _ (htgt_ne k' hk').1 (htgt_ne k' hk').2]
        exact hfree k' (List.mem_cons_of_mem _ hk'))
    have htd : d'.lookup t = d.lookup s := by
      have hts : t ∉ (renamedFrom ops).map Prod.fst := by
        intro h
        obtain ⟨k', hk', e⟩ := List.mem_map.1 h
        exact (hsrc_ne k' hk').2 e
      rw [hrest t hnt.1, if_neg hts, Folder.lookup_insert_eq, if_pos rfl, ho]
    refine ⟨d', by rw [runAll_cons_ok hstep, hrun],
      ⟨fun x hx => ?_, fun x hx => ?_⟩, fun source target kind hmem => ?_, fun n hn => ?_⟩
    · simp only [Operation.target?, Option.mem_def, Option.some.injEq] at hx
      exact hx ▸ ht
    · rw [hstep, Except.ok.injEq] at hx
      exact hx ▸ hrep
    · rcases List.mem_cons.1 hmem with e | hmem
      · simp only [Operation.rename.injEq] at e
        obtain ⟨rfl, rfl, rfl⟩ := e
        exact htd
      · have hk' := hsrc_ne (source, kind) (mem_renamedFrom.2 ⟨target, hmem⟩)
        rw [hren source target kind hmem, hlook _ hk'.1 hk'.2]
    · simp only [List.map_cons, List.mem_cons, not_or] at hn
      rw [hrest n hn.2, List.map_cons]
      by_cases hs : n = s
      · subst hs
        rw [Folder.lookup_insert_eq, if_neg hn.1, Folder.lookup_erase_eq, if_pos rfl]
        simp
      · rw [hlook n hs hn.1]
        simp only [List.mem_cons, hs, false_or]

theorem run_creates : ∀ (ops : List Operation) {d : Folder β}, (∀ op ∈ ops, op.isCreate = true) →
    ((createdKeys ops).map Prod.fst).Nodup →
    (∀ k ∈ createdKeys ops, d.lookup k.1 = none ∧ legalComponent k.1 = true) →
    ∃ d', runAll (stepIn fresh root) ops d = (d', .ok ()) ∧ ReplacesNothing fresh root ops d
      ∧ (∀ path kind, .create path kind ∈ ops → d'.lookup path = some (newObj fresh kind))
      ∧ ∀ n ∉ (createdKeys ops).map Prod.fst, d'.lookup n = d.lookup n
  | [], d, _, _, _ => ⟨d, rfl, trivial, fun _ _ h => by simp at h, fun _ _ => rfl⟩
  | .rename s t k :: ops, d, hall, _, _ =>
    absurd (hall _ List.mem_cons_self) (by simp [Operation.isCreate])
  | .delete p k :: ops, d, hall, _, _ =>
    absurd (hall _ List.mem_cons_self) (by simp [Operation.isCreate])
  | .create p k :: ops, d, hall, hnd, hfree => by
    have hkeys : createdKeys (.create p k :: ops) = (p, k) :: createdKeys ops := rfl
    rw [hkeys] at hnd hfree ⊢
    rw [List.map_cons, List.nodup_cons] at hnd
    obtain ⟨hp, hl⟩ := hfree (p, k) List.mem_cons_self
    have hstep : stepIn fresh root (.create p k) d = .ok (d.insert p (newObj fresh k)) :=
      stepIn_create hp hl
    obtain ⟨d', hrun, hrep, hcre, hrest⟩ := run_creates ops (d := d.insert p (newObj fresh k))
      (fun op hop => hall op (List.mem_cons_of_mem _ hop)) hnd.2
      (fun k' hk' => by
        have hne : k'.1 ≠ p := fun e => hnd.1 (List.mem_map.2 ⟨k', hk', e⟩)
        rw [Folder.lookup_insert_eq, if_neg hne]
        exact hfree k' (List.mem_cons_of_mem _ hk'))
    refine ⟨d', by rw [runAll_cons_ok hstep, hrun],
      ⟨fun x hx => ?_, fun x hx => ?_⟩, fun path kind hmem => ?_, fun n hn => ?_⟩
    · simp only [Operation.target?, Option.mem_def, Option.some.injEq] at hx
      exact hx ▸ hp
    · rw [hstep, Except.ok.injEq] at hx
      exact hx ▸ hrep
    · rcases List.mem_cons.1 hmem with e | hmem
      · simp only [Operation.create.injEq] at e
        obtain ⟨rfl, rfl⟩ := e
        rw [hrest _ hnd.1, Folder.lookup_insert_eq, if_pos rfl]
      · exact hcre path kind hmem
    · simp only [List.map_cons, List.mem_cons, not_or] at hn
      rw [hrest n hn.2, Folder.lookup_insert_eq, if_neg hn.1]

end Phases

section Filters

variable (ops : List Operation)

theorem deletedKeys_filter : deletedKeys (ops.filter (·.isDelete)) = deletedKeys ops := by
  rw [deletedKeys, List.filterMap_filter]
  refine List.filterMap_congr fun op _ => ?_
  cases op <;> rfl

theorem renamedFrom_filter : renamedFrom (ops.filter (·.isRename)) = renamedFrom ops := by
  rw [renamedFrom, List.filterMap_filter]
  refine List.filterMap_congr fun op _ => ?_
  cases op <;> rfl

theorem renamedTo_filter : renamedTo (ops.filter (·.isRename)) = renamedTo ops := by
  rw [renamedTo, List.filterMap_filter]
  refine List.filterMap_congr fun op _ => ?_
  cases op <;> rfl

theorem createdKeys_filter : createdKeys (ops.filter (·.isCreate)) = createdKeys ops := by
  rw [createdKeys, List.filterMap_filter]
  refine List.filterMap_congr fun op _ => ?_
  cases op <;> rfl

end Filters

/-- What is runnable runs through, phase after phase. -/
theorem Runnable.run {d : Folder β} {plan : Plan} (h : Runnable d plan.operations)
    (fresh : EntryKind → Stat) :
    ∃ d', executePlan (performOperation fresh) plan d = (d', .ok ())
      ∧ ReplacesNothing fresh plan.root plan.phases d
      ∧ RunResult fresh d d' plan.operations := by
  obtain ⟨hdel, hsrc, hndS, hndT, hlegal, hfree⟩ := h
  rw [List.map_append, List.nodup_append] at hndS hndT
  obtain ⟨hndD, hndR, hDR⟩ := hndS
  obtain ⟨hndT, hndC, hTC⟩ := hndT
  obtain ⟨d₁, hrun₁, hrep₁, hlook₁⟩ := run_deletes fresh plan.root
    (plan.operations.filter (·.isDelete)) (d := d) (fun op hop => (List.mem_filter.1 hop).2)
    (by rwa [deletedKeys_filter]) (by rwa [deletedKeys_filter])
  rw [deletedKeys_filter] at hlook₁
  have hsrc₁ : ∀ k ∈ renamedFrom plan.operations, d₁.lookup k.1 = d.lookup k.1 := by
    intro k hk
    rw [hlook₁, if_neg fun hD => hDR _ hD _ (List.mem_map_of_mem hk) rfl]
  have hfree₁ : ∀ k ∈ renamedTo plan.operations ++ createdKeys plan.operations,
      d₁.lookup k.1 = none := by
    intro k hk
    rw [hlook₁]
    rcases hfree k hk with hn | hD
    · rw [hn, ite_self]
    · rw [if_pos hD]
  obtain ⟨d₂, hrun₂, hrep₂, hren₂, hlook₂⟩ := run_renames fresh plan.root
    (plan.operations.filter (·.isRename)) (d := d₁) (fun op hop => (List.mem_filter.1 hop).2)
    (by
      rw [renamedFrom_filter]
      exact fun k hk => by rw [hsrc₁ k hk]; exact hsrc k hk)
    (by rwa [renamedFrom_filter]) (by rwa [renamedTo_filter])
    (by
      rw [renamedTo_filter]
      exact fun k hk => ⟨hfree₁ k (List.mem_append_left _ hk), hlegal k (List.mem_append_left _ hk)⟩)
  rw [renamedTo_filter, renamedFrom_filter] at hlook₂
  have hfree₂ : ∀ k ∈ createdKeys plan.operations, d₂.lookup k.1 = none := by
    intro k hk
    rw [hlook₂ _ fun hT => hTC _ hT _ (List.mem_map_of_mem hk) rfl,
      hfree₁ k (List.mem_append_right _ hk), ite_self]
  obtain ⟨d₃, hrun₃, hrep₃, hcre₃, hlook₃⟩ := run_creates fresh plan.root
    (plan.operations.filter (·.isCreate)) (d := d₂) (fun op hop => (List.mem_filter.1 hop).2)
    (by rwa [createdKeys_filter])
    (by
      rw [createdKeys_filter]
      exact fun k hk => ⟨hfree₂ k hk, hlegal k (List.mem_append_right _ hk)⟩)
  rw [createdKeys_filter] at hlook₃
  have hrun₁₂ := (runAll_append_ok hrun₁ (plan.operations.filter (·.isRename))).trans hrun₂
  refine ⟨d₃, (runAll_append_ok hrun₁₂ _).trans hrun₃,
    (hrep₁.append hrun₁ hrep₂).append hrun₁₂ hrep₃, ?_⟩
  constructor
  · intro source target kind hop
    have hsource : (source, kind) ∈ renamedFrom plan.operations :=
      mem_renamedFrom.2 ⟨target, hop⟩
    have htarget : (target, kind) ∈ renamedTo plan.operations := mem_renamedTo.2 ⟨source, hop⟩
    rw [hlook₃ _ fun hC => hTC _ (List.mem_map_of_mem htarget) _ hC rfl,
      hren₂ source target kind (List.mem_filter.2 ⟨hop, rfl⟩), hsrc₁ _ hsource]
  · exact fun path kind hop => hcre₃ path kind (List.mem_filter.2 ⟨hop, rfl⟩)
  · intro n hn hgone
    rw [List.map_append, List.mem_append, not_or] at hn
    rw [List.map_append, List.mem_append] at hgone
    rw [hlook₃ n hn.2, hlook₂ n hn.1, hlook₁]
    rcases hgone with hD | hR
    · rw [if_pos hD, ite_self]
    · rw [if_pos hR]
  · intro n hn hstays
    rw [List.map_append, List.mem_append, not_or] at hn hstays
    rw [hlook₃ n hn.2, hlook₂ n hn.1, hlook₁, if_neg hstays.2, if_neg hstays.1]

end OnixCore.HxOil
