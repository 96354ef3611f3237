import OnixCore.HxOil.Proofs.Preflight
import OnixCore.HxOil.Proofs.Sidecar
import OnixCore.Lib.Renames

/-!
# Transforms

A transform checks its new names against the lines of the document, and `fs::rename` replaces
what the directory holds. `transform_keeps_iff`: its renames keep every entry of the directory
exactly when the ones that take place have new names the directory does not hold. The run stops
where the system refuses a rename, and that is settled before the first: each rename reads and
writes names no other one does.
-/

namespace OnixCore.HxOil

open Folder Text

variable {β : Type} [Content β] {transform : String → String} {document : ManifestDocument}

def markedIn (document : ManifestDocument) : List ManifestEntry :=
  document.entries.filter fun e => e.mark = .marked

def TransformItem.of (transform : String → String) (e : ManifestEntry) : TransformItem :=
  ⟨e.kind, e.relativePath, transform e.relativePath⟩

section Plans

theorem planTransforms_inv {scope : EntryScope} {markedNames unmarkedNames : List String} :
    ∀ {es : List ManifestEntry} {produced : List String} {items : List TransformItem},
      planTransforms transform scope markedNames unmarkedNames produced es = .ok items →
        items = es.map (.of transform) ∧ (es.map fun e => transform e.relativePath).Nodup
          ∧ ∀ e ∈ es, transform e.relativePath ∉ markedNames ∧ transform e.relativePath ∉ produced
  | [], produced, items, h => by
    rw [planTransforms, pure_eq_ok] at h
    exact ⟨h.symm, List.nodup_nil, nofun⟩
  | e :: es, produced, items, h => by
    simp only [planTransforms, bind_eq_ok, ensure_eq_ok, pure_eq_ok] at h
    obtain ⟨-, -, -, -, -, -, -, hproduced, -, hmarked, more, hmore, rfl⟩ := h
    obtain ⟨rfl, hnodup, hfresh⟩ := planTransforms_inv hmore
    refine ⟨rfl, List.nodup_cons.2 ⟨fun hmem => ?_, hnodup⟩, List.forall_mem_cons.2
      ⟨⟨hmarked, hproduced⟩, fun x hx => ⟨(hfresh x hx).1, fun h => (hfresh x hx).2
        (List.mem_cons_of_mem _ h)⟩⟩⟩
    obtain ⟨x, hx, heq⟩ := List.mem_map.1 hmem
    exact (hfresh x hx).2 (heq ▸ List.mem_cons_self)

theorem scope_of_single : ∀ {es : List ManifestEntry} {scope : EntryScope},
    singleScope es = .ok scope → ∀ e ∈ es, e.scope = scope
  | e :: es, scope, h => by
    simp only [singleScope, bind_eq_ok, ensure_eq_ok, pure_eq_ok] at h
    obtain ⟨-, hall, rfl⟩ := h
    exact List.forall_mem_cons.2 ⟨rfl, hall⟩

/-- The names a plan reads and the names it writes are all different. -/
theorem buildTransformPlan_inv {plan : EntryScope × List TransformItem}
    (hentries : validateDocumentEntries document = .ok ())
    (h : buildTransformPlan document transform = .ok plan) :
    plan.2 = (markedIn document).map (.of transform)
      ∧ ((markedIn document).map (·.relativePath)
        ++ (markedIn document).map fun e => transform e.relativePath).Nodup := by
  simp only [buildTransformPlan, markedEntries, bind_eq_ok, ensure_eq_ok, pure_eq_ok] at h
  obtain ⟨_, ⟨-, -, rfl⟩, scope, hscope, items, hitems, -, -, rfl⟩ := h
  obtain ⟨rfl, hnodup, hfresh⟩ := planTransforms_inv hitems
  have hnames : ((markedIn document).map (·.relativePath)).Nodup := by
    have hsingle : inScope scope (markedIn document) = markedIn document :=
      List.filter_eq_self.2 fun e he => by simpa using scope_of_single hscope e he
    have hpairs := (names_of_validate hentries).2.2
    rw [← hsingle]
    exact nodup_inScope (hpairs.sublist (List.filter_sublist.map _)) scope
  refine ⟨rfl, hnames.append hnodup fun n hn hn' => ?_⟩
  obtain ⟨e, he, rfl⟩ := List.mem_map.1 hn'
  exact (hfresh e he).1 hn

end Plans

section Runs

/-- The system renames the entry to its new name, where the directory is `d`. -/
def Renames (transform : String → String) (d : Folder β) (e : ManifestEntry) : Prop :=
  ∃ d', rename e.relativePath (transform e.relativePath) d = .ok d'

/-- Of the entries that are renamed before the first refusal, none has a new name that is taken. -/
def FreeTargets (transform : String → String) (d : Folder β) (es : List ManifestEntry) : Prop :=
  ∀ before e after, es = before ++ e :: after → (∀ x ∈ before ++ [e], Renames transform d x) →
    d.lookup (transform e.relativePath) = none

theorem freeTargets_nil {d : Folder β} : FreeTargets transform d [] := by
  intro before e after h
  simp at h

theorem freeTargets_cons {d : Folder β} {e : ManifestEntry} {es : List ManifestEntry} :
    FreeTargets transform d (e :: es) ↔ (Renames transform d e →
      d.lookup (transform e.relativePath) = none ∧ FreeTargets transform d es) := by
  constructor
  · intro h he
    refine ⟨h [] e es rfl (by simpa using he), fun before x after heq hall => ?_⟩
    refine h (e :: before) x after (by rw [heq]; rfl) ?_
    rw [List.cons_append, List.forall_mem_cons]
    exact ⟨he, hall⟩
  · intro h before x after heq hall
    cases before with
    | nil =>
      obtain ⟨rfl, -⟩ := List.cons.inj heq
      exact (h (hall _ List.mem_cons_self)).1
    | cons y before =>
      obtain ⟨rfl, rfl⟩ := List.cons.inj heq
      rw [List.cons_append, List.forall_mem_cons] at hall
      exact (h hall.1).2 before x after rfl hall.2

theorem FreeTargets.of_append {d : Folder β} {es es' : List ManifestEntry}
    (h : FreeTargets transform d (es ++ es')) : FreeTargets transform d es :=
  fun before e after heq => h before e (after ++ es') (by rw [heq, List.append_assoc]; rfl)

/-- The names read and the names written are all different. -/
def DistinctNames (transform : String → String) (es : List ManifestEntry) : Prop :=
  (es.map (·.relativePath) ++ es.map fun e => transform e.relativePath).Nodup

theorem distinctNames_cons {e : ManifestEntry} {es : List ManifestEntry}
    (h : DistinctNames transform (e :: es)) : e.relativePath ≠ transform e.relativePath
      ∧ (∀ x ∈ es, ∀ n ∈ [x.relativePath, transform x.relativePath],
        n ≠ e.relativePath ∧ n ≠ transform e.relativePath)
      ∧ DistinctNames transform es := by
  simp only [DistinctNames, List.map_cons, List.nodup_append, List.nodup_cons, List.mem_cons,
    List.mem_map, List.not_mem_nil, or_false, forall_eq_or_imp, forall_eq] at h ⊢
  grind

/-- Whether a rename takes place depends on its two names alone. -/
theorem freeTargets_congr {d d' : Folder β} : ∀ {es : List ManifestEntry},
    DistinctNames transform es →
    (∀ x ∈ es, ∀ n ∈ [x.relativePath, transform x.relativePath], d'.lookup n = d.lookup n) →
    (FreeTargets transform d' es ↔ FreeTargets transform d es)
  | [], _, _ => ⟨fun _ => freeTargets_nil, fun _ => freeTargets_nil⟩
  | e :: es, hdistinct, hsame => by
    obtain ⟨hne, -, hrest⟩ := distinctNames_cons hdistinct
    have hsource := hsame e List.mem_cons_self _ List.mem_cons_self
    have htarget := hsame e List.mem_cons_self _ (List.mem_cons_of_mem _ List.mem_cons_self)
    have hiff : Renames transform d' e ↔ Renames transform d e := by
      simp only [Renames, rename_eq_ok hne, hsource, htarget, exists_comm (α := Folder β),
        exists_and_left, exists_eq, and_true]
    rw [freeTargets_cons, freeTargets_cons, hiff, htarget,
      freeTargets_congr hrest fun x hx => hsame x (List.mem_cons_of_mem _ hx)]

variable (root : String) (scope : EntryScope)

/-- The first rename of a run is refused, or the rest runs as it would have without it. -/
theorem transformIn_cons {d : Folder β} {e : ManifestEntry} {es : List ManifestEntry}
    (hdistinct : DistinctNames transform (e :: es)) :
    (¬ Renames transform d e ∧ (transformIn root scope ((e :: es).map (.of transform)) d).1 = d)
      ∨ ∃ d', rename e.relativePath (transform e.relativePath) d = .ok d'
        ∧ (transformIn root scope ((e :: es).map (.of transform)) d).1
          = (transformIn root scope (es.map (.of transform)) d').1
        ∧ (FreeTargets transform d' es ↔ FreeTargets transform d es) := by
  obtain ⟨hne, hothers, hrest⟩ := distinctNames_cons hdistinct
  rcases h : rename e.relativePath (transform e.relativePath) d with error | d'
  · refine .inl ⟨fun ⟨d', hd'⟩ => by simp [h] at hd', ?_⟩
    simp only [transformIn, List.map_cons, runAll, TransformItem.of, h, withContext,
      Except.mapError]
  · refine .inr ⟨d', rfl, ?_, freeTargets_congr hrest fun x hx n hn => ?_⟩
    · simp only [transformIn, List.map_cons, runAll, TransformItem.of, h, withContext,
        Except.mapError]
    · obtain ⟨o, -, -, -, rfl⟩ := (rename_eq_ok hne).1 h
      rw [lookup_moved, if_neg (hothers x hx n hn).2, if_neg (hothers x hx n hn).1]

theorem length_transformIn : ∀ {es : List ManifestEntry} {d : Folder β},
    DistinctNames transform es →
      (transformIn root scope (es.map (.of transform)) d).1.keys.length ≤ d.keys.length
  | [], d, _ => le_rfl
  | e :: es, d, hdistinct => by
    obtain ⟨hne, -, hrest⟩ := distinctNames_cons hdistinct
    rcases transformIn_cons root scope hdistinct (d := d) with ⟨-, heq⟩ | ⟨d', h, heq, -⟩
    · rw [heq]
    · have hlength := (rename_renamed_iff hne h).2
      have hrun := length_transformIn hrest (d := d')
      rw [heq]
      omega

theorem renamed_of_freeTargets : ∀ {es : List ManifestEntry} {d : Folder β},
    DistinctNames transform es → FreeTargets transform d es →
      Renamed d (transformIn root scope (es.map (.of transform)) d).1
  | [], d, _, _ => .refl d
  | e :: es, d, hdistinct, hfree => by
    obtain ⟨hne, -, hrest⟩ := distinctNames_cons hdistinct
    rcases transformIn_cons root scope hdistinct (d := d) with ⟨-, heq⟩ | ⟨d', h, heq, hiff⟩
    · rw [heq]
    · obtain ⟨htarget, hfree⟩ := freeTargets_cons.1 hfree ⟨d', h⟩
      rw [heq]
      exact ((rename_renamed_iff hne h).1 htarget).trans
        (renamed_of_freeTargets hrest (hiff.2 hfree))

theorem freeTargets_of_length : ∀ {es : List ManifestEntry} {d : Folder β},
    DistinctNames transform es →
    d.keys.length ≤ (transformIn root scope (es.map (.of transform)) d).1.keys.length →
      FreeTargets transform d es
  | [], d, _, _ => freeTargets_nil
  | e :: es, d, hdistinct, hle => by
    obtain ⟨hne, -, hrest⟩ := distinctNames_cons hdistinct
    rcases transformIn_cons root scope hdistinct (d := d) with ⟨hno, heq⟩ | ⟨d', h, heq, hiff⟩
    · exact freeTargets_cons.2 fun he => absurd he hno
    · have hlength := (rename_renamed_iff hne h).2
      have hrun := length_transformIn root scope hrest (d := d')
      rw [heq] at hle
      have htarget : transform e.relativePath ∉ d := fun hmem => by
        rw [if_pos hmem] at hlength
        omega
      rw [if_neg htarget] at hlength
      refine freeTargets_cons.2 fun _ => ⟨AList.lookup_eq_none.2 htarget, hiff.1 ?_⟩
      exact freeTargets_of_length hrest (by omega)

theorem transform_keeps_iff {plan : EntryScope × List TransformItem}
    (hentries : validateDocumentEntries document = .ok ())
    (hplan : buildTransformPlan document transform = .ok plan) (root : String) (d : Folder β) :
    (∀ k, Renamed d (transformIn root plan.1 (plan.2.take k) d).1)
      ↔ FreeTargets transform d (markedIn document) := by
  obtain ⟨hitems, hdistinct⟩ := buildTransformPlan_inv hentries hplan
  rw [hitems]
  constructor
  · intro h
    refine freeTargets_of_length root plan.1 hdistinct ?_
    have hall := h (markedIn document).length
    rw [← List.map_take, List.take_length] at hall
    exact hall.length_keys.ge
  · intro hfree k
    have hsub : DistinctNames transform ((markedIn document).take k) :=
      hdistinct.sublist (.append ((List.take_sublist k _).map _) ((List.take_sublist k _).map _))
    rw [← List.map_take]
    rw [← List.take_append_drop k (markedIn document)] at hfree
    exact renamed_of_freeTargets root plan.1 hsub hfree.of_append

end Runs

section Worlds

variable {γ E : Type} [Content γ] {w : World γ E}

/-- A transform of the root does to the world what it does to the root directory. -/
theorem executeTransformPlan_root (host : Host γ E) (root : String) (items : List TransformItem) :
    (executeTransformPlan host root .root items w).1.root
        = (transformIn root .root items w.root).1
      ∧ (executeTransformPlan host root .root items w).2
        = (transformIn root .root items w.root).2 := by
  refine runAll_simulation (R := fun (w' : World γ E) d => w'.root = d) _ ?_ rfl
  rintro item - w' _ rfl
  simp only [World.performAt, World.perform, performOperation, withContext_map]
  rcases withContext _ (Folder.rename item.source item.target w'.root) with e | d'
  · rfl
  · rfl

/-- A transform of a subdirectory does to the world what it does to that directory. -/
theorem executeTransformPlan_subdir (host : Host γ E) (root : String) (items : List TransformItem)
    {name : String} {st : Stat} {sub : Folder γ} (h : w.root.lookup name = some (.dir st sub)) :
    ((executeTransformPlan host root (.subdir name) items w).1.root.lookup name
          = some (.dir st (transformIn root (.subdir name) items sub).1)
        ∧ ∀ n ≠ name, (executeTransformPlan host root (.subdir name) items w).1.root.lookup n
          = w.root.lookup n)
      ∧ (executeTransformPlan host root (.subdir name) items w).2
        = (transformIn root (.subdir name) items sub).2 := by
  refine runAll_simulation (R := fun (w' : World γ E) sub' =>
    w'.root.lookup name = some (.dir st sub') ∧ ∀ n ≠ name, w'.root.lookup n = w.root.lookup n)
    _ ?_ ⟨h, fun _ _ => rfl⟩
  rintro item - w' sub' ⟨hw, hrest⟩
  simp only [World.performAt, World.perform, hw, performOperation, withContext_map,
    Option.isNone_some, Bool.false_eq_true, false_and, ↓reduceIte]
  rcases withContext _ (Folder.rename item.source item.target sub') with e | d'
  · rfl
  · exact ⟨AList.lookup_insert _, fun n hn => (AList.lookup_insert_ne hn).trans (hrest n hn)⟩

end Worlds

section Removed

/-- Two files. -/
def filesWorld : World Unit Unit :=
  ⟨.ofList [("a", .leaf ⟨1, 1⟩ (.regular [1])), ("b", .leaf ⟨2, 1⟩ (.regular [2]))], ()⟩

def filesSession (lines : List String) : Session :=
  ⟨⟨2, "/r".toList, 5, 3, [⟨1, 0, "a", .file, 1, 1⟩, ⟨2, 1, "b", .file, 2, 1⟩], []⟩,
    writeLines ((["# hx-oil root: /r", "# blank lines and comment lines are ignored"]
      ++ lines).map String.toList)⟩

def filesDocument : ManifestDocument :=
  ⟨"/r".toList, [.entry ⟨"a", .file, 3, .marked, .root⟩, .entry ⟨"b", .file, 4, .none, .root⟩]⟩

def prefixed (name : String) : String := "new-" ++ name

theorem transform_keeps_prefixed : FreeTargets prefixed filesWorld.root (markedIn filesDocument)
    ∧ ∀ k, Renamed filesWorld.root
      (transformIn "/r" .root (List.take k [⟨.file, "a", "new-a"⟩]) filesWorld.root).1 := by
  have hfree : FreeTargets prefixed filesWorld.root (markedIn filesDocument) := by
    refine freeTargets_cons.2 fun _ => ⟨by decide, freeTargets_nil⟩
  have hplan : buildTransformPlan filesDocument prefixed
      = .ok (.root, [⟨.file, "a", "new-a"⟩]) := by decide
  exact ⟨hfree, (transform_keeps_iff (by decide) hplan "/r" filesWorld.root).2 hfree⟩

/-- The line of the second file is removed, and the first file is to take its name. -/
def removedLine : Session := filesSession ["* a"]

def removedDocument : ManifestDocument := ⟨"/r".toList, [.entry ⟨"a", .file, 3, .marked, .root⟩]⟩

/-- The transform is accepted and replaces the second file. -/
theorem removedLine_replaces :
    checkedDocument plainHost removedLine filesWorld = .ok removedDocument
      ∧ buildTransformPlan removedDocument (fun _ => "b") = .ok (.root, [⟨.file, "a", "b"⟩])
      ∧ (runTransform plainHost (fun _ => "b") removedLine 7 filesWorld).2.isOk = true
      ∧ (runTransform plainHost (fun _ => "b") removedLine 7 filesWorld).1.root.entries
        = [⟨"b", .leaf ⟨1, 1⟩ (.regular [1])⟩]
      ∧ ¬ Renamed filesWorld.root
        (executeTransformPlan plainHost "/r" .root [⟨.file, "a", "b"⟩] filesWorld).1.root := by
  refine ⟨by decide, by decide, by decide, by decide, fun h => ?_⟩
  exact absurd h.length_keys (by decide)

end Removed

end OnixCore.HxOil
