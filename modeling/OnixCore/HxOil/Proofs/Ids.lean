import OnixCore.HxOil.Proofs.Commands
import OnixCore.HxOil.Proofs.Listing
import OnixCore.Lib.Numbering

/-!
# Entry ids

A listing draws its ids (`draws_collect`): an entry the previous snapshot knows keeps its id, any
other gets one that was free. So a sidecar written from one whose ids are distinct and below the
next one has distinct ids again, as long as no snapshot is listed twice.
-/

namespace OnixCore.HxOil

variable {β γ E : Type}

theorem foldl_max_lt {n : ℕ} : ∀ {l : List ℕ} {a : ℕ}, a < n → (∀ i ∈ l, i < n) →
    l.foldl max a < n
  | [], _, ha, _ => ha
  | i :: l, a, ha, h => by
    rw [List.forall_mem_cons] at h
    exact foldl_max_lt (a := max a i) (max_lt ha h.1) h.2

theorem assignIds_number (ids : List (Key × ℕ)) :
    ∀ (l : List SnapshotEntry) (next index : ℕ),
      (idsOf (assignIds ids next index l).1, (assignIds ids next index l).2)
        = number (fun k => ids.lookup k) next (l.map (·.key))
  | [], _, _ => rfl
  | e :: rest, next, index => by
    rcases h : ids.lookup e.key with _ | i
    · simp only [assignIds, h, List.map_cons, number, idsOf,
        ← assignIds_number ids rest (next + 1) (index + 1)]
    · simp only [assignIds, h, List.map_cons, number, idsOf,
        ← assignIds_number ids rest next (index + 1)]

theorem lookup_previous {previous : List SnapshotEntry} {k : Key} {i : ℕ}
    (h : ((previous.map fun e => (e.key, e.id)).reverse).lookup k = some i) :
    ∃ e ∈ previous, e.key = k ∧ e.id = i := by
  obtain ⟨l₁, l₂, hl, -⟩ := List.lookup_eq_some_iff.1 h
  have hmem : (k, i) ∈ (previous.map fun e => (e.key, e.id)).reverse := by rw [hl]; simp
  rw [List.mem_reverse, List.mem_map] at hmem
  obtain ⟨e, he, heq⟩ := hmem
  exact ⟨e, he, congrArg Prod.fst heq, congrArg Prod.snd heq⟩

/-- A listing with ids to go by: what it keeps is what the previous snapshot had. -/
theorem draws_collect (d : Folder β) {previous : List SnapshotEntry} {nextId : ℕ}
    (hnd : (idsOf previous).Nodup) (hlt : ∀ i ∈ idsOf previous, i < nextId) (hpos : 0 < nextId) :
    Draws {i | i ∈ idsOf previous} nextId (collectSnapshotWithIds d previous nextId).2
      (idsOf (collectSnapshotWithIds d previous nextId).1) := by
  have hmax : (previous.map (·.id)).foldl max 0 < nextId := foldl_max_lt hpos hlt
  let known : Key → Option ℕ := fun k => (previous.map fun e => (e.key, e.id)).reverse.lookup k
  have hnumber := assignIds_number (previous.map fun e => (e.key, e.id)).reverse
    ((d.entries.map listEntry).insertionSort listOrder) nextId 0
  have hkeys : (((d.entries.map listEntry).insertionSort listOrder).map (·.key)).Nodup := by
    rw [((List.perm_insertionSort listOrder _).map _).nodup_iff, List.map_map]
    exact List.Nodup.of_map Prod.fst (by rw [List.map_map]; exact d.keys_nodup)
  have hinj : ∀ k k' i, known k = some i → known k' = some i → k = k' := by
    intro k k' i hk hk'
    obtain ⟨e, he, rfl, rfl⟩ := lookup_previous hk
    obtain ⟨e', he', rfl, hid⟩ := lookup_previous hk'
    rw [List.inj_on_of_nodup_map hnd he' he hid]
  have hold : ∀ k i, known k = some i → i ∈ {i | i ∈ idsOf previous} := by
    intro k i hk
    obtain ⟨e, he, -, rfl⟩ := lookup_previous hk
    exact List.mem_map_of_mem he
  have hdraws := (draws_number hinj hold hlt hkeys).1
  rw [← hnumber] at hdraws
  unfold collectSnapshotWithIds
  simp only [if_neg hpos.ne', if_neg (not_le.2 hmax)]
  exact hdraws

/-- At most one state for each path, and ids that are distinct and below the next one. -/
structure Sidecar.Consistent (s : Sidecar) : Prop where
  paths : (s.subdirs.map (·.relativePath)).Nodup
  ids : s.ids.Nodup
  below : ∀ i ∈ s.ids, i < s.nextEntryId

/-- A sidecar of the present version: no id is missing. -/
structure Sidecar.Numbered (s : Sidecar) : Prop where
  version : s.version = sidecarVersion
  next : 0 < s.nextEntryId
  ids : ∀ i ∈ s.ids, 0 < i

/-! ## Loading -/

theorem fillIds_eq (next : ℕ) : ∀ {l : List SnapshotEntry}, (∀ i ∈ idsOf l, 0 < i) →
    fillIds next l = (l, next)
  | [], _ => rfl
  | e :: rest, h => by
    rw [idsOf, List.map_cons, List.forall_mem_cons] at h
    simp only [fillIds, if_neg h.1.ne', fillIds_eq next h.2]

theorem fillSubdirs_eq (next : ℕ) : ∀ {l : List SubdirState},
    (∀ state ∈ l, ∀ i ∈ idsOf state.entries, 0 < i) → fillSubdirs next l = (l, next)
  | [], _ => rfl
  | state :: rest, h => by
    rw [List.forall_mem_cons] at h
    simp only [fillSubdirs, fillIds_eq next h.1, fillSubdirs_eq next h.2]

theorem mem_ids {s : Sidecar} {i : ℕ} : i ∈ s.ids ↔ i ∈ idsOf s.entries
    ∨ ∃ state ∈ s.subdirs, i ∈ idsOf state.entries := by
  simp [Sidecar.ids]

theorem foldl_max_succ {n : ℕ} : ∀ {l : List ℕ}, (∀ i ∈ l, i < n) →
    l.foldl (fun next id => max next (id + 1)) n = n
  | [], _ => rfl
  | i :: l, h => by
    rw [List.forall_mem_cons] at h
    rw [List.foldl_cons, max_eq_left (Nat.succ_le_of_lt h.1)]
    exact foldl_max_succ h.2

/-- Loading leaves a sidecar of the present version as it is. -/
theorem upgradeSidecar_eq {s : Sidecar} (hc : s.Consistent) (hn : s.Numbered) :
    upgradeSidecar s = s := by
  have hnext : s.ids.foldl (fun next id => max next (id + 1)) (max s.nextEntryId 1)
      = s.nextEntryId := by
    rw [max_eq_left (Nat.succ_le_of_lt hn.next)]
    exact foldl_max_succ hc.below
  have hroot : ∀ i ∈ idsOf s.entries, 0 < i := fun i hi => hn.ids i (mem_ids.2 (.inl hi))
  have hsub : ∀ state ∈ s.subdirs, ∀ i ∈ idsOf state.entries, 0 < i :=
    fun state hs i hi => hn.ids i (mem_ids.2 (.inr ⟨state, hs, hi⟩))
  simp only [upgradeSidecar, hnext, fillIds_eq _ hroot, fillSubdirs_eq _ hsub, ← hn.version]

/-! ## Writing a session anew -/

/-- What a sidecar knows: ids of the root and of each path, all apart and below the next one. -/
structure Apart (root : List ℕ) (known : String → List ℕ) (next : ℕ) : Prop where
  pos : 0 < next
  root_nodup : root.Nodup
  known_nodup : ∀ name, (known name).Nodup
  root_apart : ∀ name, ∀ i ∈ root, i ∉ known name
  known_apart : ∀ a b, a ≠ b → ∀ i ∈ known a, i ∉ known b
  root_within : ∀ i ∈ root, 0 < i ∧ i < next
  known_within : ∀ name, ∀ i ∈ known name, 0 < i ∧ i < next

theorem mem_known {s : Sidecar} {name : String} {i : ℕ} (h : i ∈ idsOf (s.known name)) :
    ∃ state ∈ s.subdirs, state.relativePath = name ∧ i ∈ idsOf state.entries := by
  rcases hf : s.findSubdir name with _ | state
  · simp [Sidecar.known, hf, idsOf] at h
  · obtain ⟨hs, hname⟩ := findSubdir_eq_some hf
    exact ⟨state, hs, hname, by simpa [Sidecar.known, hf] using h⟩

theorem Sidecar.Consistent.within {s : Sidecar} (hc : s.Consistent) (hn : s.Numbered) {i : ℕ}
    (hi : i ∈ s.ids) : 0 < i ∧ i < s.nextEntryId := ⟨hn.ids i hi, hc.below i hi⟩

theorem Sidecar.Consistent.apart {s : Sidecar} (hc : s.Consistent) (hn : s.Numbered) :
    Apart (idsOf s.entries) (fun name => idsOf (s.known name)) s.nextEntryId := by
  obtain ⟨hroot, hsubs, hdisj⟩ := List.nodup_append.1 hc.ids
  obtain ⟨hstate, hpair⟩ := List.nodup_flatMap.1 hsubs
  refine ⟨hn.next, hroot, fun name => ?_, fun name i hi hk => ?_, fun a b hab i hi hk => ?_,
    fun i hi => hc.within hn (mem_ids.2 (.inl hi)), fun name i hi => ?_⟩
  · rcases hf : s.findSubdir name with _ | state
    · simp [Sidecar.known, hf, idsOf]
    · simpa [Sidecar.known, hf] using hstate state (findSubdir_eq_some hf).1
  · obtain ⟨state, hs, -, hk⟩ := mem_known hk
    exact hdisj i hi i (List.mem_flatMap.2 ⟨state, hs, hk⟩) rfl
  · obtain ⟨left, hl, rfl, hleft⟩ := mem_known hi
    obtain ⟨right, hr, rfl, hright⟩ := mem_known hk
    have hsymm : Std.Symm (Function.onFun List.Disjoint fun state : SubdirState =>
        idsOf state.entries) := ⟨fun _ _ h => List.disjoint_symm h⟩
    exact hpair.forall hl hr (fun heq => hab (by rw [heq])) hleft hright
  · obtain ⟨state, hs, -, hi⟩ := mem_known hi
    exact hc.within hn (mem_ids.2 (.inr ⟨state, hs, hi⟩))

/-- What a rewrite goes by for the root, and for a subdirectory. -/
def rootKnown (previous : Option Sidecar) : List SnapshotEntry :=
  (previous.map (·.entries)).getD []

def subdirKnown (previous : Option Sidecar) (name : String) : List SnapshotEntry :=
  ((previous.bind (·.findSubdir name)).map (·.entries)).getD []

def nextKnown (previous : Option Sidecar) : ℕ := (previous.map (·.nextEntryId)).getD 1

theorem apart_previous {previous : Option Sidecar}
    (h : ∀ s ∈ previous, s.Consistent ∧ s.Numbered) :
    Apart (idsOf (rootKnown previous)) (fun name => idsOf (subdirKnown previous name))
      (nextKnown previous) := by
  rcases previous with _ | s
  · constructor <;> simp [rootKnown, subdirKnown, nextKnown, idsOf]
  · obtain ⟨hc, hn⟩ := h s rfl
    exact hc.apart hn

/-- The names that are directories of the root. -/
def openDirs (w : World γ E) (names : List String) : List String :=
  names.filter fun name => (w.root.lookup name).any (·.isDir)

/-- What a listing of the root calls a directory. -/
theorem dirs_collect (w : World γ E) (previous : List SnapshotEntry) (next : ℕ) (name : String) :
    (name, EntryKind.directory) ∈ (collectSnapshotWithIds w.root previous next).1.map (·.key)
      ↔ (w.root.lookup name).any (·.isDir) = true := by
  rw [mem_collectSnapshotWithIds]
  rcases h : w.root.lookup name with _ | ⟨st, c⟩ | ⟨st, sub⟩ <;> simp [kindOf]

section Rewrite

variable {links : Links γ E} {previous : Option Sidecar} {entries : List SnapshotEntry}
  {w : World γ E}
  (hdirs : ∀ name, (name, EntryKind.directory) ∈ entries.map (·.key)
    ↔ (w.root.lookup name).any (·.isDir) = true)

include hdirs

theorem openDirs_pos {name : String} (h : (name, EntryKind.directory) ∈ entries.map (·.key))
    (rest : List String) : openDirs w (name :: rest) = name :: openDirs w rest :=
  List.filter_cons_of_pos ((hdirs name).1 h)

theorem openDirs_neg {name : String} (h : (name, EntryKind.directory) ∉ entries.map (·.key))
    (rest : List String) : openDirs w (name :: rest) = openDirs w rest :=
  List.filter_cons_of_neg ((hdirs name).not.1 h)

theorem paths_rewriteSubdirs : ∀ {names : List String} {next : ℕ} {r : List SubdirState × ℕ},
    rewriteSubdirs links previous entries w next names = .ok r →
    r.1.map (·.relativePath) = openDirs w names
  | [], next, r, h => by
    simp only [rewriteSubdirs, pure_eq_ok] at h
    simp [← h, openDirs]
  | name :: rest, next, r, h => by
    unfold rewriteSubdirs at h
    split_ifs at h with hdir
    · split at h
      · simp at h
      · simp only [bind_eq_ok, pure_eq_ok] at h
        obtain ⟨more, hmore, rfl⟩ := h
        rw [openDirs_pos hdirs hdir, List.map_cons, paths_rewriteSubdirs hmore]
    · rw [openDirs_neg hdirs hdir]
      exact paths_rewriteSubdirs h

theorem draws_rewriteSubdirs {start : ℕ} {root : List ℕ}
    (hap : Apart root (fun name => idsOf (subdirKnown previous name)) start) :
    ∀ {names : List String} {next : ℕ} {r : List SubdirState × ℕ},
      rewriteSubdirs links previous entries w next names = .ok r → start ≤ next →
      (openDirs w names).Nodup →
      Draws {i | ∃ name ∈ openDirs w names, i ∈ idsOf (subdirKnown previous name)} next r.2
        (r.1.flatMap fun state => idsOf state.entries)
  | [], next, r, h, _, _ => by
    simp only [rewriteSubdirs, pure_eq_ok] at h
    subst h
    exact .nil _ _
  | name :: rest, next, r, h, hle, hnd => by
    unfold rewriteSubdirs at h
    split_ifs at h with hdir
    · split at h
      · simp at h
      · rename_i sub _
        simp only [bind_eq_ok, pure_eq_ok] at h
        obtain ⟨more, hmore, rfl⟩ := h
        rw [openDirs_pos hdirs hdir, List.nodup_cons] at hnd
        have hbelow : ∀ a, ∀ i ∈ idsOf (subdirKnown previous a), i < next :=
          fun a i hi => (hap.known_within a i hi).2.trans_le hle
        have hfirst := draws_collect sub (hap.known_nodup name) (hbelow name)
          (hap.pos.trans_le hle)
        have hrest := draws_rewriteSubdirs hap hmore (hle.trans hfirst.le) hnd.2
        rw [List.flatMap_cons]
        refine (hfirst.append hrest ?_ (hbelow name) ?_).mono ?_
        · rintro i hi ⟨other, hother, hk⟩
          exact hap.known_apart name other (fun heq => hnd.1 (heq ▸ hother)) i hi hk
        · rintro i ⟨other, -, hk⟩
          exact hbelow other i hk
        · rw [openDirs_pos hdirs hdir]
          rintro i (hi | ⟨other, hother, hk⟩)
          · exact ⟨name, List.mem_cons_self, hi⟩
          · exact ⟨other, List.mem_cons_of_mem _ hother, hk⟩
    · rw [openDirs_neg hdirs hdir] at hnd ⊢
      exact draws_rewriteSubdirs hap h hle hnd

end Rewrite

end OnixCore.HxOil
