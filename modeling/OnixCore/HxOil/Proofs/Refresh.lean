import Mathlib.Data.List.Sort
import OnixCore.HxOil.Proofs.Commands
import OnixCore.HxOil.Proofs.Document
import OnixCore.HxOil.Proofs.Listing
import OnixCore.HxOil.Proofs.Sidecar

/-!
# A refreshed block and the listing of the root

A snapshot matches a directory exactly when it shows the same objects (`match_iff_seen`). Refreshing
a block lists its directory anew, but the entry of that directory in the root's own snapshot stays:
a session whose only change is below the block is current again exactly when every child was
edited in place and no other block shows the change (`refresh_cures_iff`).
-/

namespace OnixCore.HxOil

section Views

variable {β : Type} {d d' : Folder β}

/-- What a match compares of an entry besides its place. -/
def shape (e : SnapshotEntry) : Key × ℕ × ℕ := (e.key, e.mtimeNs, e.size)

/-- What a listing shows of an object besides its name. -/
def seen (o : Obj β) : EntryKind × Stat := (kindOf o, o.stat)

def view (e : SnapshotEntry) : (Key × ℕ × ℕ) × ℕ := (shape e, e.index)

theorem sameEntry_iff {l r : SnapshotEntry} : sameEntry l r = true ↔ view l = view r := by
  simp only [sameEntry, decide_eq_true_eq, view, shape, SnapshotEntry.key, Prod.mk.injEq]
  tauto

theorem snapshotListsMatch_iff : ∀ {l r : List SnapshotEntry},
    snapshotListsMatch l r = true ↔ l.map view = r.map view
  | [], [] => by simp [snapshotListsMatch]
  | [], _ :: _ => by simp [snapshotListsMatch]
  | _ :: _, [] => by simp [snapshotListsMatch]
  | x :: l, y :: r => by
    have ih := @snapshotListsMatch_iff l r
    simp only [snapshotListsMatch, Bool.and_eq_true, decide_eq_true_eq, List.all_eq_true] at ih
    simp only [snapshotListsMatch, Bool.and_eq_true, decide_eq_true_eq, List.zip_cons_cons,
      List.length_cons, Nat.add_right_cancel_iff, List.all_cons, sameEntry_iff, List.map_cons,
      List.cons.injEq, List.all_eq_true, ← ih]
    tauto

theorem assignIds_views (ids : List (Key × ℕ)) : ∀ (l : List SnapshotEntry) (next index : ℕ),
    (assignIds ids next index l).1.map view = (l.map shape).zipIdx index
  | [], _, _ => rfl
  | e :: rest, next, index => by
    simp only [assignIds]
    split <;>
      · simp only [List.map_cons, assignIds_views ids rest, List.zipIdx_cons]
        rfl

/-- The entries of a directory in the order of its listing. -/
def listed (d : Folder β) : List SnapshotEntry := (d.entries.map listEntry).insertionSort listOrder

theorem views_collect (d : Folder β) (previous : List SnapshotEntry) (nextId : ℕ) :
    (collectSnapshotWithIds d previous nextId).1.map view = ((listed d).map shape).zipIdx :=
  assignIds_views _ _ _ _

theorem match_own (d : Folder β) (previous : List SnapshotEntry) (nextId : ℕ) :
    snapshotListsMatch (collectSnapshot d) (collectSnapshotWithIds d previous nextId).1 = true := by
  rw [snapshotListsMatch_iff, collectSnapshot, views_collect, views_collect]

theorem mem_shapes {k : Key} {m s : ℕ} : (k, m, s) ∈ (listed d).map shape
    ↔ ∃ o, d.lookup k.1 = some o ∧ seen o = (k.2, ⟨m, s⟩) := by
  have hperm : ((listed d).map shape).Perm ((d.entries.map listEntry).map shape) :=
    (List.perm_insertionSort listOrder _).map _
  rw [hperm.mem_iff, List.map_map, List.mem_map]
  constructor
  · rintro ⟨⟨n, o⟩, h, heq⟩
    obtain ⟨rfl, rfl, rfl⟩ := heq
    exact ⟨o, AList.mem_lookup_iff.2 h, rfl⟩
  · rintro ⟨o, h, heq⟩
    obtain ⟨hkind, hstat⟩ := Prod.mk.inj heq
    refine ⟨⟨k.1, o⟩, AList.mem_lookup_iff.1 h, ?_⟩
    simp [listEntry, shape, SnapshotEntry.key, hkind, hstat]

instance : Std.Total listOrder where
  total x y := by
    rcases Nat.lt_trichotomy x.kind.sortKey y.kind.sortKey with h | h | h
    · exact .inl (.inl h)
    · exact (String.le_total x.relativePath y.relativePath).imp (fun hle => .inr ⟨h, hle⟩)
        fun hle => .inr ⟨h.symm, hle⟩
    · exact .inr (.inl h)

instance : IsTrans SnapshotEntry listOrder where
  trans x y z hxy hyz := by
    rcases hxy with hxy | ⟨hxy, hle⟩ <;> rcases hyz with hyz | ⟨hyz, hle'⟩
    · exact .inl (hxy.trans hyz)
    · exact .inl (hyz ▸ hxy)
    · exact .inl (hxy ▸ hyz)
    · exact .inr ⟨hxy.trans hyz, String.le_trans hle hle'⟩

theorem mem_listed {e : SnapshotEntry} :
    e ∈ listed d ↔ ∃ o, d.lookup e.relativePath = some o ∧ listEntry ⟨e.relativePath, o⟩ = e := by
  rw [listed, (List.perm_insertionSort listOrder _).mem_iff, List.mem_map]
  constructor
  · rintro ⟨⟨n, o⟩, h, rfl⟩
    exact ⟨o, AList.mem_lookup_iff.2 h, rfl⟩
  · rintro ⟨o, h, heq⟩
    exact ⟨_, AList.mem_lookup_iff.1 h, heq⟩

theorem names_listed : ((listed d).map (·.relativePath)).Nodup := by
  rw [listed, ((List.perm_insertionSort listOrder _).map _).nodup_iff, List.map_map]
  exact d.keys_nodup

/-- Directories that show the same objects have the same listing. -/
theorem listed_eq (h : ∀ n, (d.lookup n).map seen = (d'.lookup n).map seen) :
    listed d = listed d' := by
  have hmem : ∀ {a b : Folder β}, (∀ n, (a.lookup n).map seen = (b.lookup n).map seen) →
      ∀ e ∈ listed a, e ∈ listed b := by
    intro a b h e he
    obtain ⟨o, ho, heq⟩ := mem_listed.1 he
    have hsame := h e.relativePath
    rw [ho, Option.map_some] at hsame
    obtain ⟨o', ho', hseen⟩ := Option.map_eq_some_iff.1 hsame.symm
    obtain ⟨hkind, hstat⟩ := Prod.mk.inj hseen
    refine mem_listed.2 ⟨o', ho', ?_⟩
    rw [← heq]
    simp [listEntry, hkind, hstat]
  have hperm : (listed d).Perm (listed d') :=
    (List.perm_ext_iff_of_nodup names_listed.of_map names_listed.of_map).2 fun e =>
      ⟨hmem h e, hmem (fun n => (h n).symm) e⟩
  refine hperm.eq_of_pairwise (fun x y hx hy hxy hyx => ?_)
    (List.pairwise_insertionSort listOrder _) (List.pairwise_insertionSort listOrder _)
  -- two entries of one place in the order have one name
  have hname : x.relativePath = y.relativePath := by
    rcases hxy with hlt | ⟨heq, hle⟩ <;> rcases hyx with hgt | ⟨heq', hge⟩
    · exact absurd hlt hgt.asymm
    · omega
    · omega
    · exact String.le_antisymm hle hge
  exact List.inj_on_of_nodup_map names_listed (hperm.mem_iff.1 hx) hy hname

theorem seen_of_shapes (h : ∀ s ∈ (listed d).map shape, s ∈ (listed d').map shape) {n : String}
    {o : Obj β} (ho : d.lookup n = some o) : (d'.lookup n).map seen = some (seen o) := by
  have hmem : ((n, kindOf o), o.stat.mtimeNs, o.stat.size) ∈ (listed d).map shape :=
    mem_shapes.2 ⟨o, ho, rfl⟩
  obtain ⟨o', ho', hseen⟩ := mem_shapes.1 (h _ hmem)
  rw [ho', Option.map_some, hseen]
  rfl

/-- A snapshot that matches a directory matches another one exactly when it shows the same. -/
theorem match_iff_seen {original : List SnapshotEntry}
    (h : snapshotListsMatch (collectSnapshot d) original = true) :
    snapshotListsMatch (collectSnapshot d') original = true
      ↔ ∀ n, (d'.lookup n).map seen = (d.lookup n).map seen := by
  rw [snapshotListsMatch_iff, collectSnapshot, views_collect] at h ⊢
  rw [← h]
  constructor
  · intro heq n
    have hshapes : (listed d').map shape = (listed d).map shape := by
      rw [← List.zipIdx_map_fst 0 ((listed d').map shape), heq, List.zipIdx_map_fst]
    rcases hd : d.lookup n with _ | o
    · rcases hd' : d'.lookup n with _ | o'
      · rfl
      · have hsome := seen_of_shapes (fun s hs => hshapes ▸ hs) hd'
        rw [hd] at hsome
        cases hsome
    · rw [seen_of_shapes (fun s hs => hshapes.symm ▸ hs) hd, Option.map_some]
  · intro hseen
    rw [listed_eq hseen]

end Views

section Changes

variable {γ E : Type}

/-- A change to one child of a directory. Each but an edit is a change of the directory itself, which
gets a new time and size. -/
inductive ChildChange (γ : Type) where
  | edit (child : String) (obj : Obj γ)
  | create (child : String) (obj : Obj γ) (stat : Stat)
  | delete (child : String) (stat : Stat)
  | rename (source target : String) (stat : Stat)

/-- What the directory is given by the change. -/
def ChildChange.touched : ChildChange γ → Option Stat
  | .edit _ _ => none
  | .create _ _ stat | .delete _ stat | .rename _ _ stat => some stat

def ChildChange.apply (d : Stat × Folder γ) : ChildChange γ → Option (Stat × Folder γ)
  | .edit child obj => if (d.2.lookup child).isSome then some (d.1, d.2.insert child obj) else none
  | .create child obj stat =>
    if (d.2.lookup child).isSome then none else some (stat, d.2.insert child obj)
  | .delete child stat =>
    if (d.2.lookup child).isSome then some (stat, d.2.erase child) else none
  | .rename source target stat =>
    (d.2.lookup source).map fun o => (stat, (d.2.erase source).insert target o)

def runChanges (changes : List (ChildChange γ)) (d : Stat × Folder γ) :
    Option (Stat × Folder γ) :=
  changes.foldlM ChildChange.apply d

variable {d d' : Stat × Folder γ} {c : ChildChange γ} {changes : List (ChildChange γ)}

theorem stat_apply (h : c.apply d = some d') : d'.1 = c.touched.getD d.1 := by
  cases c with
  | edit child obj =>
    simp only [ChildChange.apply, Option.ite_none_right_eq_some, Option.some.injEq] at h
    rw [← h.2]
    rfl
  | create child obj stat =>
    simp only [ChildChange.apply, Option.ite_none_left_eq_some, Option.some.injEq] at h
    rw [← h.2]
    rfl
  | delete child stat =>
    simp only [ChildChange.apply, Option.ite_none_right_eq_some, Option.some.injEq] at h
    rw [← h.2]
    rfl
  | rename source target stat =>
    simp only [ChildChange.apply, Option.map_eq_some_iff] at h
    obtain ⟨o, -, rfl⟩ := h
    rfl

theorem stat_run : ∀ {changes : List (ChildChange γ)} {d : Stat × Folder γ},
    runChanges changes d = some d' →
      d'.1 = changes.foldl (fun stat c => c.touched.getD stat) d.1
  | [], d, h => by
    obtain rfl := Option.some.inj h
    rfl
  | c :: changes, d, h => by
    rw [runChanges, List.foldlM_cons] at h
    obtain ⟨mid, hmid, hrest⟩ := Option.bind_eq_some_iff.1 h
    rw [stat_run hrest, stat_apply hmid, List.foldl_cons]

/-- With times after the one the directory has, its stat is what it was exactly when every change is
an edit. -/
theorem foldl_touched {stat : Stat} : ∀ {changes : List (ChildChange γ)} {now : Stat},
    (∀ c ∈ changes, ∀ t ∈ c.touched, stat.mtimeNs < t.mtimeNs) →
      now = stat ∨ stat.mtimeNs < now.mtimeNs →
      (changes.foldl (fun stat c => c.touched.getD stat) now = stat
        ↔ now = stat ∧ ∀ c ∈ changes, c.touched = none)
  | [], now, _, _ => by simp
  | c :: changes, now, hlater, hnow => by
    obtain ⟨hc, hlater⟩ := List.forall_mem_cons.1 hlater
    rw [List.foldl_cons, List.forall_mem_cons]
    rcases ht : c.touched with _ | t
    · rw [Option.getD_none, foldl_touched hlater hnow]
      simp
    · have hafter : stat.mtimeNs < t.mtimeNs := hc t ht
      rw [Option.getD_some, foldl_touched hlater (.inr hafter)]
      simp only [reduceCtorEq, false_and, and_false, iff_false, not_and]
      rintro rfl
      exact absurd hafter (lt_irrefl _)

end Changes

section Refreshing

variable {γ E : Type} {links : Links γ E} {w w' : World γ E} {session refreshed : Session}
  {document : ManifestDocument} {line : ℕ} {name : String} {changes : List (ChildChange γ)}

/-- A change of the entries below a block. The block shows a directory of the root, itself or behind a
link, whose children change; or it shows a directory that is none of the root's, and then the root
stays. -/
inductive ChangedBelow (links : Links γ E) (w : World γ E) (name : String) :
    List (ChildChange γ) → World γ E → Prop
  | inside {real : String} {stat stat' : Stat} {sub sub' : Folder γ}
      {changes : List (ChildChange γ)} {outside : E} (hshown : w.readSubdir links name = some sub)
      (hreal : w.root.lookup real = some (.dir stat sub))
      (hrun : runChanges changes (stat, sub) = some (stat', sub'))
      (hlater : ∀ c ∈ changes, ∀ t ∈ c.touched, stat.mtimeNs < t.mtimeNs) :
      ChangedBelow links w name changes ⟨w.root.insert real (.dir stat' sub'), outside⟩
  | beyond {outside : E} (hlink : ∀ stat sub, w.root.lookup name ≠ some (.dir stat sub)) :
      ChangedBelow links w name [] ⟨w.root, outside⟩

/-- The sidecar has a state of the block, and the directory lists what the state says. -/
def BlockCurrent (links : Links γ E) (sidecar : Sidecar) (w : World γ E) (name : String) : Prop :=
  ∃ state sub, sidecar.findSubdir name = some state ∧ w.readSubdir links name = some sub
    ∧ snapshotListsMatch (collectSnapshot sub) state.entries = true

/-- The root lists what it did exactly when every change was an edit. -/
theorem ChangedBelow.seen_root (h : ChangedBelow links w name changes w') :
    (∀ n, (w'.root.lookup n).map seen = (w.root.lookup n).map seen)
      ↔ ∀ c ∈ changes, c.touched = none := by
  cases h with
  | beyond hlink => simp
  | @inside real stat stat' sub sub' _ _ hshown hreal hrun hlater =>
    have hstat : stat' = stat ↔ ∀ c ∈ changes, c.touched = none := by
      rw [show stat' = _ from stat_run hrun, foldl_touched hlater (.inl rfl)]
      simp
    rw [← hstat]
    constructor
    · intro hseen
      have hsame := hseen real
      rw [AList.lookup_insert, hreal] at hsame
      exact (Prod.mk.inj (Option.some.inj hsame)).2
    · rintro rfl n
      by_cases hn : n = real
      · rw [hn, AList.lookup_insert, hreal]
        rfl
      · rw [AList.lookup_insert_ne hn]

/-- A refresh replaces the state of its block and nothing else in the sidecar. -/
theorem refreshSubdir_inv (hdocument : parseAndValidateDocument session = .ok document)
    (htarget : subdirForLine document line = .ok name)
    (hrefresh : refreshSubdir links session line w = .ok refreshed) :
    refreshed.sidecar.entries = session.sidecar.entries ∧ (session.sidecar.findSubdir name).isSome
      ∧ ∃ sub, w.readSubdir links name = some sub
        ∧ refreshed.sidecar.subdirs = setSubdir name (collectSnapshotWithIds sub
          (session.sidecar.known name) session.sidecar.nextEntryId).1 session.sidecar.subdirs := by
  simp only [refreshSubdir, bind_eq_ok, ensure_eq_ok, pure_eq_ok] at hrefresh
  obtain ⟨document', hdocument', target, htarget', collected, hcollected, -, hsome, -, -, rfl⟩ :=
    hrefresh
  obtain rfl := Except.ok.inj (hdocument.symm.trans hdocument')
  obtain rfl := Except.ok.inj (htarget.symm.trans htarget')
  unfold collectSubdir at hcollected
  split at hcollected
  next sub hread =>
    obtain rfl := pure_eq_ok.1 hcollected
    exact ⟨rfl, hsome, sub, hread, rfl⟩
  next => cases hcollected

theorem find_setSubdir (entries : List SnapshotEntry) : ∀ {states : List SubdirState},
    (states.find? fun state => state.relativePath = name).isSome →
      (setSubdir name entries states).find? (fun state => state.relativePath = name)
          = some ⟨name, entries⟩
        ∧ ∀ n, n ≠ name → (setSubdir name entries states).find? (fun state => state.relativePath = n)
          = states.find? fun state => state.relativePath = n
  | [], h => by cases h
  | state :: rest, h => by
    by_cases hname : state.relativePath = name
    · subst hname
      simp +contextual [setSubdir, Ne.symm]
    · simp only [List.find?_cons, hname, decide_false] at h
      obtain ⟨hown, hothers⟩ := find_setSubdir entries h
      have hset : setSubdir name entries (state :: rest) = state :: setSubdir name entries rest := by
        simp [setSubdir, hname]
      refine ⟨?_, fun n hn => ?_⟩
      · rw [hset, List.find?_cons, decide_eq_false hname, hown]
      · rw [hset, List.find?_cons, List.find?_cons, hothers n hn]

/-- A session that was current is current again after a change below a block and a refresh of the
block exactly when every child was edited in place and the other blocks are current. -/
theorem refresh_cures_iff (hdocument : parseAndValidateDocument session = .ok document)
    (hcurrent : validateApplySnapshot links session.sidecar document w = .ok ())
    (htarget : subdirForLine document line = .ok name)
    (hchange : ChangedBelow links w name changes w')
    (hrefresh : refreshSubdir links session line w' = .ok refreshed) (shown : ManifestDocument) :
    validateApplySnapshot links refreshed.sidecar shown w' = .ok ()
      ↔ (∀ c ∈ changes, c.touched = none)
        ∧ ∀ n ∈ shown.visibleSubdirs, n ≠ name → BlockCurrent links session.sidecar w' n := by
  obtain ⟨hentries, hfind, sub, hread, hsubdirs⟩ := refreshSubdir_inv hdocument htarget hrefresh
  obtain ⟨hown, hothers⟩ := @find_setSubdir name _ _ hfind
  rw [← hsubdirs] at hown hothers
  rw [validateApplySnapshot_eq_ok, hentries,
    match_iff_seen (validateApplySnapshot_eq_ok.1 hcurrent).1, hchange.seen_root]
  refine and_congr_right' ⟨fun h n hn hne => ?_, fun h n hn => ?_⟩
  · obtain ⟨state, sub, hstate, hrest⟩ := h n hn
    exact ⟨state, sub, (hothers n hne).symm.trans hstate, hrest⟩
  · by_cases hne : n = name
    · subst hne
      exact ⟨_, sub, hown, hread, match_own _ _ _⟩
    · obtain ⟨state, sub, hstate, hrest⟩ := h n hn hne
      exact ⟨state, sub, (hothers n hne).trans hstate, hrest⟩

/-- A block that was current and shows a directory the change is not in is current still. -/
theorem blockCurrent_of_directory {n : String} {stat : Stat} {sub : Folder γ}
    (hcurrent : validateApplySnapshot links session.sidecar document w = .ok ())
    (hn : n ∈ document.visibleSubdirs) (hdir : w.root.lookup n = some (.dir stat sub))
    (hsame : w'.root.lookup n = w.root.lookup n) : BlockCurrent links session.sidecar w' n := by
  obtain ⟨state, shown, hstate, hread, hmatch⟩ := (validateApplySnapshot_eq_ok.1 hcurrent).2 n hn
  refine ⟨state, shown, hstate, ?_, hmatch⟩
  rw [← hread, World.readSubdir, World.readSubdir, hsame, hdir]

def noteFile (stat : Stat) : Obj Unit := .leaf stat (.regular [])

/-- Two directories of the root with one file each. -/
def blocksWorld : World Unit Unit :=
  ⟨.ofList [("docs", .dir ⟨1, 0⟩ (.ofList [("d", noteFile ⟨2, 3⟩)])),
    ("notes", .dir ⟨1, 0⟩ (.ofList [("n", noteFile ⟨2, 3⟩)]))], ()⟩

/-- The first of them with another stat and other files. -/
def blocksWith (stat : Stat) (files : Folder Unit) : World Unit Unit :=
  ⟨blocksWorld.root.insert "docs" (.dir stat files), ()⟩

/-- Both are inserted. -/
def blocksSession : Session where
  sidecar := ⟨2, "/r".toList, 5, 5,
    [⟨1, 0, "docs", .directory, 1, 0⟩, ⟨2, 1, "notes", .directory, 1, 0⟩],
    [⟨"docs", [⟨3, 0, "d", .file, 2, 3⟩]⟩, ⟨"notes", [⟨4, 0, "n", .file, 2, 3⟩]⟩]⟩
  text := writeLines (["# hx-oil root: /r", "# blank lines and comment lines are ignored", "  docs/",
    "# hx-oil subdir: docs", "      d", "# hx-oil end-subdir: docs", "  notes/",
    "# hx-oil subdir: notes", "      n", "# hx-oil end-subdir: notes"].map String.toList)

def blocksDocument : ManifestDocument :=
  (parseManifestDocument blocksSession.text).toOption.getD ⟨[], []⟩

/-- The session after its first block is refreshed. -/
def blocksRefreshed (w : World Unit Unit) : Session :=
  (refreshSubdir plainHost.links blocksSession 4 w).toOption.getD blocksSession

theorem blocks_parsed : parseAndValidateDocument blocksSession = .ok blocksDocument := by
  decide +kernel

theorem blocks_current :
    validateApplySnapshot plainHost.links blocksSession.sidecar blocksDocument blocksWorld
      = .ok () := by
  decide +kernel

theorem blocks_target : subdirForLine blocksDocument 4 = .ok "docs" := by decide +kernel

/-- The file of the first directory, edited. -/
def editedWorld : World Unit Unit := blocksWith ⟨1, 0⟩ (.ofList [("d", noteFile ⟨8, 4⟩)])

theorem edited_cured :
    validateApplySnapshot plainHost.links (blocksRefreshed editedWorld).sidecar blocksDocument
      editedWorld = .ok () := by
  have hchange : ChangedBelow plainHost.links blocksWorld "docs" [.edit "d" (noteFile ⟨8, 4⟩)]
      editedWorld := by
    refine .inside (.refl _) (.refl _) (.refl _) ?_
    simp [ChildChange.touched]
  have hrefresh : refreshSubdir plainHost.links blocksSession 4 editedWorld
      = .ok (blocksRefreshed editedWorld) := by
    decide +kernel
  refine (refresh_cures_iff blocks_parsed blocks_current blocks_target hchange hrefresh _).2
    ⟨by simp [ChildChange.touched], fun n hn hne => ?_⟩
  have hvisible : blocksDocument.visibleSubdirs = ["docs", "notes"] := by decide +kernel
  obtain rfl : n = "notes" := by
    rw [hvisible] at hn
    simpa [hne] using hn
  exact blockCurrent_of_directory blocks_current hn rfl rfl

/-- A second file in the first directory, which has the time of its creation. -/
def createdWorld : World Unit Unit :=
  blocksWith ⟨9, 0⟩ ((Folder.ofList [("d", noteFile ⟨2, 3⟩)]).insert "e" (noteFile ⟨9, 0⟩))

/-- The block is refreshed, but the root still lists the time the directory had. -/
theorem created_stale :
    parseAndValidateDocument blocksSession = .ok blocksDocument
      ∧ validateApplySnapshot plainHost.links blocksSession.sidecar blocksDocument blocksWorld
        = .ok ()
      ∧ subdirForLine blocksDocument 4 = .ok "docs"
      ∧ ChangedBelow plainHost.links blocksWorld "docs" [.create "e" (noteFile ⟨9, 0⟩) ⟨9, 0⟩]
        createdWorld
      ∧ refreshSubdir plainHost.links blocksSession 4 createdWorld
        = .ok (blocksRefreshed createdWorld)
      ∧ ((parseAndValidateDocument (blocksRefreshed createdWorld)).map fun shown =>
          (shown.visibleSubdirs, validateApplySnapshot plainHost.links
            (blocksRefreshed createdWorld).sidecar shown createdWorld))
        = .ok (["docs", "notes"],
          .error "stale snapshot for /r; refresh or reopen the directory buffer before applying") := by
  refine ⟨blocks_parsed, blocks_current, blocks_target, ?_, by decide +kernel, by decide +kernel⟩
  refine .inside (.refl _) (.refl _) (.refl _) ?_
  simp [ChildChange.touched]

end Refreshing

end OnixCore.HxOil
