import OnixCore.BackupManifest.Proofs.Lines
import OnixCore.BackupManifest.Proofs.Listing

/-!
# The walk writes the listing

A path of legal names is accepted and split back into its names, so the walk of a tree succeeds
exactly when every entry of the listing has a record and is on the root's filesystem, and the
counts fit; it then writes these records in order (`walkDirectory_eq_ok`).
-/

namespace OnixCore.BackupManifest

section Paths

/-- A path below the root. -/
def pathBytes (path : List Bytes) : Bytes := [slash].intercalate path

def LegalPath (path : List Bytes) : Prop := ∀ name ∈ path, LegalName name

variable {path : List Bytes} {name : Bytes}

theorem pathBytes_concat (name : Bytes) : ∀ {path : List Bytes}, path ≠ [] →
    pathBytes (path ++ [name]) = pathBytes path ++ slash :: name
  | [], h => absurd rfl h
  | [first], _ => by simp [pathBytes]
  | first :: second :: path, _ => by
    have ih := pathBytes_concat name (List.cons_ne_nil second path)
    simp only [pathBytes, List.cons_append, List.intercalate_cons_cons, List.append_assoc] at ih ⊢
    rw [ih]

theorem getLast_pathBytes : ∀ {path : List Bytes}, LegalPath path →
    (pathBytes path).getLast? ≠ some slash := by
  intro path
  induction path using List.reverseRecOn with
  | nil => simp [pathBytes]
  | append_singleton path name _ =>
    intro h hlast
    obtain ⟨hne, hslash, -⟩ := h name (by simp)
    have hname : (pathBytes (path ++ [name])).getLast? = name.getLast? := by
      cases path with
      | nil => simp [pathBytes]
      | cons first path =>
        rw [pathBytes_concat name (List.cons_ne_nil _ _), List.getLast?_append,
          List.getLast?_cons_of_ne_nil hne]
        simp [List.getLast?_eq_some_getLast hne]
    rw [hname] at hlast
    exact hslash (List.mem_of_getLast? hlast)

theorem head_pathBytes (h : LegalPath path) : (pathBytes path).head? ≠ some slash := by
  rcases path with _ | ⟨first, path⟩
  · simp [pathBytes]
  · obtain ⟨hne, hslash, -⟩ := h first List.mem_cons_self
    have hfirst : (pathBytes (first :: path)).head? = first.head? := by
      cases path <;> simp [pathBytes, List.head?_append, List.head?_eq_some_head hne]
    rw [hfirst]
    exact fun hhead => hslash (List.mem_of_head? hhead)

theorem pathBytes_eq_nil (h : LegalPath path) : pathBytes path = [] ↔ path = [] := by
  rcases path with _ | ⟨first, path⟩
  · simp [pathBytes]
  · have hne := (h first List.mem_cons_self).1
    cases path <;> simp [pathBytes, hne]

theorem join_pathBytes (hpath : LegalPath path) (hname : LegalName name) :
    join (pathBytes path) name = pathBytes (path ++ [name]) := by
  have hhead : name.head? ≠ some slash := fun h => hname.2.1 (List.mem_of_head? h)
  rw [join, if_neg hhead]
  by_cases hnil : path = []
  case pos =>
    rw [if_pos (.inl ((pathBytes_eq_nil hpath).2 hnil)), hnil]
    simp [pathBytes]
  case neg =>
    rw [if_neg (not_or.2 ⟨(pathBytes_eq_nil hpath).not.2 hnil, getLast_pathBytes hpath⟩),
      pathBytes_concat name hnil]

theorem splitOn_pathBytes (h : LegalPath path) (hne : path ≠ []) :
    (pathBytes path).splitOn slash = path :=
  List.splitOn_intercalate slash (fun name hname => (h name hname).2.1) hne

theorem validateRelativePath_pathBytes (h : LegalPath path) (hne : path ≠ []) :
    validateRelativePath (pathBytes path) = .ok () := by
  have hempty : ¬ (pathBytes path = [] ∨ (pathBytes path).head? = some slash) :=
    not_or.2 ⟨(pathBytes_eq_nil h).not.2 hne, head_pathBytes h⟩
  have hfirst : path.head? ≠ some [dot] := fun hhead =>
    (h _ (List.mem_of_head? hhead)).2.2.2.1 rfl
  have hnormal : (components (pathBytes path)).all Component.isNormal = true := by
    rw [components, splitOn_pathBytes h hne]
    simp only [if_neg (head_pathBytes h), if_neg hfirst, List.nil_append, List.all_map,
      List.all_eq_true, List.mem_filter]
    rintro name ⟨hname, -⟩
    simp [(h name hname).2.2.2.2, Component.isNormal]
  rw [validateRelativePath, if_neg hempty, if_pos hnormal]
  rfl

end Paths

section Walk

variable {blake3 : Blake3} {rootDevice : UInt64}

/-- The record of a listed entry. -/
def recordAt (blake3 : Blake3) (item : List Bytes × Entry) : Except Failure ManifestRecord :=
  recordForPath blake3 (pathBytes item.1) item.2

theorem tally_append {sizes more : List UInt64} {stats stats' : ManifestStats} :
    tally (sizes ++ more) stats = .ok stats'
      ↔ ∃ middle, tally sizes stats = .ok middle ∧ tally more middle = .ok stats' := by
  rw [tally, List.foldlM_append, bind_eq_ok]
  rfl

theorem walkDirectory_cons {dir name : Bytes} {entry : Entry} {rest : List (Bytes × Entry)}
    {walk : Walk} : walkDirectory blake3 rootDevice dir ((name, entry) :: rest) walk = (do
      validateRelativePath (join dir name)
      if entry.metadata.dev ≠ rootDevice then
        throw ⟨"entry crosses the manifest root filesystem", join dir name⟩
      let record ← recordForPath blake3 (join dir name) entry
      let stats ← walk.stats.add record.size
      let walk ← walkDirectory blake3 rootDevice (join dir name) (sortByName entry.children)
        ⟨walk.output ++ writeRecord record, stats⟩
      walkDirectory blake3 rootDevice dir rest walk) := by
  rw [walkDirectory]
  cases entry <;> simp [Entry.children, sortByName, walkDirectory]

/-- The walk of these items succeeds with these records, and takes `walk` to `walk'`. -/
structure Writes (blake3 : Blake3) (rootDevice : UInt64) (items : List (List Bytes × Entry))
    (walk walk' : Walk) (records : List ManifestRecord) : Prop where
  device : ∀ item ∈ items, item.2.metadata.dev = rootDevice
  recorded : items.mapM (recordAt blake3) = .ok records
  stats : tally (records.map ManifestRecord.size) walk.stats = .ok walk'.stats
  output : walk'.output = walk.output ++ records.flatMap writeRecord

theorem writes_nil {walk walk' : Walk} {records : List ManifestRecord} :
    Writes blake3 rootDevice [] walk walk' records ↔ records = [] ∧ walk' = walk := by
  constructor
  · rintro ⟨-, hrecorded, hstats, houtput⟩
    obtain rfl : [] = records := by simpa using hrecorded
    rcases walk
    rcases walk'
    simp only [List.flatMap_nil, List.append_nil] at houtput
    cases hstats
    exact ⟨rfl, by rw [houtput]⟩
  · rintro ⟨rfl, rfl⟩
    exact ⟨fun _ h => (nomatch h), rfl, rfl, (List.append_nil _).symm⟩

theorem writes_append {items items' : List (List Bytes × Entry)} {walk walk' : Walk}
    {records : List ManifestRecord} :
    Writes blake3 rootDevice (items ++ items') walk walk' records
      ↔ ∃ middle records₁ records₂, records = records₁ ++ records₂
        ∧ Writes blake3 rootDevice items walk middle records₁
        ∧ Writes blake3 rootDevice items' middle walk' records₂ := by
  constructor
  · rintro ⟨hdevice, hrecorded, hstats, houtput⟩
    simp only [List.mapM_append, bind_eq_ok, pure_eq_ok] at hrecorded
    obtain ⟨records₁, h₁, records₂, h₂, rfl⟩ := hrecorded
    rw [List.map_append, tally_append] at hstats
    obtain ⟨stats, hs₁, hs₂⟩ := hstats
    rw [List.forall_mem_append] at hdevice
    refine ⟨⟨walk.output ++ records₁.flatMap writeRecord, stats⟩, records₁, records₂, rfl,
      ⟨hdevice.1, h₁, hs₁, rfl⟩, ⟨hdevice.2, h₂, hs₂, ?_⟩⟩
    rw [houtput, List.flatMap_append, List.append_assoc]
  · rintro ⟨middle, records₁, records₂, rfl, h₁, h₂⟩
    refine ⟨List.forall_mem_append.2 ⟨h₁.device, h₂.device⟩, ?_, ?_, ?_⟩
    · simp only [List.mapM_append, bind_eq_ok, pure_eq_ok]
      exact ⟨_, h₁.recorded, _, h₂.recorded, rfl⟩
    · rw [List.map_append, tally_append]
      exact ⟨_, h₁.stats, h₂.stats⟩
    · rw [h₂.output, h₁.output, List.flatMap_append, List.append_assoc]

theorem writes_cons {item : List Bytes × Entry} {items : List (List Bytes × Entry)}
    {walk walk' : Walk} {records : List ManifestRecord} :
    Writes blake3 rootDevice (item :: items) walk walk' records
      ↔ item.2.metadata.dev = rootDevice ∧ ∃ record stats more, recordAt blake3 item = .ok record
        ∧ walk.stats.add record.size = .ok stats ∧ records = record :: more
        ∧ Writes blake3 rootDevice items ⟨walk.output ++ writeRecord record, stats⟩ walk'
          more := by
  constructor
  · rintro ⟨hdevice, hrecorded, hstats, houtput⟩
    simp only [List.mapM_cons, bind_eq_ok, pure_eq_ok] at hrecorded
    obtain ⟨record, hrecord, more, hmore, rfl⟩ := hrecorded
    rw [List.map_cons, tally_cons] at hstats
    obtain ⟨stats, hadd, hstats⟩ := hstats
    rw [List.forall_mem_cons] at hdevice
    refine ⟨hdevice.1, record, stats, more, hrecord, hadd, rfl, hdevice.2, hmore, hstats, ?_⟩
    rw [houtput, List.flatMap_cons, List.append_assoc]
  · rintro ⟨hdevice, record, stats, more, hrecord, hadd, rfl, h⟩
    refine ⟨List.forall_mem_cons.2 ⟨hdevice, h.device⟩, ?_, ?_, ?_⟩
    · simp only [List.mapM_cons, bind_eq_ok, pure_eq_ok]
      exact ⟨_, hrecord, _, h.recorded, rfl⟩
    · rw [List.map_cons, tally_cons]
      exact ⟨_, hadd, h.stats⟩
    · rw [h.output, List.flatMap_cons, List.append_assoc]

/-- The walk writes the listing, or fails. -/
theorem walkDirectory_eq_ok (dir : List Bytes) (entries : List (Bytes × Entry))
    (hdir : LegalPath dir) (hnames : ∀ child ∈ entries, LegalName child.1)
    (hlegal : ∀ child ∈ entries, child.2.Legal) {walk walk' : Walk} :
    walkDirectory blake3 rootDevice (pathBytes dir) entries walk = .ok walk'
      ↔ ∃ records, Writes blake3 rootDevice (listing dir entries) walk walk' records := by
  induction dir, entries using listing.induct generalizing walk walk' with
  | case1 dir =>
    rw [walkDirectory, pure_eq_ok, listing]
    simp [writes_nil, eq_comm]
  | case2 dir name child rest ihBelow ihRest =>
    rw [List.forall_mem_cons] at hnames hlegal
    have hpath : LegalPath (dir ++ [name]) :=
      List.forall_mem_append.2 ⟨hdir, List.forall_mem_singleton.2 hnames.1⟩
    obtain ⟨-, hbelowNames, hbelowLegal⟩ := hlegal.1.children
    have hbelow := @ihBelow hpath (fun c hc => hbelowNames c (mem_sortByName.1 hc))
      (fun c hc => hbelowLegal c (mem_sortByName.1 hc))
    rw [walkDirectory_cons, join_pathBytes hdir hnames.1,
      validateRelativePath_pathBytes hpath (by simp), listing]
    simp only [bind_eq_ok, ite_throw_eq_ok, not_not, hbelow, ihRest hdir hnames.2 hlegal.2,
      writes_cons, writes_append]
    constructor
    · rintro ⟨⟨⟩, -, hdevice, record, hrecord, stats, hadd, middle, ⟨records₁, h₁⟩, records₂, h₂⟩
      exact ⟨_, hdevice, record, stats, _, hrecord, hadd, rfl, middle, records₁, records₂, rfl, h₁,
        h₂⟩
    · rintro ⟨_, hdevice, record, stats, _, hrecord, hadd, rfl, middle, records₁, records₂, rfl, h₁,
        h₂⟩
      exact ⟨(), trivial, hdevice, record, hrecord, stats, hadd, middle, ⟨records₁, h₁⟩, records₂, h₂⟩

end Walk

end OnixCore.BackupManifest
