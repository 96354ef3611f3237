import OnixCore.BackupManifest.Proofs.Accepted
import OnixCore.Lib.Json

/-!
# Verification decides whether two trees are the same

A manifest verifies against a tree exactly when the tree is the same as the one it was made of, as
long as BLAKE3 tells apart what the two trees hold at the same path (`verify_iff_sameTree`).
-/

namespace OnixCore.BackupManifest

section Reading

theorem filesEqual_iff : ∀ {lefts rights : List Bytes}, filesEqual lefts rights = true ↔ lefts = rights
  | [], [] => by simp [filesEqual]
  | [], _ :: _ => by simp [filesEqual]
  | _ :: _, [] => by simp [filesEqual]
  | left :: lefts, right :: rights => by
    rw [filesEqual, List.cons.injEq, ← filesEqual_iff]
    split_ifs with hlen hne
    · exact iff_of_false (by simp) fun h => hlen (congrArg _ h.1)
    · exact iff_of_false (by simp) fun h => hne h.1
    · simp [not_not.1 hne]

theorem flatten_fullReads {size : ℕ} (hsize : 0 < size) (content : Bytes) :
    (fullReads size content).flatten = content := by
  induction content using fullReads.induct size with
  | case1 content h =>
    obtain rfl := h.resolve_right hsize.ne'
    simp [fullReads]
  | case2 content h ih =>
    rw [fullReads, dif_neg h, List.flatten_cons, ih, List.take_append_drop]

theorem filesEqual_fullReads {size : ℕ} (hsize : 0 < size) {left right : Bytes} :
    filesEqual (fullReads size left) (fullReads size right) = true ↔ left = right := by
  rw [filesEqual_iff]
  refine ⟨fun h => ?_, congrArg _⟩
  rw [← flatten_fullReads hsize left, h, flatten_fullReads hsize]

/-- What the reads of a file may return, up to its end. -/
def ReadsOf (content : Bytes) (reads : List Bytes) : Prop :=
  reads.flatten = content ∧ ∀ read ∈ reads, read ≠ [] ∧ read.length ≤ compareBufferBytes

/-- The comparison is right exactly where files that hold the same bytes are also read alike. -/
theorem filesEqual_exact_iff {left right : Bytes} {lefts rights : List Bytes}
    (hleft : ReadsOf left lefts) (hright : ReadsOf right rights) :
    (filesEqual lefts rights = true ↔ left = right)
      ↔ (left = right → lefts.map List.length = rights.map List.length) := by
  obtain ⟨rfl, -⟩ := hleft
  obtain ⟨rfl, -⟩ := hright
  rw [filesEqual_iff, List.eq_iff_flatten_eq]
  constructor
  · intro hiff hsame
    exact (hiff.2 hsame).2
  · intro hlengths
    exact ⟨And.left, fun hsame => ⟨hsame, hlengths hsame⟩⟩

theorem filesEqual_exact_split :
    (filesEqual [[1], [2]] [[1], [2]] = true ↔ ([1, 2] : Bytes) = [1, 2])
      ↔ (([1, 2] : Bytes) = [1, 2] →
        List.map List.length ([[1], [2]] : List Bytes) = List.map List.length [[1], [2]]) :=
  filesEqual_exact_iff ⟨rfl, by decide⟩ ⟨rfl, by decide⟩

/-- The second file's first read is short. -/
theorem filesEqual_shortRead : ReadsOf [1, 2] [[1, 2]] ∧ ReadsOf [1, 2] [[1], [2]]
    ∧ filesEqual [[1, 2]] [[1], [2]] = false :=
  ⟨⟨rfl, by decide⟩, ⟨rfl, by decide⟩, rfl⟩

theorem foldl_append (reads : List Bytes) (start : Bytes) :
    reads.foldl (· ++ ·) start = start ++ reads.flatten := by
  induction reads generalizing start with
  | nil => simp
  | cons read reads ih => rw [List.foldl_cons, ih, List.flatten_cons, List.append_assoc]

theorem hashFile_fullReads (blake3 : Blake3) (content : Bytes) :
    hashFile blake3 (fullReads fileBufferBytes content) = blake3.hex content := by
  rw [hashFile, foldl_append, flatten_fullReads (by decide)]
  rfl

end Reading

section Entries

variable {blake3 : Blake3} {relativePath : Bytes} {entry entry' : Entry} {record : ManifestRecord}

/-- What an entry's hash is taken of. -/
def Entry.data : Entry → Bytes
  | .file _ _ content => content
  | .symlink _ target => target
  | _ => []

/-- Entries that are the same have one record. -/
theorem recordForPath_congr (h : entry.Same entry') :
    recordForPath blake3 relativePath entry = recordForPath blake3 relativePath entry' := by
  cases entry <;> cases entry' <;> first | exact h.elim | skip
  case directory.directory =>
    obtain ⟨hmode, huid, hgid⟩ := h
    simp only [recordForPath, Entry.metadata, hmode, huid, hgid]
  case file.file =>
    obtain ⟨⟨hmode, huid, hgid⟩, rfl, rfl⟩ := h
    simp only [recordForPath, Entry.metadata, hmode, huid, hgid]
  case symlink.symlink =>
    obtain ⟨⟨hmode, huid, hgid⟩, rfl⟩ := h
    simp only [recordForPath, Entry.metadata, hmode, huid, hgid]

/-- What the record of an entry says of it. -/
theorem recordForPath_eq_ok (h : recordForPath blake3 relativePath entry = .ok record) :
    record.relativePath = relativePath
      ∧ record.mode = entry.metadata.mode &&& permissionModeMask
      ∧ record.uid = entry.metadata.uid ∧ record.gid = entry.metadata.gid ∧ match entry with
        | .directory _ _ => record.kind = .directory
        | .file _ len content => record.kind = .file ∧ record.size = len
          ∧ record.hash = blake3.hex content
        | .symlink _ target => record.kind = .symlink ∧ record.hash = blake3.hex target
        | .other _ => False := by
  rcases entry with ⟨metadata, children⟩ | ⟨metadata, len, content⟩ | ⟨metadata, target⟩ | metadata
  case directory =>
    cases h
    exact ⟨rfl, rfl, rfl, rfl, rfl⟩
  case file =>
    cases h
    exact ⟨rfl, rfl, rfl, rfl, rfl, rfl, hashFile_fullReads blake3 content⟩
  case symlink =>
    simp only [recordForPath] at h
    split_ifs at h
    cases h
    exact ⟨rfl, rfl, rfl, rfl, rfl, rfl⟩
  case other => cases h

/-- One record tells what the entry is, up to collisions of the hash. -/
theorem same_of_record (h : recordForPath blake3 relativePath entry = .ok record)
    (h' : recordForPath blake3 relativePath entry' = .ok record)
    (hfree : NoCollision blake3.hex entry.data entry'.data) : entry.Same entry' := by
  obtain ⟨-, hmode, huid, hgid, hkind⟩ := recordForPath_eq_ok h
  obtain ⟨-, hmode', huid', hgid', hkind'⟩ := recordForPath_eq_ok h'
  have howner : entry.metadata.SameOwner entry'.metadata :=
    ⟨hmode.symm.trans hmode', huid.symm.trans huid', hgid.symm.trans hgid'⟩
  rcases entry with _ | _ | _ | _ <;> rcases entry' with _ | _ | _ | _ <;> simp only [] at hkind hkind'
  case directory.directory => exact howner
  case file.file =>
    exact ⟨howner, hkind.2.1.symm.trans hkind'.2.1,
      hfree (hkind.2.2.symm.trans hkind'.2.2)⟩
  case symlink.symlink => exact ⟨howner, hfree (hkind.2.symm.trans hkind'.2)⟩
  all_goals simp_all

end Entries

section Trees

variable {blake3 : Blake3} {T T' : Tree} {walk walk' : Walk} {records records' : List ManifestRecord}

/-- BLAKE3 tells apart what the two trees hold at the same path. -/
def TellsApart (blake3 : Blake3) (T T' : Tree) : Prop :=
  ∀ path entry entry', T.Has path entry → T'.Has path entry' →
    NoCollision blake3.hex entry.data entry'.data

theorem mem_records (T : Tree) (h : T.listing.mapM (recordAt blake3) = .ok records)
    {record : ManifestRecord} : record ∈ records ↔ ∃ path entry, T.Has path entry
      ∧ recordForPath blake3 (pathBytes path) entry = .ok record := by
  rw [mem_of_mapM h]
  constructor
  · rintro ⟨⟨path, entry⟩, hmem, hrecord⟩
    exact ⟨path, entry, (T.mem_listing _).1 hmem, hrecord⟩
  · rintro ⟨path, entry, hhas, hrecord⟩
    exact ⟨⟨path, entry⟩, (T.mem_listing _).2 hhas, hrecord⟩

/-- Records in strict order are determined by which they are. -/
theorem records_ext (h : (records.map ManifestRecord.relativePath).Pairwise
      fun a b => compareRelativePathBytes a b = .lt)
    (h' : (records'.map ManifestRecord.relativePath).Pairwise
      fun a b => compareRelativePathBytes a b = .lt)
    (hmem : ∀ record, record ∈ records ↔ record ∈ records') : records = records' := by
  rw [List.pairwise_map] at h h'
  have hnodup : ∀ {l : List ManifestRecord}, (l.Pairwise fun a b =>
      compareRelativePathBytes a.relativePath b.relativePath = .lt) → l.Nodup := fun hl =>
    hl.imp fun {a b} hlt (heq : a = b) => comparePath_irrefl _ (heq ▸ hlt)
  refine List.Perm.eq_of_pairwise (fun a b _ _ hab hba => ?_) h h'
    ((List.perm_ext_iff_of_nodup (hnodup h) (hnodup h')).2 hmem)
  exact absurd hba (comparePath_asymm hab)

theorem manifestOf_inj (h : ∀ record ∈ records, record.Valid)
    (h' : ∀ record ∈ records', record.Valid) (heq : manifestOf records = manifestOf records') :
    records = records' := by
  have hlines := congrArg Bytes.lines heq
  rw [lines_manifestOf h, lines_manifestOf h', List.cons.injEq] at hlines
  have hparse := parse_recordLines h
  rw [hlines.2, parse_recordLines h'] at hparse
  exact (Except.ok.inj hparse).symm

theorem pathBytes_inj {path path' : List Bytes} (h : LegalPath path) (hne : path ≠ [])
    (h' : LegalPath path') (hne' : path' ≠ []) (heq : pathBytes path = pathBytes path') :
    path = path' := by
  rw [← splitOn_pathBytes h hne, heq, splitOn_pathBytes h' hne']

/-- Where two trees have the same records, an entry of one has its record at the other's entry. -/
theorem exists_entry (h : T.listing.mapM (recordAt blake3) = .ok records)
    (h' : T'.listing.mapM (recordAt blake3) = .ok records) {path : List Bytes} {entry : Entry}
    (hhas : T.Has path entry) : ∃ record entry', T'.Has path entry'
      ∧ recordForPath blake3 (pathBytes path) entry = .ok record
      ∧ recordForPath blake3 (pathBytes path) entry' = .ok record := by
  obtain ⟨record, hrecord⟩ := (mapM_ok_mem h) (path, entry) ((T.mem_listing _).2 hhas)
  have hmem : record ∈ records := (mem_records T h).2 ⟨path, entry, hhas, hrecord⟩
  obtain ⟨path', entry', hhas', hrecord'⟩ := (mem_records T' h').1 hmem
  have hpath : pathBytes path = pathBytes path' :=
    (recordForPath_eq_ok hrecord).1.symm.trans (recordForPath_eq_ok hrecord').1
  obtain ⟨hlegal, hne, -⟩ := T.has_legal hhas
  obtain ⟨hlegal', hne', -⟩ := T'.has_legal hhas'
  obtain rfl := pathBytes_inj hlegal hne hlegal' hne' hpath
  exact ⟨record, entry', hhas', hrecord, hrecord'⟩

/-- Trees with the same records are the same. -/
theorem sameTree_of_records (h : T.listing.mapM (recordAt blake3) = .ok records)
    (h' : T'.listing.mapM (recordAt blake3) = .ok records) (hfree : TellsApart blake3 T T') :
    SameTree T T' := by
  constructor
  · intro path entry hhas
    obtain ⟨record, entry', hhas', hrecord, hrecord'⟩ := exists_entry h h' hhas
    exact ⟨entry', hhas', same_of_record hrecord hrecord' (hfree _ _ _ hhas hhas')⟩
  · intro path entry' hhas'
    obtain ⟨record, entry, hhas, hrecord', hrecord⟩ := exists_entry h' h hhas'
    exact ⟨entry, hhas, same_of_record hrecord hrecord' (hfree _ _ _ hhas hhas')⟩

/-- The same tree has the same records. -/
theorem records_of_sameTree (h : T.listing.mapM (recordAt blake3) = .ok records)
    (hsame : SameTree T T') : T'.listing.mapM (recordAt blake3) = .ok records := by
  obtain ⟨records', h'⟩ : ∃ records', T'.listing.mapM (recordAt blake3) = .ok records' := by
    refine exists_mapM fun item hitem => ?_
    obtain ⟨entry, hhas, heq⟩ := hsame.2 _ _ ((T'.mem_listing item).1 hitem)
    obtain ⟨record, hrecord⟩ := mapM_ok_mem h (item.1, entry) ((T.mem_listing _).2 hhas)
    exact ⟨record, (recordForPath_congr heq).symm.trans hrecord⟩
  have hmem : ∀ record, record ∈ records ↔ record ∈ records' := by
    intro record
    rw [mem_records T h, mem_records T' h']
    constructor
    · rintro ⟨path, entry, hhas, hrecord⟩
      obtain ⟨entry', hhas', heq⟩ := hsame.1 path entry hhas
      exact ⟨path, entry', hhas', (recordForPath_congr heq).symm.trans hrecord⟩
    · rintro ⟨path, entry', hhas', hrecord⟩
      obtain ⟨entry, hhas, heq⟩ := hsame.2 path entry' hhas'
      exact ⟨path, entry, hhas, (recordForPath_congr heq).trans hrecord⟩
  rw [records_ext (records_pairwise T h) (records_pairwise T' h') hmem]
  exact h'

theorem Entry.Plain.dev {entry : Entry} {rootDevice : UInt64} (h : entry.Plain rootDevice) :
    entry.metadata.dev = rootDevice := by
  cases entry
  case other => exact h.elim
  all_goals exact h

/-- Two trees that can be written have one manifest exactly when they are the same. -/
theorem output_eq_iff (h : writeManifest blake3 T.root = .ok walk)
    (hplain : T'.Plain) (hfree : TellsApart blake3 T T') :
    (∃ walk', writeManifest blake3 T'.root = .ok walk' ∧ walk.output = walk'.output)
      ↔ SameTree T T' := by
  obtain ⟨records, hwrites⟩ := writeManifest_eq_ok.1 h
  obtain ⟨houtput, hvalid, -, -⟩ := written hwrites
  constructor
  · rintro ⟨walk', h', heq⟩
    obtain ⟨records', hwrites'⟩ := writeManifest_eq_ok.1 h'
    obtain ⟨houtput', hvalid', -, -⟩ := written hwrites'
    rw [houtput, houtput'] at heq
    obtain rfl := manifestOf_inj hvalid hvalid' heq
    exact sameTree_of_records hwrites.recorded hwrites'.recorded hfree
  · intro hsame
    have hrecorded := records_of_sameTree hwrites.recorded hsame
    have hdevice : ∀ item ∈ T'.listing, item.2.metadata.dev = T'.metadata.dev :=
      fun item hitem => (hplain _ _ ((T'.mem_listing item).1 hitem)).dev
    exact ⟨walk, writeManifest_eq_ok.2 ⟨records, hdevice, hrecorded, hwrites.stats,
      hwrites.output⟩, rfl⟩

end Trees

section Commands

variable {blake3 : Blake3} {T T' : Tree} {processId : ℕ} {manifest : Bytes} {store store' : Store}
  {stats : ManifestStats}

theorem temporaryManifestPath_ne : temporaryManifestPath manifest processId ≠ manifest := by
  intro h
  have := congrArg List.length h
  simp [temporaryManifestPath, Bytes.ascii] at this

/-- After `create`, only the manifest has changed. -/
theorem createManifestAtomic_of_written {walk : Walk}
    (hwalk : writeManifest blake3 T.root = .ok walk)
    (hfresh : store (temporaryManifestPath manifest processId) = none) :
    createManifestAtomic blake3 processId T.root manifest store
      = (.ok walk.stats, Function.update store manifest (some walk.output)) := by
  have hroot : validateRoot T.root = .ok () := rfl
  unfold createManifestAtomic
  rw [hroot]
  simp only [hfresh, hwalk, Store.rename, Function.update_self]
  congr 1
  funext name
  by_cases hmanifest : name = manifest
  case pos =>
    rw [hmanifest, Function.update_of_ne temporaryManifestPath_ne.symm, Function.update_self,
      Function.update_self]
  case neg =>
    rw [Function.update_of_ne hmanifest]
    by_cases htemporary : name = temporaryManifestPath manifest processId
    case pos => rw [htemporary, Function.update_self, hfresh]
    case neg =>
      rw [Function.update_of_ne htemporary, Function.update_of_ne hmanifest,
        Function.update_of_ne htemporary]

/-- A successful `create` leaves what the walk wrote in the manifest. -/
theorem createManifestAtomic_eq_ok
    (h : createManifestAtomic blake3 processId T.root manifest store = (.ok stats, store')) :
    ∃ walk, writeManifest blake3 T.root = .ok walk ∧ walk.stats = stats
      ∧ store' manifest = some walk.output := by
  have hroot : validateRoot T.root = .ok () := rfl
  rcases hfresh : store (temporaryManifestPath manifest processId) with _ | old
  case some =>
    rw [createManifestAtomic, hroot] at h
    simp [hfresh] at h
  rcases hwalk : writeManifest blake3 T.root with e | walk
  case error =>
    rw [createManifestAtomic, hroot] at h
    simp [hfresh, hwalk] at h
  rw [createManifestAtomic_of_written hwalk hfresh] at h
  cases h
  exact ⟨walk, rfl, rfl, Function.update_self ..⟩

theorem verifyManifest_eq_ok {expected : Bytes} (hstore : store manifest = some expected)
    (hfresh : store (temporaryManifestPath manifest processId) = none) :
    (verifyManifest blake3 processId T.root manifest store).1 = .ok stats
      ↔ validateManifestFormat expected = .ok stats
        ∧ ∃ walk, writeManifest blake3 T.root = .ok walk ∧ expected = walk.output := by
  have hroot : validateRoot T.root = .ok () := rfl
  unfold verifyManifest
  rw [hroot]
  simp only [hstore]
  rcases validateManifestFormat expected with e | expectedStats
  case error => simp
  rcases writeManifest blake3 T.root with e | walk
  case error => simp [hfresh]
  simp only [hfresh, Except.ok.injEq, exists_eq_left',
    filesEqual_fullReads (by decide : 0 < compareBufferBytes)]
  split_ifs with heq
  · simp [heq]
  · simp [heq]

/-- What `create` wrote of a tree verifies against another tree exactly when the two are the same,
and then with the counts of `create`. -/
theorem verify_iff_sameTree
    (hcreate : createManifestAtomic blake3 processId T.root manifest store = (.ok stats, store'))
    {processId' : ℕ} (hfresh : store' (temporaryManifestPath manifest processId') = none)
    (hplain : T'.Plain) (hfree : TellsApart blake3 T T') :
    ((∃ counts, (verifyManifest blake3 processId' T'.root manifest store').1 = .ok counts)
      ↔ SameTree T T')
    ∧ ∀ counts, (verifyManifest blake3 processId' T'.root manifest store').1 = .ok counts →
      counts = stats := by
  obtain ⟨walk, hwalk, rfl, hstore⟩ := createManifestAtomic_eq_ok hcreate
  obtain ⟨records, hwrites⟩ := writeManifest_eq_ok.1 hwalk
  have haccepted := (written hwrites).2.2.2
  simp only [verifyManifest_eq_ok hstore hfresh, haccepted, Except.ok.injEq]
  refine ⟨?_, fun counts h => h.1.symm⟩
  rw [← output_eq_iff hwalk hplain hfree]
  exact ⟨fun ⟨_, _, h⟩ => h, fun h => ⟨_, rfl, h⟩⟩

section Sample

/-- The digest of nothing, and a digest for everything else. -/
def emptyBlake3 : Blake3 where
  hex bytes := if bytes = [] then
      Bytes.ascii "af1349b9f5f9a1a6a0404dea36dcc9499bcb25c9adc112b7cc9a93cae41f3262"
    else List.replicate 64 48
  valid bytes := by
    split_ifs
    · decide +kernel
    · decide +kernel

def sampleDirectory : Metadata := ⟨1, 0o40755, 1000, 100⟩

def sampleFile : Metadata := ⟨1, 0o100644, 1000, 100⟩

/-- A directory `repo` with an empty file `HEAD` in it. -/
def sampleTree : Tree where
  metadata := sampleDirectory
  children := [(Bytes.ascii "repo",
    .directory sampleDirectory [(Bytes.ascii "HEAD", .file sampleFile 0 [])])]
  legal := by
    have hrepo : LegalName (Bytes.ascii "repo") := by
      unfold LegalName
      decide +kernel
    have hhead : LegalName (Bytes.ascii "HEAD") := by
      unfold LegalName
      decide +kernel
    refine .directory (List.nodup_singleton _) (List.forall_mem_singleton.2 hrepo)
      (List.forall_mem_singleton.2 ?_)
    exact .directory (List.nodup_singleton _) (List.forall_mem_singleton.2 hhead)
      (List.forall_mem_singleton.2 .file)

theorem sampleTree_has {path : List Bytes} {entry : Entry} (h : sampleTree.Has path entry) :
    entry.data = [] ∧ entry.Plain sampleTree.metadata.dev := by
  rcases h with h | ⟨h, rest⟩
  · cases List.mem_singleton.1 h
    exact ⟨rfl, rfl⟩
  · cases List.mem_singleton.1 h
    rcases rest with h | ⟨h, -⟩
    · cases List.mem_singleton.1 h
      exact ⟨rfl, rfl⟩
    · cases List.mem_singleton.1 h

theorem sampleTree_written : ∃ walk, writeManifest emptyBlake3 sampleTree.root = .ok walk := by
  have hlisting : sampleTree.listing = [([Bytes.ascii "repo"],
      .directory sampleDirectory [(Bytes.ascii "HEAD", .file sampleFile 0 [])]),
      ([Bytes.ascii "repo", Bytes.ascii "HEAD"], .file sampleFile 0 [])] := by
    simp [Tree.listing, listing, sampleTree, sortByName, Entry.children]
  obtain ⟨records, hrecorded, hsizes⟩ : ∃ records,
      sampleTree.listing.mapM (recordAt emptyBlake3) = .ok records
        ∧ records.map ManifestRecord.size = [0, 0] := by
    rw [hlisting]
    exact ⟨_, rfl, rfl⟩
  have hstats : tally (records.map ManifestRecord.size) {} = .ok ⟨2, 0⟩ := by
    rw [hsizes]
    rfl
  refine ⟨⟨_, ⟨2, 0⟩⟩, writeManifest_eq_ok.2 ⟨records, fun item hitem => ?_, hrecorded, hstats, rfl⟩⟩
  exact (sampleTree_has ((sampleTree.mem_listing item).1 hitem)).2.dev

theorem sampleTree_verifies : ∃ stats store,
    createManifestAtomic emptyBlake3 7 sampleTree.root (Bytes.ascii "manifest.b3m") (fun _ => none)
      = (.ok stats, store)
    ∧ ((∃ counts, (verifyManifest emptyBlake3 8 sampleTree.root (Bytes.ascii "manifest.b3m")
        store).1 = .ok counts) ↔ SameTree sampleTree sampleTree)
    ∧ ∀ counts, (verifyManifest emptyBlake3 8 sampleTree.root (Bytes.ascii "manifest.b3m")
        store).1 = .ok counts → counts = stats := by
  obtain ⟨walk, hwalk⟩ := sampleTree_written
  have hcreate : createManifestAtomic emptyBlake3 7 sampleTree.root (Bytes.ascii "manifest.b3m")
      (fun _ => none) = _ := createManifestAtomic_of_written hwalk rfl
  refine ⟨walk.stats, _, hcreate, verify_iff_sameTree hcreate ?_
    (fun path entry h => (sampleTree_has h).2) fun path entry entry' h h' _ => ?_⟩
  · rw [Function.update_of_ne temporaryManifestPath_ne]
  · rw [(sampleTree_has h).1, (sampleTree_has h').1]

end Sample

end Commands

end OnixCore.BackupManifest
