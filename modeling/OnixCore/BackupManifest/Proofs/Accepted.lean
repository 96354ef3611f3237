import OnixCore.BackupManifest.Proofs.Walk

/-!
# The walker's manifests are accepted

Every manifest the walk writes is accepted by `validate_manifest_format`, with the walk's own
counts, and every accepted manifest lists its records in one strict order (`manifests_ordered`).
-/

namespace OnixCore.BackupManifest

section Records

variable {blake3 : Blake3} {path : List Bytes} {entry : Entry} {record : ManifestRecord}

theorem masked_mode (mode : UInt32) : mode &&& permissionModeMask &&& ~~~permissionModeMask = 0 := by
  rw [UInt32.and_assoc]
  simp

theorem recordForPath_valid {relativePath : Bytes}
    (hpath : validateRelativePath relativePath = .ok ())
    (h : recordForPath blake3 relativePath entry = .ok record) :
    record.Valid ∧ record.relativePath = relativePath := by
  unfold recordForPath at h
  have hhash : ∀ bytes, validBlake3Hex (blake3.hex bytes) = true := blake3.valid
  rcases entry with ⟨metadata, children⟩ | ⟨metadata, len, content⟩ | ⟨metadata, target⟩ | metadata
  case directory =>
    cases h
    exact ⟨⟨rfl, masked_mode _, hpath⟩, rfl⟩
  case file =>
    cases h
    refine ⟨⟨?_, masked_mode _, hpath⟩, rfl⟩
    simp [checkHash, hashFile, hhash]
  case symlink =>
    simp only [] at h
    split_ifs at h
    cases h
    refine ⟨⟨?_, masked_mode _, hpath⟩, rfl⟩
    simp [checkHash, hhash]
  case other => cases h

theorem Under.legal {entries : List (Bytes × Entry)} (h : Under entries path entry)
    (hnames : ∀ child ∈ entries, LegalName child.1) (hlegal : ∀ child ∈ entries, child.2.Legal) :
    LegalPath path ∧ path ≠ [] ∧ entry.Legal := by
  induction h with
  | child h => exact ⟨List.forall_mem_singleton.2 (hnames _ h), by simp, hlegal _ h⟩
  | inside h rest ih =>
    obtain ⟨-, hbelowNames, hbelowLegal⟩ := (hlegal _ h).children
    obtain ⟨hpath, -, hentry⟩ := ih hbelowNames hbelowLegal
    exact ⟨List.forall_mem_cons.2 ⟨hnames _ h, hpath⟩, by simp, hentry⟩

end Records

section Trees

variable {blake3 : Blake3} {T : Tree} {walk : Walk} {records : List ManifestRecord}

namespace Tree

/-- Everything below the root, as the walk meets it. -/
def listing (T : Tree) : List (List Bytes × Entry) :=
  BackupManifest.listing [] (sortByName T.children)

theorem names (T : Tree) : ∀ child ∈ T.children, LegalName child.1 := T.legal.children.2.1

theorem entries_legal (T : Tree) : ∀ child ∈ T.children, child.2.Legal := T.legal.children.2.2

theorem mem_listing (T : Tree) (item : List Bytes × Entry) :
    item ∈ T.listing ↔ T.Has item.1 item.2 := by
  rw [listing, BackupManifest.mem_listing]
  simp only [List.nil_append, exists_eq_left', Under.congr fun _ => mem_sortByName]
  rfl

theorem has_legal (T : Tree) {path : List Bytes} {entry : Entry} (h : T.Has path entry) :
    LegalPath path ∧ path ≠ [] ∧ entry.Legal := Under.legal h T.names T.entries_legal

theorem listing_pairwise (T : Tree) :
    T.listing.Pairwise fun a b => compare a.1 b.1 = .lt :=
  BackupManifest.listing_pairwise _ _ (sortByName_pairwise T.legal.children.1)
    fun child h => T.entries_legal child (mem_sortByName.1 h)

end Tree

theorem writeManifest_eq_ok : writeManifest blake3 T.root = .ok walk
    ↔ ∃ records, Writes blake3 T.metadata.dev T.listing
      { output := manifestHeader ++ [Bytes.lineFeed] } walk records := by
  have hnil : ([] : Bytes) = pathBytes [] := rfl
  unfold writeManifest
  simp only [Tree.root, readDir, Entry.metadata, pure_bind]
  rw [hnil, walkDirectory_eq_ok [] _ (List.forall_mem_nil _)
    (fun child h => T.names child (mem_sortByName.1 h))
    fun child h => T.entries_legal child (mem_sortByName.1 h)]
  rfl

/-- The records of a tree are valid, and their paths are those of the listing. -/
theorem records_valid : ∀ {items : List (List Bytes × Entry)} {records : List ManifestRecord},
    (∀ item ∈ items, LegalPath item.1 ∧ item.1 ≠ []) →
    items.mapM (recordAt blake3) = .ok records →
    (∀ record ∈ records, record.Valid)
      ∧ records.map ManifestRecord.relativePath = items.map fun item => pathBytes item.1 := by
  intro items records hitems h
  have hforall := mapM_eq_ok.1 h
  clear h
  induction hforall with
  | nil => simp
  | cons hrecord _ ih =>
    rw [List.forall_mem_cons] at hitems
    obtain ⟨hvalid, hpaths⟩ := ih hitems.2
    obtain ⟨hv, hp⟩ := recordForPath_valid
      (validateRelativePath_pathBytes hitems.1.1 hitems.1.2) hrecord
    exact ⟨List.forall_mem_cons.2 ⟨hv, hvalid⟩, by rw [List.map_cons, List.map_cons, hp, hpaths]⟩

theorem listing_legal (T : Tree) : ∀ item ∈ T.listing, LegalPath item.1 ∧ item.1 ≠ [] :=
  fun item h =>
    have hlegal := T.has_legal ((T.mem_listing item).1 h)
    ⟨hlegal.1, hlegal.2.1⟩

/-- The order of the components is the order of the paths. -/
theorem compare_pathBytes {path path' : List Bytes} (h : LegalPath path) (hne : path ≠ [])
    (h' : LegalPath path') (hne' : path' ≠ []) :
    compareRelativePathBytes (pathBytes path) (pathBytes path') = compare path path' := by
  rw [compareRelativePathBytes_eq, splitOn_pathBytes h hne, splitOn_pathBytes h' hne']

/-- The walk meets the paths of a tree in strict order. -/
theorem paths_pairwise (T : Tree) : (T.listing.map fun item => pathBytes item.1).Pairwise
    fun a b => compareRelativePathBytes a b = .lt := by
  rw [List.pairwise_map]
  refine T.listing_pairwise.imp_of_mem fun {a b} ha hb hlt => ?_
  obtain ⟨hpath, hne⟩ := listing_legal T a ha
  obtain ⟨hpath', hne'⟩ := listing_legal T b hb
  rw [compare_pathBytes hpath hne hpath' hne', hlt]

theorem records_pairwise (T : Tree) (h : T.listing.mapM (recordAt blake3) = .ok records) :
    (records.map ManifestRecord.relativePath).Pairwise
      fun a b => compareRelativePathBytes a b = .lt := by
  rw [(records_valid (listing_legal T) h).2]
  exact paths_pairwise T

/-- The manifest of these records. -/
def manifestOf (records : List ManifestRecord) : Bytes :=
  manifestHeader ++ [Bytes.lineFeed] ++ records.flatMap writeRecord

theorem lines_manifestOf (h : ∀ record ∈ records, record.Valid) :
    (manifestOf records).lines = manifestHeader :: records.map recordLine := by
  have hheader : manifestHeader.Plain := Bytes.plain_of_all (by decide +kernel)
  have hlines : ∀ line ∈ manifestHeader :: records.map recordLine, line.Plain := by
    rw [List.forall_mem_cons, List.forall_mem_map]
    exact ⟨hheader, fun record hrecord => plain_recordLine (h record hrecord)⟩
  have htext : manifestOf records
      = (manifestHeader :: records.map recordLine).flatMap (· ++ [Bytes.lineFeed]) := by
    rw [List.flatMap_cons, List.flatMap_map]
    rfl
  rw [htext, Bytes.lines_flatMap hlines]

theorem parse_recordLines : ∀ {records : List ManifestRecord}, (∀ record ∈ records, record.Valid) →
    (records.map recordLine).mapM parseRecord = .ok records
  | [], _ => rfl
  | record :: records, h => by
    rw [List.forall_mem_cons] at h
    simp only [List.map_cons, List.mapM_cons, bind_eq_ok, pure_eq_ok]
    exact ⟨_, parseRecord_recordLine h.1, _, parse_recordLines h.2, rfl⟩

/-- A manifest of valid records in order is accepted, with the counts of its records. -/
theorem validate_manifestOf {stats : ManifestStats} (h : ∀ record ∈ records, record.Valid)
    (horder : InOrder (records.map ManifestRecord.relativePath))
    (hstats : tally (records.map ManifestRecord.size) {} = .ok stats) :
    validateManifestFormat (manifestOf records) = .ok stats := by
  refine validateManifestFormat_eq_ok.2 ⟨_, lines_manifestOf h, ?_, records, parse_recordLines h,
    horder, hstats⟩
  rw [List.forall_mem_map]
  exact fun record hrecord => (plain_recordLine (h record hrecord)).isUtf8

/-- What a successful walk of a tree wrote. -/
theorem written (h : Writes blake3 T.metadata.dev T.listing
    { output := manifestHeader ++ [Bytes.lineFeed] } walk records) :
    walk.output = manifestOf records ∧ (∀ record ∈ records, record.Valid)
      ∧ (records.map ManifestRecord.relativePath).Pairwise
        (fun a b => compareRelativePathBytes a b = .lt)
      ∧ validateManifestFormat walk.output = .ok walk.stats := by
  have hvalid := (records_valid (listing_legal T) h.recorded).1
  have horder := records_pairwise T h.recorded
  have houtput : walk.output = manifestOf records := h.output
  refine ⟨houtput, hvalid, horder, ?_⟩
  rw [houtput]
  exact validate_manifestOf hvalid horder.isChain h.stats

end Trees

/-- The walk meets every tree in strict order, and its manifests are accepted; the order of paths is
a strict total order; and every accepted manifest is in order throughout. -/
theorem manifests_ordered (blake3 : Blake3) :
    (∀ T : Tree, (T.listing.map fun item => pathBytes item.1).Pairwise
      fun a b => compareRelativePathBytes a b = .lt)
    ∧ (∀ (T : Tree) (walk : Walk), writeManifest blake3 T.root = .ok walk →
      ∃ records, T.listing.mapM (recordAt blake3) = .ok records ∧ walk.output = manifestOf records
        ∧ (records.map ManifestRecord.relativePath).Pairwise
          (fun a b => compareRelativePathBytes a b = .lt)
        ∧ validateManifestFormat walk.output = .ok walk.stats)
    ∧ (∀ a b : Bytes, a ≠ b →
      (compareRelativePathBytes a b = .lt ∨ compareRelativePathBytes b a = .lt))
    ∧ (∀ a b : Bytes, compareRelativePathBytes a b = .lt → compareRelativePathBytes b a = .gt)
    ∧ (∀ a : Bytes, compareRelativePathBytes a a = .eq)
    ∧ (∀ a b c : Bytes, compareRelativePathBytes a b = .lt → compareRelativePathBytes b c = .lt →
      compareRelativePathBytes a c = .lt)
    ∧ ∀ (manifest : Bytes) (stats : ManifestStats), validateManifestFormat manifest = .ok stats →
      ∃ lines records, manifest.lines = manifestHeader :: lines
        ∧ lines.mapM parseRecord = .ok records
        ∧ (records.map ManifestRecord.relativePath).Pairwise
          (fun a b => compareRelativePathBytes a b = .lt) := by
  refine ⟨paths_pairwise, fun T walk h => ?_, fun a b => comparePath_total, fun a b h => comparePath_gt_iff.2 h,
    fun a => comparePath_eq_iff.2 rfl, fun a b c => comparePath_trans, fun manifest stats h => ?_⟩
  · obtain ⟨records, hwrites⟩ := writeManifest_eq_ok.1 h
    obtain ⟨houtput, -, horder, haccepted⟩ := written hwrites
    exact ⟨records, hwrites.recorded, houtput, horder, haccepted⟩
  · obtain ⟨lines, hlines, -, records, hrecords, horder, -⟩ := validateManifestFormat_eq_ok.1 h
    exact ⟨lines, records, hlines, hrecords, pairwise_of_isChain horder⟩

end OnixCore.BackupManifest
