import OnixCore.BackupManifest.Proofs.Order

/-!
# Records as lines

The fields of a valid record are words, so its line reads back as the record
(`parseRecord_recordLine`). `validate_manifest_format` accepts the manifests whose lines are
records in the order of their paths, with counts that fit (`validateManifestFormat_eq_ok`).
-/

namespace OnixCore.BackupManifest

open Numeral

/-- A record as the walk makes it: what `parse_record` asks of one. -/
structure ManifestRecord.Valid (record : ManifestRecord) : Prop where
  hash : checkHash record.kind record.hash = .ok ()
  mode : record.mode &&& ~~~permissionModeMask = 0
  path : validateRelativePath record.relativePath = .ok ()

section Line

variable {record : ManifestRecord}

/-- The fields of a record's line. -/
def recordFields (record : ManifestRecord) : List Bytes :=
  [record.kind.marker, record.hash, numeral 10 record.size.toNat, numeral 8 record.mode.toNat,
    numeral 10 record.uid.toNat, numeral 10 record.gid.toNat, hexEncode record.relativePath]

/-- A record's line, without its line feed. -/
def recordLine (record : ManifestRecord) : Bytes := [Bytes.space].intercalate (recordFields record)

theorem word_marker (kind : EntryKind) : kind.marker.Word := by
  cases kind <;> exact Bytes.word_of_all (by decide)

theorem word_of_validBlake3Hex {hash : Bytes} (h : validBlake3Hex hash = true) : hash.Word := by
  intro b hb
  simp only [validBlake3Hex, Bool.and_eq_true, List.all_eq_true, Bool.or_eq_true,
    decide_eq_true_eq] at h
  rcases h.2 b hb with hdigit | hletter
  · exact ⟨UInt8.lt_of_lt_of_le (by decide) hdigit.1, UInt8.lt_of_le_of_lt hdigit.2 (by decide)⟩
  · exact ⟨UInt8.lt_of_lt_of_le (by decide) hletter.1, UInt8.lt_of_le_of_lt hletter.2 (by decide)⟩

theorem word_of_checkHash {kind : EntryKind} {hash : Bytes} (h : checkHash kind hash = .ok ()) :
    hash.Word := by
  unfold checkHash at h
  split at h
  · split_ifs at h with hne
    rw [not_not.1 hne]
    exact Bytes.word_of_all (by decide)
  · split_ifs at h with hvalid
    exact word_of_validBlake3Hex (by simpa using hvalid)

theorem word_recordFields (h : record.Valid) : ∀ field ∈ recordFields record, field.Word := by
  simp only [recordFields, List.forall_mem_cons]
  exact ⟨word_marker _, word_of_checkHash h.hash, word_numeral (by decide) (by decide),
    word_numeral (by decide) (by decide), word_numeral (by decide) (by decide),
    word_numeral (by decide) (by decide), word_hexEncode _, fun _ h => nomatch h⟩

theorem plain_recordLine (h : record.Valid) : (recordLine record).Plain :=
  Bytes.plain_words (word_recordFields h)

theorem parse_marker (kind : EntryKind) : EntryKind.parse kind.marker = .ok kind := by
  cases kind <;> rfl

theorem parseField_numeral {base bits n : ℕ} {message : String} (hb : 1 < base)
    (hbase : base ≤ 10) (h : n < 2 ^ bits) :
    parseField base bits (numeral base n) message = .ok n := by
  rw [parseField, parseUnsigned_numeral hb hbase h]
  rfl

theorem hexDecode_hexEncode (bytes : Bytes) : hexDecode (hexEncode bytes) = .ok bytes := by
  rw [hexDecode, if_neg (by simp [length_hexEncode, hexCharsPerByte]), hexPairs_hexEncode]
  rfl

/-- The line of a valid record reads back as the record. -/
theorem parseRecord_recordLine (h : record.Valid) : parseRecord (recordLine record) = .ok record := by
  have hfields : (recordLine record).splitOn Bytes.space = recordFields record :=
    Bytes.splitOn_words (word_recordFields h) (by simp [recordFields])
  have hmode : UInt32.ofNat record.mode.toNat = record.mode := UInt32.ofNat_toNat
  rw [parseRecord, hfields]
  simp only [recordFields, bind_eq_ok, ite_throw_eq_ok, pure_eq_ok, not_not]
  refine ⟨record.kind, parse_marker _, (), h.hash, _,
    parseField_numeral (by decide) le_rfl record.size.toNat_lt, _,
    parseField_numeral (by decide) (by decide) record.mode.toNat_lt, ?_, _,
    parseField_numeral (by decide) le_rfl record.uid.toNat_lt, _,
    parseField_numeral (by decide) le_rfl record.gid.toNat_lt, _, hexDecode_hexEncode _, (),
    h.path, ?_⟩
  · rw [hmode]
    exact h.mode
  · rw [hmode, UInt64.ofNat_toNat, UInt32.ofNat_toNat, UInt32.ofNat_toNat]

end Line

section Format

theorem readLine_eq_ok {line line' : Bytes} {context : String} :
    readLine line context = .ok line' ↔ line.isUtf8 = true ∧ line' = line := by
  unfold readLine
  split_ifs with h
  · rw [pure_eq_ok, eq_comm]
    simp [h]
  · exact iff_of_false (fun hok => nomatch hok) fun hok => h hok.1

theorem formatStep_eq_ok {state state' : FormatState} {line : Bytes} :
    formatStep state line = .ok state' ↔ line.isUtf8 = true ∧ ∃ record,
      parseRecord line = .ok record ∧ inOrder state.previousPath record.relativePath = true
      ∧ ∃ stats, state.stats.add record.size = .ok stats
        ∧ state' = ⟨some record.relativePath, stats⟩ := by
  simp only [formatStep, bind_eq_ok, readLine_eq_ok, ite_throw_eq_ok, pure_eq_ok, Bool.not_eq_true',
    Bool.not_eq_false]
  constructor
  · rintro ⟨_, ⟨hutf8, rfl⟩, record, hrecord, horder, stats, hstats, rfl⟩
    exact ⟨hutf8, record, hrecord, horder, stats, hstats, rfl⟩
  · rintro ⟨hutf8, record, hrecord, horder, stats, hstats, rfl⟩
    exact ⟨_, ⟨hutf8, rfl⟩, record, hrecord, horder, stats, hstats, rfl⟩

/-- The paths are in order, each after the one before it. -/
def InOrder (paths : List Bytes) : Prop :=
  paths.IsChain fun a b => compareRelativePathBytes a b = .lt

theorem inOrder_cons {previous : Option Bytes} {path : Bytes} {paths : List Bytes} :
    InOrder (previous.toList ++ path :: paths)
      ↔ inOrder previous path = true ∧ InOrder (path :: paths) := by
  cases previous <;> simp [InOrder, inOrder]

/-- The counts after records of these sizes. -/
def tally (sizes : List UInt64) (stats : ManifestStats) : Except Failure ManifestStats :=
  sizes.foldlM ManifestStats.add stats

theorem tally_cons {size : UInt64} {sizes : List UInt64} {stats stats' : ManifestStats} :
    tally (size :: sizes) stats = .ok stats'
      ↔ ∃ middle, stats.add size = .ok middle ∧ tally sizes middle = .ok stats' := by
  rw [tally, List.foldlM_cons, bind_eq_ok]
  rfl

/-- The loop over the lines of the records. -/
theorem formatSteps_eq_ok : ∀ (lines : List Bytes) (state : FormatState) (stats : ManifestStats),
    (∃ previous, lines.foldlM formatStep state = .ok ⟨previous, stats⟩)
      ↔ (∀ line ∈ lines, line.isUtf8 = true) ∧ ∃ records, lines.mapM parseRecord = .ok records
        ∧ InOrder (state.previousPath.toList ++ records.map ManifestRecord.relativePath)
        ∧ tally (records.map ManifestRecord.size) state.stats = .ok stats
  | [], ⟨previous, stats⟩, stats' => by
    simp only [List.foldlM_nil, List.mapM_nil, pure_eq_ok, FormatState.mk.injEq]
    constructor
    · rintro ⟨_, rfl, rfl⟩
      exact ⟨List.forall_mem_nil _, [], rfl, by cases previous <;> simp [InOrder], rfl⟩
    · rintro ⟨-, _, rfl, -, hstats⟩
      exact ⟨previous, rfl, Except.ok.inj hstats⟩
  | line :: lines, state, stats => by
    simp only [List.foldlM_cons, List.mapM_cons, bind_eq_ok, pure_eq_ok, formatStep_eq_ok,
      List.forall_mem_cons]
    constructor
    · rintro ⟨previous, _, ⟨hutf8, record, hrecord, horder, middle, hadd, rfl⟩, hrest⟩
      obtain ⟨hall, records, hrecords, hpaths, hstats⟩ :=
        (formatSteps_eq_ok _ _ _).1 ⟨previous, hrest⟩
      refine ⟨⟨hutf8, hall⟩, _, ⟨record, hrecord, records, hrecords, rfl⟩, ?_, ?_⟩
      · rw [List.map_cons, inOrder_cons]
        exact ⟨horder, hpaths⟩
      · rw [List.map_cons, tally_cons]
        exact ⟨middle, hadd, hstats⟩
    · rintro ⟨⟨hutf8, hall⟩, _, ⟨record, hrecord, records, hrecords, rfl⟩, hpaths, hstats⟩
      rw [List.map_cons, inOrder_cons] at hpaths
      rw [List.map_cons, tally_cons] at hstats
      obtain ⟨middle, hadd, hstats⟩ := hstats
      obtain ⟨previous, hrest⟩ := (formatSteps_eq_ok lines ⟨some record.relativePath, middle⟩
        stats).2 ⟨hall, records, hrecords, hpaths.2, hstats⟩
      exact ⟨previous, _, ⟨hutf8, record, hrecord, hpaths.1, middle, hadd, rfl⟩, hrest⟩

/-- What the validator accepts, and with which counts. -/
theorem validateManifestFormat_eq_ok {manifest : Bytes} {stats : ManifestStats} :
    validateManifestFormat manifest = .ok stats
      ↔ ∃ lines, manifest.lines = manifestHeader :: lines ∧ (∀ line ∈ lines, line.isUtf8 = true)
        ∧ ∃ records, lines.mapM parseRecord = .ok records
          ∧ InOrder (records.map ManifestRecord.relativePath)
          ∧ tally (records.map ManifestRecord.size) {} = .ok stats := by
  unfold validateManifestFormat
  rcases manifest.lines with _ | ⟨header, lines⟩
  · exact iff_of_false (fun h => nomatch h) (by simp)
  · simp only [bind_eq_ok, readLine_eq_ok, ite_throw_eq_ok, pure_eq_ok, not_not, List.cons.injEq]
    constructor
    · rintro ⟨_, ⟨-, rfl⟩, rfl, ⟨previous, stats'⟩, hrun, rfl⟩
      exact ⟨lines, ⟨rfl, rfl⟩, (formatSteps_eq_ok _ _ _).1 ⟨previous, hrun⟩⟩
    · rintro ⟨_, ⟨rfl, rfl⟩, h⟩
      obtain ⟨previous, hrun⟩ := (formatSteps_eq_ok _ {} _).2 h
      exact ⟨manifestHeader, ⟨by decide +kernel, rfl⟩, rfl, _, hrun, rfl⟩

end Format

end OnixCore.BackupManifest
