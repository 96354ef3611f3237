import OnixCore.BackupManifest.Proofs.Accepted

/-!
# Spellings

A record is read back from the line it is written as (`parse_writeRecord`). The other way round the
standard library's parsers are lenient: an accepted manifest is the one its records are written as
exactly when it ends its lines with line feeds alone and pads no number (`accepted_canonical_iff`).
A path can be spelled with empty parts and dots as well, and two spellings of one path are two
records (`accepted_distinct_iff`).
-/

namespace OnixCore.BackupManifest

open Numeral

variable {record : ManifestRecord} {records : List ManifestRecord} {line manifest : Bytes}
  {stats : ManifestStats}

deriving instance DecidableEq for Failure, ManifestStats, ManifestRecord

section Records

theorem validateRelativePath_eq_ok {path : Bytes} : validateRelativePath path = .ok ()
    ↔ path ≠ [] ∧ path.head? ≠ some slash ∧ ∀ c ∈ components path, c.isNormal = true := by
  unfold validateRelativePath
  split_ifs with hempty hnormal
  · exact iff_of_false nofun fun h => hempty.elim h.1 h.2.1
  · rw [not_or] at hempty
    exact iff_of_true rfl ⟨hempty.1, hempty.2, List.all_eq_true.1 hnormal⟩
  · exact iff_of_false nofun fun h => hnormal (List.all_eq_true.2 h.2.2)

/-- Whatever the bytes of its path, a record is one line, and reads back as it was. -/
theorem parse_writeRecord (hhash : checkHash record.kind record.hash = .ok ())
    (hmode : record.mode &&& ~~~permissionModeMask = 0) (hempty : record.relativePath ≠ [])
    (hrelative : record.relativePath.head? ≠ some slash)
    (hnormal : ∀ c ∈ components record.relativePath, c.isNormal = true) :
    ∃ line, writeRecord record = line ++ [Bytes.lineFeed] ∧ Bytes.lineFeed ∉ line
      ∧ Bytes.carriageReturn ∉ line ∧ (writeRecord record).lines = [line]
      ∧ parseRecord line = .ok record := by
  have hvalid : record.Valid :=
    ⟨hhash, hmode, validateRelativePath_eq_ok.2 ⟨hempty, hrelative, hnormal⟩⟩
  have hplain := plain_recordLine hvalid
  refine ⟨recordLine record, rfl, hplain.notMem (by decide), hplain.notMem (by decide), ?_,
    parseRecord_recordLine hvalid⟩
  have hlines := Bytes.lines_flatMap (List.forall_mem_singleton.2 hplain)
  rwa [List.flatMap_singleton] at hlines

/-- A link whose path is no text, with the largest numbers. -/
def oddRecord : ManifestRecord :=
  ⟨.symlink, List.replicate 64 97, 0xFFFFFFFFFFFFFFFF, 0o7777, 0xFFFFFFFF, 0xFFFFFFFF,
    [0xFF, 32, 10, slash, slash, 0x00]⟩

theorem parse_oddRecord : ∃ line, writeRecord oddRecord = line ++ [Bytes.lineFeed]
    ∧ Bytes.lineFeed ∉ line ∧ Bytes.carriageReturn ∉ line ∧ (writeRecord oddRecord).lines = [line]
    ∧ parseRecord line = .ok oddRecord :=
  parse_writeRecord (by rfl) (by decide) (by decide) (by decide) (by decide)

end Records

section Spelling

theorem EntryKind.marker_of_parse {marker : Bytes} {kind : EntryKind}
    (h : EntryKind.parse marker = .ok kind) : kind.marker = marker := by
  unfold EntryKind.parse at h
  split_ifs at h with hd hf hl
  · cases h
    exact hd.symm
  · cases h
    exact hf.symm
  · cases h
    exact hl.symm

theorem parseField_eq_ok {base bits n : ℕ} {text : Bytes} {message : String} :
    parseField base bits text message = .ok n ↔ parseUnsigned base bits text = some n := by
  unfold parseField
  rcases parseUnsigned base bits text with _ | value
  · exact iff_of_false nofun nofun
  · simp

theorem hexEncode_of_hexDecode {text bytes : Bytes} (h : hexDecode text = .ok bytes) :
    hexEncode bytes = text := by
  unfold hexDecode at h
  split_ifs at h with hodd
  rw [not_not] at hodd
  rcases hpairs : hexPairs text with _ | decoded
  · rw [hpairs] at h
    cases h
  · rw [hpairs] at h
    cases h
    exact hexEncode_of_hexPairs hodd hpairs

/-- The fields of a line that is read as a record: the numbers may be padded, the others are what
the record is written with. -/
structure Spelling (line : Bytes) (record : ManifestRecord) (size mode uid gid : Bytes) : Prop where
  fields : line.splitOn Bytes.space
    = [record.kind.marker, record.hash, size, mode, uid, gid, hexEncode record.relativePath]
  size : parseUnsigned 10 64 size = some record.size.toNat
  mode : parseUnsigned 8 32 mode = some record.mode.toNat
  uid : parseUnsigned 10 32 uid = some record.uid.toNat
  gid : parseUnsigned 10 32 gid = some record.gid.toNat

theorem parseRecord_inv (h : parseRecord line = .ok record) :
    record.Valid ∧ ∃ size mode uid gid, Spelling line record size mode uid gid := by
  unfold parseRecord at h
  split at h
  case h_2 => cases h
  case h_1 kindField hashField size mode uid gid pathField hfields =>
    simp only [bind_eq_ok, ite_throw_eq_ok, pure_eq_ok, not_not, parseField_eq_ok] at h
    obtain ⟨kind, hkind, _, hhash, sizeValue, hsize, modeValue, hmode, hmask, uidValue, huid,
      gidValue, hgid, path, hpath, _, hvalid, rfl⟩ := h
    have hsize' := lt_of_parseUnsigned hsize
    have hmode' := lt_of_parseUnsigned hmode
    have huid' := lt_of_parseUnsigned huid
    have hgid' := lt_of_parseUnsigned hgid
    refine ⟨⟨hhash, hmask, hvalid⟩, size, mode, uid, gid, ?_, ?_, ?_, ?_, ?_⟩
    · rw [hfields, EntryKind.marker_of_parse hkind, hexEncode_of_hexDecode hpath]
    · rw [hsize, UInt64.toNat_ofNat_of_lt' hsize']
    · rw [hmode, UInt32.toNat_ofNat_of_lt' hmode']
    · rw [huid, UInt32.toNat_ofNat_of_lt' huid']
    · rw [hgid, UInt32.toNat_ofNat_of_lt' hgid']

/-- The numbers of a record's line, as they stand there. -/
def numberFields (line : Bytes) : List Bytes := ((line.splitOn Bytes.space).drop 2).take 4

/-- A record is written as the line it was read from exactly when no number there is padded. -/
theorem recordLine_eq_iff (h : parseRecord line = .ok record) :
    recordLine record = line ↔ ∀ number ∈ numberFields line, Unpadded number := by
  obtain ⟨hvalid, size, mode, uid, gid, hspelling⟩ := parseRecord_inv h
  have hline : line = [Bytes.space].intercalate (line.splitOn Bytes.space) :=
    (List.intercalate_splitOn Bytes.space).symm
  have hnumbers : (numeral 10 record.size.toNat = size ∧ numeral 8 record.mode.toNat = mode
      ∧ numeral 10 record.uid.toNat = uid ∧ numeral 10 record.gid.toNat = gid)
        ↔ ∀ number ∈ numberFields line, Unpadded number := by
    simp only [numberFields, hspelling.fields, List.drop_succ_cons, List.drop_zero,
      List.take_succ_cons, List.take_zero, List.forall_mem_cons, List.not_mem_nil, false_imp_iff,
      implies_true, and_true]
    rw [numeral_eq_iff (by decide) le_rfl hspelling.size,
      numeral_eq_iff (by decide) (by decide) hspelling.mode,
      numeral_eq_iff (by decide) le_rfl hspelling.uid, numeral_eq_iff (by decide) le_rfl hspelling.gid]
  rw [← hnumbers]
  constructor
  · intro heq
    have hfields : recordFields record = line.splitOn Bytes.space := by
      rw [← heq, recordLine, Bytes.splitOn_words (word_recordFields hvalid) (by simp [recordFields])]
    rw [hspelling.fields] at hfields
    simpa [recordFields] using hfields
  · rintro ⟨rfl, rfl, rfl, rfl⟩
    rw [hline, hspelling.fields]
    rfl

end Spelling

section Manifests

/-- Every line ends in a line feed alone, and no number is padded. -/
structure CanonicallySpelled (manifest : Bytes) : Prop where
  terminated : manifest.getLast? = some Bytes.lineFeed
  lineEnds : Bytes.carriageReturn ∉ manifest
  numbers : ∀ line ∈ manifest.lines.drop 1, ∀ number ∈ numberFields line, Unpadded number

theorem forall₂_recordLine : ∀ {lines : List Bytes} {records : List ManifestRecord},
    List.Forall₂ (fun line record => parseRecord line = .ok record) lines records →
      ((records.map recordLine = lines)
        ↔ ∀ line ∈ lines, ∀ number ∈ numberFields line, Unpadded number)
  | _, _, .nil => by simp
  | _, _, .cons hrecord hrest => by
    rw [List.map_cons, List.cons.injEq, recordLine_eq_iff hrecord, forall₂_recordLine hrest,
      List.forall_mem_cons]

theorem manifestOf_eq_flatMap (records : List ManifestRecord) : manifestOf records
    = (manifestHeader :: records.map recordLine).flatMap (· ++ [Bytes.lineFeed]) := by
  rw [List.flatMap_cons, List.flatMap_map]
  rfl

theorem getLast_manifestOf (records : List ManifestRecord) :
    (manifestOf records).getLast? = some Bytes.lineFeed := by
  rw [manifestOf_eq_flatMap, Bytes.flatMap_lineFeed (List.cons_ne_nil _ _), List.getLast?_concat]

theorem carriageReturn_notMem (h : ∀ record ∈ records, record.Valid) :
    Bytes.carriageReturn ∉ manifestOf records := by
  rw [manifestOf_eq_flatMap, List.mem_flatMap]
  rintro ⟨line, hline, hmem⟩
  have hplain : line.Plain := by
    rcases List.mem_cons.1 hline with rfl | hline
    · exact Bytes.plain_of_all (by decide +kernel)
    · obtain ⟨record, hrecord, rfl⟩ := List.mem_map.1 hline
      exact plain_recordLine (h record hrecord)
  rcases List.mem_append.1 hmem with hbyte | hbyte
  · exact hplain.notMem (by decide) hbyte
  · exact absurd (List.mem_singleton.1 hbyte) (by decide)

/-- The records of an accepted manifest make a manifest with the same counts. It is the same file
exactly when the first was spelled without padding and with line feeds. -/
theorem accepted_canonical_iff (h : validateManifestFormat manifest = .ok stats) :
    ∃ records, (manifest.lines.drop 1).mapM parseRecord = .ok records
      ∧ validateManifestFormat (manifestOf records) = .ok stats
      ∧ (manifestOf records = manifest ↔ CanonicallySpelled manifest) := by
  obtain ⟨lines, hlines, -, records, hrecords, horder, hstats⟩ := validateManifestFormat_eq_ok.1 h
  have hforall := mapM_eq_ok.1 hrecords
  have hvalid : ∀ record ∈ records, record.Valid := by
    intro record hrecord
    obtain ⟨line, -, hline⟩ := (mem_of_mapM hrecords).1 hrecord
    exact (parseRecord_inv hline).1
  have hdrop : manifest.lines.drop 1 = lines := by rw [hlines]; rfl
  refine ⟨records, by rw [hdrop, hrecords], validate_manifestOf hvalid horder hstats, ?_⟩
  constructor
  · intro heq
    refine ⟨heq ▸ getLast_manifestOf records, heq ▸ carriageReturn_notMem hvalid, ?_⟩
    have hsame := lines_manifestOf hvalid
    rw [heq, hlines, List.cons.injEq] at hsame
    rw [hdrop]
    exact (forall₂_recordLine hforall).1 hsame.2.symm
  · intro hspelled
    have hsame := (forall₂_recordLine hforall).2 (hdrop ▸ hspelled.numbers)
    rw [manifestOf_eq_flatMap, hsame, ← hlines,
      Bytes.flatMap_lines hspelled.terminated hspelled.lineEnds]

/-- A directory with three zeros in front of its mode. -/
def paddedManifest : Bytes :=
  manifestHeader ++ [Bytes.lineFeed] ++ Bytes.ascii "D - 0 000755 0 0 61" ++ [Bytes.lineFeed]

def paddedRecord : ManifestRecord := ⟨.directory, hashPlaceholder, 0, 0o755, 0, 0, [97]⟩

theorem paddedManifest_accepted : validateManifestFormat paddedManifest = .ok ⟨1, 0⟩
    ∧ (paddedManifest.lines.drop 1).mapM parseRecord = .ok [paddedRecord]
    ∧ manifestOf [paddedRecord] ≠ paddedManifest :=
  ⟨by decide +kernel, by decide +kernel, by decide +kernel⟩

theorem paddedManifest_spelling : ∃ records,
    (paddedManifest.lines.drop 1).mapM parseRecord = .ok records
      ∧ validateManifestFormat (manifestOf records) = .ok ⟨1, 0⟩
      ∧ (manifestOf records = paddedManifest ↔ CanonicallySpelled paddedManifest) :=
  accepted_canonical_iff (by decide +kernel)

end Manifests

section Paths

/-- The parts of a path that `Path::components` keeps. -/
def keptParts (path : Bytes) : List Bytes :=
  (path.splitOn slash).filter fun part => part ≠ [] && part ≠ [dot]

/-- A path with parts that are dropped. -/
def Redundant (path : Bytes) : Prop := keptParts path ≠ path.splitOn slash

/-- The components of a path a manifest may hold are its parts that are kept. -/
theorem components_eq {path : Bytes} (h : validateRelativePath path = .ok ()) :
    components path = (keptParts path).map .normal := by
  obtain ⟨-, hslash, hnormal⟩ := validateRelativePath_eq_ok.1 h
  have hfirst : (path.splitOn slash).head? ≠ some [dot] := by
    intro hdot
    have hcur : Component.curDir ∈ components path := by
      rw [components, if_neg hslash, if_pos hdot]
      exact List.mem_append_left _ (List.mem_singleton.2 rfl)
    cases hnormal _ hcur
  rw [components, if_neg hslash, if_neg hfirst, List.nil_append]
  refine List.map_congr_left fun part hpart => if_neg ?_
  rintro rfl
  have hparent : Component.parentDir ∈ components path := by
    rw [components, if_neg hslash, if_neg hfirst, List.nil_append, List.mem_map]
    exact ⟨_, hpart, if_pos rfl⟩
  cases hnormal _ hparent

theorem components_eq_iff {path path' : Bytes} (h : validateRelativePath path = .ok ())
    (h' : validateRelativePath path' = .ok ()) :
    components path = components path' ↔ keptParts path = keptParts path' := by
  rw [components_eq h, components_eq h']
  exact (List.map_injective_iff.2 fun _ _ heq => by injection heq).eq_iff

/-- The records of an accepted manifest name different entries exactly when no path with empty
parts or dots becomes that of another record without them. -/
theorem accepted_distinct_iff (h : validateManifestFormat manifest = .ok stats) :
    ∃ records, (manifest.lines.drop 1).mapM parseRecord = .ok records
      ∧ ((records.Pairwise fun a b => components a.relativePath ≠ components b.relativePath)
        ↔ records.Pairwise fun a b => Redundant a.relativePath ∨ Redundant b.relativePath →
          keptParts a.relativePath ≠ keptParts b.relativePath) := by
  obtain ⟨lines, hlines, -, records, hrecords, horder, -⟩ := validateManifestFormat_eq_ok.1 h
  have hvalid : ∀ record ∈ records, validateRelativePath record.relativePath = .ok () := by
    intro record hrecord
    obtain ⟨line, -, hline⟩ := (mem_of_mapM hrecords).1 hrecord
    exact (parseRecord_inv hline).1.path
  have hdrop : manifest.lines.drop 1 = lines := by rw [hlines]; rfl
  have hpaths : records.Pairwise fun a b => a.relativePath ≠ b.relativePath := by
    have hpairwise := pairwise_of_isChain horder
    rw [List.pairwise_map] at hpairwise
    refine hpairwise.imp fun hlt heq => ?_
    rw [heq] at hlt
    exact comparePath_irrefl _ hlt
  refine ⟨records, by rw [hdrop, hrecords], ?_⟩
  constructor
  · intro hdistinct
    refine hdistinct.imp_of_mem fun ha hb hne _ heq => hne ?_
    exact (components_eq_iff (hvalid _ ha) (hvalid _ hb)).2 heq
  · intro hkept
    refine (hkept.and hpaths).imp_of_mem fun ha hb hab heq => ?_
    have hparts := (components_eq_iff (hvalid _ ha) (hvalid _ hb)).1 heq
    have hplain := not_or.1 fun hredundant => hab.1 hredundant hparts
    -- neither path has parts to drop, so the two are spelled alike
    refine hab.2 (splitOn_inj ?_)
    rw [← not_not.1 hplain.1, ← not_not.1 hplain.2, hparts]

/-- One directory, spelled twice. -/
def repeatedManifest : Bytes :=
  manifestHeader ++ [Bytes.lineFeed] ++ Bytes.ascii "D - 0 755 0 0 612f2f62" ++ [Bytes.lineFeed]
    ++ Bytes.ascii "D - 0 755 0 0 612f62" ++ [Bytes.lineFeed]

def directoryRecord (path : Bytes) : ManifestRecord :=
  ⟨.directory, hashPlaceholder, 0, 0o755, 0, 0, path⟩

theorem repeatedManifest_accepted : validateManifestFormat repeatedManifest = .ok ⟨2, 0⟩
    ∧ (repeatedManifest.lines.drop 1).mapM parseRecord
      = .ok [directoryRecord (Bytes.ascii "a//b"), directoryRecord (Bytes.ascii "a/b")]
    ∧ components (Bytes.ascii "a//b") = components (Bytes.ascii "a/b") :=
  ⟨by decide +kernel, by decide +kernel, by rfl⟩

theorem repeatedManifest_distinct : ∃ records,
    (repeatedManifest.lines.drop 1).mapM parseRecord = .ok records
      ∧ ((records.Pairwise fun a b => components a.relativePath ≠ components b.relativePath)
        ↔ records.Pairwise fun a b => Redundant a.relativePath ∨ Redundant b.relativePath →
          keptParts a.relativePath ≠ keptParts b.relativePath) :=
  have haccepted : validateManifestFormat repeatedManifest = .ok ⟨2, 0⟩ := by decide +kernel
  accepted_distinct_iff haccepted

end Paths

end OnixCore.BackupManifest
