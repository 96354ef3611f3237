import OnixCore.HxOil.Proofs.Document

/-!
# What a written manifest reads as

`LineSafe` is what a name needs to stand on its line and be read from it again: no line feed, and
for a file also that it is not all white space and does not end in a carriage return. Lines of
line-safe names are cut apart as they were written (`lines_writeLines`), and each is read as the
entry it was written for (`parseLines_entry`), so the entries of the parsed manifest are those of
the snapshots it was written from (`parseLines_rendered`).
-/

namespace OnixCore.HxOil

open Text

/-- A text that is one line and is read back as it was written. -/
def OneLine (t : Text) : Prop := '\n' ∉ t ∧ t.getLast? ≠ some '\r'

instance : DecidablePred OneLine := fun _ => inferInstanceAs (Decidable (_ ∧ _))

theorem lines_writeLines : ∀ {ls : List Text}, (∀ l ∈ ls, OneLine l) → lines (writeLines ls) = ls
  | [], _ => rfl
  | l :: ls, h => by
    rw [List.forall_mem_cons] at h
    rw [writeLines, List.flatMap_cons, List.append_assoc, List.singleton_append,
      lines_line _ h.1.1 h.1.2]
    exact congrArg (l :: ·) (lines_writeLines h.2)

/-- A name that is read back from the line it is written on. -/
def LineSafe (e : SnapshotEntry) : Prop :=
  '\n' ∉ e.relativePath.toList ∧ (e.kind = .file →
    e.relativePath.toList.getLast? ≠ some '\r' ∧ trim e.relativePath.toList ≠ [])

instance : DecidablePred LineSafe := fun _ => inferInstanceAs (Decidable (_ ∧ _))

section EntryLine

variable {scope : EntryScope} {e : SnapshotEntry}

def scopeIndent : EntryScope → Text
  | .subdir _ => subdirIndent
  | .root => []

theorem toList_renderPath (kind : EntryKind) (path : String) :
    (kind.renderPath path).toList
      = path.toList ++ (if kind = .directory then ['/'] else []) := by
  cases kind with
  | file => simp [EntryKind.renderPath]
  | directory => simp [EntryKind.renderPath, toString]

/-- The line of an unmarked entry: white space, its name, and a slash after a directory. -/
theorem renderManifestEntry_eq : renderManifestEntry (unmarkedEntry scope e)
    = scopeIndent scope ++ ([' ', ' '] ++ (e.relativePath.toList
      ++ (if e.kind = .directory then ['/'] else []))) := by
  have hmark : EntryMark.none.pfx.toList = [' ', ' '] := by decide
  rw [renderManifestEntry, unmarkedEntry]
  simp only [toList_renderPath, hmark, List.append_assoc]
  cases scope <;> rfl

theorem mem_scopeIndent {c : Char} (h : c ∈ scopeIndent scope) : c = ' ' := by
  cases scope with
  | root => simp [scopeIndent] at h
  | subdir path => simpa [scopeIndent, subdirIndent] using h

theorem head_renderManifestEntry :
    (renderManifestEntry (unmarkedEntry scope e)).head? = some ' ' := by
  rw [renderManifestEntry_eq]
  cases scope <;> rfl

theorem oneLine_renderManifestEntry (h : LineSafe e) :
    OneLine (renderManifestEntry (unmarkedEntry scope e)) := by
  rw [renderManifestEntry_eq]
  constructor
  · simp only [List.mem_append, not_or]
    refine ⟨fun hc => by simpa using mem_scopeIndent hc, by simp, h.1, ?_⟩
    split_ifs <;> simp
  · rcases hk : e.kind with _ | _
    · have hlast := (h.2 hk).1
      have hne : e.relativePath.toList ≠ [] := fun hnil => (h.2 hk).2 (by simp [hnil, trim_eq_nil])
      rwa [if_neg (by decide), List.append_nil, List.getLast?_append_of_ne_nil _ (by simp),
        List.getLast?_append_of_ne_nil _ hne]
    · rw [if_pos rfl, List.getLast?_append_of_ne_nil _ (by simp),
        List.getLast?_append_of_ne_nil _ (by simp), List.getLast?_append_of_ne_nil _ (by simp)]
      simp

/-- The line of a line-safe name is not blank. -/
theorem trim_renderManifestEntry (h : LineSafe e) :
    trim (renderManifestEntry (unmarkedEntry scope e)) ≠ [] := by
  rw [renderManifestEntry_eq, ne_eq, trim_eq_nil]
  intro hall
  rcases hk : e.kind with _ | _
  · refine (h.2 hk).2 (trim_eq_nil.2 fun c hc => hall c ?_)
    simp [hc]
  · have := hall '/' (by simp [hk])
    simp [isWhitespace] at this

theorem parseMark_unmarked (rest : Text) : parseMark ([' ', ' '] ++ rest) = (.none, rest) := by
  simp [parseMark, stripPrefix, List.isPrefixOf?]

theorem parseName_rendered (h : '/' ∉ e.relativePath.toList) :
    parseName (e.relativePath.toList ++ (if e.kind = .directory then ['/'] else []))
      = (e.relativePath.toList, e.kind) := by
  rcases hk : e.kind with _ | _
  · have hlast : e.relativePath.toList.getLast? ≠ some '/' := fun hl =>
      h (List.mem_of_getLast? hl)
    simp [parseName, stripSuffix_eq_none hlast]
  · simp [parseName, stripSuffix_append]

/-- The line of an entry is parsed as that entry. -/
theorem parseManifestEntryLine_rendered (h : '/' ∉ e.relativePath.toList) (n : ℕ) :
    parseManifestEntryLine n (renderManifestEntry (unmarkedEntry scope e)) scope
      = .ok ⟨e.relativePath, e.kind, n, .none, scope⟩ := by
  have hpayload : entryPayload n (renderManifestEntry (unmarkedEntry scope e)) scope
      = .ok ([' ', ' '] ++ (e.relativePath.toList
        ++ (if e.kind = .directory then ['/'] else []))) := by
    rw [renderManifestEntry_eq]
    cases scope with
    | root => rfl
    | subdir path => simp only [entryPayload, scopeIndent, stripPrefix_append]; rfl
  rw [parseManifestEntryLine, hpayload]
  simp only [bind, Except.bind, parseMark_unmarked, parseName_rendered h, String.ofList_toList]
  rfl

end EntryLine

section Blocks

variable {current : Option String} {n : ℕ} {rest : List Text} {parsed : List ManifestLine}

theorem stripPrefix_of_head {p t : Text} {c d : Char} (hp : p.head? = some c)
    (ht : t.head? = some d) (hne : c ≠ d) : stripPrefix p t = none := by
  rw [Option.eq_none_iff_forall_ne_some]
  intro r hr
  rw [stripPrefix_eq_some] at hr
  rcases p with _ | ⟨x, p⟩
  · simp at hp
  · rw [← hr] at ht
    simp only [List.head?_cons, List.cons_append, Option.some.injEq] at hp ht
    exact hne (hp.symm.trans ht)

/-- The line of a line-safe entry is read as the entry. -/
theorem parseLines_entry {e : SnapshotEntry} (hsafe : LineSafe e)
    (hslash : '/' ∉ e.relativePath.toList)
    (h : parseLines current n (renderManifestEntry (unmarkedEntry (scopeOf current) e) :: rest)
      = .ok parsed) :
    ∃ more, parseLines current (n + 1) rest = .ok more
      ∧ parsed = .entry ⟨e.relativePath, e.kind, n, .none, scopeOf current⟩ :: more := by
  have hhead : (renderManifestEntry (unmarkedEntry (scopeOf current) e)).head? = some ' ' :=
    head_renderManifestEntry
  rw [parseLines, stripPrefix_of_head (c := '#') rfl hhead (by decide),
    stripPrefix_of_head (c := '#') rfl hhead (by decide)] at h
  simp only [trim_renderManifestEntry hsafe, hhead, ↓reduceIte, bind_eq_ok,
    parseManifestEntryLine_rendered hslash, Option.some.injEq, Char.reduceEq, pure_eq_ok,
    Except.ok.injEq, exists_eq_left'] at h
  obtain ⟨more, hm, rfl⟩ := h
  exact ⟨more, hm, rfl⟩

theorem parseLines_start {name : String}
    (h : parseLines current n ((subdirMarker ++ name.toList) :: rest) = .ok parsed) :
    ∃ more, parseLines (some name) (n + 1) rest = .ok more
      ∧ parsed = .subdirStart name n :: more := by
  simp only [parseLines, stripPrefix_append, bind_eq_ok, pure_eq_ok, String.ofList_toList] at h
  obtain ⟨_, -, more, hm, rfl⟩ := h
  exact ⟨more, hm, rfl⟩

theorem stripPrefix_endMarker (name : Text) :
    stripPrefix subdirMarker (endSubdirMarker ++ name) = none := by
  have hsubdir : subdirMarker = "# hx-oil ".toList ++ 's' :: "ubdir: ".toList := by decide
  have hend : endSubdirMarker = "# hx-oil ".toList ++ 'e' :: "nd-subdir: ".toList := by decide
  rw [Option.eq_none_iff_forall_ne_some]
  intro r hr
  rw [stripPrefix_eq_some, hsubdir, hend, List.append_assoc, List.append_assoc] at hr
  simpa using List.append_cancel_left hr

theorem parseLines_end {name : String}
    (h : parseLines current n ((endSubdirMarker ++ name.toList) :: rest) = .ok parsed) :
    ∃ more, parseLines none (n + 1) rest = .ok more ∧ parsed = .subdirEnd name n :: more := by
  rw [parseLines, stripPrefix_endMarker] at h
  simp only [stripPrefix_append] at h
  cases current with
  | none => simp at h
  | some c =>
    simp only [bind_eq_ok, pure_eq_ok, String.ofList_toList] at h
    obtain ⟨_, -, more, hm, rfl⟩ := h
    exact ⟨more, hm, rfl⟩

/-- The entries of a block are read one after another. -/
theorem parseLines_children {name : String} : ∀ {children : List SnapshotEntry} {n : ℕ}
    {parsed : List ManifestLine},
    (∀ c ∈ children, LineSafe c ∧ '/' ∉ c.relativePath.toList) →
    parseLines (some name) n (children.map (fun c =>
      renderManifestEntry (unmarkedEntry (.subdir name) c)) ++ rest) = .ok parsed →
    ∃ m more, parseLines (some name) m rest = .ok more
      ∧ parsed = (children.zipIdx n).map (fun c =>
        .entry ⟨c.1.relativePath, c.1.kind, c.2, .none, .subdir name⟩) ++ more
  | [], n, parsed, _, h => ⟨n, parsed, h, rfl⟩
  | c :: children, n, parsed, hsafe, h => by
    rw [List.forall_mem_cons] at hsafe
    have h' : parseLines (some name) n (renderManifestEntry (unmarkedEntry (scopeOf (some name)) c)
        :: (children.map (fun c => renderManifestEntry (unmarkedEntry (.subdir name) c)) ++ rest))
        = .ok parsed := h
    obtain ⟨more, hm, rfl⟩ := parseLines_entry hsafe.1.1 hsafe.1.2 h'
    obtain ⟨m, more', hrest, rfl⟩ := parseLines_children hsafe.2 hm
    exact ⟨m, more', hrest, rfl⟩

end Blocks

section Rendered

variable (subdirs : List SubdirState)

/-- What the lines of a root entry list: itself, and under an inserted directory its entries. -/
def InBlock (e : SnapshotEntry) (scope : EntryScope) (k : Key) : Prop :=
  (scope = .root ∧ k = e.key) ∨ ∃ state, subdirMap subdirs e.relativePath = some state
    ∧ scope = .subdir e.relativePath ∧ k ∈ state.entries.map (·.key)

/-- The parsed lines are those that were written for the root entries `es`. -/
structure Reads (es : List SnapshotEntry) (parsed : List ManifestLine) : Prop where
  marks : ∀ e, .entry e ∈ parsed → e.mark = .none
  listed : ∀ scope k, (∃ e, .entry e ∈ parsed ∧ e.scope = scope ∧ e.key = k)
    ↔ ∃ e ∈ es, InBlock subdirs e scope k
  starts : ∀ name, (∃ m, .subdirStart name m ∈ parsed)
    ↔ ∃ e ∈ es, e.relativePath = name ∧ (subdirMap subdirs name).isSome

variable {subdirs}

theorem Reads.nil : Reads subdirs [] [] := by
  constructor <;> simp

theorem Reads.append {es fs : List SnapshotEntry} {xs ys : List ManifestLine}
    (hx : Reads subdirs es xs) (hy : Reads subdirs fs ys) : Reads subdirs (es ++ fs) (xs ++ ys) := by
  constructor
  · intro e he
    exact (List.mem_append.1 he).elim (hx.marks e) (hy.marks e)
  · intro scope k
    simp only [List.mem_append, or_and_right, exists_or, hx.listed, hy.listed]
  · intro name
    simp only [List.mem_append, or_and_right, exists_or, hx.starts, hy.starts]

theorem subdirMap_path {name : String} {state : SubdirState}
    (h : subdirMap subdirs name = some state) : state ∈ subdirs ∧ state.relativePath = name := by
  refine ⟨?_, by simpa using List.find?_some h⟩
  simpa using List.mem_of_find?_eq_some h

/-- What a rendered root entry needs to be read back with its block. -/
def BlockSafe (subdirs : List SubdirState) (e : SnapshotEntry) : Prop :=
  (LineSafe e ∧ '/' ∉ e.relativePath.toList)
    ∧ ∀ state, subdirMap subdirs e.relativePath = some state →
      ∀ c ∈ state.entries, LineSafe c ∧ '/' ∉ c.relativePath.toList

theorem parseLines_block {e : SnapshotEntry} (hsafe : BlockSafe subdirs e) {n : ℕ}
    {rest : List Text} {parsed : List ManifestLine}
    (h : parseLines none n (renderEntryLines subdirs e ++ rest) = .ok parsed) :
    ∃ block m more, parseLines none m rest = .ok more ∧ parsed = block ++ more
      ∧ Reads subdirs [e] block := by
  rw [renderEntryLines, List.cons_append] at h
  have h' : parseLines none n (renderManifestEntry (unmarkedEntry (scopeOf none) e)
      :: (((subdirMap subdirs e.relativePath).map renderSubdir).getD [] ++ rest)) = .ok parsed := h
  obtain ⟨more, hm, rfl⟩ := parseLines_entry hsafe.1.1 hsafe.1.2 h'
  rcases hmap : subdirMap subdirs e.relativePath with _ | state
  · rw [hmap] at hm
    refine ⟨[_], n + 1, more, hm, rfl, ?_⟩
    constructor
    · simp
    · intro scope k
      simp [InBlock, hmap, ManifestEntry.key, SnapshotEntry.key, scopeOf, eq_comm]
    · intro name
      simp only [List.mem_singleton, reduceCtorEq, exists_false, exists_eq_left, false_iff]
      rintro ⟨rfl, hsome⟩
      simp [hmap] at hsome
  · obtain ⟨-, hpath⟩ := subdirMap_path hmap
    rw [hmap] at hm
    simp only [Option.map_some, Option.getD_some, renderSubdir, hpath, List.cons_append,
      List.append_assoc, List.nil_append] at hm
    obtain ⟨more₁, hm₁, rfl⟩ := parseLines_start hm
    obtain ⟨m, more₂, hm₂, rfl⟩ := parseLines_children (hsafe.2 state hmap) hm₁
    obtain ⟨more₃, hm₃, rfl⟩ := parseLines_end hm₂
    refine ⟨.entry ⟨e.relativePath, e.kind, n, .none, scopeOf none⟩
        :: .subdirStart e.relativePath (n + 1) :: ((state.entries.zipIdx (n + 1 + 1)).map (fun c =>
          .entry ⟨c.1.relativePath, c.1.kind, c.2, .none, .subdir e.relativePath⟩)
        ++ [.subdirEnd e.relativePath m]), m + 1, more₃, hm₃, by simp, ?_⟩
    constructor
    · intro x hx
      simp only [List.mem_cons, List.mem_append, List.mem_map, reduceCtorEq, false_or, or_false,
        List.not_mem_nil, ManifestLine.entry.injEq] at hx
      rcases hx with rfl | ⟨c, -, rfl⟩
      · rfl
      · rfl
    · intro scope k
      constructor
      · rintro ⟨x, hx, rfl, rfl⟩
        simp only [List.mem_cons, List.mem_append, List.mem_map, reduceCtorEq, false_or, or_false,
          List.not_mem_nil, ManifestLine.entry.injEq] at hx
        refine ⟨e, List.mem_singleton_self e, ?_⟩
        rcases hx with rfl | ⟨c, hc, rfl⟩
        · exact .inl ⟨rfl, rfl⟩
        · exact .inr ⟨state, hmap, rfl, List.mem_map.2 ⟨c.1, List.fst_mem_of_mem_zipIdx hc, rfl⟩⟩
      · rintro ⟨x, hx, hin⟩
        rw [List.mem_singleton] at hx
        subst hx
        rcases hin with ⟨rfl, rfl⟩ | ⟨state', hmap', rfl, hk⟩
        · exact ⟨_, List.mem_cons_self, rfl, rfl⟩
        · rw [hmap, Option.some.injEq] at hmap'
          subst hmap'
          obtain ⟨c, hc, rfl⟩ := List.mem_map.1 hk
          obtain ⟨i, hi⟩ := List.getElem?_of_mem hc
          have hread : (c, n + 1 + 1 + i) ∈ state.entries.zipIdx (n + 1 + 1) :=
            List.mk_add_mem_zipIdx_iff_getElem?.2 hi
          exact ⟨_, List.mem_cons_of_mem _ (List.mem_cons_of_mem _ (List.mem_append_left _
            (List.mem_map_of_mem hread))), rfl, rfl⟩
    · intro name
      constructor
      · rintro ⟨i, hi⟩
        simp only [List.mem_cons, List.mem_append, List.mem_map, reduceCtorEq, false_or, or_false,
          List.not_mem_nil, ManifestLine.subdirStart.injEq, and_false, exists_false] at hi
        exact ⟨e, List.mem_singleton_self e, hi.1.symm, by rw [hi.1, hmap]; rfl⟩
      · rintro ⟨x, hx, rfl, -⟩
        rw [List.mem_singleton] at hx
        subst hx
        exact ⟨_, List.mem_cons_of_mem _ List.mem_cons_self⟩

/-- The lines written for a listing are read as that listing. -/
theorem parseLines_rendered : ∀ {es : List SnapshotEntry} {n : ℕ} {parsed : List ManifestLine},
    (∀ e ∈ es, BlockSafe subdirs e) →
    parseLines none n (es.flatMap (renderEntryLines subdirs)) = .ok parsed →
    Reads subdirs es parsed
  | [], n, parsed, _, h => by
    simp only [List.flatMap_nil, parseLines, bind_eq_ok, pure_eq_ok] at h
    obtain ⟨-, -, rfl⟩ := h
    exact Reads.nil
  | e :: es, n, parsed, hsafe, h => by
    rw [List.forall_mem_cons] at hsafe
    rw [List.flatMap_cons] at h
    obtain ⟨block, m, more, hm, rfl, hblock⟩ := parseLines_block hsafe.1 h
    exact hblock.append (parseLines_rendered hsafe.2 hm)

end Rendered

end OnixCore.HxOil
