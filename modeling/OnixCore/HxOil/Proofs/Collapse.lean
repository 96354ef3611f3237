import OnixCore.HxOil.Proofs.Marks
import OnixCore.HxOil.Proofs.Sidecar

/-!
# Collapsing undoes inserting

An inserted block is written line by line and read again before it is collapsed. A listed name with
a line feed takes several lines: the block is found again, and the document is what it was, exactly
when each of them is read inside the block (`insert_undone_iff`).
-/

namespace OnixCore.HxOil

open Text

section Reading

variable {current last : Option String} {n : ℕ} {line : Text} {d : String}

/-- A line that is read inside a block as a line of it. -/
def StaysInBlock (line : Text) : Prop :=
  stripPrefix subdirMarker line = none ∧ stripPrefix endSubdirMarker line = none
    ∧ (trim line = [] ∨ line.head? = some '#' ∨ (stripPrefix subdirIndent line).isSome)

instance : DecidablePred StaysInBlock := fun _ => inferInstanceAs (Decidable (_ ∧ _))

/-- What stands between the markers of a block. -/
def OfBlock (d : String) : ManifestLine → Prop
  | .blank _ | .comment _ _ => True
  | .entry e => e.scope = .subdir d
  | .subdirStart _ _ | .subdirEnd _ _ => False

theorem readLine_stays (h : StaysInBlock line) (d : String) (n : ℕ) :
    ∃ l, readLine (some d) n line = .ok (l, some d) ∧ OfBlock d l := by
  obtain ⟨hstart, hend, h⟩ := h
  simp only [readLine, hstart, hend]
  split_ifs with hblank hhead
  · exact ⟨.blank n, rfl, trivial⟩
  · exact ⟨.comment line n, rfl, trivial⟩
  · obtain ⟨rest, hindent⟩ := Option.isSome_iff_exists.1 ((h.resolve_left hblank).resolve_left hhead)
    have hentry : ∃ e, parseManifestEntryLine n line (.subdir d) = .ok e := by
      simp only [parseManifestEntryLine, entryPayload, hindent, bind_eq_ok, pure_eq_ok]
      exact ⟨_, rest, rfl, rfl⟩
    obtain ⟨e, he⟩ := hentry
    refine ⟨.entry e, ?_, scope_parseManifestEntryLine he⟩
    rw [scopeOf, he]
    rfl

/-- A line that does not stay can only end the block. -/
theorem readLine_leaves (h : ¬ StaysInBlock line) {l : ManifestLine} {next : Option String}
    (hread : readLine (some d) n line = .ok (l, next)) : l = .subdirEnd d n ∧ next = none := by
  unfold readLine at hread
  rcases hstart : stripPrefix subdirMarker line with _ | start
  · rcases hend : stripPrefix endSubdirMarker line with _ | stop
    · simp only [hstart, hend] at hread
      refine absurd ⟨hstart, hend, ?_⟩ h
      split_ifs at hread with hblank hhead
      · exact .inl hblank
      · exact .inr (.inl hhead)
      · simp only [parseManifestEntryLine, scopeOf, entryPayload, bind_eq_ok] at hread
        obtain ⟨_, ⟨payload, hpayload, -⟩, -⟩ := hread
        split at hpayload
        next hindent => exact .inr (.inr (by rw [hindent]; rfl))
        next => cases hpayload
    · simp only [hstart, hend, bind_eq_ok, ensure_eq_ok, pure_eq_ok, Prod.mk.injEq] at hread
      obtain ⟨-, rfl, rfl, rfl⟩ := hread
      exact ⟨rfl, rfl⟩
  · simp only [hstart, bind_eq_ok, ensure_eq_ok] at hread
    obtain ⟨_, hnone, -⟩ := hread
    cases hnone

theorem readLine_next {l : ManifestLine} {next : Option String}
    (h : readLine current n line = .ok (l, next)) :
    next = current ∨ next = none ∨ ∃ name, l = .subdirStart name n ∧ next = some name := by
  unfold readLine at h
  rcases hstart : stripPrefix subdirMarker line with _ | start <;> rw [hstart] at h
  · rcases hend : stripPrefix endSubdirMarker line with _ | stop <;> rw [hend] at h
    · dsimp only at h
      split_ifs at h
      · exact .inl (Prod.mk.inj (pure_eq_ok.1 h)).2.symm
      · exact .inl (Prod.mk.inj (pure_eq_ok.1 h)).2.symm
      · simp only [bind_eq_ok, pure_eq_ok, Prod.mk.injEq] at h
        obtain ⟨-, -, -, rfl⟩ := h
        exact .inl rfl
    · rcases current with _ | open_
      · cases h
      · simp only [bind_eq_ok, pure_eq_ok, Prod.mk.injEq] at h
        obtain ⟨-, -, -, rfl⟩ := h
        exact .inr (.inl rfl)
  · simp only [bind_eq_ok, pure_eq_ok, Prod.mk.injEq] at h
    obtain ⟨-, -, rfl, rfl⟩ := h
    exact .inr (.inr ⟨_, rfl, rfl⟩)

theorem readLines_append : ∀ {xs ys : List Text} {current : Option String} {n : ℕ}
    {parsed : List ManifestLine}, readLines current n (xs ++ ys) = .ok (parsed, last)
      ↔ ∃ first mid more, readLines current n xs = .ok (first, mid)
        ∧ readLines mid (n + xs.length) ys = .ok (more, last) ∧ parsed = first ++ more
  | [], ys, current, n, parsed => by
    simp [readLines, pure, Except.pure]
  | line :: xs, ys, current, n, parsed => by
    have hcount : n + 1 + xs.length = n + (line :: xs).length := by simp; omega
    rw [List.cons_append, ← hcount, readLines_cons]
    constructor
    · rintro ⟨l, next, rest, hread, hrest, rfl⟩
      obtain ⟨first, mid, more, hfirst, hmore, rfl⟩ := readLines_append.1 hrest
      exact ⟨l :: first, mid, more, readLines_cons.2 ⟨l, next, first, hread, hfirst, rfl⟩, hmore,
        rfl⟩
    · rintro ⟨_, mid, more, hxs, hmore, rfl⟩
      obtain ⟨l, next, first, hread, hfirst, rfl⟩ := readLines_cons.1 hxs
      exact ⟨l, next, first ++ more, hread, readLines_append.2 ⟨first, mid, more, hfirst, hmore, rfl⟩,
        rfl⟩

/-- A block that is open was open before, or starts in the lines. -/
theorem start_of_open : ∀ {ls : List Text} {current : Option String} {n : ℕ}
    {parsed : List ManifestLine}, readLines current n ls = .ok (parsed, some d) →
      current = some d ∨ ∃ k, .subdirStart d k ∈ parsed
  | [], current, n, parsed, h => by
    obtain ⟨-, rfl⟩ := Prod.mk.inj (pure_eq_ok.1 h)
    exact .inl rfl
  | line :: ls, current, n, parsed, h => by
    obtain ⟨l, next, more, hread, hmore, rfl⟩ := readLines_cons.1 h
    rcases start_of_open hmore with hnext | ⟨k, hk⟩
    · rcases readLine_next hread with rfl | rfl | ⟨name, rfl, rfl⟩
      · exact .inl hnext
      · cases hnext
      · obtain rfl := Option.some.inj hnext
        exact .inr ⟨n, List.mem_cons_self⟩
    · exact .inr ⟨k, List.mem_cons_of_mem _ hk⟩

/-- Lines that stay in the block are read as lines of it. -/
theorem readLines_stays : ∀ {ls : List Text} (n : ℕ), (∀ line ∈ ls, StaysInBlock line) →
    ∃ parsed, readLines (some d) n ls = .ok (parsed, some d) ∧ ∀ l ∈ parsed, OfBlock d l
  | [], _, _ => ⟨[], rfl, nofun⟩
  | line :: ls, n, h => by
    obtain ⟨hline, hls⟩ := List.forall_mem_cons.1 h
    obtain ⟨l, hread, hl⟩ := readLine_stays hline d n
    obtain ⟨parsed, hreads, hparsed⟩ := readLines_stays (n + 1) hls
    exact ⟨l :: parsed, readLines_cons.2 ⟨l, _, parsed, hread, hreads, rfl⟩,
      List.forall_mem_cons.2 ⟨hl, hparsed⟩⟩

/-- Lines that leave the block and come back to it end it and start it again. -/
theorem readLines_leaves : ∀ {ls : List Text} {n : ℕ} {parsed : List ManifestLine},
    readLines (some d) n ls = .ok (parsed, some d) → ¬ (∀ line ∈ ls, StaysInBlock line) →
      ∃ first k more, parsed = first ++ .subdirEnd d k :: more ∧ (∀ l ∈ first, OfBlock d l)
        ∧ ∃ k, .subdirStart d k ∈ more
  | [], _, _, _, h => absurd nofun h
  | line :: ls, n, parsed, hread, h => by
    obtain ⟨l, next, rest, hline, hrest, rfl⟩ := readLines_cons.1 hread
    by_cases hstays : StaysInBlock line
    · obtain ⟨l', hread', hof⟩ := readLine_stays hstays d n
      obtain ⟨rfl, rfl⟩ := Prod.mk.inj (Except.ok.inj (hline.symm.trans hread'))
      have hls : ¬ ∀ line ∈ ls, StaysInBlock line :=
        fun hls => h (List.forall_mem_cons.2 ⟨hstays, hls⟩)
      obtain ⟨first, k, more, rfl, hfirst, hmore⟩ := readLines_leaves hrest hls
      exact ⟨l :: first, k, more, rfl, List.forall_mem_cons.2 ⟨hof, hfirst⟩, hmore⟩
    · obtain ⟨rfl, rfl⟩ := readLine_leaves hstays hline
      refine ⟨[], n, rest, rfl, nofun, ?_⟩
      exact (start_of_open hrest).resolve_left nofun

/-- A start marker among the lines is read as one. -/
theorem start_of_marker {name : Text} : ∀ {ls : List Text} {current : Option String} {n : ℕ}
    {parsed : List ManifestLine}, readLines current n ls = .ok (parsed, last) →
      subdirMarker ++ name ∈ ls → ∃ k, .subdirStart (String.ofList name) k ∈ parsed
  | line :: ls, current, n, parsed, h, hmem => by
    obtain ⟨l, next, more, hread, hmore, rfl⟩ := readLines_cons.1 h
    rcases List.mem_cons.1 hmem with rfl | hmem
    · simp only [readLine, stripPrefix_append, bind_eq_ok, pure_eq_ok, Prod.mk.injEq] at hread
      obtain ⟨-, -, rfl, -⟩ := hread
      exact ⟨n, List.mem_cons_self⟩
    · obtain ⟨k, hk⟩ := start_of_marker hmore hmem
      exact ⟨k, List.mem_cons_of_mem _ hk⟩

end Reading

section Blocks

variable {document : ManifestDocument} {d : String}

/-- A line by which a block is named: one of its markers, or an entry in it. -/
def BlockLine (d : String) : ManifestLine → Prop
  | .subdirStart name _ | .subdirEnd name _ => name = d
  | .entry e => e.scope = .subdir d
  | .blank _ | .comment _ _ => False

/-- The block of a line is found by the line's number. -/
theorem subdirOfLine_eq {l : ManifestLine} : ∀ {ls : List ManifestLine}, Numbered ls → l ∈ ls →
    BlockLine d l → subdirOfLine (lineNumberOf l) ls = .ok d
  | x :: rest, hnum, hmem, hblock => by
    obtain ⟨hnew, hrest⟩ := List.nodup_cons.1 hnum
    rcases List.mem_cons.1 hmem with rfl | hmem
    · cases l with
      | entry e =>
        rw [subdirOfLine, show e.scope = _ from hblock]
        exact if_pos rfl
      | subdirStart name n => exact (if_pos rfl).trans (congrArg _ hblock)
      | subdirEnd name n => exact (if_pos rfl).trans (congrArg _ hblock)
      | blank n => cases hblock
      | comment text n => cases hblock
    · have hne : lineNumberOf x ≠ lineNumberOf l :=
        fun heq => hnew (heq ▸ List.mem_map_of_mem hmem)
      have ih := subdirOfLine_eq hrest hmem hblock
      cases x with
      | entry e =>
        rw [subdirOfLine]
        split
        · exact (if_neg hne).trans ih
        · exact ih
      | subdirStart name n => exact (if_neg hne).trans ih
      | subdirEnd name n => exact (if_neg hne).trans ih
      | blank n => exact ih
      | comment text n => exact ih

theorem findIdx?_append_cons {α : Type} {q : α → Bool} {x : α} {ys : List α} (hx : q x = true) :
    ∀ {xs : List α}, (∀ l ∈ xs, q l = false) → (xs ++ x :: ys).findIdx? q = some xs.length
  | [], _ => by simp [List.findIdx?_cons, hx]
  | l :: xs, h => by
    obtain ⟨hl, hxs⟩ := List.forall_mem_cons.1 h
    simp [List.findIdx?_cons, hl, findIdx?_append_cons hx hxs]

/-- The first block of a name, with what is in front of it, in it and behind it. -/
theorem blockBounds_eq {before inside after : List ManifestLine} {a b : ℕ}
    (hlines : document.lines = before ++ .subdirStart d a :: (inside ++ .subdirEnd d b :: after))
    (hbefore : ∀ l ∈ before, isStartOf d l = false ∧ isEndOf d l = false)
    (hinside : ∀ l ∈ inside, OfBlock d l) :
    blockBounds document d = .ok (before.length, before.length + 1 + inside.length) := by
  have hstart : document.lines.findIdx? (isStartOf d) = some before.length := by
    rw [hlines]
    exact findIdx?_append_cons (by simp [isStartOf]) fun l hl => (hbefore l hl).1
  have hend : document.lines.findIdx? (isEndOf d) = some (before.length + 1 + inside.length) := by
    have hfront : ∀ l ∈ before ++ .subdirStart d a :: inside, isEndOf d l = false := by
      intro l hl
      rcases List.mem_append.1 hl with hl | hl
      · exact (hbefore l hl).2
      · rcases List.mem_cons.1 hl with rfl | hl
        · rfl
        · have hof := hinside l hl
          cases l <;> first | rfl | cases hof
    have hsplit : document.lines
        = (before ++ .subdirStart d a :: inside) ++ .subdirEnd d b :: after := by
      simp [hlines]
    rw [hsplit, findIdx?_append_cons (by simp [isEndOf]) hfront]
    simp
    omega
  rw [blockBounds, hstart, hend]
  rfl

/-- Collapsing a block by one of its lines leaves what is in front of it and behind it. -/
theorem collapseSubdir_eq {session : Session} {before inside after : List ManifestLine} {a b : ℕ}
    {l : ManifestLine} (hdocument : parseAndValidateDocument session = .ok document)
    (hlines : document.lines = before ++ .subdirStart d a :: (inside ++ .subdirEnd d b :: after))
    (hbefore : ∀ l ∈ before, isStartOf d l = false ∧ isEndOf d l = false)
    (hinside : ∀ l ∈ inside, OfBlock d l) (hnum : Numbered document.lines)
    (hl : l ∈ document.lines) (hblock : BlockLine d l) :
    collapseSubdir session (lineNumberOf l) = .ok (Session.withLines
      { session with
        sidecar.subdirs := session.sidecar.subdirs.filter fun state => state.relativePath ≠ d }
      document (before ++ after)) := by
  have htake : document.lines.take before.length = before := by
    rw [hlines, List.take_left]
  have hdrop : document.lines.drop (before.length + 1 + inside.length + 1) = after := by
    have hsplit : document.lines
        = (before ++ .subdirStart d a :: (inside ++ [.subdirEnd d b])) ++ after := by
      simp [hlines]
    rw [hsplit, List.drop_left']
    simp
    omega
  simp only [collapseSubdir, hdocument, subdirForLine, subdirOfLine_eq hnum hl hblock,
    blockBounds_eq hlines hbefore hinside, bind, Except.bind, htake, hdrop]
  rfl

end Blocks

section Readable

variable {current : Option String} {name : String} {n : ℕ}

theorem readable_unnumbered : ∀ {ls : List ManifestLine} {current : Option String},
    Readable current (ls.map unnumbered) ↔ Readable current ls
  | [], _ => Iff.rfl
  | .blank _ :: rest, _ => @readable_unnumbered rest _
  | .comment _ _ :: _, _ => and_congr_right' readable_unnumbered
  | .entry _ :: _, _ => and_congr_right' (and_congr_right' readable_unnumbered)
  | .subdirStart _ _ :: _, _ =>
    and_congr_right' (and_congr_right' (and_congr_right' readable_unnumbered))
  | .subdirEnd _ _ :: _, _ =>
    and_congr_right' (and_congr_right' (and_congr_right' readable_unnumbered))

/-- A block that ends in readable lines was open before them, or starts in them. -/
theorem start_of_end : ∀ {ls : List ManifestLine} {current : Option String},
    Readable current ls → .subdirEnd name n ∈ ls →
      current = some name ∨ ∃ k, .subdirStart name k ∈ ls
  | l :: rest, current, h, hmem => by
    have later : ∀ {next : Option String}, Readable next rest → .subdirEnd name n ∈ rest →
        next = some name ∨ ∃ k, .subdirStart name k ∈ l :: rest := fun hrest hmem =>
      (start_of_end hrest hmem).imp_right (Exists.imp fun _ => List.mem_cons_of_mem _)
    cases l with
    | blank m => exact later h (by simpa using hmem)
    | comment text m => exact later h.2 (by simpa using hmem)
    | entry e => exact later h.2.2 (by simpa using hmem)
    | subdirStart other m =>
      rcases later h.2.2.2 (by simpa using hmem) with heq | hstart
      · exact .inr ⟨m, by simp [Option.some.inj heq]⟩
      · exact .inr hstart
    | subdirEnd other m =>
      rcases List.mem_cons.1 hmem with heq | hmem
      · exact .inl (h.1.trans (congrArg some (ManifestLine.subdirEnd.inj heq).1.symm))
      · exact .inr ((later h.2.2.2 hmem).resolve_left nofun)

theorem mem_renumber : ∀ {ls : List ManifestLine} {n : ℕ} {l : ManifestLine},
    l ∈ renumber n ls → ∃ m, ∃ l' ∈ ls, l = withNumber m l'
  | x :: rest, n, l, h => by
    rcases List.mem_cons.1 h with rfl | h
    · exact ⟨n, x, List.mem_cons_self, rfl⟩
    · obtain ⟨m, l', hl', rfl⟩ := mem_renumber h
      exact ⟨m, l', List.mem_cons_of_mem _ hl', rfl⟩

/-- A name that no block of readable lines has is on none of their markers. -/
theorem notMarker_renumber {ls rest : List ManifestLine} (h : Readable none (ls ++ rest))
    (hnew : ∀ k, .subdirStart name k ∉ ls ++ rest) :
    ∀ l ∈ renumber n ls, isStartOf name l = false ∧ isEndOf name l = false := by
  intro l hl
  obtain ⟨m, l', hl', rfl⟩ := mem_renumber hl
  have hmem := List.mem_append_left rest hl'
  cases l' with
  | subdirStart other k =>
    refine ⟨decide_eq_false ?_, rfl⟩
    rintro rfl
    exact hnew k hmem
  | subdirEnd other k =>
    refine ⟨rfl, decide_eq_false ?_⟩
    rintro rfl
    obtain ⟨k, hk⟩ := (start_of_end h hmem).resolve_left nofun
    exact hnew k hk
  | _ => exact ⟨rfl, rfl⟩

end Readable

section Writing

variable {root : Text} {ls : List ManifestLine}

theorem lines_writeLines_flatMap : ∀ ls : List Text,
    lines (writeLines ls) = ls.flatMap fun l => lines (l ++ ['\n'])
  | [] => rfl
  | l :: ls => by
    rw [List.flatMap_cons, ← lines_writeLines_flatMap ls, writeLines, List.flatMap_cons,
      List.append_assoc, List.singleton_append, lines_feed]
    rfl

theorem flatMap_lines_of_oneLine {ls : List Text} (h : ∀ l ∈ ls, OneLine l) :
    ls.flatMap (fun l => lines (l ++ ['\n'])) = ls := by
  rw [← lines_writeLines_flatMap, lines_writeLines h]

/-- The lines a manifest line takes when it is written. -/
def writtenLines (l : ManifestLine) : List Text := lines (renderManifestLine l ++ ['\n'])

/-- A document that is written is read line by line behind its header. -/
theorem parse_written (hroot : OneLine (rootHeader ++ root)) {document : ManifestDocument} :
    parseManifestDocument (renderManifestDocument ⟨root, ls⟩) = .ok document
      ↔ ∃ parsed, readLines none 3 (ls.flatMap writtenLines) = .ok (parsed, none)
        ∧ document = ⟨root, parsed⟩ := by
  have hheader : ([rootHeader ++ root, ignoredHeader].flatMap fun l => lines (l ++ ['\n']))
      = [rootHeader ++ root, ignoredHeader] := by
    refine flatMap_lines_of_oneLine ?_
    rw [List.forall_mem_cons, List.forall_mem_singleton]
    exact ⟨hroot, by decide⟩
  have hlines : lines (renderManifestDocument ⟨root, ls⟩)
      = (rootHeader ++ root) :: ignoredHeader :: ls.flatMap writtenLines := by
    rw [renderManifestDocument, lines_writeLines_flatMap,
      show ∀ rest : List Text, (rootHeader ++ root) :: ignoredHeader :: rest
        = [rootHeader ++ root, ignoredHeader] ++ rest from fun _ => rfl,
      List.flatMap_append, hheader, List.flatMap_map]
    rfl
  simp only [parseManifestDocument, hlines, stripPrefix_append, bodyLines, List.head?_cons, if_true,
    List.tail_cons, bind_eq_ok, pure_eq_ok, parseLines_eq_ok]
  exact exists_congr fun parsed => and_congr_right' eq_comm

end Writing

section Undo

variable {γ E : Type} {links : Links γ E} {w : World γ E} {session inserted : Session}
  {document : ManifestDocument} {line index : ℕ} {e : ManifestEntry}
  {listing : List SnapshotEntry × ℕ} {d : String}

/-- The new manifest is read, and collapsing the block by any line of it gives back the document,
numbers aside, and the states. -/
def Undone (session : Session) (document : ManifestDocument) (inserted : Session) (d : String) :
    Prop :=
  ∃ shown, parseManifestDocument inserted.text = .ok shown ∧ d ∈ shown.visibleSubdirs
    ∧ ∀ l ∈ shown.lines, BlockLine d l →
      ∃ collapsed restored, collapseSubdir inserted (lineNumberOf l) = .ok collapsed
        ∧ parseManifestDocument collapsed.text = .ok restored ∧ restored.root = document.root
        ∧ restored.lines.map unnumbered = document.lines.map unnumbered
        ∧ collapsed.sidecar.subdirs = session.sidecar.subdirs

/-- The line a block is inserted under is one of a directory that has none. -/
theorem insertTarget_inv (h : insertTarget document line = .ok (index, e)) :
    ∃ front back, document.lines = front ++ .entry e :: back ∧ front.length = index
      ∧ e.scope = .root ∧ e.kind = .directory ∧ ∀ k, .subdirStart e.relativePath k ∉ document.lines := by
  simp only [insertTarget, bind_eq_ok] at h
  obtain ⟨index', -, h⟩ := h
  split at h
  next e' hget =>
    simp only [bind_eq_ok, ensure_eq_ok, pure_eq_ok, Prod.mk.injEq] at h
    obtain ⟨-, hscope, -, hkind, -, hnew, rfl, rfl⟩ := h
    obtain ⟨hlt, hentry⟩ := List.getElem?_eq_some_iff.1 hget
    refine ⟨document.lines.take index', document.lines.drop (index' + 1), ?_, ?_, hscope, hkind,
      fun k hk => hnew (mem_visibleSubdirs.2 ⟨k, hk⟩)⟩
    · rw [← hentry, ← List.drop_eq_getElem_cons hlt, List.take_append_drop]
    · rw [List.length_take, Nat.min_eq_left hlt.le]
  next => cases h

theorem insertSubdir_inv (hparse : parseManifestDocument session.text = .ok document)
    (htarget : insertTarget document line = .ok (index, e))
    (hlisting : collectSubdir links session.sidecar e.relativePath w = .ok listing)
    (hinsert : insertSubdir links session line w = .ok inserted) :
    pathComponents document.root = pathComponents session.sidecar.root
      ∧ inserted.sidecar.root = session.sidecar.root
      ∧ inserted.sidecar.subdirs = session.sidecar.subdirs ++ [⟨e.relativePath, listing.1⟩]
      ∧ inserted.text = renderManifestDocument ⟨document.root, document.lines.take (index + 1)
        ++ insertedBlock e.relativePath listing.1 ++ document.lines.drop (index + 1)⟩ := by
  simp only [insertSubdir, parseAndValidateDocument, bind_eq_ok, ensure_eq_ok, pure_eq_ok] at hinsert
  obtain ⟨document', ⟨document'', hparse', -, hroot, rfl⟩, target, htarget', listing', hlisting',
    rfl⟩ := hinsert
  obtain rfl := Except.ok.inj (hparse.symm.trans hparse')
  obtain rfl := Except.ok.inj (htarget.symm.trans htarget')
  obtain rfl := Except.ok.inj (hlisting.symm.trans hlisting')
  exact ⟨hroot, rfl, rfl, rfl⟩

/-- The lines the entries of a listing take in the block. -/
def listedLines (d : String) (listing : List SnapshotEntry) : List Text :=
  (childLines d listing).flatMap writtenLines

theorem flatMap_writtenLines {ls : List ManifestLine}
    (h : ∀ l ∈ ls, OneLine (renderManifestLine l)) :
    ls.flatMap writtenLines = ls.map renderManifestLine := by
  rw [← flatMap_lines_of_oneLine (List.forall_mem_map.2 h), List.flatMap_map]
  rfl

theorem renumber_append : ∀ (n : ℕ) (xs ys : List ManifestLine),
    renumber n (xs ++ ys) = renumber n xs ++ renumber (n + xs.length) ys
  | _, [], _ => rfl
  | n, x :: xs, ys => by
    rw [List.cons_append, renumber, renumber_append, renumber, List.cons_append, List.length_cons,
      show n + 1 + xs.length = n + (xs.length + 1) by omega]

/-- What is in front of a root entry is read with it, and no block is open behind it. -/
theorem readLines_front {front back : List ManifestLine} (hscope : e.scope = .root)
    (hreadable : Readable none (front ++ ManifestLine.entry e :: back)) (n : ℕ) :
    readLines none n ((front ++ [ManifestLine.entry e]).map renderManifestLine)
        = .ok (renumber n (front ++ [ManifestLine.entry e]), none)
      ∧ NameSafe e.relativePath.toList ∧ Readable none back := by
  obtain ⟨mid, hfront, hmid⟩ := readLines_render n hreadable
  obtain rfl : mid = none := by
    cases mid with
    | none => rfl
    | some name => exact absurd (hscope.symm.trans hmid.1) nofun
  obtain ⟨next, hread, -⟩ := readLine_render (n + front.length) hmid
  obtain rfl : next = none := by
    rcases readLine_next hread with rfl | rfl | ⟨name, hstart, -⟩
    · rfl
    · rfl
    · cases hstart
  refine ⟨?_, hmid.2.1, hmid.2.2⟩
  rw [List.map_append, renumber_append, readLines_append]
  exact ⟨_, none, _, hfront, readLines_cons.2
    ⟨_, none, [], by rwa [List.length_map], rfl, rfl⟩, rfl⟩

theorem readLine_startMarker (n : ℕ) :
    readLine none n (subdirMarker ++ d.toList) = .ok (.subdirStart d n, some d) := by
  simp only [readLine, stripPrefix_append, String.ofList_toList]
  rfl

theorem readLine_endMarker {current next : Option String} {n : ℕ} {l : ManifestLine} :
    readLine current n (endSubdirMarker ++ d.toList) = .ok (l, next)
      ↔ current = some d ∧ l = .subdirEnd d n ∧ next = none := by
  simp only [readLine, stripPrefix_endMarker, stripPrefix_append, String.ofList_toList]
  cases current with
  | none => simp
  | some open_ =>
    simp only [bind_eq_ok, ensure_eq_ok, pure_eq_ok, Prod.mk.injEq, Option.some.injEq]
    exact ⟨fun ⟨_, hopen, hl, hnext⟩ => ⟨hopen, hl.symm, hnext.symm⟩,
      fun ⟨hopen, hl, hnext⟩ => ⟨(), hopen, hl.symm, hnext.symm⟩⟩

theorem writtenLines_start (h : NameSafe d.toList) (n : ℕ) :
    writtenLines (.subdirStart d n) = [subdirMarker ++ d.toList] := by
  obtain ⟨hfeed, hlast⟩ := @oneLine_marker subdirMarker (by decide) _ h.lineFeed h.carriageReturn
  exact lines_line [] hfeed hlast

theorem writtenLines_end (h : NameSafe d.toList) (n : ℕ) :
    writtenLines (.subdirEnd d n) = [endSubdirMarker ++ d.toList] := by
  obtain ⟨hfeed, hlast⟩ :=
    @oneLine_marker endSubdirMarker (by decide) _ h.lineFeed h.carriageReturn
  exact lines_line [] hfeed hlast

/-- The lines of the manifest once the block is in it. -/
theorem flatMap_inserted {front back : List ManifestLine} {children : List SnapshotEntry}
    (hscope : e.scope = .root) (hreadable : Readable none (front ++ ManifestLine.entry e :: back)) :
    ((front ++ [ManifestLine.entry e]) ++ insertedBlock e.relativePath children ++ back).flatMap writtenLines
      = (front ++ [ManifestLine.entry e]).map renderManifestLine
        ++ (subdirMarker ++ e.relativePath.toList) :: (listedLines e.relativePath children
          ++ (endSubdirMarker ++ e.relativePath.toList) :: back.map renderManifestLine) := by
  obtain ⟨-, hname, hback⟩ := readLines_front hscope hreadable 3
  have hone := oneLine_readable hreadable
  have hfront : ∀ l ∈ front ++ [ManifestLine.entry e], OneLine (renderManifestLine l) :=
    fun l hl => hone l (by simp at hl ⊢; tauto)
  rw [List.flatMap_append, List.flatMap_append, flatMap_writtenLines hfront,
    flatMap_writtenLines (oneLine_readable hback), insertedBlock, List.flatMap_append,
    List.flatMap_cons, List.flatMap_cons, writtenLines_start hname, writtenLines_end hname]
  simp [listedLines]

/-- The manifest with the block is read around the lines of the block. -/
theorem parse_inserted {root : Text} {front back : List ManifestLine}
    {children : List SnapshotEntry} {shown : ManifestDocument}
    (hroot : OneLine (rootHeader ++ root)) (hscope : e.scope = .root)
    (hreadable : Readable none (front ++ ManifestLine.entry e :: back)) :
    parseManifestDocument (renderManifestDocument ⟨root, (front ++ [ManifestLine.entry e])
        ++ insertedBlock e.relativePath children ++ back⟩) = .ok shown
      ↔ ∃ inside n m, readLines (some e.relativePath) (front.length + 5)
          (listedLines e.relativePath children) = .ok (inside, some e.relativePath)
        ∧ n = front.length + 5 + (listedLines e.relativePath children).length ∧ m = n + 1
        ∧ shown = ⟨root, renumber 3 (front ++ [ManifestLine.entry e]) ++ .subdirStart e.relativePath
          (front.length + 4) :: (inside ++ .subdirEnd e.relativePath n :: renumber m back)⟩ := by
  obtain ⟨hfront, -, hback⟩ := readLines_front hscope hreadable 3
  have hcount : 3 + ((front ++ [ManifestLine.entry e]).map renderManifestLine).length = front.length + 4 := by
    simp
    omega
  have hrest : ∀ m, readLines none m (back.map renderManifestLine) = .ok (renumber m back, none) :=
    fun m => parseLines_eq_ok.1 (parseLines_render m hback)
  rw [parse_written hroot, flatMap_inserted hscope hreadable]
  constructor
  · rintro ⟨parsed, hread, rfl⟩
    obtain ⟨first, mid, block, hfirst, hblock, rfl⟩ := readLines_append.1 hread
    obtain ⟨rfl, rfl⟩ := Prod.mk.inj (Except.ok.inj (hfront.symm.trans hfirst))
    rw [hcount] at hblock
    obtain ⟨l, next, listed, hstart, hlisted, rfl⟩ := readLines_cons.1 hblock
    obtain ⟨rfl, rfl⟩ := Prod.mk.inj (Except.ok.inj ((readLine_startMarker _).symm.trans hstart))
    obtain ⟨inside, mid, closing, hinside, hclosing, rfl⟩ := readLines_append.1 hlisted
    obtain ⟨l, next, more, hend, hmore, rfl⟩ := readLines_cons.1 hclosing
    obtain ⟨rfl, rfl, rfl⟩ := readLine_endMarker.1 hend
    obtain ⟨rfl, -⟩ := Prod.mk.inj (Except.ok.inj ((hrest _).symm.trans hmore))
    exact ⟨inside, _, _, hinside, rfl, rfl, rfl⟩
  · rintro ⟨inside, _, _, hinside, rfl, rfl, rfl⟩
    refine ⟨_, readLines_append.2 ⟨_, none, _, hfront, ?_, rfl⟩, rfl⟩
    rw [hcount]
    refine readLines_cons.2 ⟨_, _, _, readLine_startMarker _, ?_, rfl⟩
    refine readLines_append.2 ⟨inside, _, _, hinside, ?_, rfl⟩
    exact readLines_cons.2 ⟨_, none, _, readLine_endMarker.2 ⟨rfl, rfl, rfl⟩, hrest _, rfl⟩

/-- A document whose lines are those of another but for their numbers is read as that one. -/
theorem parse_unnumbered {root : Text} {ls ls' : List ManifestLine}
    (hroot : OneLine (rootHeader ++ root)) (h : Readable none ls)
    (hsame : ls'.map unnumbered = ls.map unnumbered) :
    ∃ restored, parseManifestDocument (renderManifestDocument ⟨root, ls'⟩) = .ok restored
      ∧ restored.root = root ∧ restored.lines.map unnumbered = ls.map unnumbered := by
  have hreadable : Readable none ls' := by
    rw [← readable_unnumbered, hsame, readable_unnumbered]
    exact h
  refine ⟨_, parse_render hroot hreadable, rfl, ?_⟩
  rw [unnumbered_renumber, hsame]

/-- What is written with a start marker in it is read with one. -/
theorem start_of_written {root : Text} {ls : List ManifestLine} {restored : ManifestDocument}
    {k : ℕ} (hroot : OneLine (rootHeader ++ root)) (hname : NameSafe d.toList)
    (hmem : .subdirStart d k ∈ ls)
    (hparse : parseManifestDocument (renderManifestDocument ⟨root, ls⟩) = .ok restored) :
    ∃ k, .subdirStart d k ∈ restored.lines := by
  obtain ⟨parsed, hread, rfl⟩ := (parse_written hroot).1 hparse
  have hline : subdirMarker ++ d.toList ∈ ls.flatMap writtenLines := by
    refine List.mem_flatMap.2 ⟨_, hmem, ?_⟩
    rw [writtenLines_start hname]
    exact List.mem_singleton_self _
  obtain ⟨k, hk⟩ := start_of_marker hread hline
  rw [String.ofList_toList] at hk
  exact ⟨k, hk⟩

theorem start_of_unnumbered {ls ls' : List ManifestLine} {k : ℕ}
    (hsame : ls'.map unnumbered = ls.map unnumbered) (h : .subdirStart d k ∈ ls') :
    ∃ k, .subdirStart d k ∈ ls := by
  have hmem : ManifestLine.subdirStart d 0 ∈ ls.map unnumbered :=
    hsame ▸ List.mem_map.2 ⟨_, h, rfl⟩
  obtain ⟨l, hl, heq⟩ := List.mem_map.1 hmem
  cases l with
  | subdirStart name m =>
    obtain ⟨rfl, -⟩ := ManifestLine.subdirStart.inj heq
    exact ⟨m, hl⟩
  | _ => cases heq

/-- What an insertion comes to: the line of the directory, and what stands around it. -/
structure InsertedAt (document : ManifestDocument) (inserted : Session) (e : ManifestEntry)
    (children : List SnapshotEntry) (front back : List ManifestLine) : Prop where
  lines : document.lines = front ++ .entry e :: back
  header : OneLine (rootHeader ++ document.root)
  scope : e.scope = .root
  readable : Readable none (front ++ .entry e :: back)
  noBlock : ∀ k, .subdirStart e.relativePath k ∉ front ++ .entry e :: back
  root : pathComponents document.root = pathComponents inserted.sidecar.root
  text : inserted.text = renderManifestDocument ⟨document.root, (front ++ [.entry e])
    ++ insertedBlock e.relativePath children ++ back⟩

namespace InsertedAt

variable {children : List SnapshotEntry} {front back : List ManifestLine}

theorem name (h : InsertedAt document inserted e children front back) :
    NameSafe e.relativePath.toList :=
  (readLines_front h.scope h.readable 3).2.1

theorem notMarker (h : InsertedAt document inserted e children front back) :
    ∀ l ∈ renumber 3 (front ++ [ManifestLine.entry e]),
      isStartOf e.relativePath l = false ∧ isEndOf e.relativePath l = false := by
  have hsplit : front ++ ManifestLine.entry e :: back = (front ++ [.entry e]) ++ back := by simp
  exact notMarker_renumber (hsplit ▸ h.readable) (hsplit ▸ h.noBlock)

theorem validated (h : InsertedAt document inserted e children front back)
    {shown : ManifestDocument} (hparse : parseManifestDocument inserted.text = .ok shown)
    (hroot : shown.root = document.root) :
    parseAndValidateDocument inserted = .ok shown ∧ Numbered shown.lines := by
  obtain ⟨n, ls, hread⟩ := lines_of_parse hparse
  refine ⟨?_, numbered_of_renumber (renumber_of_parse hread)⟩
  simp only [parseAndValidateDocument, bind_eq_ok, ensure_eq_ok, pure_eq_ok]
  exact ⟨shown, hparse, (), hroot ▸ h.root, rfl⟩

/-- Lines that end the block start it again: what is behind its first end comes back, and with it
a start of the block. -/
theorem stays_of_undone (h : InsertedAt document inserted e children front back)
    (hundone : Undone session document inserted e.relativePath) :
    ∀ l ∈ listedLines e.relativePath children, StaysInBlock l := by
  obtain ⟨shown, hparse, -, hundo⟩ := hundone
  obtain ⟨inside, n, m, hinside, -, -, rfl⟩ :=
    (parse_inserted h.header h.scope h.readable).1 (h.text ▸ hparse)
  obtain ⟨hdocument, hnum⟩ := h.validated hparse rfl
  by_contra hleaves
  obtain ⟨first, k, more, rfl, hfirst, j, hj⟩ := readLines_leaves hinside hleaves
  obtain ⟨collapsed, restored, hcollapse, hrestored, -, hsame, -⟩ :=
    hundo _ (List.mem_append_right _ List.mem_cons_self) rfl
  have hlines : renumber 3 (front ++ [ManifestLine.entry e])
        ++ .subdirStart e.relativePath (front.length + 4)
          :: ((first ++ .subdirEnd e.relativePath k :: more)
            ++ .subdirEnd e.relativePath n :: renumber m back)
      = renumber 3 (front ++ [ManifestLine.entry e])
        ++ .subdirStart e.relativePath (front.length + 4)
          :: (first ++ .subdirEnd e.relativePath k
            :: (more ++ .subdirEnd e.relativePath n :: renumber m back)) := by
    simp
  have hkept := collapseSubdir_eq hdocument hlines h.notMarker hfirst hnum
    (List.mem_append_right _ List.mem_cons_self) rfl
  obtain rfl := Except.ok.inj (hkept.symm.trans hcollapse)
  have hstart : ManifestLine.subdirStart e.relativePath j
      ∈ renumber 3 (front ++ [ManifestLine.entry e])
        ++ (more ++ .subdirEnd e.relativePath n :: renumber m back) := by
    simp [hj]
  obtain ⟨k, hk⟩ := start_of_written h.header h.name hstart hrestored
  obtain ⟨k, hk⟩ := start_of_unnumbered hsame hk
  exact h.noBlock k (h.lines ▸ hk)

/-- Lines that stay in the block are gone with it. -/
theorem undone_of_stays (h : InsertedAt document inserted e children front back)
    (hkept : (inserted.sidecar.subdirs.filter fun state => state.relativePath ≠ e.relativePath)
      = session.sidecar.subdirs)
    (hstays : ∀ l ∈ listedLines e.relativePath children, StaysInBlock l) :
    Undone session document inserted e.relativePath := by
  obtain ⟨inside, hinside, hof⟩ := readLines_stays (d := e.relativePath) (front.length + 5) hstays
  have hparse := (parse_inserted h.header h.scope h.readable).2 ⟨inside, _, _, hinside, rfl, rfl, rfl⟩
  rw [← h.text] at hparse
  obtain ⟨hdocument, hnum⟩ := h.validated hparse rfl
  refine ⟨_, hparse, mem_visibleSubdirs.2 ⟨front.length + 4, by simp⟩, fun l hl hblock => ?_⟩
  have hcollapse := collapseSubdir_eq hdocument rfl h.notMarker hof hnum hl hblock
  obtain ⟨restored, hrestored, hroot, hsame⟩ : ∃ restored, parseManifestDocument
      (renderManifestDocument ⟨document.root, renumber 3 (front ++ [ManifestLine.entry e])
        ++ renumber _ back⟩) = .ok restored ∧ _ :=
    parse_unnumbered h.header h.readable (by simp [unnumbered_renumber])
  exact ⟨_, restored, hcollapse, hrestored, hroot, by rw [hsame, h.lines], hkept⟩

end InsertedAt

/-- Inserting a directory and then collapsing it by any line of its block gives back what was there
exactly when every line of the listing is read inside the block. -/
theorem insert_undone_iff (hparse : parseManifestDocument session.text = .ok document)
    (hreturn : '\r' ∉ session.text)
    (hnames : ∀ e ∈ document.entries,
      validateEntryName e.relativePath e.kind e.lineNumber = .ok ())
    (hstates : ∀ name, (∃ state ∈ session.sidecar.subdirs, state.relativePath = name)
      ↔ name ∈ document.visibleSubdirs)
    (htarget : insertTarget document line = .ok (index, e))
    (hlisting : collectSubdir links session.sidecar e.relativePath w = .ok listing)
    (hinsert : insertSubdir links session line w = .ok inserted) :
    Undone session document inserted e.relativePath
      ↔ ∀ l ∈ listedLines e.relativePath listing.1, StaysInBlock l := by
  obtain ⟨front, back, hlines, rfl, hscope, -, hnew⟩ := insertTarget_inv htarget
  obtain ⟨hroot, hreadable⟩ :=
    readable_of_document hparse hreturn fun e he => hnames e (mem_entries.2 he)
  obtain ⟨hpath, hsidecar, hsubdirs, htext⟩ := insertSubdir_inv hparse htarget hlisting hinsert
  have hsplit : document.lines = (front ++ [ManifestLine.entry e]) ++ back := by simp [hlines]
  have hinserted : InsertedAt document inserted e listing.1 front back := by
    refine ⟨hlines, hroot, hscope, hlines ▸ hreadable, hlines ▸ hnew, hsidecar ▸ hpath, ?_⟩
    rw [htext, hsplit, List.take_left' (by simp), List.drop_left' (by simp)]
  have hkept : (inserted.sidecar.subdirs.filter fun state => state.relativePath ≠ e.relativePath)
      = session.sidecar.subdirs := by
    have hold : ∀ state ∈ session.sidecar.subdirs, state.relativePath ≠ e.relativePath := by
      intro state hstate heq
      obtain ⟨k, hk⟩ := mem_visibleSubdirs.1 ((hstates _).1 ⟨state, hstate, heq⟩)
      exact hnew k hk
    rw [hsubdirs, List.filter_append, List.filter_eq_self.2 (by simpa using hold)]
    simp
  exact ⟨hinserted.stays_of_undone, hinserted.undone_of_stays hkept⟩

end Undo

section LineFeeds

variable {children : List SnapshotEntry} {d : String}

/-- An entry whose name holds no line feed takes one line, which starts with the indent. -/
theorem stays_of_entry {e : ManifestEntry} (hscope : e.scope = .subdir d)
    (hfeed : '\n' ∉ e.relativePath.toList) : ∀ l ∈ writtenLines (.entry e), StaysInBlock l := by
  have hrender : renderManifestEntry e = subdirIndent
      ++ (e.mark.pfx.toList ++ (e.relativePath.toList ++ slashOf e.kind)) := by
    rw [renderManifestEntry_marked, hscope]
    rfl
  have hmark : 0 < e.mark.pfx.toList.length := by cases e.mark <;> decide
  have hline : '\n' ∉ renderManifestEntry e := by
    have hpfx : '\n' ∉ e.mark.pfx.toList := by cases e.mark <;> decide
    have hslash : '\n' ∉ slashOf e.kind := by cases e.kind <;> decide
    have hindent : '\n' ∉ subdirIndent := by decide
    simp [hrender, hpfx, hslash, hfeed, hindent]
  intro l hl
  have hl : l = (stripSuffix '\r' (renderManifestEntry e)).getD (renderManifestEntry e) :=
    List.mem_singleton.1 ((lines_line_eq [] hline).subst hl)
  obtain ⟨rest, rfl⟩ : subdirIndent <+: l := by
    have hprefix : subdirIndent <+: renderManifestEntry e := ⟨_, hrender.symm⟩
    rcases hstrip : stripSuffix '\r' (renderManifestEntry e) with _ | r <;> rw [hstrip] at hl
    · exact hl ▸ hprefix
    · have hr := stripSuffix_eq_some hstrip
      have hlength := congrArg List.length (hrender.symm.trans hr)
      simp only [List.length_append, List.length_singleton] at hlength
      rw [hl, Option.getD_some]
      exact List.prefix_of_prefix_length_le hprefix (hr ▸ List.prefix_append r ['\r']) (by omega)
  have hhead : (subdirIndent ++ rest).head? = some ' ' := rfl
  exact ⟨stripPrefix_of_head (show subdirMarker.head? = _ from rfl) hhead (by decide),
    stripPrefix_of_head (show endSubdirMarker.head? = _ from rfl) hhead (by decide),
    .inr (.inr (by rw [stripPrefix_append]; rfl))⟩

/-- A listing in which no name holds a line feed is read inside the block. -/
theorem stays_of_lineFeed (h : ∀ e ∈ children, '\n' ∉ e.relativePath.toList) :
    ∀ l ∈ listedLines d children, StaysInBlock l := by
  intro l hl
  obtain ⟨x, hx, hl⟩ := List.mem_flatMap.1 hl
  obtain ⟨e, he, rfl⟩ := List.mem_map.1 hx
  exact stays_of_entry rfl (h e he) l hl

def notesEntry : ManifestEntry := ⟨"notes", .directory, 3, .none, .root⟩

def notesDocument : ManifestDocument := ⟨"/r".toList, [.entry notesEntry]⟩

theorem notesRendered_states (name : String) :
    (∃ state ∈ notesRendered.sidecar.subdirs, state.relativePath = name)
      ↔ name ∈ notesDocument.visibleSubdirs := by
  simp [notesRendered, notesDocument, ManifestDocument.visibleSubdirs]

theorem notesDocument_names : ∀ e ∈ notesDocument.entries,
    validateEntryName e.relativePath e.kind e.lineNumber = .ok () := by
  intro e he
  obtain rfl : e = notesEntry := List.mem_singleton.1 he
  decide +kernel

/-- Inserting the directory of one file and collapsing it again. -/
theorem notes_undone : Undone notesRendered notesDocument notesInserted "notes" :=
  have hinsert : insertSubdir plainHost.links notesRendered 3 notesWorld = .ok notesInserted := by
    decide +kernel
  have htarget : insertTarget notesDocument 3 = .ok (0, notesEntry) := by decide +kernel
  have hlisting : collectSubdir plainHost.links notesRendered.sidecar notesEntry.relativePath
      notesWorld = .ok ([⟨2, 0, "a.txt", .file, 2, 3⟩], 3) := by decide +kernel
  (insert_undone_iff (by decide +kernel) (by decide +kernel) notesDocument_names
    notesRendered_states htarget hlisting hinsert).2 (stays_of_lineFeed (by decide +kernel))

/-- The directory holds one file, and its name has a line feed in it. -/
def twoLineWorld : World Unit Unit :=
  ⟨.ofList [("notes", .dir ⟨1, 0⟩ (.ofList [("a\nb", .leaf ⟨2, 3⟩ (.regular []))]))], ()⟩

/-- The session after the directory is inserted there. -/
def twoLineInserted : Session :=
  match insertSubdir plainHost.links notesRendered 3 twoLineWorld with
  | .ok inserted => inserted
  | .error _ => notesRendered

/-- The name is valid, but the manifest that lists it is not read any more, so the block cannot be
collapsed. -/
theorem twoLine_not_undone :
    parseManifestDocument notesRendered.text = .ok notesDocument
      ∧ '\r' ∉ notesRendered.text
      ∧ (∀ e ∈ notesDocument.entries,
        validateEntryName e.relativePath e.kind e.lineNumber = .ok ())
      ∧ (∀ name, (∃ state ∈ notesRendered.sidecar.subdirs, state.relativePath = name)
        ↔ name ∈ notesDocument.visibleSubdirs)
      ∧ insertTarget notesDocument 3 = .ok (0, notesEntry)
      ∧ collectSubdir plainHost.links notesRendered.sidecar "notes" twoLineWorld
        = .ok ([⟨2, 0, "a\nb", .file, 2, 3⟩], 3)
      ∧ validateEntryName "a\nb" .file 0 = .ok ()
      ∧ insertSubdir plainHost.links notesRendered 3 twoLineWorld = .ok twoLineInserted
      ∧ ¬ Undone notesRendered notesDocument twoLineInserted "notes" := by
  refine ⟨by decide +kernel, by decide +kernel, notesDocument_names, notesRendered_states,
    by decide +kernel, by decide +kernel, by decide +kernel, by decide +kernel, ?_⟩
  rintro ⟨shown, hparse, -⟩
  have herror : parseManifestDocument twoLineInserted.text
      = .error "line 6: inserted subdir entries must start with four spaces" := by
    decide +kernel
  rw [herror] at hparse
  cases hparse

end LineFeeds

end OnixCore.HxOil
