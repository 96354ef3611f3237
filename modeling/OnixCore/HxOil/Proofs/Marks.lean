import OnixCore.HxOil.Proofs.RoundTrip
import OnixCore.HxOil.Session

/-!
# Commands on marks change marks only

A command on marks writes the whole document anew from what was read of it. `Readable` is what a
list of lines needs to be read back from its rendering: entries with names that stand on a line,
comments that are no markers, and blocks that are closed. What was read from a manifest with valid
names is readable (`readable_of_parse`), a change of marks keeps it so, and a readable list is read
back line by line (`parseLines_render`).
-/

namespace OnixCore.HxOil

open Text

section EntryLine

/-- A name that stands on a line of its own, behind any mark. -/
structure NameSafe (name : Text) : Prop where
  lineFeed : '\n' ∉ name
  carriageReturn : '\r' ∉ name
  slash : '/' ∉ name
  notBlank : trim name ≠ []

variable {e : ManifestEntry}

def slashOf (kind : EntryKind) : Text := if kind = .directory then ['/'] else []

theorem renderManifestEntry_marked : renderManifestEntry e
    = scopeIndent e.scope ++ (e.mark.pfx.toList ++ (e.relativePath.toList ++ slashOf e.kind)) := by
  rw [renderManifestEntry, toList_renderPath, List.append_assoc, slashOf]
  cases e.scope <;> rfl

theorem parseMark_pfx (mark : EntryMark) (rest : Text) :
    parseMark (mark.pfx.toList ++ rest) = (mark, rest) := by
  cases mark <;> simp [parseMark, EntryMark.pfx, stripPrefix, List.isPrefixOf?]

theorem parseName_slashOf {name : Text} (h : '/' ∉ name) (kind : EntryKind) :
    parseName (name ++ slashOf kind) = (name, kind) := by
  cases kind with
  | file =>
    have hlast : name.getLast? ≠ some '/' := fun hl => h (List.mem_of_getLast? hl)
    simp [slashOf, parseName, stripSuffix_eq_none hlast]
  | directory => simp [slashOf, parseName, stripSuffix_append]

theorem mem_pfx {mark : EntryMark} {c : Char} (h : c ∈ mark.pfx.toList) :
    c = ' ' ∨ c = '*' ∨ c = 'D' := by
  cases mark <;> simp [EntryMark.pfx] at h <;> tauto

theorem head_marked : ∃ c, (renderManifestEntry e).head? = some c ∧ '#' ≠ c := by
  rw [renderManifestEntry_marked]
  cases e.scope with
  | root => cases e.mark <;> exact ⟨_, rfl, by decide⟩
  | subdir path => exact ⟨' ', rfl, by decide⟩

theorem trim_marked (h : NameSafe e.relativePath.toList) : trim (renderManifestEntry e) ≠ [] := by
  rw [renderManifestEntry_marked, ne_eq, trim_eq_nil]
  intro hall
  refine h.notBlank (trim_eq_nil.2 fun c hc => hall c ?_)
  simp [hc]

theorem oneLine_marked (h : NameSafe e.relativePath.toList) : OneLine (renderManifestEntry e) := by
  have hbreak : ∀ c ∈ renderManifestEntry e, c ≠ '\n' ∧ c ≠ '\r' := by
    rw [renderManifestEntry_marked]
    intro c hc
    simp only [List.mem_append] at hc
    rcases hc with hc | hc | hc | hc
    · rw [mem_scopeIndent hc]
      decide
    · rcases mem_pfx hc with rfl | rfl | rfl <;> decide
    · exact ⟨fun he => h.lineFeed (he ▸ hc), fun he => h.carriageReturn (he ▸ hc)⟩
    · rw [slashOf] at hc
      split_ifs at hc
      · rw [List.mem_singleton.1 hc]
        decide
      · exact absurd hc List.not_mem_nil
  exact ⟨fun hc => (hbreak _ hc).1 rfl, fun hc => (hbreak _ (List.mem_of_getLast? hc)).2 rfl⟩

/-- The line of an entry is parsed as that entry, with its mark. -/
theorem parseManifestEntryLine_marked (h : '/' ∉ e.relativePath.toList) (n : ℕ) :
    parseManifestEntryLine n (renderManifestEntry e) e.scope = .ok { e with lineNumber := n } := by
  have hpayload : entryPayload n (renderManifestEntry e) e.scope
      = .ok (e.mark.pfx.toList ++ (e.relativePath.toList ++ slashOf e.kind)) := by
    rw [renderManifestEntry_marked]
    cases e.scope with
    | root => rfl
    | subdir path =>
      simp only [entryPayload, scopeIndent, stripPrefix_append]
      rfl
  rw [parseManifestEntryLine, hpayload]
  simp only [bind, Except.bind, parseMark_pfx, parseName_slashOf h, String.ofList_toList]
  rfl

end EntryLine

section Lines

/-- A line that is read as the comment it is. -/
structure CommentLine (text : Text) : Prop where
  lineFeed : '\n' ∉ text
  carriageReturn : '\r' ∉ text
  start : text.head? = some '#'
  notStart : stripPrefix subdirMarker text = none
  notEnd : stripPrefix endSubdirMarker text = none

/-- The lines can be read back from their rendering, with `current` the block that is open. -/
def Readable : Option String → List ManifestLine → Prop
  | current, [] => current = none
  | current, .blank _ :: rest => Readable current rest
  | current, .comment text _ :: rest => CommentLine text ∧ Readable current rest
  | current, .entry e :: rest =>
    e.scope = scopeOf current ∧ NameSafe e.relativePath.toList ∧ Readable current rest
  | current, .subdirStart name _ :: rest =>
    current = none ∧ '\n' ∉ name.toList ∧ '\r' ∉ name.toList ∧ Readable (some name) rest
  | current, .subdirEnd name _ :: rest =>
    current = some name ∧ '\n' ∉ name.toList ∧ '\r' ∉ name.toList ∧ Readable none rest

def withNumber (n : ℕ) : ManifestLine → ManifestLine
  | .blank _ => .blank n
  | .comment text _ => .comment text n
  | .entry e => .entry { e with lineNumber := n }
  | .subdirStart name _ => .subdirStart name n
  | .subdirEnd name _ => .subdirEnd name n

/-- The lines, numbered from `n` on. -/
def renumber : ℕ → List ManifestLine → List ManifestLine
  | _, [] => []
  | n, line :: rest => withNumber n line :: renumber (n + 1) rest

theorem oneLine_of_notMem {t : Text} (hfeed : '\n' ∉ t) (hreturn : '\r' ∉ t) : OneLine t :=
  ⟨hfeed, fun h => hreturn (List.mem_of_getLast? h)⟩

/-- The marker of a block is a line. -/
theorem oneLine_marker {p : Text} (hp : '\n' ∉ p ∧ '\r' ∉ p) {name : Text} (hfeed : '\n' ∉ name)
    (hreturn : '\r' ∉ name) : OneLine (p ++ name) := by
  refine oneLine_of_notMem ?_ ?_ <;> simp [hp, hfeed, hreturn]

theorem oneLine_readable : ∀ {ls : List ManifestLine} {current : Option String},
    Readable current ls → ∀ l ∈ ls, OneLine (renderManifestLine l)
  | [], _, _ => fun _ h => absurd h List.not_mem_nil
  | line :: rest, current, h => by
    rw [List.forall_mem_cons]
    cases line with
    | blank m => exact ⟨by rw [renderManifestLine]; decide, oneLine_readable h⟩
    | comment text m =>
      exact ⟨oneLine_of_notMem h.1.lineFeed h.1.carriageReturn, oneLine_readable h.2⟩
    | entry e => exact ⟨oneLine_marked h.2.1, oneLine_readable h.2.2⟩
    | subdirStart name m =>
      exact ⟨oneLine_marker (p := subdirMarker) (by decide) h.2.1 h.2.2.1,
        oneLine_readable h.2.2.2⟩
    | subdirEnd name m =>
      exact ⟨oneLine_marker (p := endSubdirMarker) (by decide) h.2.1 h.2.2.1,
        oneLine_readable h.2.2.2⟩

/-- One line, with the block it stands in: what it is, and the block of the line after it. -/
def readLine (current : Option String) (n : ℕ) (line : Text) :
    Except String (ManifestLine × Option String) :=
  match stripPrefix subdirMarker line with
  | some name => do
    ensure current.isNone "nested subdir blocks are unsupported in this manifest"
    pure (.subdirStart (String.ofList name) n, some (String.ofList name))
  | none =>
    match stripPrefix endSubdirMarker line with
    | some name =>
      match current with
      | none => .error s!"line {n}: unexpected hx-oil end-subdir marker"
      | some open_ => do
        ensure (open_ = String.ofList name)
          s!"line {n}: mismatched hx-oil end-subdir marker for {String.ofList name}"
        pure (.subdirEnd (String.ofList name) n, none)
    | none =>
      if trim line = [] then pure (.blank n, current)
      else if line.head? = some '#' then pure (.comment line n, current)
      else do
        let e ← parseManifestEntryLine n line (scopeOf current)
        pure (.entry e, current)

/-- The lines one after the other, and the block that is open after the last. -/
def readLines : Option String → ℕ → List Text → Except String (List ManifestLine × Option String)
  | current, _, [] => pure ([], current)
  | current, n, line :: rest => do
    let read ← readLine current n line
    let more ← readLines read.2 (n + 1) rest
    pure (read.1 :: more.1, more.2)

theorem readLines_cons {current last : Option String} {n : ℕ} {line : Text} {rest : List Text}
    {parsed : List ManifestLine} : readLines current n (line :: rest) = .ok (parsed, last)
      ↔ ∃ l next more, readLine current n line = .ok (l, next)
        ∧ readLines next (n + 1) rest = .ok (more, last) ∧ parsed = l :: more := by
  simp only [readLines, bind_eq_ok, pure_eq_ok, Prod.exists, Prod.mk.injEq]
  constructor
  · rintro ⟨l, next, hread, more, _, hmore, rfl, rfl⟩
    exact ⟨l, next, more, hread, hmore, rfl⟩
  · rintro ⟨l, next, more, hread, hmore, rfl⟩
    exact ⟨l, next, hread, more, last, hmore, rfl, rfl⟩

/-- A document is read when its lines are and no block is open at its end. -/
theorem parseLines_eq : ∀ (current : Option String) (n : ℕ) (ls : List Text),
    parseLines current n ls = do
      let read ← readLines current n ls
      ensure read.2.isNone "unterminated hx-oil subdir block"
      pure read.1
  | _, _, [] => rfl
  | current, n, line :: rest => by
    have ih := fun next => parseLines_eq next (n + 1) rest
    rw [parseLines, readLines, readLine]
    rcases stripPrefix subdirMarker line with _ | start
    · rcases stripPrefix endSubdirMarker line with _ | stop
      · dsimp only
        split_ifs <;> simp only [ih, bind_assoc, pure_bind]
      · cases current <;> simp only [ih, bind_assoc, pure_bind]
        rfl
    · simp only [ih, bind_assoc, pure_bind]

theorem parseLines_eq_ok {current : Option String} {n : ℕ} {ls : List Text}
    {parsed : List ManifestLine} :
    parseLines current n ls = .ok parsed ↔ readLines current n ls = .ok (parsed, none) := by
  simp only [parseLines_eq, bind_eq_ok, ensure_eq_ok, pure_eq_ok, Prod.exists]
  constructor
  · rintro ⟨parsed, last, hread, -, hlast, rfl⟩
    rw [hread, Option.isNone_iff_eq_none.1 hlast]
  · exact fun h => ⟨parsed, none, h, (), rfl, rfl⟩

/-- A readable line is read as it is, with a new number. -/
theorem readLine_render {line : ManifestLine} {rest : List ManifestLine} {current : Option String}
    (n : ℕ) (h : Readable current (line :: rest)) :
    ∃ next, readLine current n (renderManifestLine line) = .ok (withNumber n line, next)
      ∧ Readable next rest := by
  cases line with
  | blank m => exact ⟨current, rfl, h⟩
  | comment text m =>
    obtain ⟨hcomment, hrest⟩ := h
    have htrim : trim text ≠ [] := fun hnil => by
      have hmem : '#' ∈ text := List.mem_of_head? hcomment.start
      exact absurd (trim_eq_nil.1 hnil _ hmem) (by decide)
    refine ⟨current, ?_, hrest⟩
    simp only [readLine, renderManifestLine, withNumber, hcomment.notStart, hcomment.notEnd,
      if_neg htrim, hcomment.start, if_true]
    rfl
  | entry e =>
    obtain ⟨hscope, hname, hrest⟩ := h
    obtain ⟨c, hc, hne⟩ := @head_marked e
    have hcomment : ¬ (renderManifestEntry e).head? = some '#' := by
      rw [hc, Option.some.injEq]
      exact fun he => hne he.symm
    refine ⟨current, ?_, hrest⟩
    simp only [readLine, renderManifestLine, withNumber, if_neg (trim_marked hname),
      stripPrefix_of_head (show subdirMarker.head? = _ from rfl) hc hne,
      stripPrefix_of_head (show endSubdirMarker.head? = _ from rfl) hc hne, if_neg hcomment,
      ← hscope, parseManifestEntryLine_marked hname.slash]
    rfl
  | subdirStart name m =>
    obtain ⟨rfl, -, -, hrest⟩ := h
    refine ⟨some name, ?_, hrest⟩
    simp only [readLine, renderManifestLine, withNumber, stripPrefix_append, String.ofList_toList]
    rfl
  | subdirEnd name m =>
    obtain ⟨rfl, -, -, hrest⟩ := h
    refine ⟨none, ?_, hrest⟩
    simp only [readLine, renderManifestLine, withNumber, stripPrefix_endMarker, stripPrefix_append,
      String.ofList_toList, ensure, if_true]
    rfl

/-- The first lines of a readable list are read back, and leave the rest readable. -/
theorem readLines_render : ∀ {ls rest : List ManifestLine} {current : Option String} (n : ℕ),
    Readable current (ls ++ rest) → ∃ next,
      readLines current n (ls.map renderManifestLine) = .ok (renumber n ls, next)
        ∧ Readable next rest
  | [], _, current, _, h => ⟨current, rfl, h⟩
  | line :: ls, rest, current, n, h => by
    obtain ⟨mid, hread, hmid⟩ := readLine_render n (List.cons_append ▸ h)
    obtain ⟨next, hreads, hrest⟩ := readLines_render (n + 1) hmid
    exact ⟨next, readLines_cons.2 ⟨_, mid, _, hread, hreads, rfl⟩, hrest⟩

/-- A readable list of lines is read back line by line, with new numbers. -/
theorem parseLines_render {ls : List ManifestLine} {current : Option String} (n : ℕ)
    (h : Readable current ls) :
    parseLines current n (ls.map renderManifestLine) = .ok (renumber n ls) := by
  obtain ⟨next, hread, hnext⟩ := readLines_render n (List.append_nil ls ▸ h)
  rw [parseLines_eq_ok, hread, show next = none from hnext]

theorem mem_of_stripPrefix {p t r : Text} {c : Char} (h : stripPrefix p t = some r) (hc : c ∈ r) :
    c ∈ t := by
  rw [← stripPrefix_eq_some.1 h]
  exact List.mem_append_right _ hc

theorem mem_of_parseMark {payload : Text} {c : Char} (hc : c ∈ (parseMark payload).2) :
    c ∈ payload := by
  unfold parseMark at hc
  split at hc
  next h => exact mem_of_stripPrefix h hc
  next =>
    split at hc
    next h => exact mem_of_stripPrefix h hc
    next =>
      split at hc
      next h => exact mem_of_stripPrefix h hc
      next => exact hc

/-- The characters of a name are of the line it is read from. -/
theorem mem_of_parseManifestEntryLine {n : ℕ} {line : Text} {scope : EntryScope} {e : ManifestEntry}
    (h : parseManifestEntryLine n line scope = .ok e) {c : Char} (hc : c ∈ e.relativePath.toList) :
    c ∈ line := by
  simp only [parseManifestEntryLine, bind_eq_ok, pure_eq_ok] at h
  obtain ⟨payload, hpayload, rfl⟩ := h
  rw [String.toList_ofList] at hc
  have hrest : c ∈ (parseMark payload).2 := by
    unfold parseName at hc
    split at hc
    next path hstrip =>
      rw [stripSuffix_eq_some hstrip]
      exact List.mem_append_left _ hc
    next => exact hc
  have hmem := mem_of_parseMark hrest
  unfold entryPayload at hpayload
  split at hpayload
  · split at hpayload
    next rest hstrip =>
      cases hpayload
      exact mem_of_stripPrefix hstrip hmem
    next => cases hpayload
  · cases hpayload
    exact hmem

/-- The names on the lines are valid. -/
def ValidNames (ls : List ManifestLine) : Prop :=
  ∀ e, .entry e ∈ ls → validateEntryName e.relativePath e.kind e.lineNumber = .ok ()

theorem nameSafe_of_valid {e : ManifestEntry} {line : Text}
    (hline : '\n' ∉ line ∧ '\r' ∉ line) (hmem : ∀ c ∈ e.relativePath.toList, c ∈ line)
    (h : validateEntryName e.relativePath e.kind e.lineNumber = .ok ()) :
    NameSafe e.relativePath.toList := by
  simp only [validateEntryName, bind_eq_ok, ensure_eq_ok] at h
  obtain ⟨-, hne, -, htrim, -, hslash, -⟩ := h
  refine ⟨fun hc => hline.1 (hmem _ hc), fun hc => hline.2 (hmem _ hc), hslash, ?_⟩
  rw [← htrim]
  exact fun hnil => hne (String.toList_eq_nil_iff.1 hnil)

theorem notMem_name {p line name : Text} (hline : '\n' ∉ line ∧ '\r' ∉ line)
    (h : stripPrefix p line = some name) :
    '\n' ∉ (String.ofList name).toList ∧ '\r' ∉ (String.ofList name).toList := by
  rw [String.toList_ofList]
  exact ⟨fun hc => hline.1 (mem_of_stripPrefix h hc), fun hc => hline.2 (mem_of_stripPrefix h hc)⟩

/-- What is read from a manifest with valid names can be read back. -/
theorem readable_of_parse : ∀ {ls : List Text} {current : Option String} {n : ℕ}
    {parsed : List ManifestLine}, parseLines current n ls = .ok parsed →
    (∀ l ∈ ls, '\n' ∉ l ∧ '\r' ∉ l) → ValidNames parsed → Readable current parsed
  | [], current, n, parsed, h, _, _ => by
    simp only [parseLines, bind_eq_ok, ensure_eq_ok, pure_eq_ok] at h
    obtain ⟨-, hnone, rfl⟩ := h
    exact Option.isNone_iff_eq_none.1 hnone
  | line :: rest, current, n, parsed, h, hls, hnames => by
    obtain ⟨hline, hls⟩ := List.forall_mem_cons.1 hls
    obtain ⟨l, more, next, rfl, hread, hm⟩ := parseLines_cons h
    have hrest : Readable next more :=
      readable_of_parse hm hls fun e he => hnames e (List.mem_cons_of_mem _ he)
    cases hread with
    | start hst =>
      obtain ⟨hfeed, hreturn⟩ := notMem_name hline hst
      exact ⟨rfl, hfeed, hreturn, hrest⟩
    | stop hen =>
      obtain ⟨hfeed, hreturn⟩ := notMem_name hline hen
      exact ⟨rfl, hfeed, hreturn, hrest⟩
    | blank => exact hrest
    | comment hst hen hhead => exact ⟨⟨hline.1, hline.2, hhead, hst, hen⟩, hrest⟩
    | entry he =>
      exact ⟨scope_parseManifestEntryLine he, nameSafe_of_valid hline
        (fun c hc => mem_of_parseManifestEntryLine he hc) (hnames _ List.mem_cons_self), hrest⟩

/-- Lines are numbered as they are read. -/
theorem renumber_of_parse : ∀ {ls : List Text} {current : Option String} {n : ℕ}
    {parsed : List ManifestLine}, parseLines current n ls = .ok parsed → renumber n parsed = parsed
  | [], current, n, parsed, h => by
    simp only [parseLines, bind_eq_ok, pure_eq_ok] at h
    obtain ⟨-, -, rfl⟩ := h
    rfl
  | line :: rest, current, n, parsed, h => by
    obtain ⟨l, more, next, rfl, hread, hm⟩ := parseLines_cons h
    rw [renumber, renumber_of_parse hm]
    cases hread with
    | entry he =>
      simp only [parseManifestEntryLine, bind_eq_ok, pure_eq_ok] at he
      obtain ⟨-, -, rfl⟩ := he
      rfl
    | _ => rfl

end Lines

section Marks

/-- The line, with a new mark if it is an entry. -/
def remark (newMark : ManifestEntry → EntryMark) : ManifestLine → ManifestLine
  | .entry e => .entry { e with mark := newMark e }
  | line => line

def lineNumberOf : ManifestLine → ℕ
  | .blank n => n
  | .comment _ n => n
  | .entry e => e.lineNumber
  | .subdirStart _ n => n
  | .subdirEnd _ n => n

theorem lineNumberOf_remark (newMark : ManifestEntry → EntryMark) :
    ∀ l, lineNumberOf (remark newMark l) = lineNumberOf l
  | .blank _ | .comment _ _ | .entry _ | .subdirStart _ _ | .subdirEnd _ _ => rfl

theorem lineNumberOf_renumber : ∀ (n : ℕ) (ls : List ManifestLine),
    (renumber n ls).map lineNumberOf = List.range' n ls.length
  | _, [] => rfl
  | n, line :: rest => by
    rw [renumber, List.map_cons, lineNumberOf_renumber (n + 1) rest, List.length_cons,
      List.range'_succ]
    cases line <;> rfl

/-- No two lines have one number. -/
def Numbered (ls : List ManifestLine) : Prop := (ls.map lineNumberOf).Nodup

theorem numbered_of_renumber {n : ℕ} {ls : List ManifestLine} (h : renumber n ls = ls) :
    Numbered ls := by
  rw [Numbered, ← h, lineNumberOf_renumber]
  exact List.nodup_range'

theorem Numbered.remark {ls : List ManifestLine} (h : Numbered ls)
    (newMark : ManifestEntry → EntryMark) : Numbered (ls.map (remark newMark)) := by
  have hsame : lineNumberOf ∘ HxOil.remark newMark = lineNumberOf :=
    funext (lineNumberOf_remark newMark)
  rw [Numbered, List.map_map, hsame]
  exact h

theorem readable_remark (newMark : ManifestEntry → EntryMark) : ∀ {ls : List ManifestLine}
    {current : Option String}, Readable current ls → Readable current (ls.map (remark newMark))
  | [], _, h => h
  | .blank _ :: rest, _, h => @readable_remark newMark rest _ h
  | .comment _ _ :: _, _, h => ⟨h.1, readable_remark newMark h.2⟩
  | .entry _ :: _, _, h => ⟨h.1, h.2.1, readable_remark newMark h.2.2⟩
  | .subdirStart _ _ :: _, _, h => ⟨h.1, h.2.1, h.2.2.1, readable_remark newMark h.2.2.2⟩
  | .subdirEnd _ _ :: _, _, h => ⟨h.1, h.2.1, h.2.2.1, readable_remark newMark h.2.2.2⟩

theorem remark_remark (f g : ManifestEntry → EntryMark) (l : ManifestLine) :
    remark g (remark f l) = remark (fun e => g { e with mark := f e }) l := by
  cases l <;> rfl

/-- The marks after a change of the one on a line. -/
def changeAt (n : ℕ) (change : EntryMark → EntryMark) (e : ManifestEntry) : EntryMark :=
  if e.lineNumber = n then change e.mark else e.mark

theorem remark_self {newMark : ManifestEntry → EntryMark} : ∀ {l : ManifestLine},
    (∀ e, l = .entry e → newMark e = e.mark) → remark newMark l = l
  | .blank _, _ | .comment _ _, _ | .subdirStart _ _, _ | .subdirEnd _ _, _ => rfl
  | .entry e, h => by rw [remark, h e rfl]

/-- Changing the entry on a line changes its mark and nothing else. -/
theorem entryAtLineMut_eq {n : ℕ} {f : ManifestEntry → Except String ManifestEntry}
    {change : EntryMark → EntryMark}
    (hf : ∀ e e', f e = .ok e' → e' = { e with mark := change e.mark }) :
    ∀ {ls ls' : List ManifestLine}, Numbered ls → entryAtLineMut n f ls = .ok ls' →
      ls' = ls.map (remark (changeAt n change))
  | [], ls', _, h => by simp [entryAtLineMut] at h
  | line :: rest, ls', hnum, h => by
    obtain ⟨hnew, hrest⟩ := List.nodup_cons.1 hnum
    have hkeep : ∀ {more : List ManifestLine}, entryAtLineMut n f rest = .ok more →
        more = rest.map (remark (changeAt n change)) := fun hm => entryAtLineMut_eq hf hrest hm
    cases line with
    | entry e =>
      rw [entryAtLineMut] at h
      split_ifs at h with hn
      · simp only [bind_eq_ok, pure_eq_ok] at h
        obtain ⟨e', he', rfl⟩ := h
        -- the number is not used again further down
        have hlater : rest.map (remark (changeAt n change)) = rest := by
          refine (List.map_congr_left fun l hl => remark_self fun x hx => ?_).trans (List.map_id _)
          refine if_neg fun hxn => hnew ?_
          rw [hx] at hl
          exact List.mem_map.2 ⟨_, hl, by rw [lineNumberOf, lineNumberOf, hxn, hn]⟩
        rw [List.map_cons, hlater, hf e e' he', remark, changeAt, if_pos hn]
      · simp only [bind_eq_ok, pure_eq_ok] at h
        obtain ⟨more, hm, rfl⟩ := h
        rw [hkeep hm, List.map_cons, remark, changeAt, if_neg hn]
    | _ =>
      simp only [entryAtLineMut, bind_eq_ok, pure_eq_ok] at h
      obtain ⟨more, hm, rfl⟩ := h
      rw [hkeep hm]
      rfl

/-- The marks after the ones on the lines are changed, one line after the other. -/
def changeAll (lines : List ℕ) (change : EntryMark → EntryMark) (e : ManifestEntry) : EntryMark :=
  change^[lines.count e.lineNumber] e.mark

theorem foldlM_entryAtLineMut {f : ℕ → ManifestEntry → Except String ManifestEntry}
    {change : EntryMark → EntryMark}
    (hf : ∀ n e e', f n e = .ok e' → e' = { e with mark := change e.mark }) :
    ∀ {lines : List ℕ} {ls ls' : List ManifestLine}, Numbered ls →
      lines.foldlM (fun ls n => entryAtLineMut n (f n) ls) ls = .ok ls' →
      ls' = ls.map (remark (changeAll lines change))
  | [], ls, ls', _, h => by
    rw [List.foldlM_nil, pure_eq_ok] at h
    rw [← h]
    exact ((List.map_congr_left fun l _ => remark_self fun _ _ => rfl).trans (List.map_id _)).symm
  | n :: lines, ls, ls', hnum, h => by
    rw [List.foldlM_cons, bind_eq_ok] at h
    obtain ⟨mid, hfirst, hrest⟩ := h
    obtain rfl := entryAtLineMut_eq (hf n) hnum hfirst
    rw [foldlM_entryAtLineMut hf (hnum.remark _) hrest, List.map_map]
    refine List.map_congr_left fun l _ => ?_
    rw [Function.comp_apply, remark_remark]
    congr 1
    funext e
    change change^[lines.count e.lineNumber] (changeAt n change e)
      = change^[(n :: lines).count e.lineNumber] e.mark
    by_cases hn : e.lineNumber = n
    · rw [changeAt, if_pos hn, hn, List.count_cons_self, Function.iterate_succ_apply]
    · rw [changeAt, if_neg hn, List.count_cons_of_ne (Ne.symm hn)]

def toggled : EntryMark → EntryMark
  | .none => .marked
  | .marked => .none
  | .deleteFlagged => .deleteFlagged

def flagged : EntryMark → EntryMark
  | .deleteFlagged => .none
  | _ => .deleteFlagged

theorem toggleMark_eq_ok {n : ℕ} {e e' : ManifestEntry} (h : toggleMark n e = .ok e') :
    e' = { e with mark := toggled e.mark } := by
  unfold toggleMark at h
  split at h
  next hm =>
    rw [hm]
    exact (pure_eq_ok.1 h).symm
  next hm =>
    rw [hm]
    exact (pure_eq_ok.1 h).symm
  next => cases h

theorem toggleFlag_eq_ok {n : ℕ} {e e' : ManifestEntry} (h : toggleFlag n e = .ok e') :
    e' = { e with mark := flagged e.mark } := by
  unfold toggleFlag at h
  split at h
  all_goals
    next hm =>
      rw [hm]
      exact (pure_eq_ok.1 h).symm

/-- The mark that clearing leaves. -/
def cleared (e : ManifestEntry) : EntryMark := if e.mark = .marked then .none else e.mark

theorem clearMark_eq : clearMark = remark cleared := by
  funext l
  cases l with
  | entry e =>
    rw [clearMark, remark, cleared]
    split_ifs <;> rfl
  | _ => rfl

end Marks

section Rewriting

variable {session session' : Session} {document : ManifestDocument}

def unnumbered : ManifestLine → ManifestLine := withNumber 0

theorem unnumbered_withNumber (n : ℕ) (l : ManifestLine) :
    unnumbered (withNumber n l) = unnumbered l := by
  cases l <;> rfl

theorem unnumbered_renumber : ∀ (n : ℕ) (ls : List ManifestLine),
    (renumber n ls).map unnumbered = ls.map unnumbered
  | _, [] => rfl
  | n, l :: rest => by
    rw [renumber, List.map_cons, List.map_cons, unnumbered_withNumber, unnumbered_renumber]

/-- The text of the new session is read as the document with new marks, line by line. -/
def Remarked (session session' : Session) (document : ManifestDocument)
    (newMark : ManifestEntry → EntryMark) : Prop :=
  session'.sidecar = session.sidecar ∧ ∃ document',
    parseManifestDocument session'.text = .ok document' ∧ document'.root = document.root
    ∧ document'.lines.map unnumbered = (document.lines.map (remark newMark)).map unnumbered

/-- The lines of a document come from the lines of its text. -/
theorem parts_of_parse {text : Text} (h : parseManifestDocument text = .ok document) :
    rootHeader ++ document.root ∈ lines text
      ∧ ∃ n ls, (∀ l ∈ ls, l ∈ lines text) ∧ parseLines none n ls = .ok document.lines := by
  unfold parseManifestDocument at h
  rcases hlines : lines text with _ | ⟨first, rest⟩
  · simp [hlines] at h
  rcases hroot : stripPrefix rootHeader first with _ | root
  · simp [hlines, hroot] at h
  simp only [hlines, hroot, bind_eq_ok, pure_eq_ok] at h
  obtain ⟨parsed, hp, rfl⟩ := h
  refine ⟨?_, _, _, fun l hl => List.mem_cons_of_mem _ ?_, hp⟩
  · rw [stripPrefix_eq_some.1 hroot]
    exact List.mem_cons_self
  · unfold bodyLines at hl
    split_ifs at hl
    · exact List.mem_of_mem_tail hl
    · exact hl

/-- What is read from a manifest with valid names can be written on lines and read back. -/
theorem readable_of_document {text : Text} (h : parseManifestDocument text = .ok document)
    (hreturn : '\r' ∉ text) (hnames : ValidNames document.lines) :
    OneLine (rootHeader ++ document.root) ∧ Readable none document.lines := by
  obtain ⟨hroot, n, ls, hls, hparse⟩ := parts_of_parse h
  have hsafe : ∀ l ∈ lines text, '\n' ∉ l ∧ '\r' ∉ l := fun l hl =>
    ⟨notMem_of_mem_lines hl, fun hc => hreturn (mem_of_mem_lines hl hc)⟩
  exact ⟨oneLine_of_notMem (hsafe _ hroot).1 (hsafe _ hroot).2,
    readable_of_parse hparse (fun l hl => hsafe l (hls l hl)) hnames⟩

/-- A readable document is read back from its rendering. -/
theorem parse_render {root : Text} {ls : List ManifestLine} (hroot : OneLine (rootHeader ++ root))
    (h : Readable none ls) : parseManifestDocument (renderManifestDocument ⟨root, ls⟩)
      = .ok ⟨root, renumber 3 ls⟩ := by
  have hlines : ∀ l ∈ (rootHeader ++ root) :: ignoredHeader :: ls.map renderManifestLine,
      OneLine l := by
    rw [List.forall_mem_cons, List.forall_mem_cons, List.forall_mem_map]
    exact ⟨hroot, by decide, oneLine_readable h⟩
  rw [renderManifestDocument, parseManifestDocument, lines_writeLines hlines]
  simp only [stripPrefix_append, bodyLines, List.head?_cons, if_true, List.tail_cons,
    parseLines_render 3 h]
  rfl

/-- The document is read back from its rendering, with new marks. -/
theorem parse_remarked {text : Text} (h : parseManifestDocument text = .ok document)
    (hreturn : '\r' ∉ text) (hnames : ValidNames document.lines)
    (newMark : ManifestEntry → EntryMark) :
    parseManifestDocument (renderManifestDocument
        { document with lines := document.lines.map (remark newMark) })
      = .ok ⟨document.root, renumber 3 (document.lines.map (remark newMark))⟩ := by
  obtain ⟨hroot, hreadable⟩ := readable_of_document h hreturn hnames
  exact parse_render hroot (readable_remark newMark hreadable)

/-- A command that renders the document with new marks changes marks only. -/
theorem remarked_withLines (h : parseManifestDocument session.text = .ok document)
    (hreturn : '\r' ∉ session.text) (hnames : ValidNames document.lines)
    (newMark : ManifestEntry → EntryMark) :
    Remarked session (session.withLines document (document.lines.map (remark newMark))) document
      newMark :=
  ⟨rfl, _, parse_remarked h hreturn hnames newMark, rfl, unnumbered_renumber _ _⟩

theorem changeEntries_remarked {f : ℕ → ManifestEntry → Except String ManifestEntry}
    {change : EntryMark → EntryMark}
    (hf : ∀ n e e', f n e = .ok e' → e' = { e with mark := change e.mark })
    (h : parseManifestDocument session.text = .ok document) (hreturn : '\r' ∉ session.text)
    (hnames : ValidNames document.lines) {lines : List ℕ}
    (hrun : changeEntries f session lines = .ok session') :
    Remarked session session' document (changeAll lines change) := by
  simp only [changeEntries, parseAndValidateDocument, bind_eq_ok, pure_eq_ok] at hrun
  obtain ⟨_, ⟨document', hparse, -, -, rfl⟩, changed, hfold, rfl⟩ := hrun
  obtain rfl := Except.ok.inj (h.symm.trans hparse)
  obtain ⟨n, ls, hlines⟩ := lines_of_parse h
  rw [foldlM_entryAtLineMut hf (numbered_of_renumber (renumber_of_parse hlines)) hfold]
  exact remarked_withLines h hreturn hnames _

/-- A command on marks fails, and then it has written nothing, or the manifest it writes is read as
the same lines with the marks changed that it names, one line after the other. -/
theorem marks_change_only (h : parseManifestDocument session.text = .ok document)
    (hreturn : '\r' ∉ session.text)
    (hnames : ∀ e ∈ document.entries,
      validateEntryName e.relativePath e.kind e.lineNumber = .ok ()) :
    (∀ lines, (∃ message, markToggle session lines = .error message)
        ∨ ∃ session', markToggle session lines = .ok session'
          ∧ Remarked session session' document (changeAll lines toggled))
      ∧ (∀ lines, (∃ message, flagDelete session lines = .error message)
        ∨ ∃ session', flagDelete session lines = .ok session'
          ∧ Remarked session session' document (changeAll lines flagged))
      ∧ ((∃ message, clearMarks session = .error message)
        ∨ ∃ session', clearMarks session = .ok session'
          ∧ Remarked session session' document cleared) := by
  have hvalid : ValidNames document.lines := fun e he => hnames e (mem_entries.2 he)
  refine ⟨fun lines => ?_, fun lines => ?_, ?_⟩
  · rcases hrun : markToggle session lines with message | session'
    · exact .inl ⟨message, rfl⟩
    · exact .inr ⟨session', rfl,
        changeEntries_remarked (fun n e e' => toggleMark_eq_ok) h hreturn hvalid hrun⟩
  · rcases hrun : flagDelete session lines with message | session'
    · exact .inl ⟨message, rfl⟩
    · exact .inr ⟨session', rfl,
        changeEntries_remarked (fun n e e' => toggleFlag_eq_ok) h hreturn hvalid hrun⟩
  · rcases hrun : clearMarks session with message | session'
    · exact .inl ⟨message, rfl⟩
    · simp only [clearMarks, parseAndValidateDocument, bind_eq_ok, pure_eq_ok] at hrun
      obtain ⟨_, ⟨document', hparse, -, -, rfl⟩, rfl⟩ := hrun
      obtain rfl := Except.ok.inj (h.symm.trans hparse)
      rw [clearMark_eq]
      exact .inr ⟨_, rfl, remarked_withLines h hreturn hvalid _⟩

/-- A manifest without its second header line: an entry without a mark, one whose name begins as a
mark does, a comment, and a block. -/
def oddManifest : List String :=
  ["# hx-oil root: /r", "plain", "  * odd", "# note", "  d/", "# hx-oil subdir: d", "    x", " ",
    "# hx-oil end-subdir: d"]

def oddSession : Session where
  sidecar := ⟨sidecarVersion, "/r".toList, 0, 1, [], []⟩
  text := writeLines (oddManifest.map String.toList)

def oddDocument : ManifestDocument where
  root := "/r".toList
  lines := [
    .entry ⟨"plain", .file, 2, .none, .root⟩,
    .entry ⟨"* odd", .file, 3, .none, .root⟩,
    .comment "# note".toList 4,
    .entry ⟨"d", .directory, 5, .none, .root⟩,
    .subdirStart "d" 6,
    .entry ⟨"x", .file, 7, .none, .subdir "d"⟩,
    .blank 8,
    .subdirEnd "d" 9]

/-- Marking three lines of the odd manifest, one of them twice. -/
theorem oddSession_marked : ∃ session', markToggle oddSession [2, 3, 7, 3] = .ok session'
    ∧ Remarked oddSession session' oddDocument (changeAll [2, 3, 7, 3] toggled) := by
  have hparse : parseManifestDocument oddSession.text = .ok oddDocument := by decide +kernel
  have hnames : ∀ e ∈ oddDocument.entries,
      (validateEntryName e.relativePath e.kind e.lineNumber).isOk = true := by decide +kernel
  have hok : (markToggle oddSession [2, 3, 7, 3]).isOk = true := by decide +kernel
  have hvalid : ∀ e ∈ oddDocument.entries,
      validateEntryName e.relativePath e.kind e.lineNumber = .ok () := by
    intro e he
    have h := hnames e he
    rcases hv : validateEntryName e.relativePath e.kind e.lineNumber with m | u
    · rw [hv] at h
      cases h
    · rfl
  rcases (marks_change_only hparse (by decide +kernel) hvalid).1 [2, 3, 7, 3] with ⟨m, hm⟩ | h
  · rw [hm] at hok
    cases hok
  · exact h

end Rewriting

end OnixCore.HxOil
