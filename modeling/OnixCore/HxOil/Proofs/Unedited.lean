import OnixCore.HxOil.Proofs.Deletes
import OnixCore.HxOil.Proofs.RoundTrip

/-!
# An unedited manifest

A manifest that was written from line-safe names and not edited lists its snapshots, so none of
its plans has an operation (`Accepted.operations_eq_nil`). A name that is not line-safe is never
read back from an accepted manifest, so every plan that meets one has an operation
(`Accepted.lineSafe_of_nil`).
-/

namespace OnixCore.HxOil

open Text

section Names

/-- No name in a parsed manifest holds a line feed. -/
theorem notMem_parseManifestEntryLine {n : ℕ} {line : Text} {scope : EntryScope}
    {e : ManifestEntry} (hline : '\n' ∉ line)
    (h : parseManifestEntryLine n line scope = .ok e) : '\n' ∉ e.relativePath.toList := by
  have hpayload : ∀ {payload : Text}, entryPayload n line scope = .ok payload → '\n' ∉ payload := by
    intro payload hp
    cases scope with
    | root =>
      simp only [entryPayload, pure_eq_ok] at hp
      exact hp ▸ hline
    | subdir path =>
      rcases hs : stripPrefix subdirIndent line with _ | rest
      · simp [entryPayload, hs] at hp
      · simp only [entryPayload, hs, pure_eq_ok] at hp
        subst hp
        rw [stripPrefix_eq_some] at hs
        exact fun hc => hline (hs ▸ List.mem_append_right _ hc)
  have hmark : ∀ {payload : Text}, '\n' ∉ payload → '\n' ∉ (parseMark payload).2 := by
    intro payload hp
    have hstrip : ∀ {p rest : Text}, stripPrefix p payload = some rest → '\n' ∉ rest := by
      intro p rest hs hc
      rw [stripPrefix_eq_some] at hs
      exact hp (hs ▸ List.mem_append_right _ hc)
    unfold parseMark
    split
    · exact hstrip ‹_›
    · split
      · exact hstrip ‹_›
      · split
        · exact hstrip ‹_›
        · exact hp
  have hname : ∀ {rest : Text}, '\n' ∉ rest → '\n' ∉ (parseName rest).1 := by
    intro rest hr
    unfold parseName
    split
    · rename_i path hs
      rw [stripSuffix_eq_some hs] at hr
      exact fun hc => hr (List.mem_append_left _ hc)
    · exact hr
  simp only [parseManifestEntryLine, bind_eq_ok, pure_eq_ok] at h
  obtain ⟨payload, hp, rfl⟩ := h
  simpa using hname (hmark (hpayload hp))

theorem notMem_parseLines : ∀ {ls : List Text} {current : Option String} {n : ℕ}
    {parsed : List ManifestLine}, (∀ l ∈ ls, '\n' ∉ l) →
    parseLines current n ls = .ok parsed → ∀ e, .entry e ∈ parsed → '\n' ∉ e.relativePath.toList
  | [], current, n, parsed, _, h, e, he => by
    simp only [parseLines, bind_eq_ok, pure_eq_ok] at h
    obtain ⟨-, -, rfl⟩ := h
    simp at he
  | line :: rest, current, n, parsed, hls, h, e, he => by
    rw [List.forall_mem_cons] at hls
    have later : ∀ {c : Option String} {l : ManifestLine} {more : List ManifestLine},
        parseLines c (n + 1) rest = .ok more → parsed = l :: more → .entry e ≠ l →
        '\n' ∉ e.relativePath.toList := by
      intro c l more hm hp hne
      rw [hp] at he
      exact notMem_parseLines hls.2 hm e ((List.mem_cons.1 he).resolve_left hne)
    unfold parseLines at h
    split at h
    · simp only [bind_eq_ok, pure_eq_ok] at h
      obtain ⟨-, -, more, hm, hp⟩ := h
      exact later hm hp.symm (by simp)
    · split at h
      · split at h
        · simp at h
        · simp only [bind_eq_ok, pure_eq_ok] at h
          obtain ⟨-, -, more, hm, hp⟩ := h
          exact later hm hp.symm (by simp)
      · split_ifs at h
        · simp only [bind_eq_ok, pure_eq_ok] at h
          obtain ⟨more, hm, hp⟩ := h
          exact later hm hp.symm (by simp)
        · simp only [bind_eq_ok, pure_eq_ok] at h
          obtain ⟨more, hm, hp⟩ := h
          exact later hm hp.symm (by simp)
        · simp only [bind_eq_ok, pure_eq_ok] at h
          obtain ⟨e', he', more, hm, hp⟩ := h
          by_cases heq : e = e'
          · exact heq ▸ notMem_parseManifestEntryLine hls.1 he'
          · exact later hm hp.symm (by simpa using heq)

theorem notMem_of_parsed {text : Text} {document : ManifestDocument}
    (h : parseManifestDocument text = .ok document) {e : ManifestEntry}
    (he : e ∈ document.entries) : '\n' ∉ e.relativePath.toList := by
  rw [mem_entries] at he
  unfold parseManifestDocument at h
  split at h
  · simp at h
  · rename_i first rest hlines
    split at h
    · simp at h
    · simp only [bind_eq_ok, pure_eq_ok] at h
      obtain ⟨parsed, hp, rfl⟩ := h
      refine notMem_parseLines (fun l hl => ?_) hp e he
      have hrest : l ∈ rest := by
        unfold bodyLines at hl
        split_ifs at hl
        · exact List.mem_of_mem_tail hl
        · exact hl
      exact notMem_of_mem_lines (t := text) (by rw [hlines]; exact List.mem_cons_of_mem _ hrest)

end Names

section Written

variable {γ E : Type} {links : Links γ E} {w : World γ E} {session : Session}

/-- A session as it is written: the text lists the sidecar, and the state of every inserted
subdirectory lists what is there. -/
structure Unedited (links : Links γ E) (w : World γ E) (session : Session) : Prop where
  text : session.text = renderCanonicalManifest session.sidecar.root session.sidecar.entries
    session.sidecar.subdirs
  subdirs : ∀ state ∈ session.sidecar.subdirs, ∃ sub,
    w.readSubdir links state.relativePath = some sub
      ∧ ∀ k : Key, k ∈ state.entries.map (·.key) ↔ ∃ o, sub.lookup k.1 = some o ∧ kindOf o = k.2

theorem mem_rewriteSubdirs {previous : Option Sidecar} {entries : List SnapshotEntry} :
    ∀ {names : List String} {next : ℕ} {r : List SubdirState × ℕ},
      rewriteSubdirs links previous entries w next names = .ok r →
      ∀ state ∈ r.1, ∃ sub, w.readSubdir links state.relativePath = some sub
        ∧ ∀ k : Key, k ∈ state.entries.map (·.key) ↔ ∃ o, sub.lookup k.1 = some o ∧ kindOf o = k.2
  | [], next, r, h, state, hs => by
    simp only [rewriteSubdirs, pure_eq_ok] at h
    simp [← h] at hs
  | name :: rest, next, r, h, state, hs => by
    unfold rewriteSubdirs at h
    split_ifs at h
    · split at h
      · simp at h
      · rename_i sub hread
        simp only [bind_eq_ok, pure_eq_ok] at h
        obtain ⟨⟨more, last⟩, hm, rfl⟩ := h
        rcases List.mem_cons.1 hs with rfl | hs
        · exact ⟨sub, hread, fun k => mem_collectSnapshotWithIds⟩
        · exact mem_rewriteSubdirs hm state hs
    · exact mem_rewriteSubdirs h state hs

theorem unedited_of_rewrite {root : Text} {previous : Option Sidecar} {names : List String}
    {now : ℕ} (h : rewriteSessionFiles links root previous names now w = .ok session) :
    Unedited links w session := by
  simp only [rewriteSessionFiles, bind_eq_ok, pure_eq_ok] at h
  obtain ⟨⟨subdirs, last⟩, hs, rfl⟩ := h
  exact ⟨rfl, mem_rewriteSubdirs hs⟩

/-- Two states of one path list the same. -/
theorem Unedited.keys_iff (h : Unedited links w session) {a b : SubdirState}
    (ha : a ∈ session.sidecar.subdirs) (hb : b ∈ session.sidecar.subdirs)
    (heq : a.relativePath = b.relativePath) (k : Key) :
    k ∈ a.entries.map (·.key) ↔ k ∈ b.entries.map (·.key) := by
  obtain ⟨sub, hread, hk⟩ := h.subdirs a ha
  obtain ⟨sub', hread', hk'⟩ := h.subdirs b hb
  rw [heq, hread', Option.some.injEq] at hread
  rw [hk, hk', hread]

/-- Every name of the session is one the system can give. -/
def LegalNames (sidecar : Sidecar) : Prop :=
  (∀ e ∈ sidecar.entries, legalComponent e.relativePath = true)
    ∧ ∀ state ∈ sidecar.subdirs, ∀ c ∈ state.entries, legalComponent c.relativePath = true

/-- Every name of the session is read back from its line, and the markers of every block too. -/
def SafeNames (sidecar : Sidecar) : Prop :=
  (∀ e ∈ sidecar.entries, LineSafe e)
    ∧ ∀ state ∈ sidecar.subdirs, state.relativePath.toList.getLast? ≠ some '\r'
      ∧ ∀ c ∈ state.entries, LineSafe c

instance : DecidablePred LegalNames := fun _ => inferInstanceAs (Decidable (_ ∧ _))

instance : DecidablePred SafeNames := fun _ => inferInstanceAs (Decidable (_ ∧ _))

theorem notMem_of_legal {n : String} (h : legalComponent n = true) : '/' ∉ n.toList := by
  simp only [legalComponent, decide_eq_true_eq] at h
  exact h.2.2.2.1

theorem blockSafe_of_names {sidecar : Sidecar} (hlegal : LegalNames sidecar)
    (hsafe : SafeNames sidecar) : ∀ e ∈ sidecar.entries, BlockSafe sidecar.subdirs e := by
  intro e he
  refine ⟨⟨hsafe.1 e he, notMem_of_legal (hlegal.1 e he)⟩, fun state hmap c hc => ?_⟩
  obtain ⟨hs, -⟩ := subdirMap_path hmap
  exact ⟨(hsafe.2 state hs).2 c hc, notMem_of_legal (hlegal.2 state hs c hc)⟩

/-- A text behind a header of the format is one line when it is one line itself. -/
theorem oneLine_append {header t : Text} (hheader : OneLine header)
    (ht : '\n' ∉ t ∧ t.getLast? ≠ some '\r') : OneLine (header ++ t) := by
  constructor
  · simp only [List.mem_append, not_or]
    exact ⟨hheader.1, ht.1⟩
  · rcases t with _ | ⟨c, t⟩
    · simpa using hheader.2
    · rw [List.getLast?_append_of_ne_nil _ (by simp)]
      exact ht.2

theorem oneLine_renderEntryLines {sidecar : Sidecar} (hsafe : SafeNames sidecar) :
    ∀ e ∈ sidecar.entries, ∀ l ∈ renderEntryLines sidecar.subdirs e, OneLine l := by
  intro e he l hl
  rcases List.mem_cons.1 hl with rfl | hl
  · exact oneLine_renderManifestEntry (hsafe.1 e he)
  · rcases hmap : subdirMap sidecar.subdirs e.relativePath with _ | state
    · simp [hmap] at hl
    · obtain ⟨hs, hpath⟩ := subdirMap_path hmap
      have hname : '\n' ∉ state.relativePath.toList
          ∧ state.relativePath.toList.getLast? ≠ some '\r' :=
        ⟨hpath ▸ (hsafe.1 e he).1, (hsafe.2 state hs).1⟩
      simp only [hmap, Option.map_some, Option.getD_some, renderSubdir, List.cons_append,
        List.mem_cons, List.mem_append, List.mem_map, List.not_mem_nil, or_false] at hl
      rcases hl with rfl | ⟨c, hc, rfl⟩ | rfl
      · exact oneLine_append (by decide) hname
      · exact oneLine_renderManifestEntry ((hsafe.2 state hs).2 c hc)
      · exact oneLine_append (by decide) hname

/-- A header that names the root is one line: a line feed or a final carriage return of the root
would be missing from what is read. -/
theorem oneLine_header {root : Text} {rest : List Text} {document : ManifestDocument}
    (h : parseManifestDocument (writeLines ((rootHeader ++ root) :: rest)) = .ok document)
    (hroot : pathComponents document.root = pathComponents root) : OneLine (rootHeader ++ root) := by
  have hcount : ∀ c, c ≠ '/' → c ≠ '.' → document.root.count c = root.count c := by
    intro c hslash hdot
    calc document.root.count c = (pathComponents document.root).2.flatten.count c :=
          (count_pathComponents hslash hdot _).symm
      _ = (pathComponents root).2.flatten.count c := by rw [hroot]
      _ = root.count c := count_pathComponents hslash hdot _
  have htext : writeLines ((rootHeader ++ root) :: rest)
      = (rootHeader ++ root) ++ '\n' :: writeLines rest := by
    simp [writeLines]
  obtain ⟨first, more, hlines, hfirst⟩ : ∃ first more,
      lines (writeLines ((rootHeader ++ root) :: rest)) = first :: more
        ∧ stripPrefix rootHeader first = some document.root := by
    unfold parseManifestDocument at h
    split at h
    · simp at h
    · rename_i first more hlines
      split at h
      · simp at h
      · rename_i r hr
        simp only [bind_eq_ok, pure_eq_ok] at h
        obtain ⟨-, -, rfl⟩ := h
        exact ⟨first, more, hlines, hr⟩
  have hfeed : '\n' ∉ root := by
    have hmem : first ∈ lines (writeLines ((rootHeader ++ root) :: rest)) := by simp [hlines]
    have hnot := notMem_of_mem_lines hmem
    rw [stripPrefix_eq_some] at hfirst
    rw [← hfirst, List.mem_append, not_or] at hnot
    rw [← List.count_eq_zero, ← hcount '\n' (by decide) (by decide), List.count_eq_zero]
    exact hnot.2
  refine oneLine_append (by decide) ⟨hfeed, fun hlast => ?_⟩
  have hcut := List.dropLast_append_getLast? '\r' hlast
  have hfirst' : first = rootHeader ++ root.dropLast := by
    have hno : '\n' ∉ rootHeader ++ root := by
      simp only [List.mem_append, not_or]
      exact ⟨by decide, hfeed⟩
    rw [htext, lines_line_eq _ hno, ← hcut, ← List.append_assoc, stripSuffix_append] at hlines
    exact (List.cons.inj hlines).1.symm
  rw [hfirst', stripPrefix_append, Option.some.injEq] at hfirst
  have hr := hcount '\r' (by decide) (by decide)
  rw [← hfirst, ← hcut] at hr
  simp at hr

end Written

section NoOp

variable {γ E : Type} [Content γ] {links : Links γ E} {w : World γ E} {session : Session}
  {document : ManifestDocument} {plans : List (EntryScope × Plan)}

/-- The lines of an accepted unedited manifest are those that were written. -/
theorem Accepted.reads (h : Accepted links session w document plans)
    (hun : Unedited links w session) (hlegal : LegalNames session.sidecar)
    (hsafe : SafeNames session.sidecar) :
    Reads session.sidecar.subdirs session.sidecar.entries document.lines := by
  have hparsed := h.parsed
  rw [hun.text, renderCanonicalManifest] at hparsed
  have hheader := oneLine_header hparsed h.header
  have hone : ∀ l ∈ (rootHeader ++ session.sidecar.root) :: ignoredHeader
      :: session.sidecar.entries.flatMap (renderEntryLines session.sidecar.subdirs), OneLine l := by
    rw [List.forall_mem_cons, List.forall_mem_cons]
    refine ⟨hheader, by decide, fun l hl => ?_⟩
    obtain ⟨e, he, hl⟩ := List.mem_flatMap.1 hl
    exact oneLine_renderEntryLines hsafe e he l hl
  rw [parseManifestDocument, lines_writeLines hone] at hparsed
  simp only [stripPrefix_append, bodyLines, List.head?_cons, ↓reduceIte, List.tail_cons,
    bind_eq_ok, pure_eq_ok] at hparsed
  obtain ⟨parsed, hp, rfl⟩ := hparsed
  exact parseLines_rendered (blockSafe_of_names hlegal hsafe) hp

/-- An accepted unedited manifest of safe names plans nothing. -/
theorem Accepted.operations_eq_nil (h : Accepted links session w document plans)
    (hun : Unedited links w session) (hlegal : LegalNames session.sidecar)
    (hsafe : SafeNames session.sidecar) : ∀ p ∈ plans, p.2.operations = [] := by
  have hreads := h.reads hun hlegal hsafe
  have hlisted : ∀ scope k, k ∈ (keptLines document scope).map (·.key)
      ↔ ∃ x ∈ session.sidecar.entries, InBlock session.sidecar.subdirs x scope k := by
    intro scope k
    rw [← hreads.listed, List.mem_map]
    constructor
    · rintro ⟨e, he, rfl⟩
      obtain ⟨he, -, hs⟩ := mem_keptLines.1 he
      exact ⟨e, mem_entries.1 he, hs, rfl⟩
    · rintro ⟨e, he, hs, rfl⟩
      refine ⟨e, mem_keptLines.2 ⟨mem_entries.2 he, ?_, hs⟩, rfl⟩
      simp [hreads.marks e he]
  -- what the lines of an inserted subdirectory list, whichever of its states is asked
  have hblock : ∀ name ∈ document.visibleSubdirs, ∀ state ∈ session.sidecar.subdirs,
      state.relativePath = name → ∀ k, k ∈ (keptLines document (.subdir name)).map (·.key)
        ↔ k ∈ state.entries.map (·.key) := by
    rintro name hname state hstate rfl k
    obtain ⟨x, hx, hpath, hsome⟩ := (hreads.starts _).1 (mem_visibleSubdirs.1 hname)
    obtain ⟨written, hmap⟩ := Option.isSome_iff_exists.1 hsome
    obtain ⟨hwritten, hwpath⟩ := subdirMap_path hmap
    rw [hlisted, ← hun.keys_iff hwritten hstate hwpath]
    constructor
    · rintro ⟨y, -, ⟨hroot, -⟩ | ⟨st, hst, hscope, hk⟩⟩
      · simp at hroot
      · rw [← EntryScope.subdir.inj hscope, hmap, Option.some.injEq] at hst
        exact hst ▸ hk
    · exact fun hk => ⟨x, hx, .inr ⟨written, hpath ▸ hmap, by rw [hpath], hk⟩⟩
  intro p hp
  rcases h.plan_of_mem hp with ⟨original, ho, hb, hne⟩ | ⟨state, hs, rfl⟩
  · obtain ⟨scope, plan⟩ := p
    obtain ⟨e, hkept⟩ := List.exists_mem_of_ne_nil _ hne
    obtain ⟨he, -, hsc⟩ := mem_keptLines.1 hkept
    have hrep : Represented document scope := by
      rcases scope with _ | name
      · trivial
      · exact h.visible he hsc
    refine (operations_eq_nil_iff hb (h.nodup_original hrep ho)).2 fun k => ?_
    rcases scope with _ | name
    · simp only [snapshotOf, pure_eq_ok] at ho
      rw [hlisted, ← ho]
      constructor
      · rintro ⟨x, hx, ⟨-, rfl⟩ | ⟨_, -, hroot, -⟩⟩
        · exact List.mem_map_of_mem hx
        · simp at hroot
      · intro hk
        obtain ⟨x, hx, rfl⟩ := List.mem_map.1 hk
        exact ⟨x, hx, .inl ⟨rfl, rfl⟩⟩
    · obtain ⟨state, sub, hfind, -, -⟩ := h.subdirCurrent name hrep
      simp only [snapshotOf, hfind, pure_eq_ok] at ho
      rw [← ho]
      exact hblock name hrep state (List.mem_of_find?_eq_some hfind)
        (by simpa using List.find?_some hfind) k
  · obtain ⟨hstate, hempty⟩ := mem_emptiedStates.1 hs
    obtain ⟨hvis, -, hne⟩ := emptiedBlock_iff.1 hempty
    obtain ⟨c, hc⟩ := List.exists_mem_of_ne_nil _ hne
    have hk := (hblock _ hvis state hstate rfl c.key).2 (List.mem_map_of_mem hc)
    rw [keptLines_of_emptied hempty] at hk
    simp at hk

/-- In an accepted session, whatever its text, a plan without operations meets only safe names. -/
theorem Accepted.lineSafe_of_nil (h : Accepted links session w document plans)
    {p : EntryScope × Plan} (hp : p ∈ plans) (hnil : p.2.operations = [])
    {original : List SnapshotEntry} (ho : snapshotOf session.sidecar p.1 = .ok original) :
    ∀ e ∈ original, LineSafe e := by
  intro s hs
  rcases h.plan_of_mem hp with ⟨original', ho', hb, hne⟩ | ⟨state, hstate, rfl⟩
  · have heq : original' = original := Except.ok.inj (ho'.symm.trans ho)
    subst heq
    obtain ⟨scope, plan⟩ := p
    obtain ⟨e, hkept⟩ := List.exists_mem_of_ne_nil _ hne
    obtain ⟨he, -, hsc⟩ := mem_keptLines.1 hkept
    have hrep : Represented document scope := by
      rcases scope with _ | name
      · trivial
      · exact h.visible he hsc
    have hsame := (operations_eq_nil_iff hb (h.nodup_original hrep ho)).1 hnil
    obtain ⟨x, hx, hkey⟩ := List.mem_map.1 ((hsame s.key).2 (List.mem_map_of_mem hs))
    obtain ⟨hx, -, -⟩ := mem_keptLines.1 hx
    have hname : x.relativePath = s.relativePath := congrArg Prod.fst hkey
    have hvalid := (names_of_validate h.entries).1 x hx
    simp only [validateEntryName, bind_eq_ok, ensure_eq_ok] at hvalid
    obtain ⟨-, hnonempty, -, htrim, -⟩ := hvalid
    rw [hname] at htrim hnonempty
    refine ⟨hname ▸ notMem_of_parsed h.parsed hx, fun _ => ⟨fun hlast => ?_, fun hblank => ?_⟩⟩
    · have := getLast_trim htrim hlast
      simp [isWhitespace] at this
    · rw [hblank] at htrim
      exact hnonempty (String.toList_inj.1 htrim)
  · obtain ⟨-, hempty⟩ := mem_emptiedStates.1 hstate
    have hne := (emptiedBlock_iff.1 hempty).2.2
    simp [emptiedPlan, hne] at hnil

/-- Applying a manifest as it was written: with safe names every plan is empty, and a plan is
empty only where the names of its scope are safe. -/
theorem unedited_operations {root : Text} {previous : Option Sidecar} {names : List String}
    {now : ℕ} (hwrite : rewriteSessionFiles links root previous names now w = .ok session)
    (hlegal : LegalNames session.sidecar)
    (hpre : preflight links session w = .ok (document, plans)) :
    (SafeNames session.sidecar → ∀ p ∈ plans, p.2.operations = [])
      ∧ ∀ p ∈ plans, p.2.operations = [] → ∀ original,
        snapshotOf session.sidecar p.1 = .ok original → ∀ e ∈ original, LineSafe e := by
  have h := accepted_of_preflight hpre
  exact ⟨h.operations_eq_nil (unedited_of_rewrite hwrite) hlegal,
    fun p hp hnil original ho => h.lineSafe_of_nil hp hnil ho⟩

/-- The plan of two files whose lines are as they were written. -/
def pairPlan : EntryScope × Plan :=
  (.root, ⟨"/r", [], [⟨"a.txt", .file, 3, .none, .root⟩, ⟨"b.txt", .file, 4, .none, .root⟩]⟩)

theorem pair_unedited : pairPlan.2.operations = [] := by
  have hwrite : rewriteSessionFiles noLinks "/r".toList none [] 5 pairWorld
      = .ok (pairSession "  a.txt" "  b.txt") := by decide
  have hpre : preflight noLinks (pairSession "  a.txt" "  b.txt") pairWorld
      = .ok (pairDocument .none .none, [pairPlan]) := by decide
  exact (unedited_operations hwrite (by decide) hpre).1 (by decide) pairPlan List.mem_cons_self

/-- A root with a file whose name is a single space. -/
def blankWorld : World Unit Unit :=
  ⟨.ofList [(" ", .leaf ⟨1, 1⟩ (.regular [7])), ("a.txt", .leaf ⟨2, 1⟩ (.regular [8]))], ()⟩

/-- The session as it is written for that root. -/
def blankSession : Session :=
  ⟨⟨2, "/r".toList, 5, 3, [⟨1, 0, " ", .file, 1, 1⟩, ⟨2, 1, "a.txt", .file, 2, 1⟩], []⟩,
    writeLines (["# hx-oil root: /r", "# blank lines and comment lines are ignored", "   ",
      "  a.txt"].map String.toList)⟩

/-- The blank line of that file is skipped, and so the unedited manifest deletes it. -/
theorem blankName_deleted :
    rewriteSessionFiles noLinks "/r".toList none [] 5 blankWorld = .ok blankSession
      ∧ LegalNames blankSession.sidecar
      ∧ preflight noLinks blankSession blankWorld = .ok (⟨"/r".toList, [.blank 3,
          .entry ⟨"a.txt", .file, 4, .none, .root⟩]⟩,
        [(.root, ⟨"/r", [.delete " " .file], [⟨"a.txt", .file, 4, .none, .root⟩]⟩)])
      ∧ dryRunApply noLinks blankSession blankWorld = .ok "DELETE FILE  \n"
      ∧ (applyManifest noLinks mixedStamp blankSession 7 blankWorld).1.root.lookup " " = none := by
  decide

end NoOp

end OnixCore.HxOil
