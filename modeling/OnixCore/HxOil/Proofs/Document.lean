import OnixCore.HxOil.Proofs.Listing

/-!
# What an accepted manifest has passed

`preflight_eq_ok` takes the checks both commands make apart. Beside it stand the two facts about
a document that none of the checks states: a line inside a block belongs to a visible
subdirectory, and a scope lists a name at most once.
-/

namespace OnixCore.HxOil

section Parsing

theorem scope_parseManifestEntryLine {n : ℕ} {line : Text} {scope : EntryScope}
    {e : ManifestEntry} (h : parseManifestEntryLine n line scope = .ok e) : e.scope = scope := by
  simp only [parseManifestEntryLine, bind_eq_ok, pure_eq_ok] at h
  obtain ⟨-, -, rfl⟩ := h
  rfl

/-- `ReadsAs n current line l next`: inside the block `current`, line `n` is read as `l`, and the
lines after it stand in the block `next`. -/
inductive ReadsAs (n : ℕ) : Option String → Text → ManifestLine → Option String → Prop
  | start {line name : Text} (h : Text.stripPrefix subdirMarker line = some name) :
      ReadsAs n none line (.subdirStart (String.ofList name) n) (some (String.ofList name))
  | stop {line name : Text} (h : Text.stripPrefix endSubdirMarker line = some name) :
      ReadsAs n (some (String.ofList name)) line (.subdirEnd (String.ofList name) n) none
  | blank {current : Option String} {line : Text} : ReadsAs n current line (.blank n) current
  | comment {current : Option String} {line : Text}
      (hstart : Text.stripPrefix subdirMarker line = none)
      (hend : Text.stripPrefix endSubdirMarker line = none) (hhead : line.head? = some '#') :
      ReadsAs n current line (.comment line n) current
  | entry {current : Option String} {line : Text} {e : ManifestEntry}
      (h : parseManifestEntryLine n line (scopeOf current) = .ok e) :
      ReadsAs n current line (.entry e) current

/-- Lines are read one after another. -/
theorem parseLines_cons {line : Text} {rest : List Text} {current : Option String} {n : ℕ}
    {parsed : List ManifestLine} (h : parseLines current n (line :: rest) = .ok parsed) :
    ∃ l more next, parsed = l :: more ∧ ReadsAs n current line l next
      ∧ parseLines next (n + 1) rest = .ok more := by
  unfold parseLines at h
  rcases hst : Text.stripPrefix subdirMarker line with _ | start
  · rcases hen : Text.stripPrefix endSubdirMarker line with _ | stop
    · simp only [hst, hen] at h
      split_ifs at h with hblank hhead
      · simp only [bind_eq_ok, pure_eq_ok] at h
        obtain ⟨more, hm, rfl⟩ := h
        exact ⟨_, more, _, rfl, .blank, hm⟩
      · simp only [bind_eq_ok, pure_eq_ok] at h
        obtain ⟨more, hm, rfl⟩ := h
        exact ⟨_, more, _, rfl, .comment hst hen hhead, hm⟩
      · simp only [bind_eq_ok, pure_eq_ok] at h
        obtain ⟨e, he, more, hm, rfl⟩ := h
        exact ⟨_, more, _, rfl, .entry he, hm⟩
    · simp only [hst, hen] at h
      cases current with
      | none => simp at h
      | some open_ =>
        simp only [bind_eq_ok, ensure_eq_ok, pure_eq_ok] at h
        obtain ⟨-, rfl, more, hm, rfl⟩ := h
        exact ⟨_, more, _, rfl, .stop hen, hm⟩
  · simp only [hst, bind_eq_ok, ensure_eq_ok, pure_eq_ok] at h
    obtain ⟨-, hnone, more, hm, rfl⟩ := h
    obtain rfl := Option.isNone_iff_eq_none.1 hnone
    exact ⟨_, more, _, rfl, .start hst, hm⟩

/-- The entries of a parsed rest are of the open block or of a block that starts in it. -/
theorem scope_parseLines : ∀ {ls : List Text} {current : Option String} {n : ℕ}
    {parsed : List ManifestLine}, parseLines current n ls = .ok parsed →
    ∀ e name, .entry e ∈ parsed → e.scope = .subdir name →
      current = some name ∨ ∃ m, .subdirStart name m ∈ parsed
  | [], current, n, parsed, h, e, name, he, _ => by
    simp only [parseLines, bind_eq_ok, pure_eq_ok] at h
    obtain ⟨-, -, rfl⟩ := h
    simp at he
  | line :: rest, current, n, parsed, h, e, name, he, hs => by
    obtain ⟨l, more, next, rfl, hread, hm⟩ := parseLines_cons h
    -- what the rest of the lines says carries over to the whole
    have later : .entry e ∈ more → next = some name ∨ ∃ m, .subdirStart name m ∈ l :: more :=
      fun hmem => (scope_parseLines hm e name hmem hs).imp_right
        (Exists.imp fun _ => List.mem_cons_of_mem _)
    cases hread with
    | start hst =>
      rcases later (by simpa using he) with hc | hc
      · exact .inr ⟨n, by simp [Option.some.inj hc]⟩
      · exact .inr hc
    | stop hen => exact (later (by simpa using he)).imp (by simp) id
    | blank => exact later (by simpa using he)
    | comment => exact later (by simpa using he)
    | entry hentry =>
      rcases List.mem_cons.1 he with heq | hmem
      · obtain rfl := ManifestLine.entry.inj heq
        rw [scope_parseManifestEntryLine hentry] at hs
        cases current <;> simp_all [scopeOf]
      · exact later hmem

theorem mem_entries {document : ManifestDocument} {e : ManifestEntry} :
    e ∈ document.entries ↔ .entry e ∈ document.lines := by
  simp only [ManifestDocument.entries, List.mem_filterMap]
  constructor
  · rintro ⟨l, hl, h⟩
    cases l <;> simp at h
    exact h ▸ hl
  · exact fun h => ⟨_, h, rfl⟩

theorem mem_visibleSubdirs {document : ManifestDocument} {name : String} :
    name ∈ document.visibleSubdirs ↔ ∃ n, .subdirStart name n ∈ document.lines := by
  simp only [ManifestDocument.visibleSubdirs, List.mem_filterMap]
  constructor
  · rintro ⟨l, hl, h⟩
    cases l <;> simp at h
    exact ⟨_, h ▸ hl⟩
  · exact fun ⟨n, h⟩ => ⟨_, h, rfl⟩

theorem lines_of_parse {text : Text} {document : ManifestDocument}
    (h : parseManifestDocument text = .ok document) :
    ∃ n ls, parseLines none n ls = .ok document.lines := by
  unfold parseManifestDocument at h
  split at h
  · simp at h
  · split at h
    · simp at h
    · simp only [bind_eq_ok, pure_eq_ok] at h
      obtain ⟨parsed, hp, rfl⟩ := h
      exact ⟨_, _, hp⟩

/-- Every line inside a block belongs to a visible inserted subdirectory. -/
theorem visible_of_scope {text : Text} {document : ManifestDocument} {e : ManifestEntry}
    {name : String} (h : parseManifestDocument text = .ok document) (he : e ∈ document.entries)
    (hs : e.scope = .subdir name) : name ∈ document.visibleSubdirs := by
  obtain ⟨n, ls, hp⟩ := lines_of_parse h
  rcases scope_parseLines hp e name (mem_entries.1 he) hs with hc | hc
  · simp at hc
  · exact mem_visibleSubdirs.2 hc

end Parsing

section Validation

theorem names_of_validate : ∀ {es : List ManifestEntry} {seen : List (EntryScope × String)},
    validateEntriesFrom seen es = .ok () →
    (∀ e ∈ es, validateEntryName e.relativePath e.kind e.lineNumber = .ok ())
      ∧ (∀ e ∈ es, (e.scope, e.relativePath) ∉ seen)
      ∧ (es.map fun e => (e.scope, e.relativePath)).Nodup
  | [], seen, _ => by simp
  | e :: rest, seen, h => by
    simp only [validateEntriesFrom, bind_eq_ok, ensure_eq_ok] at h
    obtain ⟨_, hname, -, hseen, hrest⟩ := h
    obtain ⟨hn, hs, hd⟩ := names_of_validate hrest
    refine ⟨?_, ?_, ?_⟩
    · rw [List.forall_mem_cons]
      exact ⟨hname, hn⟩
    · rw [List.forall_mem_cons]
      exact ⟨hseen, fun x hx => fun hx' => hs x hx (List.mem_cons_of_mem _ hx')⟩
    · rw [List.map_cons, List.nodup_cons]
      refine ⟨fun hmem => ?_, hd⟩
      obtain ⟨x, hx, heq⟩ := List.mem_map.1 hmem
      exact hs x hx (heq ▸ List.mem_cons_self)

theorem nodup_inScope {es : List ManifestEntry}
    (h : (es.map fun e => (e.scope, e.relativePath)).Nodup) (scope : EntryScope) :
    ((inScope scope es).map (·.relativePath)).Nodup := by
  have hsub := h.sublist (List.filter_sublist.map _ : List.Sublist
    ((inScope scope es).map fun e => (e.scope, e.relativePath)) _)
  have heq : (inScope scope es).map (fun e => (e.scope, e.relativePath))
      = ((inScope scope es).map (·.relativePath)).map (fun n => (scope, n)) := by
    rw [List.map_map]
    refine List.map_congr_left fun e he => ?_
    have : e.scope = scope := by simpa using (List.mem_filter.1 he).2
    simp [this]
  rw [← inScope, heq] at hsub
  exact hsub.of_map

/-- The unflagged lines of a scope: what the plan of the scope is built from. -/
def keptLines (document : ManifestDocument) (scope : EntryScope) : List ManifestEntry :=
  inScope scope (unflagged document.entries)

theorem mem_keptLines {document : ManifestDocument} {scope : EntryScope} {e : ManifestEntry} :
    e ∈ keptLines document scope
      ↔ e ∈ document.entries ∧ e.mark ≠ .deleteFlagged ∧ e.scope = scope := by
  simp only [keptLines, inScope, unflagged, List.mem_filter, decide_eq_true_eq, and_assoc]

theorem nodup_keptLines {document : ManifestDocument}
    (h : (document.entries.map fun e => (e.scope, e.relativePath)).Nodup) (scope : EntryScope) :
    ((keptLines document scope).map (·.relativePath)).Nodup :=
  nodup_inScope (h.sublist (List.filter_sublist.map _)) scope

end Validation

section Preflight

variable {γ E : Type} [Content γ] {links : Links γ E} {session : Session} {w : World γ E}
  {document : ManifestDocument} {plans : List (EntryScope × Plan)}

/-- What the checks of `preflight` say. -/
structure Accepted (links : Links γ E) (session : Session) (w : World γ E)
    (document : ManifestDocument) (plans : List (EntryScope × Plan)) : Prop where
  parsed : parseManifestDocument session.text = .ok document
  header : Text.pathComponents document.root = Text.pathComponents session.sidecar.root
  rootCurrent : snapshotListsMatch (collectSnapshot w.root) session.sidecar.entries = true
  subdirCurrent : ∀ name ∈ document.visibleSubdirs, ∃ state sub,
    session.sidecar.findSubdir name = some state ∧ w.readSubdir links name = some sub
      ∧ snapshotListsMatch (collectSnapshot sub) state.entries = true
  entries : validateDocumentEntries document = .ok ()
  parents : ∀ name ∈ document.visibleSubdirs, name ∈ rootDirectoryLines document
  planned : buildApplyPlans session.sidecar document = .ok plans
  targets : ∀ p ∈ plans, validateScopeTargets links w p.1 p.2 = .ok ()

omit [Content γ] in
theorem validateApplySnapshot_eq_ok {sidecar : Sidecar} :
    validateApplySnapshot links sidecar document w = .ok ()
      ↔ snapshotListsMatch (collectSnapshot w.root) sidecar.entries = true
        ∧ ∀ name ∈ document.visibleSubdirs, ∃ state sub,
          sidecar.findSubdir name = some state ∧ w.readSubdir links name = some sub
            ∧ snapshotListsMatch (collectSnapshot sub) state.entries = true := by
  simp only [validateApplySnapshot, bind_eq_ok, ensure_eq_ok, forM_eq_ok]
  constructor
  · rintro ⟨_, hroot, hsub⟩
    refine ⟨hroot, fun name hname => ?_⟩
    have hcheck := hsub name hname
    rcases hst : sidecar.findSubdir name with _ | state
    · simp [hst] at hcheck
    · rcases hrd : w.readSubdir links name with _ | sub
      · simp [hst, hrd] at hcheck
      · simp only [hst, hrd, ensure_eq_ok] at hcheck
        exact ⟨state, sub, rfl, rfl, hcheck⟩
  · rintro ⟨hroot, hsub⟩
    refine ⟨(), hroot, fun name hname => ?_⟩
    obtain ⟨state, sub, hstate, hread, hmatch⟩ := hsub name hname
    simp only [hstate, hread, ensure_eq_ok, hmatch]

theorem accepted_of_preflight (h : preflight links session w = .ok (document, plans)) :
    Accepted links session w document plans := by
  simp only [preflight, bind_eq_ok, pure_eq_ok, Prod.mk.injEq] at h
  obtain ⟨doc, hdoc, _, hcur, _, hent, _, hpar, pls, hpl, _, htgt, rfl, rfl⟩ := h
  simp only [parseAndValidateDocument, bind_eq_ok, ensure_eq_ok, pure_eq_ok] at hdoc
  obtain ⟨_, hparse, -, hhead, rfl⟩ := hdoc
  obtain ⟨hroot, hsub⟩ := validateApplySnapshot_eq_ok.1 hcur
  rw [forM_eq_ok] at htgt
  unfold validateVisibleSubdirRoots at hpar
  rw [forM_eq_ok] at hpar
  refine ⟨hparse, hhead, hroot, hsub, hent, fun name hname => ?_, hpl, htgt⟩
  simpa using hpar name hname

namespace Accepted

theorem visible (h : Accepted links session w document plans) {e : ManifestEntry} {name : String}
    (he : e ∈ document.entries) (hs : e.scope = .subdir name) : name ∈ document.visibleSubdirs :=
  visible_of_scope h.parsed he hs

theorem distinct (h : Accepted links session w document plans) (scope : EntryScope) :
    ((keptLines document scope).map (·.relativePath)).Nodup :=
  nodup_keptLines (names_of_validate h.entries).2.2 scope

end Accepted

theorem dryRunApply_eq_ok {report : String} : dryRunApply links session w = .ok report
    ↔ ∃ document plans, preflight links session w = .ok (document, plans)
      ∧ renderPlans plans = report := by
  simp only [dryRunApply, bind_eq_ok, pure_eq_ok, Prod.exists]

end Preflight

end OnixCore.HxOil
