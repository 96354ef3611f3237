import OnixCore.HxOil.Proofs.Sidecar
import OnixCore.HxOil.Store

/-!
# Collecting sessions

A command writes both files of a session in place, so its directory stays as old as the render that
made it (`agrees_step`). Collecting spares the sessions in use exactly when no session is in use
that was rendered, or else touched, longer ago than the retention (`gc_spares_iff`).
-/

namespace OnixCore.HxOil

section Directories

variable {session : Session} {now : ℕ} {dir : SessionDir} {id : String} {sessions : Sessions}

theorem writtenAt_write (file f : SessionFile) : (dir.write session now f).writtenAt file
    = if file = f then some now else dir.writtenAt file := by
  cases f <;> cases file <;> rfl

theorem writtenAt_writeAll (file : SessionFile) : ∀ (files : List SessionFile) (dir : SessionDir),
    (dir.writeAll session now files).writtenAt file
      = if file ∈ files then some now else dir.writtenAt file
  | [], dir => rfl
  | f :: files, dir => by
    rw [SessionDir.writeAll, List.foldl_cons, ← SessionDir.writeAll, writtenAt_writeAll,
      writtenAt_write]
    by_cases hf : file = f
    · simp [hf]
    · simp [hf]

/-- Files that are there are written in place. -/
theorem modified_writeAll : ∀ (files : List SessionFile) {dir : SessionDir},
    (∀ file, (dir.writtenAt file).isSome) →
      (dir.writeAll session now files).modified = dir.modified
  | [], _, _ => rfl
  | f :: files, dir, h => by
    have hnext : ∀ file, ((dir.write session now f).writtenAt file).isSome := by
      intro file
      rw [writtenAt_write]
      split_ifs
      · rfl
      · exact h file
    have hkeep : (dir.write session now f).modified = dir.modified := by
      have hf := h f
      cases f <;> simp only [SessionDir.writtenAt, Option.isSome_map] at hf <;>
        simp [SessionDir.write, hf]
    rw [SessionDir.writeAll, List.foldl_cons, ← SessionDir.writeAll, modified_writeAll files hnext,
      hkeep]

/-- A directory that is made now is modified now, whatever is written in it. -/
theorem modified_writeAll_new : ∀ (files : List SessionFile) {dir : SessionDir},
    dir.modified = now → (dir.writeAll session now files).modified = now
  | [], _, h => h
  | f :: files, dir, h => by
    have hnext : (dir.write session now f).modified = now := by
      cases f <;> simp [SessionDir.write, h]
    exact modified_writeAll_new files hnext

theorem isSome_writtenAt_of_stored {stored : Session} (h : dir.stored = some stored)
    (file : SessionFile) : (dir.writtenAt file).isSome := by
  unfold SessionDir.stored at h
  split at h
  next manifest sidecar hmanifest hsidecar =>
    cases file
    · simp [SessionDir.writtenAt, hmanifest]
    · simp [SessionDir.writtenAt, hsidecar]
  next => cases h

theorem stale_iff : dir.stale now = true ↔ dir.modified + sessionRetention < now := by
  rw [SessionDir.stale, decide_eq_true_eq]
  omega

/-- Collecting removes the stale directories and no others. -/
theorem lookup_gcSessionsAt : (gcSessionsAt now sessions).1.lookup id = some dir
    ↔ sessions.lookup id = some dir ∧ dir.stale now = false := by
  rw [← Option.mem_def, ← Option.mem_def, AList.mem_lookup_iff, AList.mem_lookup_iff, gcSessionsAt,
    List.mem_filter]
  simp

theorem lookup_gcSessionsAt_eq_none : (gcSessionsAt now sessions).1.lookup id = none
    ↔ ∀ dir, sessions.lookup id = some dir → dir.stale now = true := by
  simp only [Option.eq_none_iff_forall_ne_some, ne_eq, lookup_gcSessionsAt, not_and,
    Bool.not_eq_false]

theorem mem_removed : id ∈ (sessions.entries.filter fun e => e.2.stale now).map Sigma.fst
    ↔ ∃ dir, sessions.lookup id = some dir ∧ dir.stale now = true := by
  rw [List.mem_map]
  constructor
  · rintro ⟨⟨_, dir⟩, he, rfl⟩
    obtain ⟨hmem, hstale⟩ := List.mem_filter.1 he
    exact ⟨dir, AList.mem_lookup_iff.2 hmem, hstale⟩
  · rintro ⟨dir, hdir, hstale⟩
    exact ⟨⟨id, dir⟩, List.mem_filter.2 ⟨AList.mem_lookup_iff.1 hdir, hstale⟩, rfl⟩

end Directories

section Histories

variable {γ E : Type} [Content γ] {host : Host γ E}

/-- When the directory of the session was last given an entry, by the render that made it or by
something else; the latest event comes first. -/
def entered (id : String) : List StoreEvent → Option ℕ
  | [] => none
  | .rendered other now _ :: past => if other = id then some now else entered id past
  | .touched other now :: past => if other = id then some now else entered id past
  | .collected _ removed :: past => if id ∈ removed then none else entered id past
  | .ran _ _ _ :: past => entered id past
  | .external :: past => entered id past

/-- When the file of the session was last written. -/
def written (file : SessionFile) (id : String) : List StoreEvent → Option ℕ
  | [] => none
  | .rendered other now files :: past =>
    if other = id then (if file ∈ files then some now else none) else written file id past
  | .ran other now files :: past =>
    if other = id ∧ file ∈ files then some now else written file id past
  | .collected _ removed :: past => if id ∈ removed then none else written file id past
  | .touched _ _ :: past => written file id past
  | .external :: past => written file id past

/-- The directories have the times of the history. -/
def Agrees (past : List StoreEvent) (s : SessionStore γ E) : Prop :=
  ∀ id, (s.sessions.lookup id).map (·.modified) = entered id past
    ∧ ∀ file, (s.sessions.lookup id).bind (·.writtenAt file) = written file id past

omit [Content γ] in
theorem Agrees.insert {past : List StoreEvent} {e : StoreEvent} {s : SessionStore γ E}
    {w : World γ E} {id : String} {dir : SessionDir} (h : Agrees past s)
    (hentered : entered id (e :: past) = some dir.modified)
    (hwritten : ∀ file, written file id (e :: past) = dir.writtenAt file)
    (hother : ∀ other, other ≠ id → entered other (e :: past) = entered other past
      ∧ ∀ file, written file other (e :: past) = written file other past) :
    Agrees (e :: past) ⟨w, s.sessions.insert id dir⟩ := by
  intro other
  by_cases heq : other = id
  · subst heq
    rw [AList.lookup_insert, hentered]
    exact ⟨rfl, fun file => (hwritten file).symm⟩
  · obtain ⟨hmodified, hfile⟩ := hother other heq
    rw [AList.lookup_insert_ne heq, hmodified]
    exact ⟨(h other).1, fun file => (hfile file).symm ▸ (h other).2 file⟩

/-- A step changes the directories as it changes the history. A command does not modify its
directory, since it loads both files and so makes none. -/
theorem agrees_step {past : List StoreEvent} {s t : SessionStore γ E} {e : StoreEvent}
    (h : Agrees past s) (hstep : StoreStep host s e t) : Agrees (e :: past) t := by
  cases hstep with
  | @rendered id root created now session files hnew hfiles hrender =>
    refine h.insert ?_ (fun file => ?_) fun other hne => ?_
    · rw [@modified_writeAll_new session now files _ rfl]
      exact if_pos rfl
    · rw [writtenAt_writeAll]
      cases file <;> exact if_pos rfl
    · exact ⟨if_neg hne.symm, fun file => if_neg hne.symm⟩
  | @ran id op now dir stored session w files hdir hstored hrun hfiles =>
    obtain ⟨hmodified, hwritten⟩ := h id
    rw [hdir] at hmodified hwritten
    refine h.insert ?_ (fun file => ?_) fun other hne => ?_
    · rw [modified_writeAll files (isSome_writtenAt_of_stored hstored)]
      exact hmodified.symm
    · rw [writtenAt_writeAll, show dir.writtenAt file = written file id past from hwritten file]
      simp [written]
    · exact ⟨rfl, fun file => if_neg fun hand => hne hand.1.symm⟩
  | failed hdir hstored hrun =>
    refine fun id => ⟨(h id).1, fun file => ?_⟩
    simpa [written] using (h id).2 file
  | @touched id now dir hdir =>
    obtain ⟨-, hwritten⟩ := h id
    rw [hdir] at hwritten
    refine h.insert (if_pos rfl) (fun file => ?_) fun other hne => ⟨if_neg hne.symm, fun _ => rfl⟩
    exact (hwritten file).symm
  | @collected now =>
    intro id
    by_cases hremoved : id ∈ (s.sessions.entries.filter fun e => e.2.stale now).map Sigma.fst
    · obtain ⟨dir, hdir, hstale⟩ := mem_removed.1 hremoved
      have hnone : (gcSessionsAt now s.sessions).1.lookup id = none :=
        lookup_gcSessionsAt_eq_none.2 fun other hother =>
          Option.some.inj (hdir.symm.trans hother) ▸ hstale
      rw [hnone, entered, if_pos hremoved]
      exact ⟨rfl, fun file => by rw [written, if_pos hremoved]; rfl⟩
    · have hkept : (gcSessionsAt now s.sessions).1.lookup id = s.sessions.lookup id := by
        refine Option.ext fun dir => ?_
        rw [lookup_gcSessionsAt, and_iff_left_iff_imp]
        exact fun hdir => Bool.eq_false_iff.2 fun hstale => hremoved (mem_removed.2 ⟨dir, hdir, hstale⟩)
      rw [hkept, entered, if_neg hremoved]
      exact ⟨(h id).1, fun file => by rw [written, if_neg hremoved, (h id).2]⟩
  | external => exact h

/-- The file was written in the time before `now` that a session is kept for. -/
def Recent (now written : ℕ) : Prop := written ≤ now ∧ now ≤ written + sessionRetention

/-- Collecting removes no session with a file that was written recently. -/
def SparesLive (now : ℕ) (sessions : Sessions) : Prop :=
  ∀ id dir, sessions.lookup id = some dir → (gcSessionsAt now sessions).1.lookup id = none →
    ∀ file t, dir.writtenAt file = some t → ¬ Recent now t

/-- After any run, collecting spares the sessions that were written recently exactly when none of
them was last given an entry longer ago than the retention. -/
theorem gc_spares_iff {w : World γ E} {steps : List (StoreEvent × SessionStore γ E)}
    (hr : Run (StoreStep host) (emptyStore w) steps) (now : ℕ) :
    SparesLive now (finalState (emptyStore w) steps).sessions
      ↔ ∀ id t, entered id (history steps) = some t → t + sessionRetention < now →
        ∀ file u, written file id (history steps) = some u → ¬ Recent now u := by
  have hstart : Agrees (E := E) [] (emptyStore w) := fun id => ⟨rfl, fun file => rfl⟩
  have hagrees : Agrees (history steps) (finalState (emptyStore w) steps) := by
    simpa using hr.history_invariant (fun _ _ _ _ h hstep => agrees_step h hstep) hstart
  have hsame : ∀ {id dir}, (finalState (emptyStore w) steps).sessions.lookup id = some dir →
      entered id (history steps) = some dir.modified
        ∧ ∀ file, written file id (history steps) = dir.writtenAt file := by
    intro id dir hdir
    obtain ⟨hmodified, hwritten⟩ := hagrees id
    rw [hdir] at hmodified hwritten
    exact ⟨hmodified.symm, fun file => (hwritten file).symm⟩
  constructor
  · intro hspares id t ht hold file u hu
    obtain ⟨dir, hdir, rfl⟩ := Option.map_eq_some_iff.1 ((hagrees id).1.trans ht)
    refine hspares id dir hdir (lookup_gcSessionsAt_eq_none.2 fun other hother => ?_) file u
      (((hsame hdir).2 file).symm.trans hu)
    obtain rfl := Option.some.inj (hdir.symm.trans hother)
    exact stale_iff.2 hold
  · intro hused id dir hdir hnone file t ht
    obtain ⟨hmodified, hwritten⟩ := hsame hdir
    exact hused id _ hmodified (stale_iff.1 (lookup_gcSessionsAt_eq_none.1 hnone dir hdir)) file t
      ((hwritten file).trans ht)

def day : ℕ := 24 * 60 * 60 * 1000000000

def notesDir : SessionDir :=
  SessionDir.writeAll notesRendered 0 rewrittenFiles ⟨0, none, none⟩

/-- The manifest after its only line is marked. -/
def notesMarked : Session := notesAfter notesRendered (.markToggle [3])

/-- A session that is rendered at the beginning and marked some days later. -/
def markedSteps (days : ℕ) : List (StoreEvent × SessionStore Unit Unit) :=
  [(.rendered "notes" 0 rewrittenFiles,
      ⟨notesWorld, (emptyStore notesWorld).sessions.insert "notes" notesDir⟩),
    (.ran "notes" (days * day) [.manifest],
      ⟨notesWorld, ((emptyStore notesWorld).sessions.insert "notes" notesDir).insert "notes"
        (notesDir.writeAll notesMarked (days * day) [.manifest])⟩)]

theorem markedSteps_run (days : ℕ) :
    Run (StoreStep plainHost) (emptyStore notesWorld) (markedSteps days) := by
  have hrender : renderSession plainHost.links "/r".toList 5 notesWorld = .ok notesRendered := by
    decide
  have hmark : runOp plainHost notesRendered notesWorld (.markToggle [3])
      = (notesWorld, .ok notesMarked) :=
    notes_step rfl (by decide)
  refine .cons (.rendered rfl (List.prefix_refl _) fun _ => hrender) (.cons ?_ (.nil _))
  exact .ran rfl rfl hmark (List.prefix_refl _)

/-- The session is collected the moment after it was marked, on its eighth day. -/
theorem marked_collected :
    Run (StoreStep plainHost) (emptyStore notesWorld) (markedSteps 8)
      ∧ ¬ SparesLive (8 * day + 1) (finalState (emptyStore notesWorld) (markedSteps 8)).sessions := by
  refine ⟨markedSteps_run 8, fun hspares => ?_⟩
  have hstale : (gcSessionsAt (8 * day + 1)
      (finalState (emptyStore notesWorld) (markedSteps 8)).sessions).1.lookup "notes" = none := by
    refine lookup_gcSessionsAt_eq_none.2 fun dir hdir => ?_
    obtain rfl := Option.some.inj hdir
    decide
  exact hspares "notes" _ rfl hstale .manifest (8 * day) rfl ⟨by omega, by unfold sessionRetention day; omega⟩

/-- On its sixth day it is not. -/
theorem marked_spared :
    SparesLive (6 * day) (finalState (emptyStore notesWorld) (markedSteps 5)).sessions := by
  refine (gc_spares_iff (markedSteps_run 5) (6 * day)).2 fun id t ht hold => ?_
  have hrendered : t = 0 := by
    by_cases hid : "notes" = id
    · simpa [history, markedSteps, entered, hid] using ht.symm
    · simp [history, markedSteps, entered, hid] at ht
  rw [hrendered, sessionRetention, day] at hold
  omega

end Histories

end OnixCore.HxOil
