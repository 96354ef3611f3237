import OnixCore.MergeWhenGreen.Push

/-!
# Which commits a push discards

The pushed head reaches the fetched commit, what was rebased and, where nothing had to be, the local
history (`reaches_head`). The push takes the place of whatever the branch holds, so a run keeps the
commits that it has not seen exactly when there are none at its push (`unseen_kept_iff`).
-/

namespace OnixCore.MergeWhenGreen

variable {Change : Type} {setting : Setting Change}

section Specification

variable (setting : Setting Change)

/-- The commit is reached from the head to be pushed, as it is or rebased, or it was reached from the
remote-tracking branch when the run started. -/
def Spared (s : State Change) (c : Commit Change) : Prop :=
  s.head.Reaches c ∨ (∃ made, (c, made) ∈ s.rebased ∧ s.head.Reaches made)
    ∨ ∃ known, setting.tracking (branchName setting) = some known ∧ known.Reaches c

/-- A push spares every commit that the branch has then. -/
def SparesBranch (s : State Change) (event : Event Change) : Prop :=
  event = .push → ∀ r, s.remote (branchName setting) = some r → ∀ c, r.Reaches c →
    Spared setting s c

/-- The run has seen the commit: on the default branch as it was fetched, on the remote-tracking
branch at the start, or as a local commit that the rebase leaves alone or takes over, or it has made
it. -/
def Seen (s : State Change) (c : Commit Change) : Prop :=
  (∃ upstream, s.phase = .prepared upstream ∧ upstream.Reaches c)
    ∨ (∃ known, setting.tracking (branchName setting) = some known ∧ known.Reaches c)
    ∨ (s.head = setting.head ∧ setting.head.Reaches c)
    ∨ ∃ pair ∈ s.rebased, pair.1 = c ∨ pair.2 = c

/-- At a push the branch has no commit that the run has not seen. -/
def SeenBranch (s : State Change) (event : Event Change) : Prop :=
  event = .push → ∀ r, s.remote (branchName setting) = some r → ∀ c, r.Reaches c → Seen setting s c

end Specification

section Head

/-- What the head is between the pull and the push. -/
def Prepared (setting : Setting Change) (s : State Change) : Prop :=
  (s.phase = .started → s.head = setting.head)
    ∧ ∀ upstream, s.phase = .prepared upstream → Pulled upstream setting.head s.head s.rebased

theorem prepared_step {s t : State Change} {event : Event Change} (hs : Prepared setting s)
    (hstep : Step setting s event t) : Prepared setting t := by
  cases hstep with
  | other name value => exact hs
  | prepare hphase hfetch hpull =>
    refine ⟨nofun, fun upstream hupstream => ?_⟩
    obtain rfl := Phase.prepared.inj hupstream
    rw [← hs.1 hphase]
    exact hpull
  | push hphase hname => exact ⟨nofun, nofun⟩
  | stop => exact ⟨nofun, nofun⟩

theorem reaches_head {upstream head : Commit Change} {rebased : List (Commit Change × Commit Change)}
    {old c : Commit Change} (h : Pulled upstream old head rebased) :
    head.Reaches c ↔ upstream.Reaches c ∨ (head = old ∧ old.Reaches c)
      ∨ ∃ pair ∈ rebased, pair.2 = c := by
  cases h with
  | upToDate hreach =>
    simp only [List.not_mem_nil, false_and, exists_false, or_false, true_and]
    exact ⟨.inr, fun h => h.elim hreach.trans id⟩
  | rebased picks hpicks =>
    rw [Commit.reaches_replay]
    refine ⟨fun h => h.imp_right .inr, ?_⟩
    rintro (h | ⟨heq, h⟩ | h)
    · exact .inl h
    · rw [← heq] at h
      exact Commit.reaches_replay.1 h
    · exact .inr h

theorem spared_iff {s : State Change} {upstream c : Commit Change} (hs : Prepared setting s)
    (hphase : s.phase = .prepared upstream) : Spared setting s c ↔ Seen setting s c := by
  have hhead {c : Commit Change} := reaches_head (c := c) (hs.2 upstream hphase)
  unfold Spared Seen
  constructor
  · rintro (hc | ⟨made, hpair, -⟩ | hknown)
    · rcases hhead.1 hc with h | h | ⟨pair, hpair, hmade⟩
      · exact .inl ⟨upstream, hphase, h⟩
      · exact .inr (.inr (.inl h))
      · exact .inr (.inr (.inr ⟨pair, hpair, .inr hmade⟩))
    · exact .inr (.inr (.inr ⟨_, hpair, .inl rfl⟩))
    · exact .inr (.inl hknown)
  · rintro (⟨other, hother, hc⟩ | hknown | hc | ⟨pair, hpair, rfl | rfl⟩)
    · obtain rfl := Phase.prepared.inj (hphase.symm.trans hother)
      exact .inl (hhead.2 (.inl hc))
    · exact .inr (.inr hknown)
    · exact .inl (hhead.2 (.inr (.inl hc)))
    · exact .inr (.inl ⟨pair.2, hpair, hhead.2 (.inr (.inr ⟨pair, hpair, rfl⟩))⟩)
    · exact .inl (hhead.2 (.inr (.inr ⟨pair, hpair, rfl⟩)))

end Head

section Runs

/-- A run spares what it has not seen exactly when the branch has nothing of the kind at its push. -/
theorem unseen_kept_iff (setting : Setting Change) (remote : String → Option (Commit Change))
    (steps : List (Event Change × State Change))
    (hrun : Run (Step setting) (initial setting remote) steps) :
    Guarded (SparesBranch setting) (initial setting remote) steps
      ↔ Guarded (SeenBranch setting) (initial setting remote) steps := by
  refine hrun.guarded_congr (fun s event t => prepared_step) (fun s event t hs hstep => ?_)
    ⟨fun _ => rfl, nofun⟩
  refine forall_congr' fun hpush => ?_
  subst hpush
  cases hstep with
  | push hphase hname =>
    exact forall₂_congr fun r hr => forall₂_congr fun c hc => spared_iff hs hphase

/-- Nobody else touches the branch, and its remote-tracking branch is up to date until the push. -/
theorem spared_of_quiet {s : State Change} {steps : List (Event Change × State Change)}
    (hrun : Run (Step setting) s steps)
    (htracked : s.phase = .started ∨ (∃ upstream, s.phase = .prepared upstream) →
      s.remote (branchName setting) = setting.tracking (branchName setting))
    (hquiet : ∀ value t, (.other (branchName setting) value, t) ∉ steps) :
    Guarded (SparesBranch setting) s steps := by
  induction hrun with
  | nil s => trivial
  | @cons s t event rest first _ ih =>
    have hrest : ∀ value t, (.other (branchName setting) value, t) ∉ rest := fun value t h =>
      hquiet value t (List.mem_cons_of_mem _ h)
    refine ⟨fun hpush r hr c hc => ?_, ih (fun hphase => ?_) hrest⟩
    · subst hpush
      cases first with
      | push hphase hname => exact .inr (.inr ⟨r, htracked (.inr ⟨_, hphase⟩) ▸ hr, hc⟩)
    · cases first with
      | other name value =>
        have hname : branchName setting ≠ name := by
          rintro rfl
          exact hquiet value _ List.mem_cons_self
        exact (Function.update_of_ne hname _ _).trans (htracked hphase)
      | prepare hstarted => exact htracked (.inl hstarted)
      | push => rcases hphase with h | ⟨_, h⟩ <;> cases h
      | stop => rcases hphase with h | ⟨_, h⟩ <;> cases h

section Example

def base : Commit String := .mk "base" []

def mine : Commit String := .mk "mine" [base]

def theirs : Commit String := .mk "theirs" [base]

def feature : Setting String where
  currentBranch := "feature"
  defaultBranch := "main"
  user := none
  head := mine
  tracking _ := none

/-- The default branch, and another branch of this value. -/
def remoteWith (value : Option (Commit String)) (name : String) : Option (Commit String) :=
  if name = "main" then some base else if name = "feature" then value else none

def pulled (value : Option (Commit String)) : State String :=
  { initial feature (remoteWith value) with phase := .prepared base }

def pushed (value : Option (Commit String)) : State String :=
  { pulled value with
    remote := Function.update (remoteWith value) (branchName feature) (some mine), phase := .pushed }

theorem feature_run (value : Option (Commit String)) :
    Run (Step feature) (initial feature (remoteWith value))
      [(.prepare, pulled value), (.push, pushed value)] := by
  have hbase : mine.Reaches base := Commit.reaches_mk.2 (.inr ⟨base, by simp, .refl⟩)
  exact .cons (.prepare rfl rfl (.upToDate hbase)) (.cons (.push rfl (by decide)) (.nil _))

/-- The first push of a branch. -/
theorem newBranch_spared : Guarded (SparesBranch feature) (initial feature (remoteWith none))
    [(.prepare, pulled none), (.push, pushed none)] :=
  (unseen_kept_iff feature (remoteWith none) _ (feature_run none)).2 ⟨nofun, nofun, trivial⟩

/-- What someone else has pushed to the branch before the run is gone after it. -/
theorem theirs_discarded :
    Run (Step feature) (initial feature (remoteWith (some theirs)))
        [(.prepare, pulled (some theirs)), (.push, pushed (some theirs))]
      ∧ ¬ Guarded (SparesBranch feature) (initial feature (remoteWith (some theirs)))
        [(.prepare, pulled (some theirs)), (.push, pushed (some theirs))] := by
  refine ⟨feature_run (some theirs), fun h => ?_⟩
  rcases h.2.1 rfl theirs rfl theirs .refl with hhead | ⟨_, hpair, -⟩ | ⟨_, hknown, -⟩
  · rcases Commit.reaches_mk.1 hhead with h | ⟨p, hp, h⟩
    · simp [theirs] at h
    · obtain rfl := List.mem_singleton.1 hp
      rcases Commit.reaches_mk.1 h with h | ⟨p, hp, -⟩
      · simp [theirs] at h
      · cases hp
  · cases hpair
  · cases hknown

end Example

end Runs

end OnixCore.MergeWhenGreen
