import Mathlib.Logic.Function.Basic
import OnixCore.Lib.Commits
import OnixCore.Lib.Runs

/-!
# The push of merge-when-green

`prepare_repository` and `push_branch` of `merge-when-green.py` among other pushes to the same
remote. What git picks in a rebase is its own choice. The formatting check, an empty diff, a
conflict and a refused push all end the run without a push.
-/

namespace OnixCore.MergeWhenGreen

variable {Change : Type}

/-- The repository the tool is started in. -/
structure Setting (Change : Type) where
  currentBranch : String
  defaultBranch : String
  user : Option String
  head : Commit Change
  tracking : String → Option (Commit Change)

/-- The name of the branch that `push_branch` pushes to. -/
def branchName (setting : Setting Change) : String :=
  if setting.currentBranch = setting.defaultBranch then
    "merge-when-green-" ++ setting.user.getD "user"
  else setting.currentBranch

inductive Phase (Change : Type) where
  | started
  | prepared (upstream : Commit Change)
  | pushed
  | stopped

/-- The branches of the remote, the local head, and the commits that were rebased, each with what
it became. -/
structure State (Change : Type) where
  remote : String → Option (Commit Change)
  head : Commit Change
  rebased : List (Commit Change × Commit Change)
  phase : Phase Change

def initial (setting : Setting Change) (remote : String → Option (Commit Change)) : State Change :=
  ⟨remote, setting.head, [], .started⟩

/-- What `git pull --rebase` makes of the head: nothing where it has the fetched commit, or a replay
of commits of its own. -/
inductive Pulled (upstream head : Commit Change) :
    Commit Change → List (Commit Change × Commit Change) → Prop
  | upToDate (h : head.Reaches upstream) : Pulled upstream head head []
  | rebased (picks : List (Commit Change))
      (h : ∀ pick ∈ picks, head.Reaches pick ∧ ¬ upstream.Reaches pick) :
      Pulled upstream head (Commit.replay upstream picks).1 (Commit.replay upstream picks).2

inductive Event (Change : Type) where
  | other (name : String) (value : Option (Commit Change))
  | prepare
  | push
  | stop

/-- The others push or delete any branch at any time. -/
inductive Step (setting : Setting Change) : State Change → Event Change → State Change → Prop
  | other {s : State Change} (name : String) (value : Option (Commit Change)) :
      Step setting s (.other name value) { s with remote := Function.update s.remote name value }
  | prepare {s : State Change} {upstream head : Commit Change}
      {rebased : List (Commit Change × Commit Change)} (hphase : s.phase = .started)
      (hfetch : s.remote setting.defaultBranch = some upstream)
      (hpull : Pulled upstream s.head head rebased) :
      Step setting s .prepare
        { s with head := head, rebased := rebased, phase := .prepared upstream }
  | push {s : State Change} {upstream : Commit Change} (hphase : s.phase = .prepared upstream)
      (hname : branchName setting ≠ "") :
      Step setting s .push
        { s with remote := Function.update s.remote (branchName setting) (some s.head),
                 phase := .pushed }
  | stop {s : State Change} : Step setting s .stop { s with phase := .stopped }

end OnixCore.MergeWhenGreen
