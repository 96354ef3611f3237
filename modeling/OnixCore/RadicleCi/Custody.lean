import OnixCore.RadicleCi.Exchange

/-!
# The custody of a job

What stands under the name of one job in the queues, and what each command may do to it. Commands
that go by these rules never lose a job (`JobStep.kept`): whoever takes something of a job away
leaves another copy behind that lasts.

The publisher replaces what it published before only while it has a result of the job in the outbox;
`replacing` is its note of that.
-/

namespace OnixCore.RadicleCi

/-- What makes a copy of a job complete, before it was executed. -/
def jobFiles : List String := ["ready", "event.json", "source.tar"]

/-- And afterwards. -/
def resultFiles : List String := ["event.json", "result.json"]

/-- A directory with files of these names stands there. -/
def Holds (names : List String) (slot : Option Entry) : Prop :=
  ∃ files, slot = some (.dir files) ∧ ∀ name ∈ names, name ∈ files

/-- Nothing stands there, or what a directory takes the place of. -/
def Free (slot : Option Entry) : Prop := ∀ x, slot = some x → x = .dir ∅

/-- A directory whose event, where there is one to read, is of this job. -/
def Owned (codec : Codec) (job : String) (x : Entry) : Prop :=
  ∃ files, x = .dir files ∧ ∀ bytes, files.lookup "event.json" = some bytes →
    ∀ event, codec.readEvent bytes = .ok event → event.jobId = job

/-- What is read back is the event that was written. -/
def Codec.Faithful (codec : Codec) : Prop :=
  ∀ event event', codec.readEvent (codec.writeEvent event) = .ok event' → event' = event

structure JobView where
  incoming : Option Entry
  processing : Option Entry
  outbox : Option Entry
  published : Option Entry
  rejected : Option Entry
  replacing : Prop

namespace JobView

variable (v : JobView)

/-- A copy of the job in its first two queues is all there. -/
def Waits : Prop := Holds jobFiles v.incoming ∨ Holds jobFiles v.processing

/-- The job has a result that stays where nobody executes it again. -/
def Delivered : Prop :=
  Holds resultFiles v.outbox ∨ Holds resultFiles v.published ∧ v.outbox = none ∧ ¬ v.replacing

/-- The job is not lost. -/
def Kept : Prop := v.Waits ∨ v.Delivered ∨ ∃ files, v.rejected = some (.dir files)

/-- What is left of a copy that is not all there is of a job that is delivered, or of a copy that
the queue has another of. -/
structure Sound (codec : Codec) (job : String) : Prop where
  incoming : ∀ x, v.incoming = some x →
    Owned codec job x ∧ (Holds jobFiles v.incoming ∨ v.processing = none ∧ v.Delivered)
  processing : ∀ x, v.processing = some x →
    Owned codec job x ∧ (v.Waits ∨ v.Delivered)

end JobView

/-- What the commands do to one job. -/
inductive JobStep (codec : Codec) (job : String) : Command → JobView → JobView → Prop
  | queue {v : JobView} {x : Entry} (hfree : Free v.incoming) (howned : Owned codec job x)
      (hall : Holds jobFiles (some x)) : JobStep codec job .scan v { v with incoming := some x }
  | claim {v : JobView} {x : Entry} (hfrom : v.incoming = some x) (hfree : Free v.processing) :
      JobStep codec job .runNext v { v with incoming := none, processing := some x }
  | recover {v : JobView} {x : Entry} (hfrom : v.processing = some x) (hfree : Free v.incoming) :
      JobStep codec job .runNext v { v with incoming := some x, processing := none }
  /-- A claimed copy loses a file or is gone. -/
  | drop {v : JobView} {x : Entry} {slot : Option Entry} (hfrom : v.processing = some x)
      (howned : ∀ y, slot = some y → Owned codec job y)
      (hother : v.incoming ≠ none ∨ v.Delivered) :
      JobStep codec job .runNext v { v with processing := slot }
  | withdraw {v : JobView} {slot : Option Entry} (hall : Holds jobFiles v.processing) :
      JobStep codec job .runNext v { v with outbox := slot }
  | deliver {v : JobView} {x : Entry} (hall : Holds resultFiles (some x)) :
      JobStep codec job .runNext v { v with outbox := some x }
  | discard {v : JobView} {slot : Option Entry} (hfrom : v.processing ≠ none) :
      JobStep codec job .runNext v { v with rejected := slot }
  | reject {v : JobView} {x : Entry} (hfrom : v.processing = some x) :
      JobStep codec job .runNext v { v with processing := none, rejected := some x }
  | load {v : JobView} (hfrom : v.outbox ≠ none) :
      JobStep codec job .publishNext v { v with replacing := True }
  | replace {v : JobView} {slot : Option Entry} (hnote : v.replacing) :
      JobStep codec job .publishNext v { v with published := slot }
  | publish {v : JobView} {x : Entry} (hnote : v.replacing) (hfrom : v.outbox = some x) :
      JobStep codec job .publishNext v
        { v with outbox := none, published := some x, replacing := False }
  | forget {v : JobView} : JobStep codec job .publishNext v { v with replacing := False }

section Rules

variable {codec : Codec} {job : String} {k : Command} {v v' : JobView} {slot : Option Entry}
  {names : List String}

theorem not_holds_none : ¬ Holds names none := nofun

theorem Free.not_holds (h : Free slot) : ¬ Holds jobFiles slot := by
  rintro ⟨files, hdir, hall⟩
  cases h _ hdir
  exact absurd (hall "ready" List.mem_cons_self) (AList.notMem_empty _)

/-- Only executing a job again takes its result away. -/
theorem JobStep.delivered (h : JobStep codec job k v v') (hk : k ≠ .runNext)
    (hv : v.Delivered) : v'.Delivered := by
  unfold JobView.Delivered at hv ⊢
  cases h with
  | queue => exact hv
  | load hfrom => exact hv.imp_right fun hpublished => absurd hpublished.2.1 hfrom
  | replace hnote => exact hv.imp_right fun hpublished => absurd hnote hpublished.2.2
  | @publish _ x hnote hfrom =>
    rcases hv with hall | hpublished
    · rw [hfrom] at hall
      exact .inr ⟨hall, rfl, not_false⟩
    · exact absurd hnote hpublished.2.2
  | forget => exact hv.imp_right fun hpublished => ⟨hpublished.1, hpublished.2.1, not_false⟩
  | claim => exact absurd rfl hk
  | recover => exact absurd rfl hk
  | drop => exact absurd rfl hk
  | withdraw => exact absurd rfl hk
  | deliver => exact absurd rfl hk
  | discard => exact absurd rfl hk
  | reject => exact absurd rfl hk

namespace JobView

/-- Steps that leave the copies alone that wait, and a result where it is. -/
theorem Sound.of_same (hv : v.Sound codec job) (hincoming : v'.incoming = v.incoming)
    (hprocessing : v'.processing = v.processing) (hdelivered : v.Delivered → v'.Delivered) :
    v'.Sound codec job := by
  constructor
  · intro x hx
    rw [hincoming] at hx ⊢
    rw [hprocessing]
    exact (hv.incoming x hx).imp_right (Or.imp_right (And.imp_right hdelivered))
  · intro x hx
    rw [hprocessing] at hx
    have hwaits : v.Waits → v'.Waits := by
      unfold Waits
      rw [hincoming, hprocessing]
      exact id
    exact (hv.processing x hx).imp_right (Or.imp hwaits hdelivered)

theorem Kept.of_same (h : v.Kept) (hincoming : v'.incoming = v.incoming)
    (hprocessing : v'.processing = v.processing) (hrejected : v'.rejected = v.rejected)
    (hdelivered : v.Delivered → v'.Delivered) : v'.Kept := by
  unfold Kept Waits at h ⊢
  rw [hincoming, hprocessing, hrejected]
  exact h.imp_right (Or.imp_left hdelivered)

/-- Where a job is claimed, another copy of it in the queue is all there. -/
theorem Sound.holds_incoming (hv : v.Sound codec job) (hprocessing : v.processing ≠ none)
    (hincoming : v.incoming ≠ none) : Holds jobFiles v.incoming := by
  obtain ⟨x, hx⟩ := Option.ne_none_iff_exists'.1 hincoming
  exact (hv.incoming x hx).2.resolve_right fun h => hprocessing h.1

/-- A copy that is dropped has another one beside it, or a result. -/
theorem Sound.lasting (hv : v.Sound codec job) (hprocessing : v.processing ≠ none)
    (h : v.incoming ≠ none ∨ v.Delivered) : Holds jobFiles v.incoming ∨ v.Delivered :=
  h.imp_left (hv.holds_incoming hprocessing)

end JobView

theorem JobStep.publisher (h : JobStep codec job .publishNext v v') :
    v'.incoming = v.incoming ∧ v'.processing = v.processing ∧ v'.rejected = v.rejected := by
  cases h <;> exact ⟨rfl, rfl, rfl⟩

theorem JobStep.sound (h : JobStep codec job k v v') (hv : v.Sound codec job) :
    v'.Sound codec job := by
  have hsame : ∀ {k'}, JobStep codec job k' v v' → k' = .publishNext → v'.Sound codec job := by
    rintro _ h rfl
    obtain ⟨hincoming, hprocessing, -⟩ := h.publisher
    exact hv.of_same hincoming hprocessing (h.delivered nofun)
  cases h with
  | @queue _ x hfree howned hall =>
    constructor
    · rintro y ⟨⟩
      exact ⟨howned, .inl hall⟩
    · exact fun y hy => ⟨(hv.processing y hy).1, .inl (.inl hall)⟩
  | @claim _ x hfrom hfree =>
    refine ⟨nofun, ?_⟩
    rintro y ⟨⟩
    obtain ⟨howned, hall | ⟨-, hdelivered⟩⟩ := hv.incoming x hfrom
    · exact ⟨howned, .inl (.inr (hfrom ▸ hall))⟩
    · exact ⟨howned, .inr hdelivered⟩
  | @recover _ x hfrom hfree =>
    refine ⟨?_, nofun⟩
    rintro y ⟨⟩
    obtain ⟨howned, (hall | hall) | hdelivered⟩ := hv.processing x hfrom
    · exact absurd hall hfree.not_holds
    · exact ⟨howned, .inl (hfrom ▸ hall)⟩
    · exact ⟨howned, .inr ⟨rfl, hdelivered⟩⟩
  | @drop _ x slot hfrom howned hother =>
    have hclaimed : v.processing ≠ none := by simp [hfrom]
    have hlasting := hv.lasting hclaimed hother
    constructor
    · intro y hy
      exact (hv.incoming y hy).imp_right fun h => .inl (h.resolve_right fun h => hclaimed h.1)
    · exact fun y hy => ⟨howned y hy, hlasting.imp_left .inl⟩
  | withdraw hall =>
    constructor
    · intro y hy
      refine (hv.incoming y hy).imp_right fun h => .inl (h.resolve_right fun h => ?_)
      rw [h.1] at hall
      exact not_holds_none hall
    · exact fun y hy => ⟨(hv.processing y hy).1, .inl (.inr hall)⟩
  | deliver hall => exact hv.of_same rfl rfl fun _ => .inl hall
  | discard => exact hv.of_same rfl rfl id
  | @reject _ x hfrom =>
    refine ⟨fun y hy => ?_, nofun⟩
    refine (hv.incoming y hy).imp_right fun h => .inl (h.resolve_right fun h => ?_)
    cases hfrom.symm.trans h.1
  | load hfrom => exact hsame (.load hfrom) rfl
  | replace hnote => exact hsame (.replace hnote) rfl
  | publish hnote hfrom => exact hsame (.publish hnote hfrom) rfl
  | forget => exact hsame .forget rfl

/-- No step loses a job. -/
theorem JobStep.kept (h : JobStep codec job k v v') (hv : v.Sound codec job) (hkept : v.Kept) :
    v'.Kept := by
  have hsame : ∀ {k'}, JobStep codec job k' v v' → k' = .publishNext → v'.Kept := by
    rintro _ h rfl
    obtain ⟨hincoming, hprocessing, hrejected⟩ := h.publisher
    exact hkept.of_same hincoming hprocessing hrejected (h.delivered nofun)
  cases h with
  | queue hfree howned hall => exact .inl (.inl hall)
  | @claim _ x hfrom hfree =>
    refine hkept.imp_left fun hwaits => .inr ?_
    exact hfrom ▸ hwaits.resolve_right hfree.not_holds
  | @recover _ x hfrom hfree =>
    refine hkept.imp_left fun hwaits => .inl ?_
    exact hfrom ▸ hwaits.resolve_left hfree.not_holds
  | @drop _ x slot hfrom howned hother =>
    exact (hv.lasting (by simp [hfrom]) hother).imp .inl .inl
  | withdraw hall => exact .inl (.inr hall)
  | deliver hall => exact .inr (.inl (.inl hall))
  | @discard _ slot hfrom =>
    obtain ⟨x, hx⟩ := Option.ne_none_iff_exists'.1 hfrom
    exact (hv.processing x hx).2.imp_right .inl
  | @reject _ x hfrom =>
    obtain ⟨⟨files, rfl, -⟩, -⟩ := hv.processing x hfrom
    exact .inr (.inr ⟨files, rfl⟩)
  | load hfrom => exact hsame (.load hfrom) rfl
  | replace hnote => exact hsame (.replace hnote) rfl
  | publish hnote hfrom => exact hsame (.publish hnote hfrom) rfl
  | forget => exact hsame .forget rfl

end Rules

end OnixCore.RadicleCi
