import Throughput.Proofs.Send.Launch
import Throughput.Proofs.Send.RoundRobin
import Throughput.Send.Summary

/-!
# The shape of a send phase

Each stage of a send phase says which submissions can be under way and how much has been sent.
-/

namespace Throughput

variable {σ ε : Type}

/-- Each limit bounds the deadline. -/
theorem Generator.deadline_le (g : Generator) (now : Instant) {duration : Option Duration}
    {limit : Duration} (h : duration = some limit ∨ g.sendTimeout = some limit) :
    ∃ deadline ≤ now + limit, g.deadline now duration = some deadline := by
  unfold deadline
  cases duration <;> cases hs : g.sendTimeout <;> simp [hs] at h ⊢ <;> lia

theorem Generator.le_deadline {g : Generator} {now last : Instant} {duration : Option Duration}
    (h : g.deadline now duration = some last) : now ≤ last := by
  unfold deadline at h
  cases duration <;> cases hs : g.sendTimeout <;> simp only [hs] at h <;> cases h <;>
    exact Nat.le_add_right ..

namespace Job

/-- What a generator makes sure of before it runs a job. -/
structure IsSound (j : Job σ ε) : Prop where
  batch : ∀ size pause, j.strategy = .steadyBatch size pause → 0 < size
  deadline : ∀ c, j.strategy = .saturation c → ∃ d, j.deadline = some d

theorem isSound_of_job {g : Generator} {ledger : Ledger σ} {estimator : Estimator σ ε}
    {strategy : Strategy} {target : Nat} {duration : Option Duration} {now : Instant}
    {j : Job σ ε} (h : g.job ledger estimator strategy target duration now = .ok j) :
    j.IsSound := by
  unfold Generator.job at h
  cases strategy with
  | burst => cases h; exact ⟨nofun, nofun⟩
  | steadyBatch size pause =>
    dsimp only at h
    split at h
    · cases h
    · rename_i hsize
      cases h
      refine ⟨fun size' pause' he => ?_, nofun⟩
      cases he
      omega
  | saturation c =>
    dsimp only at h
    split at h
    · cases h
    · rename_i hd
      cases h
      refine ⟨nofun, fun _ _ => ?_⟩
      exact Option.ne_none_iff_exists'.mp (by simpa using hd)

theorem job_eq {g : Generator} {ledger : Ledger σ} {estimator : Estimator σ ε}
    {strategy : Strategy} {target : Nat} {duration : Option Duration} {now : Instant}
    {j : Job σ ε} (h : g.job ledger estimator strategy target duration now = .ok j) :
    j = { generator := g, ledger, estimator, strategy, target,
          deadline := g.deadline now duration } := by
  unfold Generator.job at h
  cases strategy with
  | burst => cases h; rfl
  | steadyBatch size pause =>
    dsimp only at h
    split at h <;> cases h
    rfl
  | saturation c =>
    dsimp only at h
    split at h <;> cases h
    rfl

/-- A job exists unless its batches are empty or its refills go on without end. -/
theorem exists_job (g : Generator) (ledger : Ledger σ) (estimator : Estimator σ ε)
    (strategy : Strategy) (target : Nat) (duration : Option Duration) (now : Instant)
    (hbatch : ∀ size pause, strategy = .steadyBatch size pause → size ≠ 0)
    (hdeadline : ∀ c, strategy = .saturation c → g.deadline now duration ≠ none) :
    ∃ j, g.job ledger estimator strategy target duration now = .ok j := by
  unfold Generator.job
  cases strategy with
  | burst => exact ⟨_, rfl⟩
  | steadyBatch size pause =>
    dsimp only
    rw [if_neg (hbatch size pause rfl)]
    exact ⟨_, rfl⟩
  | saturation c =>
    dsimp only
    rw [if_neg (by simpa using hdeadline c rfl)]
    exact ⟨_, rfl⟩

/-- How many requests are sent in groups. -/
def groupTarget (j : Job σ ε) : Nat :=
  match j.strategy with
  | .saturation c => min c.initialFill j.target
  | _ => j.target

/-- The size of the group that follows a number of requests. -/
def groupSize (j : Job σ ε) (dispatched : Nat) : Nat :=
  match j.strategy with
  | .burst => j.target
  | .steadyBatch size _ => min size (j.target - dispatched)
  | .saturation c => min (max c.fillChunk 1) (min c.initialFill j.target - dispatched)

theorem groupTarget_le (j : Job σ ε) : j.groupTarget ≤ j.target := by
  unfold groupTarget
  split
  · exact Nat.min_le_right _ _
  · exact Nat.le_refl _

theorem groupSize_pos {j : Job σ ε} (hj : j.IsSound) {dispatched : Nat}
    (h : dispatched < j.groupTarget) : 0 < j.groupSize dispatched := by
  unfold groupSize
  unfold groupTarget at h
  split at h <;> rename_i hs
  · simp only [hs]
    omega
  · split
    · omega
    · rename_i size pause hb
      have := hj.batch size pause hb
      omega
    · rename_i c hc
      exact absurd hc (hs c)

theorem add_groupSize_le {j : Job σ ε} (hb : j.strategy ≠ .burst) {dispatched : Nat}
    (h : dispatched < j.groupTarget) : dispatched + j.groupSize dispatched ≤ j.groupTarget := by
  unfold groupSize
  unfold groupTarget at h ⊢
  cases hs : j.strategy with
  | burst => exact absurd hs hb
  | steadyBatch size pause => simp only [hs] at h ⊢; omega
  | saturation c => simp only [hs] at h ⊢; omega

/-- Have all groups been sent by a strategy that refills afterwards? -/
def Refills (j : Job σ ε) (p : Phase σ ε) : Prop :=
  ∃ c, j.strategy = .saturation c ∧ min c.initialFill j.target ≤ p.dispatched

/-- Do refills have an interval that a clock can keep? -/
def Ticks (j : Job σ ε) : Prop := ∀ c, j.strategy = .saturation c → 0 < c.refillInterval

/-- What holds of a phase in each of its stages. -/
def Shaped (j : Job σ ε) (p : Phase σ ε) : Prop :=
  p.dispatched ≤ j.target ∧ p.flights.Ordered p.now ∧
  match p.stage with
  | .starting => p.flights = [] ∧ p.queued = [] ∧ p.dispatched = 0
  | .group => p.queued = [] ∧ (j.strategy = .burst → p.dispatched = j.target)
  | .pausing _ =>
    p.flights = [] ∧ p.queued = [] ∧ p.dispatched < j.target ∧
      ∃ size pause, j.strategy = .steadyBatch size pause
  | .priming _ => p.flights = [] ∧ p.queued = [] ∧ j.Refills p
  | .refilling _ | .estimating _ _ => p.dispatched < j.target ∧ j.Refills p ∧ j.Ticks
  | .draining => j.Refills p
  | .finished | .zeroInterval => p.flights = [] ∧ p.queued = []

theorem shaped_start (j : Job σ ε) (b : Bench σ) (memory : ε) : j.Shaped (start b memory) :=
  ⟨Nat.zero_le _, ⟨.nil, nofun⟩, rfl, rfl, rfl⟩

end Job

end Throughput
