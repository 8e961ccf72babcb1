import Mathlib.Algebra.Order.Floor.Div
import Throughput.Proofs.Send.Move

/-!
# Counting groups

Every group is full but for the one that reaches the target, so the number of groups follows from the
number of requests.
-/

namespace Throughput.Job

variable {σ ε : Type} {j : Job σ ε} {p p' : Phase σ ε}

/-- How many requests a full group has. -/
def batchSize (j : Job σ ε) : Nat :=
  match j.strategy with
  | .burst => j.target
  | .steadyBatch size _ => size
  | .saturation c => max c.fillChunk 1

theorem groupSize_eq (hs : j.strategy ≠ .burst) (dispatched : Nat) :
    j.groupSize dispatched = min j.batchSize (j.groupTarget - dispatched) := by
  unfold groupSize batchSize groupTarget
  cases hstrategy : j.strategy with
  | burst => exact absurd hstrategy hs
  | steadyBatch | saturation => rfl

theorem batchSize_pos (hj : j.IsSound) (hs : j.strategy ≠ .burst) : 0 < j.batchSize := by
  unfold batchSize
  cases hstrategy : j.strategy with
  | burst => exact absurd hstrategy hs
  | steadyBatch size pause => exact hj.batch size pause hstrategy
  | saturation c => exact Nat.lt_of_lt_of_le Nat.one_pos (Nat.le_max_right ..)

/-- Are the requests of a phase those of its groups? -/
structure InGroups (j : Job σ ε) (p : Phase σ ε) : Prop where
  dispatched : p.dispatched = min (p.groups * j.batchSize) j.groupTarget
  groups : p.groups * j.batchSize < p.dispatched + j.batchSize

namespace InGroups

theorem start (hj : j.IsSound) (hs : j.strategy ≠ .burst) (b : Bench σ) (memory : ε) :
    j.InGroups (start b memory) where
  dispatched := by simp [Job.start]
  groups := by simpa [Job.start] using batchSize_pos hj hs

/-- Before the target all groups are full. -/
theorem full (h : j.InGroups p) (hleft : p.dispatched < j.groupTarget) :
    p.dispatched = p.groups * j.batchSize := by
  have hcount := h.dispatched
  omega

theorem groups_eq (h : j.InGroups p) (hpos : 0 < j.batchSize) :
    p.groups = p.dispatched ⌈/⌉ j.batchSize := by
  have hcount := h.dispatched
  have hgroups := h.groups
  refine Nat.le_antisymm ?_ ((ceilDiv_le_iff_le_mul hpos).mpr ?_)
  · rw [Nat.ceilDiv_eq_add_pred_div, Nat.le_div_iff_mul_le hpos]
    omega
  · rw [Nat.mul_comm]
    omega

/-- One more group. -/
theorem next (h : j.InGroups p) (hpos : 0 < j.batchSize) (hleft : p.dispatched < j.groupTarget)
    (hdispatched : p'.dispatched =
      p.dispatched + min j.batchSize (j.groupTarget - p.dispatched))
    (hgroups : p'.groups = p.groups + 1) : j.InGroups p' := by
  have hfull := h.full hleft
  have hproduct : p'.groups * j.batchSize = p.dispatched + j.batchSize := by
    rw [hgroups, Nat.succ_mul, hfull]
  refine ⟨?_, ?_⟩
  · rw [hproduct, hdispatched]
    omega
  · rw [hproduct, hdispatched]
    omega

end InGroups

/-- Groups are counted until refills begin. -/
theorem Move.inGroups (hj : j.IsSound) (hs : j.strategy ≠ .burst)
    (hstage : ∀ due next, p.stage ≠ .estimating due next) (h : j.InGroups p) (m : Move j p p') :
    j.InGroups p' := by
  cases m with
  | settle f rest hf =>
    rw [settleFirst_eq hf]
    exact ⟨h.dispatched, h.groups⟩
  | burst hburst => exact absurd hburst hs
  | group _ hd hgo hleft =>
    refine h.next (batchSize_pos hj hs) hleft ?_ rfl
    rw [← groupSize_eq hs]
    simp only [sendGroup, launch, wakeUp_dispatched, Generator.length_build]
  | startRefills c due =>
    rw [startRefills_eq]
    split
    · exact ⟨h.dispatched, h.groups⟩
    · exact ⟨h.dispatched, h.groups⟩
  | refill c due next _ hp => exact absurd hp (hstage due next)
  | start | stop | complete | pause | prime | cut | expire | ask | drained =>
    exact ⟨h.dispatched, h.groups⟩

end Throughput.Job
