import Mathlib.Algebra.Order.BigOperators.Group.List
import Mathlib.Data.Set.Card
import Throughput.Proofs.Send.Groups
import Throughput.Proofs.Send.Stop
import Throughput.Proofs.Send.Times
import Throughput.Proofs.Send.Trace

/-!
# Refills

Refills follow the first fill at intervals up to the deadline, and each replaces what has left the
backlog. So the number of requests is bounded by the number of intervals.
-/

namespace Throughput

variable {σ ε : Type}

/-- Does a phase wait for its estimator to be primed? -/
def Stage.isPriming : Stage → Bool
  | .priming _ => true
  | _ => false

/-- One refill. -/
structure Refill where
  instant : Instant
  /-- What the estimator answered. -/
  answer : Answer Nat
  /-- How many requests had been issued before. -/
  before : Nat
  /-- How many requests were issued. -/
  size : Nat

/-- What has left the backlog; a failed estimate counts as nothing. -/
def Refill.consumed (r : Refill) : Nat :=
  match r.answer with
  | .ok n => n
  | .error _ => 0

namespace Job

variable {j : Job σ ε} {c : Saturation} {p p' f : Phase σ ε} {t : Instant} {rs : List Refill}
  {steps : Steps σ ε}

/-- The refill that an event makes, if it makes one. -/
def refill? (j : Job σ ε) (x : Phase σ ε × Event) : Option Refill :=
  match x.2, x.1.stage with
  | .wake, .estimating _ _ =>
    let p := j.wakeUp x.1
    some
      { instant := p.now
        answer := (j.estimator.consumed p.now (p.ledger, p.estimator)).1
        before := p.dispatched
        size := (j.step .wake x.1).dispatched - p.dispatched }
  | _, _ => none

/-- The refills among some events. -/
def refills (j : Job σ ε) (steps : Steps σ ε) : List Refill := steps.filterMap j.refill?

/-- The phase at the end of the first fill, which is about to prime its estimator. -/
def filled? (j : Job σ ε) (steps : Steps σ ε) : Option (Phase σ ε) :=
  (steps.map fun x => j.step x.2 x.1).find? fun p => p.stage.isPriming

theorem refills_concat (j : Job σ ε) (steps : Steps σ ε) (x : Phase σ ε × Event) :
    j.refills (steps ++ [x]) = j.refills steps ++ (j.refill? x).toList := by
  rw [refills, List.filterMap_append, ← refills]
  cases h : j.refill? x <;> simp [h]

theorem filled?_concat (j : Job σ ε) (steps : Steps σ ε) (x : Phase σ ε × Event) :
    j.filled? (steps ++ [x]) = (j.filled? steps).or
      (if (j.step x.2 x.1).stage.isPriming then some (j.step x.2 x.1) else none) := by
  rw [filled?, List.map_append, List.find?_append, ← filled?, List.map_singleton,
    List.find?_singleton]

theorem refill?_of_stage {x : Phase σ ε × Event} (h : ∀ due next, x.1.stage ≠ .estimating due next) :
    j.refill? x = none := by
  unfold refill?
  split
  · rename_i hstage
    exact absurd hstage (h _ _)
  · rfl

/-! ## The first fill -/

/-- Can a phase still be filling its backlog? -/
def IsFilling (p : Phase σ ε) : Prop := p.stage = .starting ∨ p.stage = .group ∨ p.stage = .finished

theorem Move.filling (hs : j.strategy = .saturation c) (hp : j.Shaped p) (h : IsFilling p)
    (m : Move j p p') : IsFilling p' ∨ p'.stage.isPriming = true := by
  cases m with
  | settle f rest hf =>
    rw [settleFirst_eq hf]
    exact .inl h
  | start hq =>
    obtain ⟨-, -, hp⟩ := hp
    rcases h with hstage | hstage | hstage <;> simp only [hstage] at hp
    · exact absurd hp.2.1 hq
    · exact absurd hp.1 hq
    · exact absurd hp.2 hq
  | burst | group => exact .inl (.inr (.inl rfl))
  | stop | complete | drained => exact .inl (.inr (.inr rfl))
  | pause size pause hs' => simp [hs] at hs'
  | prime => exact .inr rfl
  | startRefills c due hs hstage => simp [IsFilling, hstage] at h
  | cut tick hstage => simp [IsFilling, hstage] at h
  | expire tick hstage => simp [IsFilling, hstage] at h
  | ask c tick hs hstage => simp [IsFilling, hstage] at h
  | refill c due next hs hstage => simp [IsFilling, hstage] at h

/-! ## Refills after the fill -/

theorem eq_of_getElem?_concat {α : Type} {xs : List α} {x y : α} {k : Nat} (hk : xs.length ≤ k)
    (h : (xs ++ [x])[k]? = some y) : k = xs.length ∧ x = y := by
  rw [List.getElem?_append_right hk, List.getElem?_singleton] at h
  split at h
  · exact ⟨by omega, Option.some.inj h⟩
  · nomatch h

/-- What refills have made of a phase that was filled first: each takes what the estimate, the cap and
the target allow, and they follow at intervals. -/
structure Replenished (j : Job σ ε) (c : Saturation) (f : Phase σ ε) (rs : List Refill)
    (p : Phase σ ε) : Prop where
  filled : j.InGroups f
  dispatched : p.dispatched = f.dispatched + (rs.map Refill.size).sum
  groups : p.groups = f.groups + rs.countP fun r => 0 < r.size
  sizes : ∀ r ∈ rs, r.size = j.refillSize c r.answer r.before
  before : ∀ k r, rs[k]? = some r → r.before = f.dispatched + ((rs.take k).map Refill.size).sum
  instants : ∀ k r, rs[k]? = some r → f.now + (k + 1) * c.refillInterval ≤ r.instant

/-- Is the next refill after the given ones, and the one after it, not too early? -/
def IsSpaced (c : Saturation) (f : Phase σ ε) (rs : List Refill) (p : Phase σ ε) : Prop :=
  match p.stage with
  | .starting | .group | .pausing _ => False
  | .priming _ => f.now ≤ p.now ∧ rs = []
  | .refilling tick => f.now + (rs.length + 1) * c.refillInterval ≤ tick
  | .estimating _ next => f.now + (rs.length + 1) * c.refillInterval ≤ p.now ∧
    f.now + (rs.length + 1 + 1) * c.refillInterval ≤ next
  | .draining | .finished | .zeroInterval => True

theorem Replenished.refl (h : j.InGroups f) : j.Replenished c f [] f where
  filled := h
  dispatched := rfl
  groups := rfl
  sizes := nofun
  before := nofun
  instants := nofun

/-- Where the counters stay, no refill has been made. -/
theorem Replenished.congr (h : j.Replenished c f rs p) (hdispatched : p'.dispatched = p.dispatched)
    (hgroups : p'.groups = p.groups) : j.Replenished c f rs p' where
  filled := h.filled
  dispatched := hdispatched.trans h.dispatched
  groups := hgroups.trans h.groups
  sizes := h.sizes
  before := h.before
  instants := h.instants

/-- One more refill. -/
theorem Replenished.concat {r : Refill} (h : j.Replenished c f rs p)
    (hsize : r.size = j.refillSize c r.answer r.before) (hbefore : r.before = p.dispatched)
    (hinstant : f.now + (rs.length + 1) * c.refillInterval ≤ r.instant)
    (hdispatched : p'.dispatched = p.dispatched + r.size)
    (hgroups : p'.groups = p.groups + if 0 < r.size then 1 else 0) :
    j.Replenished c f (rs ++ [r]) p' where
  filled := h.filled
  dispatched := by
    rw [hdispatched, h.dispatched, List.map_append, List.sum_append, Nat.add_assoc]
    simp
  groups := by
    rw [hgroups, h.groups, List.countP_append, Nat.add_assoc]
    simp [List.countP_singleton]
  sizes := by
    intro x hx
    rcases List.mem_append.mp hx with hx | hx
    · exact h.sizes x hx
    · rw [List.mem_singleton.mp hx]
      exact hsize
  before := by
    intro k x hx
    rcases Nat.lt_or_ge k rs.length with hk | hk
    · rw [List.getElem?_append_left hk] at hx
      rw [List.take_append_of_le_length hk.le]
      exact h.before k x hx
    · obtain ⟨rfl, rfl⟩ := eq_of_getElem?_concat hk hx
      rw [List.take_left, hbefore, h.dispatched]
  instants := by
    intro k x hx
    rcases Nat.lt_or_ge k rs.length with hk | hk
    · rw [List.getElem?_append_left hk] at hx
      exact h.instants k x hx
    · obtain ⟨rfl, rfl⟩ := eq_of_getElem?_concat hk hx
      exact hinstant

theorem isSpaced_of_priming (h : f.stage.isPriming = true) : IsSpaced c f [] f := by
  unfold IsSpaced
  cases hs : f.stage <;> simp [hs, Stage.isPriming] at h ⊢

theorem IsSpaced.congr (h : IsSpaced c f rs p) (hstage : p'.stage = p.stage)
    (hnow : p.now ≤ p'.now) : IsSpaced c f rs p' := by
  unfold IsSpaced at h ⊢
  rw [hstage]
  cases hs : p.stage <;> simp only [hs] at h ⊢
  case priming => exact ⟨h.1.trans hnow, h.2⟩
  case refilling => exact h
  case estimating => exact ⟨h.1.trans hnow, h.2⟩

theorem isSpaced_awaitRefill {tick : Instant} (p : Phase σ ε)
    (htick : f.now + (rs.length + 1) * c.refillInterval ≤ tick) :
    IsSpaced c f rs (j.awaitRefill tick p) := by
  unfold IsSpaced
  rcases j.awaitRefill_stage p tick with hstage | hstage
  · simp only [hstage]
  · simp only [hstage]
    exact htick

/-- The end of a wait makes a refill or leaves the counters as they are. -/
theorem replenished_wake (hsound : j.IsSound) (hs : j.strategy = .saturation c)
    (h : j.Replenished c f rs p) (hspaced : IsSpaced c f rs p) (hdue : j.Due p t .wake) :
    j.Replenished c f (rs ++ (j.refill? (p, .wake)).toList) (j.step .wake p) ∧
      IsSpaced c f (rs ++ (j.refill? (p, .wake)).toList) (j.step .wake p) := by
  have hwake := hdue.1
  have hnow := j.le_waitEnd p
  unfold IsSpaced at hspaced
  cases hstage : p.stage with
  | starting | group | pausing => simp only [hstage] at hspaced
  | finished | zeroInterval => simp [Enabled, wakesAt, hstage] at hwake
  | priming due =>
    simp only [hstage] at hspaced
    obtain ⟨hfilled, rfl⟩ := hspaced
    have hstep : j.step .wake p = j.startRefills c (j.wakeUp p) := by
      simp only [step, goOn, wakeUp_stage, hstage, hs]
    rw [refill?_of_stage (by simp [hstage]), hstep, startRefills_eq]
    split
    · exact ⟨h.congr rfl rfl, trivial⟩
    · refine ⟨h.congr rfl rfl, isSpaced_awaitRefill _ ?_⟩
      change f.now + (0 + 1) * c.refillInterval ≤ (j.wakeUp p).now + c.refillInterval
      rw [Nat.zero_add, Nat.one_mul]
      exact Nat.add_le_add_right (hfilled.trans hnow) _
  | refilling tick =>
    simp only [hstage] at hspaced
    have hstep : j.step .wake p = j.afterTick c tick (j.wakeUp p) := by
      simp only [step, goOn, wakeUp_stage, hstage, hs]
    rw [refill?_of_stage (by simp [hstage]), hstep, Option.toList_none, List.append_nil]
    unfold afterTick
    split
    · exact ⟨h.congr rfl rfl, trivial⟩
    · rename_i hraised
      split
      · exact ⟨h.congr rfl rfl, trivial⟩
      · rename_i hover
        obtain ⟨d, hd⟩ := hsound.deadline c hs
        obtain ⟨htick, -⟩ := tick_of_ask hstage hd (by simpa [Shutdown.isRaised] using hraised)
          (Bool.eq_false_iff.mpr hover)
        refine ⟨h.congr rfl rfl, hspaced.trans htick, ?_⟩
        refine Nat.le_trans ?_ (add_le_nextTick c.refillInterval htick)
        rw [Nat.succ_mul, ← Nat.add_assoc]
        exact Nat.add_le_add_right hspaced _
  | estimating due next =>
    simp only [hstage] at hspaced
    have hstep : j.step .wake p = j.awaitRefill next (j.refilled (j.wakeUp p) c) := by
      simp only [step, goOn, wakeUp_stage, hstage, hs]
      exact j.refill_eq ..
    have hrefill : j.refill? (p, .wake) = some
        { instant := (j.wakeUp p).now
          answer := (j.estimator.consumed (j.wakeUp p).now (p.ledger, p.estimator)).1
          before := p.dispatched
          size := j.refillNow (j.wakeUp p) c } := by
      have hsize : (j.step .wake p).dispatched - p.dispatched = j.refillNow (j.wakeUp p) c := by
        rw [hstep]
        exact Nat.add_sub_cancel_left ..
      simp only [refill?, hstage, wakeUp_dispatched, hsize]
      rfl
    rw [hrefill, hstep, Option.toList_some]
    refine ⟨h.concat rfl rfl (hspaced.1.trans hnow) rfl rfl, isSpaced_awaitRefill _ ?_⟩
    rw [List.length_append, List.length_singleton]
    exact hspaced.2
  | draining =>
    have hstep : j.step .wake p = (j.wakeUp p).finish := by
      simp only [step, goOn, wakeUp_stage, hstage]
    rw [refill?_of_stage (by simp [hstage]), hstep, Option.toList_none, List.append_nil]
    exact ⟨h.congr rfl rfl, trivial⟩

/-- What a phase has sent so far: it is still in its first fill, or refills have followed. -/
def Supplied (j : Job σ ε) (c : Saturation) (steps : Steps σ ε) (p : Phase σ ε) : Prop :=
  match j.filled? steps with
  | none => IsFilling p ∧ j.InGroups p ∧ j.refills steps = []
  | some f => j.Replenished c f (j.refills steps) p ∧ IsSpaced c f (j.refills steps) p

theorem Supplied.event (hsound : j.IsSound) (hs : j.strategy = .saturation c) (hp : j.Shaped p)
    (h : j.Supplied c steps p) {e : Event} (hdue : j.Due p t e) :
    j.Supplied c (steps ++ [(p, e)]) (j.step e p) := by
  have m := step_move hp hdue
  unfold Supplied at h ⊢
  rw [filled?_concat, refills_concat]
  cases hf : j.filled? steps with
  | none =>
    simp only [hf] at h
    obtain ⟨hfilling, hgroups, hnone⟩ := h
    have hstage : ∀ due next, p.stage ≠ .estimating due next := by
      rcases hfilling with hstage | hstage | hstage <;> simp [hstage]
    have hgroups' := m.inGroups hsound (by simp [hs]) hstage hgroups
    rw [refill?_of_stage hstage, hnone]
    rcases m.filling hs hp hfilling with hfilling' | hpriming
    · have hpriming : (j.step e p).stage.isPriming = false := by
        rcases hfilling' with hstage' | hstage' | hstage' <;> rw [hstage'] <;> rfl
      simp only [hpriming]
      exact ⟨hfilling', hgroups', rfl⟩
    -- the fill ends here
    · simp only [hpriming, if_true, Option.none_or]
      exact ⟨.refl hgroups', isSpaced_of_priming hpriming⟩
  | some f =>
    simp only [hf, Option.some_or] at h ⊢
    obtain ⟨hreplenished, hspaced⟩ := h
    cases e with
    | wake => exact replenished_wake hsound hs hreplenished hspaced hdue
    | settle =>
      obtain ⟨first, rest, hfirst, -⟩ := hdue.1
      have hnow := hp.2.1.2 first (by simp [hfirst])
      rw [show j.step .settle p = _ from settleFirst_eq hfirst,
        show j.refill? (p, .settle) = none from rfl, Option.toList_none, List.append_nil]
      exact ⟨hreplenished.congr rfl rfl, hspaced.congr rfl hnow⟩
    | start =>
      rw [show j.refill? (p, .start) = none from rfl, Option.toList_none, List.append_nil]
      exact ⟨hreplenished.congr rfl rfl, hspaced.congr rfl (Nat.le_refl _)⟩

theorem Supplied.raise (h : j.Supplied c steps p) (hnow : p.now ≤ t) :
    j.Supplied c steps (raisedAt t p) := by
  unfold Supplied at h ⊢
  cases hf : j.filled? steps with
  | none =>
    simp only [hf] at h ⊢
    exact ⟨h.1, ⟨h.2.1.dispatched, h.2.1.groups⟩, h.2.2⟩
  | some f =>
    simp only [hf] at h ⊢
    exact ⟨h.1.congr rfl rfl, h.2.congr rfl hnow⟩

theorem Trace.supplied (hsound : j.IsSound) (hs : j.strategy = .saturation c) {b : Bench σ}
    {memory : ε} (h : j.Trace (start b memory) steps p) : j.Supplied c steps p := by
  refine (h.keeps (I := j.Supplied c) (j.shaped_start _ _) ?_ ?_ ?_).2
  · exact ⟨.inl rfl, .start hsound (by simp [hs]) _ _, rfl⟩
  · exact fun _ _ _ _ hq hI hdue => hI.event hsound hs hq hdue
  · exact fun _ _ _ _ hI hnow _ _ => hI.raise hnow

/-- Where reads take no time, no refill is made once the deadline has passed. -/
theorem Trace.refills_in_time (hreads : j.ReadsAtOnce) {b : Bench σ} {memory : ε}
    (h : j.Trace (start b memory) steps p) : ∀ r ∈ j.refills steps, j.isOver r.instant = false := by
  refine (h.keeps (I := fun steps p => j.IsReady p ∧ ∀ r ∈ j.refills steps,
    j.isOver r.instant = false) (j.shaped_start _ _) ⟨trivial, nofun⟩ ?_ ?_).2.2
  · rintro steps q t e hq ⟨hready, hrefills⟩ hdue
    obtain ⟨hnow, hfirst⟩ := le_step_now hq hdue
    refine ⟨(step_move hq hdue).ready hreads hready hnow hfirst, fun r hr => ?_⟩
    rw [refills_concat] at hr
    rcases List.mem_append.mp hr with hr | hr
    · exact hrefills r hr
    · unfold refill? at hr
      split at hr
      -- the estimate took no time, so there still was no reason to stop
      · rename_i due next _ hestimating
        have hstage : q.stage = .estimating due next := hestimating
        simp only [IsReady, hstage] at hready
        have hwake : j.wakeUp q = q := wakeUp_eq_self (by
          simp [waitEnd, hstage, Nat.max_eq_left hready.1])
        have hopen := hready.2
        simp only [shouldStop, Bool.or_eq_false_iff] at hopen
        rw [Option.toList_some, List.mem_singleton] at hr
        rw [hr, hwake]
        exact hopen.2
      · simp at hr
  · rintro steps q t hq ⟨hready, hrefills⟩ _ _ hfree
    exact ⟨hready.raisedAt hfree, hrefills⟩

/-- Where each of some refills falls before the deadline, there are no more of them than instants for
them. -/
theorem length_le_ncard {start interval deadline : Nat} (hinterval : 0 < interval)
    (hfirst : ∀ k r, rs[k]? = some r → start + (k + 1) * interval ≤ r.instant)
    (hlast : ∀ r ∈ rs, r.instant < deadline) :
    rs.length ≤ {k | 1 ≤ k ∧ start + k * interval < deadline}.ncard := by
  have hsub : (Set.Icc 1 rs.length) ⊆ {k | 1 ≤ k ∧ start + k * interval < deadline} := by
    rintro k ⟨hpos, hle⟩
    obtain ⟨i, rfl⟩ := Nat.exists_eq_add_of_le' hpos
    have hget := List.getElem?_eq_getElem (Nat.lt_of_succ_le hle)
    exact ⟨hpos, (hfirst i _ hget).trans_lt (hlast _ (List.getElem_mem _))⟩
  have hfinite : {k | 1 ≤ k ∧ start + k * interval < deadline}.Finite := by
    refine (Set.finite_Iio deadline).subset fun k hk => ?_
    exact (Nat.le_mul_of_pos_right k hinterval).trans_lt ((Nat.le_add_left ..).trans_lt hk.2)
  have hcard := Set.ncard_le_ncard hsub hfinite
  rwa [← Finset.coe_Icc, Set.ncard_coe_finset, Nat.card_Icc, Nat.add_sub_cancel] at hcard

theorem sum_sizes_le (h : ∀ r ∈ rs, r.size = j.refillSize c r.answer r.before) :
    (rs.map Refill.size).sum ≤ c.refillCap * rs.length := by
  have hsum := List.sum_le_card_nsmul (rs.map Refill.size) c.refillCap (by
    intro size hsize
    obtain ⟨r, hr, rfl⟩ := List.mem_map.mp hsize
    rw [h r hr]
    exact (Nat.min_le_left ..).trans (Nat.min_le_right ..))
  rwa [List.length_map, smul_eq_mul, Nat.mul_comm] at hsum

/-- The first fill: what it has sent, and in how many groups. -/
theorem InGroups.filled (h : j.InGroups p) (hs : j.strategy = .saturation c) :
    p.dispatched ≤ min c.initialFill j.target ∧ p.groups = p.dispatched ⌈/⌉ max c.fillChunk 1 := by
  have hsize : j.batchSize = max c.fillChunk 1 := by simp only [batchSize, hs]
  have htarget : j.groupTarget = min c.initialFill j.target := by simp only [groupTarget, hs]
  have hpos : 0 < j.batchSize := by
    rw [hsize]
    exact Nat.lt_of_lt_of_le Nat.one_pos (Nat.le_max_right ..)
  have hgroups := h.groups_eq hpos
  rw [hsize] at hgroups
  refine ⟨?_, hgroups⟩
  rw [h.dispatched, htarget]
  exact Nat.min_le_right ..

/-- Refills of nothing are none. -/
theorem Supplied.replenished (h : j.Supplied c steps p) :
    j.Replenished c ((j.filled? steps).getD p) (j.refills steps) p := by
  unfold Supplied at h
  cases hf : j.filled? steps with
  | none =>
    simp only [hf] at h
    rw [h.2.2]
    exact .refl h.2.1
  | some f =>
    simp only [hf] at h
    exact h.1

end Job

namespace Generator

/-- A backlog is filled up to its first size and then refilled. Each refill takes what the estimator
says has left the backlog, nothing if it fails, within the cap and what is left of the target. The
`k`-th refill comes `k` intervals after the first fill at the earliest and, if reads take no time,
before the deadline, which bounds the number of requests. -/
theorem saturation_refills (g : Generator) (ledger : Ledger σ) (estimator : Estimator σ ε)
    (c : Saturation) (hinterval : 0 < c.refillInterval) (target : Nat) (duration : Option Duration)
    (b : Bench σ) (memory : ε) {deadline : Instant}
    (hdeadline : g.deadline b.now duration = some deadline) :
    ∃ j : Job (σ × Journal) ε,
    g.job ledger.journaled estimator.journaled (.saturation c) target duration b.now = .ok j ∧
    (∀ steps p, j.Trace (Job.start b.journaled memory) steps p →
      let fill := (j.filled? steps).getD p
      let rs := j.refills steps
      fill.dispatched ≤ min c.initialFill target ∧
      (∀ r ∈ rs, r.size = min (min r.consumed c.refillCap) (target - r.before)) ∧
      (∀ k r, rs[k]? = some r →
        r.before = fill.dispatched + ((rs.take k).map Refill.size).sum) ∧
      p.dispatched = fill.dispatched + (rs.map Refill.size).sum ∧ p.dispatched ≤ target ∧
      p.ledger.2.length + p.queued.length = p.dispatched ∧
      p.groups = fill.dispatched ⌈/⌉ max c.fillChunk 1 + rs.countP (fun r => 0 < r.size) ∧
      (∀ k r, rs[k]? = some r → fill.now + (k + 1) * c.refillInterval ≤ r.instant) ∧
      ((∀ now s, estimator.consumedTime now s = 0) →
        (∀ r ∈ rs, r.instant < deadline) ∧
        p.dispatched ≤ fill.dispatched + c.refillCap *
          {k | 1 ≤ k ∧ fill.now + k * c.refillInterval < deadline}.ncard)) ∧
    (let p := j.run (Job.start b.journaled memory)
     (∃ steps, j.Trace (Job.start b.journaled memory) steps p) ∧ p.stage = .finished ∧
      (g.sendWith ledger estimator (.saturation c) target duration b memory).1 =
        .ok (j.summary b.journaled p)) := by
  obtain ⟨j, hjob⟩ := Job.exists_job g ledger.journaled estimator.journaled (.saturation c) target
    duration b.now nofun (fun _ _ => by rw [hdeadline]; nofun)
  refine ⟨j, hjob, ?_⟩
  have hsound := Job.isSound_of_job hjob
  have hj := Job.isJournaled_of_job hjob
  have heq := Job.job_eq hjob
  have hs : j.strategy = .saturation c := by rw [heq]
  have hlast : j.deadline = some deadline := by rw [heq, hdeadline]
  obtain rfl : j.generator = g := by rw [heq]
  obtain rfl : j.target = target := by rw [heq]
  refine ⟨fun steps p hp => ?_, ?_⟩
  · have h := (hp.supplied hsound hs).replenished
    obtain ⟨hfill, hgroups⟩ := h.filled.filled hs
    obtain ⟨-, hcounted, -⟩ := hp.course.books hj
    refine ⟨hfill, h.sizes, h.before, h.dispatched, (hp.course.shaped (j.shaped_start _ _)).1,
      hcounted, ?_, h.instants, fun hreads => ?_⟩
    · rw [← hgroups]
      exact h.groups
    · have hatOnce : j.ReadsAtOnce := by
        rw [heq]
        exact fun now s => hreads now _
      have hbefore : ∀ r ∈ j.refills steps, r.instant < deadline := by
        intro r hr
        have hopen := hp.refills_in_time hatOnce r hr
        simpa [Job.isOver, hlast] using hopen
      refine ⟨hbefore, ?_⟩
      rw [h.dispatched]
      refine Nat.add_le_add_left ((Job.sum_sizes_le h.sizes).trans ?_) _
      exact Nat.mul_le_mul_left _ (Job.length_le_ncard hinterval h.instants hbefore)
  · have hticks : j.Ticks := by
      intro c' hc'
      obtain rfl := Strategy.saturation.inj (hs.symm.trans hc')
      exact hinterval
    exact ⟨(Job.course_advance _ _ (j.shaped_start _ _)).exists_trace,
      sendWith_of_journaled hjob hticks memory⟩

/-- One request to fill the backlog, and time for one refill of one request. -/
theorem saturation_refills_once :
    ∃ summary, ((ofTwo none).sendWith (Ledger.steady (some 0)) (Estimator.always 1)
      (.saturation { initialFill := 1, refillCap := 1 }) 3 (some (seconds 2))
      (Bench.ofTwo .never) ()).1 = .ok summary ∧ summary.dispatched ≤ 2 := by
  obtain ⟨j, -, htraces, ⟨steps, hsteps⟩, -, hsend⟩ := saturation_refills (ofTwo none)
    (Ledger.steady (some 0)) (Estimator.always 1) { initialFill := 1, refillCap := 1 } (by decide) 3
    (some (seconds 2)) (Bench.ofTwo .never) () rfl
  obtain ⟨hfill, -, -, -, -, -, -, -, hbound⟩ := htraces steps _ hsteps
  obtain ⟨-, hle⟩ := hbound fun _ _ => rfl
  refine ⟨_, hsend, hle.trans ?_⟩
  generalize (j.filled? steps).getD _ = fill at hfill ⊢
  have hinstants : {k | 1 ≤ k ∧ fill.now + k * seconds 1 < 0 + seconds 2} ⊆ {1} := by
    rintro k ⟨hpos, hlt⟩
    have hseconds : seconds 2 = 2 * seconds 1 := by decide
    rw [hseconds, Nat.zero_add] at hlt
    have hless : k < 2 := Nat.lt_of_mul_lt_mul_right ((Nat.le_add_left ..).trans_lt hlt)
    exact Nat.le_antisymm (Nat.le_of_lt_succ hless) hpos
  have hcard := Set.ncard_le_ncard hinstants (Set.finite_singleton 1)
  rw [Set.ncard_singleton] at hcard
  rw [Nat.one_mul]
  exact Nat.add_le_add (hfill.trans (Nat.min_le_left ..)) hcard

end Generator

end Throughput
