import Throughput.Proofs.Send.Bounds
import Throughput.Proofs.Send.Stop
import Throughput.Proofs.Send.Trace

/-!
# How long a phase lasts

Nothing is submitted after the deadline and no wait goes beyond it, so what is under way then is all
that is left. It has settled when the time allowed for a submission is over.
-/

namespace Throughput

variable {σ ε : Type}

namespace Job

variable {j : Job σ ε} {p p' q : Phase σ ε} {t last bound : Instant}

/-- Does priming the estimator take no time? -/
def PrimesAtOnce (j : Job σ ε) : Prop := ∀ now s, j.estimator.primeTime now s = 0

theorem upToDeadline_le (hd : j.deadline = some last) (instant : Instant) :
    j.upToDeadline instant ≤ last := by
  simp only [upToDeadline, hd]
  exact Nat.min_le_right ..

theorem le_of_not_shouldStop (hd : j.deadline = some last) (h : j.shouldStop p = false) :
    p.now ≤ last := by
  simp only [shouldStop, Bool.or_eq_false_iff, isOver, hd, decide_eq_false_iff_not, Nat.not_le] at h
  exact h.2.le

theorem settlesAt_le_of_launch (requests : List Request)
    (h : ∀ f ∈ p.flights, f.settlesAt ≤ bound) (hnow : p.now + j.generator.submitTimeout ≤ bound) :
    ∀ f ∈ (j.launch requests p).flights, f.settlesAt ≤ bound := by
  intro f hf
  rcases List.mem_append.mp ((Flights.add_perm ..).mem_iff.mp hf) with hf | hf
  · exact h f hf
  · exact (Launch.settlesAt_le_of_started requests _ _ f (List.mem_reverse.mp hf)).trans hnow

/-- Is a phase on the way to its end in time, if nothing is submitted after the given instant? -/
structure Timely (j : Job σ ε) (last : Instant) (p : Phase σ ε) : Prop where
  ready : j.IsReady p
  clock : p.stage ≠ .finished → p.stage ≠ .zeroInterval →
    p.now ≤ last + j.generator.submitTimeout
  flights : ∀ f ∈ p.flights, f.settlesAt ≤ last + j.generator.submitTimeout
  queued : p.queued ≠ [] → p.now ≤ last
  waits : match p.stage with
    | .starting => p.now ≤ last
    | .pausing wake => wake ≤ last
    | .priming due => due ≤ p.now
    | _ => True

namespace Timely

/-- The wait of a phase ends in time. -/
theorem wakesAt_le (hlast : j.strategy ≠ .burst → j.deadline = some last) (hp : j.Shaped p)
    (h : j.Timely last p) (hw : j.wakesAt p = some t) :
    t ≤ last + j.generator.submitTimeout := by
  have hstage : p.stage ≠ .finished ∧ p.stage ≠ .zeroInterval := by
    constructor <;> intro hs <;> simp [wakesAt, hs] at hw
  have hclock := h.clock hstage.1 hstage.2
  have hwait := h.waits
  have hready := h.ready
  obtain ⟨-, -, hp⟩ := hp
  rw [eq_of_wakesAt hw]
  unfold IsReady at hready
  unfold wakeUp waitEnd
  cases hs : p.stage <;> simp only [hs] at hp hwait hready ⊢
  case pausing wake =>
    exact (p.shutdown.wait_le ..).trans (Nat.max_le.mpr ⟨hclock, hwait.trans (Nat.le_add_right ..)⟩)
  case refilling tick =>
    obtain ⟨c, hc, -⟩ := hp.2.1
    have htick := upToDeadline_le (hlast (by simp [hc])) tick
    exact (p.shutdown.wait_le ..).trans (Nat.max_le.mpr ⟨hclock, htick.trans (Nat.le_add_right ..)⟩)
  case priming due => exact Nat.max_le.mpr ⟨hclock, hwait.trans hclock⟩
  case estimating due next => exact Nat.max_le.mpr ⟨hclock, hready.1.trans hclock⟩
  all_goals exact hclock

/-- Whatever can happen to a phase happens in time. -/
theorem enabled_le (hlast : j.strategy ≠ .burst → j.deadline = some last) (hp : j.Shaped p)
    (h : j.Timely last p) {e : Event} (he : j.Enabled p t e) :
    t ≤ last + j.generator.submitTimeout := by
  cases e with
  | settle =>
    obtain ⟨f, rest, hf, rfl⟩ := he
    exact h.flights f (by simp [hf])
  | start =>
    rw [he.2]
    exact (h.queued he.1).trans (Nat.le_add_right ..)
  | wake => exact h.wakesAt_le hlast hp he

theorem awaitRefill (hle : p.now ≤ last + j.generator.submitTimeout)
    (hflights : ∀ f ∈ p.flights, f.settlesAt ≤ last + j.generator.submitTimeout)
    (hqueued : p.queued ≠ [] → p.now ≤ last) (tick : Instant) :
    j.Timely last (j.awaitRefill tick p) := by
  refine ⟨j.ready_awaitRefill tick p, fun _ _ => hle, hflights, hqueued, ?_⟩
  rcases j.awaitRefill_stage p tick with hs | hs <;> simp only [hs]

end Timely

theorem Move.timely (hlast : j.strategy ≠ .burst → j.deadline = some last)
    (hreads : j.ReadsAtOnce) (hprimes : j.PrimesAtOnce) (hp : j.Shaped p) (h : j.Timely last p)
    (m : Move j p p') (hnow : p.now ≤ p'.now) (hdue : ∀ t e, j.Enabled p t e → p'.now ≤ t)
    (hle : p'.now ≤ last + j.generator.submitTimeout) : j.Timely last p' := by
  -- queued requests start before the clock goes on
  have hqueued : p.queued ≠ [] → p'.now ≤ last := fun hq =>
    (now_eq_of_queued hq hnow hdue).trans_le (h.queued hq)
  have hready := m.ready hreads h.ready hnow hdue
  cases m with
  | settle f rest hf =>
    rw [settleFirst_eq hf] at hnow hle hqueued hready ⊢
    refine ⟨hready, fun _ _ => hle, fun f' hf' => h.flights f' (by simp [hf, hf']), hqueued, ?_⟩
    obtain ⟨-, -, hp⟩ := hp
    have hwait := h.waits
    cases hs : p.stage <;> simp only [hs, hf] at hp hwait ⊢
    case starting => simp at hp
    case pausing => exact hwait
    case priming => simp at hp
  | start hq =>
    refine ⟨hready, fun _ _ => hle, ?_, fun hne => absurd rfl hne, h.waits⟩
    exact settlesAt_le_of_launch p.queued h.flights (Nat.add_le_add_right (h.queued hq) _)
  | burst hs hstage hleft =>
    have hstart := h.waits
    simp only [hstage] at hstart
    exact ⟨hready, fun _ _ => hle,
      settlesAt_le_of_launch _ h.flights (Nat.add_le_add_right hstart _), hqueued, trivial⟩
  | group hs hd hgo hleft =>
    have hopen := le_of_not_shouldStop (hlast hs) hgo
    exact ⟨hready, fun _ _ => hle,
      settlesAt_le_of_launch _ h.flights (Nat.add_le_add_right hopen _), hqueued, trivial⟩
  | pause size pause hs hstage hidle hleft =>
    exact ⟨hready, fun _ _ => hle, h.flights, hqueued,
      upToDeadline_le (hlast (by simp [hs])) _⟩
  | prime c hs hd hdone =>
    refine ⟨hready, fun _ _ => hle, h.flights, hqueued, ?_⟩
    simp only [primeEstimator]
    rw [hprimes]
    exact Nat.le_refl _
  | startRefills c due hs hstage =>
    rw [startRefills_eq] at hready hle hqueued ⊢
    split
    · rename_i hzero
      rw [if_pos hzero] at hle hqueued
      exact ⟨trivial, fun _ _ => hle, h.flights, hqueued, trivial⟩
    · rename_i hinterval
      rw [if_neg hinterval] at hle hqueued
      exact .awaitRefill hle h.flights hqueued _
  | refill c due next hs hstage hfirst =>
    -- the estimate took no time, so there still was no reason to stop
    have hopen := h.ready
    simp only [IsReady, hstage] at hopen
    have hwake : j.wakeUp p = p := wakeUp_eq_self (by
      simp [waitEnd, hstage, Nat.max_eq_left hopen.1])
    rw [refill_eq, hwake] at hle ⊢
    exact .awaitRefill hle h.flights
      (fun _ => le_of_not_shouldStop (hlast (by simp [hs])) hopen.2) _
  | stop | complete | cut | expire | ask | drained =>
    exact ⟨hready, fun _ _ => hle, h.flights, hqueued, trivial⟩

/-- Raising the signal does not delay a phase. -/
theorem Timely.raise (hlast : j.strategy ≠ .burst → j.deadline = some last) (hp : j.Shaped p)
    (h : j.Timely last p) (hnow : p.now ≤ t) (hdue : ∀ t' e, j.Enabled p t' e → t ≤ t')
    (hfree : ¬ IsBusy p) : j.Timely last (raisedAt t p) where
  ready := h.ready.raisedAt hfree
  clock hfinished hzero := by
    obtain ⟨t', e, he, -⟩ | hended := due_or_ended hp
    · exact (hdue t' e he).trans (h.enabled_le hlast hp he)
    · exact absurd hended (not_or.mpr ⟨hfinished, hzero⟩)
  flights := h.flights
  queued hq := by
    rw [show (raisedAt t p).now = p.now from now_eq_of_queued hq hnow hdue]
    exact h.queued hq
  waits := by
    have hwait := h.waits
    unfold IsBusy at hfree
    cases hs : p.stage <;> simp only [raisedAt, hs] at hwait hfree ⊢
    case starting => exact absurd trivial hfree
    case pausing wake => exact hwait
    case priming due => exact hwait.trans hnow

section Runs

variable (hlast : j.strategy ≠ .burst → j.deadline = some last) (hreads : j.ReadsAtOnce)
  (hprimes : j.PrimesAtOnce)

include hlast hreads hprimes

theorem Timely.step (hp : j.Shaped p) (h : j.Timely last p) {e : Event} (hdue : j.Due p t e) :
    j.Timely last (j.step e p) ∧ (j.step e p).now ≤ last + j.generator.submitTimeout := by
  obtain ⟨hnow, hfirst⟩ := le_step_now hp hdue
  have hle : (j.step e p).now ≤ last + j.generator.submitTimeout := by
    rw [step_now hdue]
    exact h.enabled_le hlast hp hdue.1
  exact ⟨(step_move hp hdue).timely hlast hreads hprimes hp h hnow hfirst hle, hle⟩

/-- In whatever order events happen, each happens in time. -/
theorem Trace.timely (hp : j.Shaped p) (h : j.Timely last p) {steps : Steps σ ε}
    (htrace : j.Trace p steps q) :
    ∀ x ∈ steps, (j.step x.2 x.1).now ≤ last + j.generator.submitTimeout := by
  refine (htrace.keeps (I := fun steps q => j.Timely last q ∧
    ∀ x ∈ steps, (j.step x.2 x.1).now ≤ last + j.generator.submitTimeout) hp ⟨h, nofun⟩ ?_ ?_).2.2
  · rintro steps q t e hq ⟨hI, hsteps⟩ hdue
    obtain ⟨hstep, hle⟩ := hI.step hlast hreads hprimes hq hdue
    refine ⟨hstep, fun x hx => ?_⟩
    rcases List.mem_append.mp hx with hx | hx
    · exact hsteps x hx
    · rw [List.mem_singleton.mp hx]
      exact hle
  · rintro steps q t hq ⟨hI, hsteps⟩ hnow hdue hfree
    exact ⟨hI.raise hlast hq hnow hdue hfree, hsteps⟩

theorem Timely.after (hp : j.Shaped p) (h : j.Timely last p)
    (hnow : p.now ≤ last + j.generator.submitTimeout) (n : Nat) :
    (j.after n p).now ≤ last + j.generator.submitTimeout :=
  (advance_keeps_due (P := fun p => j.Timely last p ∧ p.now ≤ last + j.generator.submitTimeout)
    (fun _ _ _ hq hI hdue => hI.1.step hlast hreads hprimes hq hdue) _ _ hp ⟨h, hnow⟩).2.2

end Runs

theorem timely_start (j : Job σ ε) (b : Bench σ) (memory : ε) (hnow : b.now ≤ last) :
    j.Timely last (start b memory) where
  ready := trivial
  clock _ _ := hnow.trans (Nat.le_add_right ..)
  flights := nofun
  queued h := absurd rfl h
  waits := hnow

end Job

namespace Generator

/-- Does a limit bound how long a strategy goes on to submit? A burst submits all at once. -/
def Limits (g : Generator) (duration : Option Duration) : Strategy → Duration → Prop
  | .burst, limit => limit = 0
  | _, limit => duration = some limit ∨ g.sendTimeout = some limit

/-- Up to which instant a job submits that has a limit. -/
theorem exists_last {g : Generator} {ledger : Ledger σ} {estimator : Estimator σ ε}
    {strategy : Strategy} {target : Nat} {duration : Option Duration} {now : Instant}
    {j : Job σ ε} (hjob : g.job ledger estimator strategy target duration now = .ok j)
    {limit : Duration} (h : g.Limits duration strategy limit) :
    ∃ last, (j.strategy ≠ .burst → j.deadline = some last) ∧ now ≤ last ∧ last ≤ now + limit := by
  rw [Job.job_eq hjob]
  cases strategy with
  | burst => exact ⟨now, fun hs => absurd rfl hs, Nat.le_refl _, Nat.le_add_right ..⟩
  | steadyBatch | saturation =>
    obtain ⟨last, hle, hd⟩ := g.deadline_le now h
    exact ⟨last, fun _ => hd, le_deadline hd, hle⟩

/-- A limit holds for a phase after any number of its events. -/
theorem after_now_le {g : Generator} {ledger : Ledger σ} {estimator : Estimator σ ε}
    {strategy : Strategy} {target : Nat} {duration : Option Duration} {b : Bench σ} {j : Job σ ε}
    (hjob : g.job ledger estimator strategy target duration b.now = .ok j)
    (hreads : ∀ now s, estimator.primeTime now s = 0 ∧ estimator.consumedTime now s = 0)
    {limit : Duration} (hlimit : g.Limits duration strategy limit) (memory : ε) (n : Nat) :
    (j.after n (Job.start b memory)).now ≤ b.now + limit + g.submitTimeout := by
  obtain ⟨last, hlast, hnow, hle⟩ := exists_last hjob hlimit
  rw [Job.job_eq hjob] at hlast ⊢
  exact ((Job.timely_start _ b memory hnow).after hlast (fun now s => (hreads now s).2)
    (fun now s => (hreads now s).1) (Job.shaped_start ..) (hnow.trans (Nat.le_add_right ..)) n).trans
      (Nat.add_le_add_right hle _)

theorem sendWith_now_le {g : Generator} {ledger : Ledger σ} {estimator : Estimator σ ε}
    {strategy : Strategy} {duration : Option Duration} {b : Bench σ}
    (hreads : ∀ now s, estimator.primeTime now s = 0 ∧ estimator.consumedTime now s = 0)
    {limit : Duration} (hlimit : g.Limits duration strategy limit) (target : Nat) (memory : ε) :
    (g.sendWith ledger estimator strategy target duration b memory).2.1.now ≤
      b.now + limit + g.submitTimeout := by
  unfold sendWith
  cases hjob : g.job ledger estimator strategy target duration b.now with
  | error e => exact (Nat.le_add_right ..).trans (Nat.le_add_right ..)
  | ok j => exact after_now_le hjob hreads hlimit memory _

/-- A clock that can tell the deadline, and every pause from the last instant of a phase on, is not
overrun. -/
theorem not_overruns {g : Generator} {ledger : Ledger σ} {estimator : Estimator σ ε}
    {strategy : Strategy} {target : Nat} {duration : Option Duration} {b : Bench σ} {memory : ε}
    (hreads : ∀ now s, estimator.primeTime now s = 0 ∧ estimator.consumedTime now s = 0)
    (hdeadline : ∀ deadline, g.deadline b.now duration = some deadline → deadline ≤ Instant.latest)
    (hpause : ∀ size pause, strategy = .steadyBatch size (some pause) → ∃ limit,
      g.Limits duration strategy limit ∧
        b.now + limit + g.submitTimeout + pause ≤ Instant.latest) :
    ¬ g.Overruns ledger estimator strategy target duration b memory := by
  rintro (hover | ⟨j, hjob, n, hover⟩)
  · obtain ⟨deadline, hsome, hlate⟩ := deadlineOverruns_iff.mp hover
    exact absurd (hdeadline deadline hsome) (Nat.not_le.mpr hlate)
  · obtain ⟨size, pause, hstrategy, hlate⟩ := Job.lt_of_pauseOverruns hover
    rw [Job.job_eq hjob] at hstrategy
    obtain ⟨limit, hlimit, hfits⟩ := hpause size pause hstrategy
    have hnow := after_now_le hjob hreads hlimit memory n
    exact absurd ((Nat.add_le_add_right hnow pause).trans hfits) (Nat.not_le.mpr hlate)

end Generator

end Throughput
