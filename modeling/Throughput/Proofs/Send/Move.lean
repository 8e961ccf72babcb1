import Throughput.Proofs.Send.Shape

/-!
# What one event does to a send phase

A well-shaped phase moves in one of fourteen ways. Each way says under which conditions it happens
and what it leaves behind, so that an invariant of send phases is one case for each.
-/

namespace Throughput

variable {σ ε : Type}

namespace Job

/-- Can an event happen to a phase, and at which instant? -/
def Enabled (j : Job σ ε) (p : Phase σ ε) (t : Instant) : Event → Prop
  | .settle => ∃ f rest, p.flights = f :: rest ∧ t = f.settlesAt
  | .start => p.queued ≠ [] ∧ t = p.now
  | .wake => j.wakesAt p = some t

/-- Is no event that can happen earlier than the given one? -/
def Due (j : Job σ ε) (p : Phase σ ε) (t : Instant) (e : Event) : Prop :=
  j.Enabled p t e ∧ ∀ t' e', j.Enabled p t' e' → t ≤ t'

section Fields

variable (j : Job σ ε) (p : Phase σ ε)

@[simp] theorem wakeUp_ledger : (j.wakeUp p).ledger = p.ledger := rfl
@[simp] theorem wakeUp_tracker : (j.wakeUp p).tracker = p.tracker := rfl
@[simp] theorem wakeUp_sequences : (j.wakeUp p).sequences = p.sequences := rfl
@[simp] theorem wakeUp_estimator : (j.wakeUp p).estimator = p.estimator := rfl
@[simp] theorem wakeUp_stage : (j.wakeUp p).stage = p.stage := rfl
@[simp] theorem wakeUp_flights : (j.wakeUp p).flights = p.flights := rfl
@[simp] theorem wakeUp_queued : (j.wakeUp p).queued = p.queued := rfl
@[simp] theorem wakeUp_dispatched : (j.wakeUp p).dispatched = p.dispatched := rfl
@[simp] theorem wakeUp_stoppedEarly : (j.wakeUp p).stoppedEarly = p.stoppedEarly := rfl

/-- How many requests a refill at the present instant takes. -/
def refillNow (c : Saturation) : Nat :=
  j.refillSize c (j.estimator.consumed p.now (p.ledger, p.estimator)).1 p.dispatched

/-- A phase that has queued its refill. -/
def refilled (c : Saturation) : Phase σ ε :=
  { p with
    ledger := (j.estimator.consumed p.now (p.ledger, p.estimator)).2.1
    estimator := (j.estimator.consumed p.now (p.ledger, p.estimator)).2.2
    sequences := (j.generator.build p.dispatched (j.refillNow p c) p.sequences).2
    queued := p.queued ++ (j.generator.build p.dispatched (j.refillNow p c) p.sequences).1
    dispatched := p.dispatched + j.refillNow p c
    groups := p.groups + if 0 < j.refillNow p c then 1 else 0 }

theorem refill_eq (c : Saturation) (next : Instant) :
    j.refill c next p = j.awaitRefill next (j.refilled p c) := rfl

theorem awaitRefill_stage (tick : Instant) :
    (j.awaitRefill tick p).stage = .draining ∨ (j.awaitRefill tick p).stage = .refilling tick := by
  unfold awaitRefill
  dsimp only
  split
  · exact .inl rfl
  · exact .inr rfl

/-- A phase whose estimator has been primed. -/
def primed : Phase σ ε :=
  { p with
    ledger := (j.estimator.prime p.now (p.ledger, p.estimator)).2.1
    estimator := (j.estimator.prime p.now (p.ledger, p.estimator)).2.2 }

theorem startRefills_eq (c : Saturation) :
    j.startRefills c p =
      if c.refillInterval = 0 then { j.primed p with stage := .zeroInterval }
      else j.awaitRefill (p.now + c.refillInterval) (j.primed p) := rfl

end Fields

/-- Does nothing under way settle before the phase wakes? -/
def WakesFirst (j : Job σ ε) (p : Phase σ ε) : Prop :=
  ∀ f ∈ p.flights, (j.wakeUp p).now ≤ f.settlesAt

theorem wakesFirst_of_idle {j : Job σ ε} {p : Phase σ ε} (h : p.flights = []) : j.WakesFirst p := by
  simp [WakesFirst, h]

theorem ordered_wakeUp {j : Job σ ε} {p : Phase σ ε} (h : p.flights.Ordered p.now)
    (hfirst : j.WakesFirst p) : (j.wakeUp p).flights.Ordered (j.wakeUp p).now :=
  ⟨h.1, hfirst⟩

theorem ordered_launch {j : Job σ ε} {p : Phase σ ε} (requests : List Request)
    (h : p.flights.Ordered p.now) :
    (j.launch requests p).flights.Ordered (j.launch requests p).now := by
  refine h.add fun f hf => ?_
  exact Launch.settlesAt_of_started requests p.ledger p.tracker f (List.mem_reverse.mp hf)

/-- Does a phase decide on its next group? -/
def Decides (p : Phase σ ε) : Prop :=
  (p.stage = .starting ∨ p.stage = .group ∨ ∃ wake, p.stage = .pausing wake) ∧
    p.flights = [] ∧ p.queued = []

/-- The ways in which a phase moves. -/
inductive Move (j : Job σ ε) (p : Phase σ ε) : Phase σ ε → Prop where
  | settle (f : Flight σ) (rest : Flights σ) (hf : p.flights = f :: rest) :
      Move j p (j.settleFirst p)
  | start (hq : p.queued ≠ []) : Move j p (j.launch p.queued { p with queued := [] })
  | burst (hs : j.strategy = .burst) (hp : p.stage = .starting) (hleft : 0 < j.target) :
      Move j p (j.sendGroup (j.generator.buildAll j.target p.sequences).1
        (j.generator.buildAll j.target p.sequences).2 p)
  | group (hs : j.strategy ≠ .burst) (hp : Decides p) (hgo : j.shouldStop (j.wakeUp p) = false)
      (hleft : p.dispatched < j.groupTarget) :
      Move j p (j.sendGroup
        (j.generator.build p.dispatched (j.groupSize p.dispatched) p.sequences).1
        (j.generator.build p.dispatched (j.groupSize p.dispatched) p.sequences).2 (j.wakeUp p))
  | stop (hs : j.strategy ≠ .burst) (hp : Decides p) (hstop : j.shouldStop (j.wakeUp p) = true)
      (hleft : p.dispatched < j.groupTarget) : Move j p (j.wakeUp p).stopEarly
  | complete (hs : ∀ c, j.strategy ≠ .saturation c) (hp : Decides p)
      (hdone : j.target ≤ p.dispatched) : Move j p (j.wakeUp p).finish
  | pause (size : Nat) (pause : Duration) (hs : j.strategy = .steadyBatch size (some pause))
      (hp : p.stage = .group) (hidle : p.flights = [] ∧ p.queued = [])
      (hleft : p.dispatched < j.target) :
      Move j p { p with stage := .pausing (j.upToDeadline (p.now + pause)) }
  | prime (c : Saturation) (hs : j.strategy = .saturation c) (hp : Decides p)
      (hdone : min c.initialFill j.target ≤ p.dispatched) : Move j p (j.primeEstimator (j.wakeUp p))
  | startRefills (c : Saturation) (due : Instant) (hs : j.strategy = .saturation c)
      (hp : p.stage = .priming due) : Move j p (j.startRefills c (j.wakeUp p))
  | cut (tick : Instant) (hp : p.stage = .refilling tick) (hfirst : j.WakesFirst p)
      (hraised : (j.wakeUp p).shutdown = .raised) :
      Move j p { j.wakeUp p with stage := .draining, stoppedEarly := true }
  | expire (tick : Instant) (hp : p.stage = .refilling tick) (hfirst : j.WakesFirst p)
      (hraised : (j.wakeUp p).shutdown ≠ .raised) (hover : j.isOver (j.wakeUp p).now = true) :
      Move j p { j.wakeUp p with stage := .draining }
  | ask (c : Saturation) (tick : Instant) (hs : j.strategy = .saturation c)
      (hp : p.stage = .refilling tick) (hfirst : j.WakesFirst p)
      (hraised : (j.wakeUp p).shutdown ≠ .raised) (hover : j.isOver (j.wakeUp p).now = false) :
      Move j p { j.wakeUp p with
        stage := .estimating
          ((j.wakeUp p).now + j.estimator.consumedTime (j.wakeUp p).now (p.ledger, p.estimator))
          (nextTick c.refillInterval tick (j.wakeUp p).now) }
  | refill (c : Saturation) (due next : Instant) (hs : j.strategy = .saturation c)
      (hp : p.stage = .estimating due next) (hfirst : j.WakesFirst p) :
      Move j p (j.refill c next (j.wakeUp p))
  | drained (hp : p.stage = .draining) (hidle : p.flights = [] ∧ p.queued = []) :
      Move j p p.finish

variable {j : Job σ ε} {p : Phase σ ε} {t : Instant}

theorem le_waitEnd (j : Job σ ε) (p : Phase σ ε) : p.now ≤ (j.waitEnd p).1 := by
  unfold waitEnd
  split
  · exact Shutdown.le_wait ..
  · exact Shutdown.le_wait ..
  · exact Nat.le_max_left ..
  · exact Nat.le_max_left ..
  · exact Nat.le_refl _

/-- A phase wakes where its wait ends. -/
theorem eq_of_wakesAt (h : j.wakesAt p = some t) : t = (j.wakeUp p).now := by
  unfold wakesAt at h
  simp only [wakeUp]
  cases hs : p.stage with
  | group | draining =>
    simp only [hs, Option.ite_none_right_eq_some, Option.some.injEq] at h
    simp only [waitEnd, hs, h.2]
  | finished | zeroInterval => simp [hs] at h
  | starting | pausing | priming | refilling | estimating =>
    simp only [hs, Option.some.injEq] at h
    exact h.symm

/-- The next event is due. -/
theorem due_of_next? (hord : p.flights.Ordered p.now) {e : Event}
    (h : j.next? p = some (t, e)) : j.Due p t e := by
  have hwake : ∀ w, j.wakesAt p = some w → p.now ≤ w := by
    intro w hw
    rw [eq_of_wakesAt hw]
    exact j.le_waitEnd p
  have hsettle : ∀ f rest, p.flights = f :: rest → p.now ≤ f.settlesAt := by
    intro f rest hf
    exact hord.2 f (by simp [hf])
  -- an event is due if nothing of the three kinds is earlier
  have hdue : j.Enabled p t e → (∀ f rest, p.flights = f :: rest → t ≤ f.settlesAt) →
      (p.queued ≠ [] → t ≤ p.now) → (∀ w, j.wakesAt p = some w → t ≤ w) → j.Due p t e := by
    intro he hf hq hw
    refine ⟨he, fun t' e' h' => ?_⟩
    cases e' with
    | settle =>
      obtain ⟨f, rest, hff, rfl⟩ := h'
      exact hf f rest hff
    | start => exact h'.2 ▸ hq h'.1
    | wake => exact hw t' h'
  unfold next? at h
  cases hf : p.flights with
  | nil =>
    cases hq : p.queued with
    | nil =>
      simp only [hf, hq, Option.map_eq_some_iff, Prod.mk.injEq] at h
      obtain ⟨_, hw, rfl, rfl⟩ := h
      exact hdue hw (by simp [hf]) (by simp [hq]) (by simp [hw])
    | cons r rs =>
      simp only [hf, hq, Option.some.injEq, Prod.mk.injEq] at h
      obtain ⟨rfl, rfl⟩ := h
      exact hdue ⟨by simp [hq], rfl⟩ (by simp [hf]) (fun _ => Nat.le_refl _) hwake
  | cons f rest =>
    have hfirst : ∀ t, t ≤ f.settlesAt →
        ∀ f' rest', p.flights = f' :: rest' → t ≤ f'.settlesAt := by
      intro t ht f' rest' he
      rw [hf, List.cons.injEq] at he
      exact he.1 ▸ ht
    cases hq : p.queued with
    | nil =>
      simp only [hf, hq] at h
      split at h
      · rename_i wake hw
        split at h <;> cases h
        · exact hdue hw (hfirst _ ‹_›) (by simp [hq]) (by simp [hw])
        · rename_i hlt
          exact hdue ⟨f, rest, hf, rfl⟩ (hfirst _ (Nat.le_refl _)) (by simp [hq])
            (by simpa [hw] using Nat.le_of_not_le hlt)
      · rename_i hw
        cases h
        exact hdue ⟨f, rest, hf, rfl⟩ (hfirst _ (Nat.le_refl _)) (by simp [hq]) (by simp [hw])
    | cons r rs =>
      simp only [hf, hq] at h
      split at h <;> cases h
      · rename_i hle
        exact hdue ⟨f, rest, hf, rfl⟩ (hfirst _ (Nat.le_refl _)) (fun _ => hle)
          (fun w hw => hle.trans (hwake w hw))
      · exact hdue ⟨by simp [hq], rfl⟩ hsettle (fun _ => Nat.le_refl _) hwake

theorem idle_of_wakesAt (hw : j.wakesAt p = some t)
    (hs : p.stage = .group ∨ p.stage = .draining) : p.flights = [] ∧ p.queued = [] := by
  unfold wakesAt Phase.isIdle at hw
  obtain hs | hs := hs <;> simp only [hs, Option.ite_none_right_eq_some] at hw <;>
    simpa using hw.1

/-- A phase that does not wait for an instant wakes as it is. -/
theorem wakeUp_eq_self (h : j.waitEnd p = (p.now, p.shutdown)) : j.wakeUp p = p := by
  unfold wakeUp
  rw [h]

/-- The next group, or what follows the last one. -/
theorem proceed_move (hp : j.Shaped p) (hd : Decides p) :
    Move j p (j.proceed (j.wakeUp p)) := by
  unfold proceed
  cases hs : j.strategy with
  | burst =>
    dsimp only
    split
    · exact .complete (by simp [hs]) hd ‹_›
    · rename_i hleft
      have hstart : p.stage = .starting := by
        rcases hd with ⟨h | h | ⟨wake, h⟩, -, -⟩
        · exact h
        -- after its group a burst has nothing left, and it never pauses
        · simp only [Shaped, h, hs, true_implies] at hp
          exact absurd (Nat.le_of_eq hp.2.2.2.symm) hleft
        · simp [Shaped, h, hs] at hp
      have hwake : j.wakeUp p = p := wakeUp_eq_self (by simp [waitEnd, hstart])
      rw [hwake]
      simp only [Shaped, hstart] at hp
      exact .burst hs hstart (by rw [hwake] at hleft; omega)
  | steadyBatch size pause =>
    have hb : j.strategy ≠ .burst := by simp [hs]
    have ht : j.groupTarget = j.target := by simp [groupTarget, hs]
    dsimp only
    split
    · exact .complete (by simp [hs]) hd ‹_›
    · rename_i hleft
      have hg : p.dispatched < j.groupTarget := by simp only [ht]; simpa [wakeUp] using hleft
      have hsize : min size (j.target - (j.wakeUp p).dispatched) = j.groupSize p.dispatched := by
        simp [groupSize, hs, wakeUp]
      rw [hsize, sendNext]
      split
      · exact .stop hb hd ‹_› hg
      · exact .group hb hd (Bool.eq_false_iff.mpr ‹_›) hg
  | saturation c =>
    have hb : j.strategy ≠ .burst := by simp [hs]
    have ht : j.groupTarget = min c.initialFill j.target := by simp [groupTarget, hs]
    dsimp only
    split
    · exact .prime c hs hd ‹_›
    · rename_i hleft
      have hg : p.dispatched < j.groupTarget := by simp only [ht]; simpa [wakeUp] using hleft
      have hsize : min (max c.fillChunk 1) (min c.initialFill j.target - (j.wakeUp p).dispatched) =
          j.groupSize p.dispatched := by
        simp [groupSize, hs, wakeUp]
      rw [hsize, sendNext]
      split
      · exact .stop hb hd ‹_› hg
      · exact .group hb hd (Bool.eq_false_iff.mpr ‹_›) hg

/-- A pause, or the next group at once. -/
theorem afterGroup_move (hp : j.Shaped p) (hs : p.stage = .group)
    (hd : Decides p) : Move j p (j.afterGroup (j.wakeUp p)) := by
  have hnext := proceed_move hp hd
  unfold afterGroup
  split
  · rename_i size pause hb
    split
    · exact hnext
    · have hwake : j.wakeUp p = p := wakeUp_eq_self (by simp [waitEnd, hs])
      rw [hwake] at *
      exact .pause size pause hb hs hd.2 (Nat.lt_of_not_le ‹_›)
  · exact hnext

/-- The end of a wait for a refill. -/
theorem afterTick_move {c : Saturation} {tick : Instant} (hc : j.strategy = .saturation c)
    (hs : p.stage = .refilling tick) (hfirst : j.WakesFirst p) :
    Move j p (j.afterTick c tick (j.wakeUp p)) := by
  unfold afterTick
  split
  · rename_i hraised
    exact .cut tick hs hfirst (by simpa [Shutdown.isRaised] using hraised)
  · rename_i hraised
    have hraised : (j.wakeUp p).shutdown ≠ .raised := by simpa [Shutdown.isRaised] using hraised
    split
    · exact .expire tick hs hfirst hraised ‹_›
    · exact .ask c tick hc hs hfirst hraised (Bool.eq_false_iff.mpr ‹_›)

/-- A phase that is due to wake does so before anything under way settles. -/
theorem wakesFirst_of_due (hord : p.flights.Ordered p.now) (h : j.Due p t .wake) :
    j.WakesFirst p := by
  cases hf : p.flights with
  | nil => exact wakesFirst_of_idle hf
  | cons f rest =>
    have hle := h.2 f.settlesAt .settle ⟨f, rest, hf, rfl⟩
    rw [eq_of_wakesAt h.1] at hle
    intro f' hf'
    rw [hf] at hf'
    rcases List.mem_cons.mp hf' with rfl | hf'
    · exact hle
    · have hpair := hord.1
      rw [hf] at hpair
      exact hle.trans (List.rel_of_pairwise_cons hpair hf')

/-- Every event that is due moves a well-shaped phase. -/
theorem step_move (hp : j.Shaped p) {e : Event} (h : j.Due p t e) : Move j p (j.step e p) := by
  cases e with
  | settle =>
    obtain ⟨f, rest, hf, -⟩ := h.1
    exact .settle f rest hf
  | start => exact .start h.1.1
  | wake =>
    have hfirst := wakesFirst_of_due hp.2.1 h
    obtain ⟨-, -, hstage⟩ := id hp
    change Move j p (j.goOn (j.wakeUp p))
    unfold goOn
    rw [show (j.wakeUp p).stage = p.stage from rfl]
    cases hs : p.stage with
    | starting =>
      simp only [hs] at hstage
      exact proceed_move hp ⟨.inl hs, hstage.1, hstage.2.1⟩
    | group =>
      exact afterGroup_move hp hs ⟨.inr (.inl hs), idle_of_wakesAt h.1 (.inl hs)⟩
    | pausing wake =>
      simp only [hs] at hstage
      exact proceed_move hp ⟨.inr (.inr ⟨wake, hs⟩), hstage.1, hstage.2.1⟩
    | priming due =>
      simp only [hs] at hstage
      obtain ⟨c, hc, -⟩ := hstage.2.2
      simp only [hc]
      exact .startRefills c due hc hs
    | refilling tick =>
      simp only [hs] at hstage
      obtain ⟨c, hc, -⟩ := hstage.2.1
      simp only [hc]
      exact afterTick_move hc hs hfirst
    | estimating due next =>
      simp only [hs] at hstage
      obtain ⟨c, hc, -⟩ := hstage.2.1
      simp only [hc]
      exact .refill c due next hc hs hfirst
    | draining =>
      have hwake : j.wakeUp p = p := wakeUp_eq_self (by simp [waitEnd, hs])
      rw [hwake]
      exact .drained hs (idle_of_wakesAt h.1 (.inr hs))
    | finished =>
      have hnone : j.wakesAt p = some t := h.1
      simp [wakesAt, hs] at hnone
    | zeroInterval =>
      have hnone : j.wakesAt p = some t := h.1
      simp [wakesAt, hs] at hnone

theorem settleFirst_eq {f : Flight σ} {rest : Flights σ} (hf : p.flights = f :: rest) :
    j.settleFirst p =
      { p with
        now := f.settlesAt, ledger := (f.settle j.generator.submitTimeout p.ledger).2
        tracker := p.tracker.record (f.settle j.generator.submitTimeout p.ledger).1
        flights := rest } := by
  simp [settleFirst, hf]

theorem add_refillSize_le {c : Saturation} {answer : Answer Nat} {dispatched : Nat}
    (h : dispatched ≤ j.target) : dispatched + j.refillSize c answer dispatched ≤ j.target := by
  unfold refillSize
  dsimp only
  omega

/-- A refill is awaited only while requests are left. -/
theorem shaped_awaitRefill {tick : Instant} (hle : p.dispatched ≤ j.target)
    (hord : p.flights.Ordered p.now) (hr : j.Refills p) (hticks : j.Ticks) :
    j.Shaped (j.awaitRefill tick p) := by
  unfold awaitRefill
  refine ⟨hle, hord, ?_⟩
  by_cases hleft : j.target ≤ p.dispatched
  · simp only [hleft, if_true]
    exact hr
  · simp only [hleft, if_false]
    exact ⟨Nat.lt_of_not_le hleft, hr, hticks⟩

/-- Phases stay well-shaped. -/
theorem Move.shaped {p' : Phase σ ε} (hp : j.Shaped p) (m : Move j p p') : j.Shaped p' := by
  obtain ⟨hle, hord, hp⟩ := hp
  cases m with
  | settle f rest hf =>
    rw [settleFirst_eq hf]
    rw [hf] at hord
    obtain ⟨hfirst, hrest⟩ := List.pairwise_cons.mp hord.1
    refine ⟨hle, ⟨hrest, hfirst⟩, ?_⟩
    -- stages in which nothing is under way cannot settle anything
    cases hs : p.stage <;> simp only [hs, hf] at hp ⊢
    case starting | pausing | priming | finished | zeroInterval => simp at hp
    all_goals exact hp
  | start hq =>
    refine ⟨hle, ordered_launch _ hord, ?_⟩
    -- only the stages of refills may have something queued
    cases hs : p.stage <;> simp only [launch, hs] at hp ⊢
    case starting | pausing | priming => exact absurd hp.2.1 hq
    case finished | zeroInterval => exact absurd hp.2 hq
    case group => exact absurd hp.1 hq
    all_goals exact hp
  | burst hs hstage hleft =>
    simp only [hstage] at hp
    have hlen : (j.sendGroup (j.generator.buildAll j.target p.sequences).1
        (j.generator.buildAll j.target p.sequences).2 p).dispatched = j.target := by
      simp [sendGroup, launch, Generator.length_buildAll, hp.2.2]
    exact ⟨hlen.le, ordered_launch _ hord, hp.2.1, fun _ => hlen⟩
  | group hs hd hgo hleft =>
    have hlen : (j.sendGroup
        (j.generator.build p.dispatched (j.groupSize p.dispatched) p.sequences).1
        (j.generator.build p.dispatched (j.groupSize p.dispatched) p.sequences).2
        (j.wakeUp p)).dispatched = p.dispatched + j.groupSize p.dispatched := by
      simp [sendGroup, launch, wakeUp, Generator.length_build]
    have hwake := ordered_wakeUp hord (wakesFirst_of_idle (j := j) hd.2.1)
    refine ⟨?_, ordered_launch _ hwake, hd.2.2, fun hb => absurd hb hs⟩
    rw [hlen]
    exact (add_groupSize_le hs hleft).trans j.groupTarget_le
  | stop hs hd hstop hleft =>
    exact ⟨hle, ordered_wakeUp hord (wakesFirst_of_idle hd.2.1), hd.2⟩
  | complete hs hd hdone =>
    exact ⟨hle, ordered_wakeUp hord (wakesFirst_of_idle hd.2.1), hd.2⟩
  | pause size pause hs hstage hidle hleft =>
    exact ⟨hle, hord, hidle.1, hidle.2, hleft, size, _, hs⟩
  | prime c hs hd hdone =>
    exact ⟨hle, ordered_wakeUp hord (wakesFirst_of_idle hd.2.1), hd.2.1, hd.2.2, c, hs, hdone⟩
  | startRefills c due hs hstage =>
    simp only [hstage] at hp
    have hwake := ordered_wakeUp hord (wakesFirst_of_idle (j := j) hp.1)
    rw [startRefills_eq]
    split
    · exact ⟨hle, hwake, hp.1, hp.2.1⟩
    · rename_i hinterval
      refine shaped_awaitRefill hle hwake hp.2.2 fun c' hc' => ?_
      rw [hs, Strategy.saturation.injEq] at hc'
      exact hc' ▸ Nat.pos_of_ne_zero hinterval
  | cut tick hstage hfirst hraised =>
    simp only [hstage] at hp
    exact ⟨hle, ordered_wakeUp hord hfirst, hp.2.1⟩
  | expire tick hstage hfirst hraised hover =>
    simp only [hstage] at hp
    exact ⟨hle, ordered_wakeUp hord hfirst, hp.2.1⟩
  | ask c tick hs hstage hfirst hraised hover =>
    simp only [hstage] at hp
    exact ⟨hle, ordered_wakeUp hord hfirst, hp⟩
  | refill c due next hs hstage hfirst =>
    simp only [hstage] at hp
    obtain ⟨-, ⟨c', hc', hfill⟩, hticks⟩ := hp
    rw [refill_eq]
    refine shaped_awaitRefill ?_ (ordered_wakeUp hord hfirst)
      ⟨c', hc', hfill.trans (Nat.le_add_right _ _)⟩ hticks
    exact add_refillSize_le hle
  | drained hstage hidle => exact ⟨hle, hord, hidle⟩

end Job

end Throughput
