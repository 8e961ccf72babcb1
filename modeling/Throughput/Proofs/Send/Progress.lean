import Throughput.Proofs.Send.Move

/-!
# Every send phase comes to its end

Each move lowers the number of events that can follow, so a run that is given this number of steps
leaves nothing to happen. What every move preserves therefore holds where a run ends.
-/

namespace Throughput.Job

variable {σ ε : Type} {j : Job σ ε} {p p' : Phase σ ε} {t : Instant}

/-- Later ticks are fewer. -/
theorem ticksFrom_anti (j : Job σ ε) {tick next : Instant} (h : tick ≤ next) :
    j.ticksFrom next ≤ j.ticksFrom tick := by
  unfold ticksFrom
  split
  · exact Nat.div_le_div_right (by lia)
  · exact Nat.le_refl _

/-- A tick before the deadline is one more than those from the next tick on. -/
theorem ticksFrom_succ {c : Saturation} {d tick next : Instant}
    (hc : j.strategy = .saturation c) (hd : j.deadline = some d) (hi : 0 < c.refillInterval)
    (ht : tick < d) (hn : tick + c.refillInterval ≤ next) :
    j.ticksFrom next + 1 ≤ j.ticksFrom tick := by
  refine (Nat.add_le_add_right (j.ticksFrom_anti hn) 1).trans ?_
  simp only [ticksFrom, hc, hd]
  by_cases hlast : tick + c.refillInterval ≤ d
  -- the last tick before the deadline is counted, as the quotient is rounded up
  · rw [← Nat.add_div_right _ hi]
    exact Nat.div_le_div_right (by lia)
  · have hnone : d - (tick + c.refillInterval) + (c.refillInterval - 1) < c.refillInterval := by lia
    rw [Nat.div_eq_of_lt hnone]
    exact (Nat.one_le_div_iff hi).mpr (by lia)

theorem add_le_nextTick (interval : Duration) {tick now : Instant} (h : tick ≤ now) :
    tick + interval ≤ nextTick interval tick now := by
  unfold nextTick
  split <;> lia

/-- A wait that nothing has cut short lasts its time. -/
theorem le_wakeUp_of_wait {instant : Instant}
    (hw : j.waitEnd p = p.shutdown.wait p.now (j.upToDeadline instant))
    (hraised : (j.wakeUp p).shutdown ≠ .raised) (hover : j.isOver (j.wakeUp p).now = false) :
    instant ≤ (j.wakeUp p).now := by
  have hnow : (j.wakeUp p).now = max p.now (j.upToDeadline instant) := by
    simp only [wakeUp, hw] at hraised ⊢
    rw [Shutdown.wait_eq_of_ne_raised hraised]
  rw [hnow] at hover ⊢
  unfold isOver at hover
  unfold upToDeadline at hover ⊢
  cases hd : j.deadline with
  | none => exact Nat.le_max_right ..
  | some d =>
    simp only [hd, decide_eq_false_iff_not] at hover ⊢
    lia

/-- A refill is asked for at a tick that lies before the deadline. -/
theorem tick_of_ask {tick d : Instant} (hs : p.stage = .refilling tick) (hd : j.deadline = some d)
    (hraised : (j.wakeUp p).shutdown ≠ .raised) (hover : j.isOver (j.wakeUp p).now = false) :
    tick ≤ (j.wakeUp p).now ∧ tick < d := by
  have htick : tick ≤ (j.wakeUp p).now :=
    le_wakeUp_of_wait (by simp only [waitEnd, hs]) hraised hover
  simp only [isOver, hd, decide_eq_false_iff_not, Nat.not_le] at hover
  exact ⟨htick, htick.trans_lt hover⟩

theorem length_launch (requests : List Request) (p : Phase σ ε) :
    (j.launch requests p).flights.length ≤ p.flights.length + requests.length := by
  simp only [launch, Flights.length_add, List.length_reverse]
  exact Nat.add_le_add_left (Launch.length_started_all ..) _

theorem waitsLeft_awaitRefill (j : Job σ ε) (tick : Instant) (p : Phase σ ε) :
    j.waitsLeft (j.awaitRefill tick p) ≤ 2 * j.ticksFrom tick + 2 := by
  unfold awaitRefill waitsLeft
  by_cases h : j.target ≤ p.dispatched <;> simp [h]

theorem waitsLeft_of_decides (hd : Decides p) :
    2 * j.ticksFrom p.now + 4 ≤ j.waitsLeft p := by
  unfold waitsLeft
  rcases hd with ⟨h | h | ⟨wake, h⟩, -, -⟩ <;> simp [h]

/-- As time goes by in a stage, its waits become fewer. -/
theorem waitsLeft_anti {q : Phase σ ε} (hs : q.stage = p.stage) (hnow : p.now ≤ q.now) :
    j.waitsLeft q ≤ j.waitsLeft p := by
  have hticks := j.ticksFrom_anti hnow
  unfold waitsLeft
  rw [hs]
  cases p.stage <;> dsimp only <;> omega

/-- Each move leaves fewer events to follow. -/
theorem Move.stepsLeft_lt (hj : j.IsSound) (hp : j.Shaped p) (m : Move j p p') :
    j.stepsLeft p' < j.stepsLeft p := by
  obtain ⟨hle, hord, hp⟩ := hp
  have hwake : j.ticksFrom (j.wakeUp p).now ≤ j.ticksFrom p.now := j.ticksFrom_anti (j.le_waitEnd p)
  cases m with
  | settle f rest hf =>
    have hwaits : j.waitsLeft (j.settleFirst p) ≤ j.waitsLeft p := by
      rw [settleFirst_eq hf]
      exact waitsLeft_anti rfl (hord.2 f (by simp [hf]))
    rw [settleFirst_eq hf] at hwaits ⊢
    simp only [stepsLeft, hf, List.length_cons]
    omega
  | start hq =>
    -- a queued request counts for two events until it is under way
    have hlen := j.length_launch p.queued { p with queued := [] }
    have hwaits : j.waitsLeft (j.launch p.queued { p with queued := [] }) = j.waitsLeft p := rfl
    have hpos := List.length_pos_of_ne_nil hq
    simp only [stepsLeft, hwaits]
    simp only [launch, List.length_nil] at hlen ⊢
    omega
  | burst hs hstage hleft =>
    simp only [hstage] at hp
    have hlen := j.length_launch (j.generator.buildAll j.target p.sequences).1 p
    simp only [launch, Generator.length_buildAll, hp.1, List.length_nil] at hlen
    simp only [stepsLeft, sendGroup, launch, waitsLeft, hstage, Generator.length_buildAll, hp.1,
      hp.2.1, hp.2.2, List.length_nil]
    omega
  | group hs hd hgo hleft =>
    have hwaits := j.waitsLeft_of_decides hd
    have hpos := groupSize_pos hj hleft
    have hsum := (add_groupSize_le hs hleft).trans j.groupTarget_le
    have hlen := j.length_launch
      (j.generator.build p.dispatched (j.groupSize p.dispatched) p.sequences).1 (j.wakeUp p)
    simp only [launch, Generator.length_build, wakeUp, hd.2.1, List.length_nil] at hlen
    simp only [stepsLeft, sendGroup, launch, waitsLeft, wakeUp, Generator.length_build, hd.2.1,
      hd.2.2, List.length_nil] at hwaits hwake ⊢
    omega
  | stop hs hd hstop hleft =>
    have hwaits := j.waitsLeft_of_decides hd
    simp only [stepsLeft, Phase.stopEarly, waitsLeft, wakeUp] at hwaits ⊢
    omega
  | complete hs hd hdone =>
    have hwaits := j.waitsLeft_of_decides hd
    simp only [stepsLeft, Phase.finish, waitsLeft, wakeUp] at hwaits ⊢
    omega
  | pause size pause hs hstage hidle hleft =>
    simp only [stepsLeft, waitsLeft, hstage]
    omega
  | prime c hs hd hdone =>
    have hwaits := j.waitsLeft_of_decides hd
    simp only [stepsLeft, primeEstimator, waitsLeft, wakeUp] at hwaits hwake ⊢
    omega
  | startRefills c due hs hstage =>
    have hbefore : j.waitsLeft p = 2 * j.ticksFrom p.now + 3 := by simp only [waitsLeft, hstage]
    rw [startRefills_eq]
    split
    · simp only [stepsLeft, waitsLeft, hstage, primed, wakeUp]
      omega
    · have hwaits := j.waitsLeft_awaitRefill ((j.wakeUp p).now + c.refillInterval)
        (j.primed (j.wakeUp p))
      have hlater := j.ticksFrom_anti (Nat.le_add_right (j.wakeUp p).now c.refillInterval)
      simp only [stepsLeft, hbefore]
      simp only [awaitRefill, primed, wakeUp_dispatched, wakeUp_queued, wakeUp_flights] at hwaits ⊢
      omega
  | cut tick hstage hfirst hraised =>
    simp only [stepsLeft, waitsLeft, hstage, wakeUp]
    omega
  | expire tick hstage hfirst hraised hover =>
    simp only [stepsLeft, waitsLeft, hstage, wakeUp]
    omega
  | ask c tick hs hstage hfirst hraised hover =>
    simp only [hstage] at hp
    -- this tick was one of those before the deadline, and the next is an interval later
    obtain ⟨d, hd⟩ := hj.deadline c hs
    obtain ⟨hlate, hbefore⟩ := tick_of_ask hstage hd hraised hover
    have hfewer := ticksFrom_succ hs hd (hp.2.2 c hs) hbefore
      (add_le_nextTick c.refillInterval hlate)
    simp only [stepsLeft, waitsLeft, hstage, wakeUp] at hfewer ⊢
    omega
  | refill c due next hs hstage hfirst =>
    have hwaits := j.waitsLeft_awaitRefill next (j.refilled (j.wakeUp p) c)
    have hsum : p.dispatched + j.refillNow (j.wakeUp p) c ≤ j.target := add_refillSize_le hle
    have hbefore : j.waitsLeft p = 2 * j.ticksFrom next + 3 := by simp only [waitsLeft, hstage]
    rw [refill_eq]
    simp only [stepsLeft, hbefore]
    simp only [awaitRefill, refilled, wakeUp_dispatched, wakeUp_queued, wakeUp_flights,
      wakeUp_sequences, List.length_append, Generator.length_build] at hwaits ⊢
    omega
  | drained hstage hidle =>
    simp only [stepsLeft, waitsLeft, hstage, Phase.finish]
    omega

theorem idle_of_next? (h : j.next? p = none) : p.flights = [] ∧ p.queued = [] := by
  unfold next? at h
  split at h
  · exact ⟨‹_›, ‹_›⟩
  · split at h
    · split at h <;> cases h
    · cases h
  · cases h
  · split at h <;> cases h

/-- A phase to which nothing more can happen has ended. -/
theorem ended_of_next? (h : j.next? p = none) :
    p.stage = .finished ∨ p.stage = .zeroInterval := by
  have hidle := idle_of_next? h
  have hnone : j.wakesAt p = none := by
    simp only [next?, hidle, Option.map_eq_none_iff] at h
    exact h
  unfold wakesAt Phase.isIdle at hnone
  cases hs : p.stage with
  | finished => exact .inl rfl
  | zeroInterval => exact .inr rfl
  | _ => simp [hs, hidle] at hnone

theorem next?_of_finished (hp : j.Shaped p) (h : p.stage = .finished) :
    j.next? p = none := by
  obtain ⟨-, -, hstage⟩ := hp
  simp only [h] at hstage
  simp [next?, hstage, wakesAt, h]

theorem advance_of_next? (h : j.next? p = none) (allowed : Instant → Bool → Bool)
    (steps : Nat) : j.advance allowed steps p = p := by
  cases steps with
  | zero => rfl
  | succ steps =>
    unfold advance
    rw [h]

/-- What every event preserves is preserved however long a phase is let go on. -/
theorem advance_keeps_due {P : Phase σ ε → Prop}
    (event : ∀ q t e, j.Shaped q → P q → j.Due q t e → P (j.step e q))
    (allowed : Instant → Bool → Bool) (steps : Nat) (hp : j.Shaped p) (hP : P p) :
    j.Shaped (j.advance allowed steps p) ∧ P (j.advance allowed steps p) := by
  induction steps generalizing p with
  | zero => exact ⟨hp, hP⟩
  | succ steps ih =>
    unfold advance
    split
    · rename_i instant e hn
      have hdue := due_of_next? hp.2.1 hn
      split
      · exact ih ((step_move hp hdue).shaped hp) (event _ _ _ hp hP hdue)
      · exact ⟨hp, hP⟩
    · exact ⟨hp, hP⟩

/-- The same for what every move preserves. -/
theorem advance_keeps {P : Phase σ ε → Prop}
    (keep : ∀ p p', j.Shaped p → P p → Move j p p' → P p') (allowed : Instant → Bool → Bool)
    (steps : Nat) (hp : j.Shaped p) (hP : P p) :
    j.Shaped (j.advance allowed steps p) ∧ P (j.advance allowed steps p) :=
  advance_keeps_due (fun _ _ _ hq hP hdue => keep _ _ hq hP (step_move hq hdue)) allowed steps hp hP

/-- With enough steps a phase goes on until its next event is not allowed. -/
theorem advance_stops (hj : j.IsSound) (allowed : Instant → Bool → Bool) :
    ∀ steps p, j.Shaped p → j.stepsLeft p ≤ steps → ∀ {t e},
      j.next? (j.advance allowed steps p) = some (t, e) →
        allowed t (isOwn (j.advance allowed steps p) e) = false := by
  intro steps
  induction steps with
  | zero =>
    intro p hp hle t e hn
    -- one more event would leave fewer than none
    have hless := (step_move hp (due_of_next? hp.2.1 hn)).stepsLeft_lt hj hp
    omega
  | succ steps ih =>
    intro p hp hle t e hn
    unfold advance at hn ⊢
    cases hnext : j.next? p with
    | none => simp [hnext] at hn
    | some next =>
      rw [hnext] at hn
      dsimp only at hn ⊢
      split
      · rename_i hallowed
        rw [if_pos hallowed] at hn
        have hmove := step_move hp (due_of_next? hp.2.1 hnext)
        have hless := hmove.stepsLeft_lt hj hp
        exact ih _ (hmove.shaped hp) (by omega) hn
      · rename_i hrefused
        rw [if_neg hrefused, hnext] at hn
        obtain ⟨rfl, rfl⟩ := Prod.mk.inj (Option.some.inj hn)
        exact Bool.eq_false_iff.mpr hrefused

/-- What every move preserves holds where a run ends. -/
theorem run_keeps {P : Phase σ ε → Prop} (hp : j.Shaped p) (hP : P p)
    (keep : ∀ p p', j.Shaped p → P p → Move j p p' → P p') : P (j.run p) :=
  (advance_keeps keep (fun _ _ => true) (j.stepsLeft p) hp hP).2

theorem shaped_advance (hp : j.Shaped p) (allowed : Instant → Bool → Bool) (steps : Nat) :
    j.Shaped (j.advance allowed steps p) :=
  (advance_keeps (P := j.Shaped) (fun _ _ hp _ m => m.shaped hp) allowed steps hp hp).1

theorem shaped_run (hp : j.Shaped p) : j.Shaped (j.run p) := shaped_advance hp ..

/-- Every run leads to the end of its phase. -/
theorem next?_run (hj : j.IsSound) (hp : j.Shaped p) : j.next? (j.run p) = none := by
  cases hn : j.next? (j.run p) with
  | none => rfl
  | some next => nomatch advance_stops hj _ _ p hp (Nat.le_refl _) hn

/-- Nothing is under way where a run ends. -/
theorem run_idle (hj : j.IsSound) (hp : j.Shaped p) :
    (j.run p).flights = [] ∧ (j.run p).queued = [] :=
  idle_of_next? (next?_run hj hp)

/-- No clock of a phase is set to an interval of zero if that of its refills is not. -/
theorem Move.stage_ne (hticks : j.Ticks) (h : p.stage ≠ .zeroInterval) (m : Move j p p') :
    p'.stage ≠ .zeroInterval := by
  have hrefill : ∀ (tick : Instant) (q : Phase σ ε),
      (j.awaitRefill tick q).stage ≠ .zeroInterval := by
    intro tick q hzero
    rcases awaitRefill_stage j q tick with hstage | hstage
    · rw [hstage] at hzero
      nomatch hzero
    · rw [hstage] at hzero
      nomatch hzero
  cases m with
  | settle f rest hf =>
    rw [settleFirst_eq hf]
    exact h
  | start => exact h
  | startRefills c due hs =>
    rw [startRefills_eq, if_neg (Nat.ne_of_gt (hticks c hs))]
    exact hrefill _ _
  | refill c due next =>
    rw [refill_eq]
    exact hrefill _ _
  | _ => nofun

/-- A phase whose refills can be timed comes to its end. -/
theorem finished_run (hj : j.IsSound) (hticks : j.Ticks) (hp : j.Shaped p)
    (h : p.stage ≠ .zeroInterval) : (j.run p).stage = .finished :=
  (ended_of_next? (next?_run hj hp)).resolve_right
    (run_keeps (P := fun p => p.stage ≠ .zeroInterval) hp h fun _ _ _ h m => m.stage_ne hticks h)

/-- A job whose refills can be timed is run to its end and summed up. -/
theorem sendWith_of_job {g : Generator} {ledger : Ledger σ} {estimator : Estimator σ ε}
    {strategy : Strategy} {target : Nat} {duration : Option Duration} {b : Bench σ}
    (hjob : g.job ledger estimator strategy target duration b.now = .ok j) (hticks : j.Ticks)
    (memory : ε) :
    let p := j.run (start b memory)
    p.stage = .finished ∧ g.sendWith ledger estimator strategy target duration b memory =
      (.ok (j.summary b p), bench p, p.estimator) := by
  have hended := finished_run (isSound_of_job hjob) hticks (j.shaped_start b memory) nofun
  refine ⟨hended, ?_⟩
  unfold Generator.sendWith
  rw [hjob]
  dsimp only
  rw [hended]
  rfl

/-- A phase that is summed up has run to its end. -/
theorem run_of_sendWith {g : Generator} {ledger : Ledger σ} {estimator : Estimator σ ε}
    {strategy : Strategy} {target : Nat} {duration : Option Duration} {b after : Bench σ}
    {memory memory' : ε} {summary : SendSummary}
    (h : g.sendWith ledger estimator strategy target duration b memory =
      (.ok summary, after, memory')) :
    ∃ j, g.job ledger estimator strategy target duration b.now = .ok j ∧
      (j.run (start b memory)).stage = .finished ∧
      summary = j.summary b (j.run (start b memory)) ∧ after = bench (j.run (start b memory)) := by
  unfold Generator.sendWith at h
  split at h
  · cases h
  · rename_i j hj
    dsimp only at h
    obtain ⟨hsummary, hafter⟩ := Prod.mk.inj h
    split at hsummary
    · cases hsummary
    · rename_i hstage
      refine ⟨j, hj, ?_, (Except.ok.inj hsummary).symm, (Prod.mk.inj hafter).1.symm⟩
      have hend := ended_of_next? (next?_run (isSound_of_job hj) (j.shaped_start b memory))
      exact hend.resolve_right hstage

end Throughput.Job
