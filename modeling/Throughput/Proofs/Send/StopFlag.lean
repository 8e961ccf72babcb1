import Throughput.Proofs.Send.Order

/-!
# The mark of an early stop

A phase that stops before its target is marked, wherever it stops, with one exception: refills that
end at the deadline leave no mark.
-/

namespace Throughput

variable {σ ε : Type}

namespace Job

variable {j : Job σ ε} {p p' : Phase σ ε}

/-- Did refills end at the deadline, with the signal not seen? -/
def Expired (j : Job σ ε) (p : Phase σ ε) : Prop :=
  j.Refills p ∧ p.shutdown ≠ .raised ∧ j.isOver p.now = true

/-- The mark of a phase that sends nothing more. -/
def Marked (j : Job σ ε) (p : Phase σ ε) : Prop :=
  if p.stoppedEarly then p.dispatched < j.target ∧ (j.Refills p → p.shutdown = .raised)
  else j.target ≤ p.dispatched ∨ j.Expired p

/-- No phase is marked while it may still send. -/
def Flagged (j : Job σ ε) (p : Phase σ ε) : Prop :=
  match p.stage with
  | .draining | .finished => j.Marked p
  | .zeroInterval => True
  | _ => p.stoppedEarly = false

theorem stoppedEarly_of_decides (h : j.Flagged p) (hd : Decides p) : p.stoppedEarly = false := by
  unfold Flagged at h
  rcases hd with ⟨hs | hs | ⟨wake, hs⟩, -, -⟩ <;> simpa only [hs] using h

theorem isOver_mono {t t' : Instant} (h : j.isOver t = true) (hle : t ≤ t') :
    j.isOver t' = true := by
  unfold isOver at h ⊢
  split at h
  · simp only [decide_eq_true_eq] at h ⊢
    exact h.trans hle
  · cases h

/-- A phase that awaits refills is not marked; one that needs none is complete. -/
theorem flagged_awaitRefill {tick : Instant} (h : p.stoppedEarly = false) :
    j.Flagged (j.awaitRefill tick p) := by
  unfold awaitRefill Flagged
  by_cases hleft : j.target ≤ p.dispatched
  · simp only [hleft, if_true, Marked, h]
    exact .inl trivial
  · simpa only [hleft, if_false] using h

theorem Move.flagged (hp : j.Shaped p) (h : j.Flagged p) (m : Move j p p') : j.Flagged p' := by
  obtain ⟨hle, hord, hp⟩ := hp
  cases m with
  | settle f rest hf =>
    have hnow := hord.2 f (by simp [hf])
    rw [settleFirst_eq hf]
    unfold Flagged at h ⊢
    cases hs : p.stage <;> simp only [hs] at h ⊢
    case draining | finished =>
      unfold Marked at h ⊢
      split at h
      · rwa [if_pos ‹_›]
      · rw [if_neg ‹_›]
        exact h.imp_right fun ⟨hr, hsig, hover⟩ => ⟨hr, hsig, isOver_mono hover hnow⟩
    all_goals exact h
  | start hq => exact h
  | burst hs hstage hleft =>
    have hstopped : p.stoppedEarly = false := by simpa only [Flagged, hstage] using h
    exact hstopped
  | group hs hd hgo hleft =>
    have hstopped := stoppedEarly_of_decides h hd
    exact hstopped
  | stop hs hd hstop hleft =>
    -- the first fill is not complete where a group is left out
    have hmark : ¬ j.Refills (j.wakeUp p).stopEarly := by
      rintro ⟨c, hc, hfill⟩
      simp only [groupTarget, hc] at hleft
      exact absurd hleft (Nat.not_lt_of_le hfill)
    exact ⟨hleft.trans_le j.groupTarget_le, fun hr => absurd hr hmark⟩
  | complete hs hd hdone =>
    have hstopped := stoppedEarly_of_decides h hd
    simp only [Flagged, Phase.finish, Marked, wakeUp, hstopped]
    exact .inl hdone
  | pause size pause hs hstage hidle hleft => simpa only [Flagged, hstage] using h
  | prime c hs hd hdone =>
    have hstopped := stoppedEarly_of_decides h hd
    exact hstopped
  | startRefills c due hs hstage =>
    have hstopped : p.stoppedEarly = false := by simpa only [Flagged, hstage] using h
    rw [startRefills_eq]
    split
    · trivial
    · exact flagged_awaitRefill hstopped
  | cut tick hstage hfirst hraised =>
    simp only [hstage] at hp
    exact ⟨hp.1, fun _ => hraised⟩
  | expire tick hstage hfirst hraised hover =>
    simp only [hstage] at hp
    have hstopped : p.stoppedEarly = false := by simpa only [Flagged, hstage] using h
    -- the deadline sets no mark here
    simp only [Flagged, Marked, wakeUp_stoppedEarly, hstopped]
    exact .inr ⟨hp.2.1, hraised, hover⟩
  | ask c tick hs hstage hfirst hraised hover =>
    have hstopped : p.stoppedEarly = false := by simpa only [Flagged, hstage] using h
    exact hstopped
  | refill c due next hs hstage hfirst =>
    have hstopped : p.stoppedEarly = false := by simpa only [Flagged, hstage] using h
    rw [refill_eq]
    exact flagged_awaitRefill hstopped
  | drained hstage hidle =>
    have hmarked : j.Marked p := by simpa only [Flagged, hstage] using h
    exact hmarked

theorem marked_run (b : Bench σ) (memory : ε)
    (hstage : (j.run (start b memory)).stage = .finished) :
    j.Marked (j.run (start b memory)) := by
  have hflagged := run_keeps (P := j.Flagged) (j.shaped_start b memory) rfl
    fun p p' hp h m => m.flagged hp h
  simpa only [Flagged, hstage] using hflagged

/-- The mark is missing before the target just where refills have expired. -/
theorem stoppedEarly_iff_of_marked (h : j.Marked p) :
    p.stoppedEarly = true ↔ p.dispatched < j.target ∧ ¬ (j.Refills p ∧ p.shutdown ≠ .raised) := by
  unfold Marked at h
  split at h
  · rename_i hmark
    exact ⟨fun _ => ⟨h.1, fun ⟨hr, hsig⟩ => hsig (h.2 hr)⟩, fun _ => hmark⟩
  · rename_i hmark
    refine ⟨fun hset => absurd hset hmark, fun ⟨hless, hnot⟩ => ?_⟩
    obtain ⟨hr, hsig, -⟩ := h.resolve_left (Nat.not_le_of_lt hless)
    exact absurd ⟨hr, hsig⟩ hnot

end Job

/-- A phase is marked as stopped early just if it stopped before its target, unless it was refilling
and did not see the signal. An unmarked phase before its target has ended at its deadline. -/
theorem Generator.sendWith_stoppedEarly_iff (g : Generator) (ledger : Ledger σ)
    (estimator : Estimator σ ε) (strategy : Strategy) (target : Nat) (duration : Option Duration)
    (b : Bench σ) (memory : ε) {summary : SendSummary} {after : Bench σ} {memory' : ε}
    (h : g.sendWith ledger estimator strategy target duration b memory =
      (.ok summary, after, memory')) :
    (summary.stoppedEarly = true ↔ summary.dispatched < target ∧
      ¬ ((∃ c, strategy = .saturation c ∧ min c.initialFill target ≤ summary.dispatched) ∧
        after.shutdown ≠ .raised)) ∧
    (summary.stoppedEarly = false → summary.dispatched < target →
      ∃ deadline ≤ summary.finished, g.deadline b.now duration = some deadline) := by
  obtain ⟨j, hjob, hstage, rfl, rfl⟩ := Job.run_of_sendWith h
  have hmarked := Job.marked_run b memory hstage
  obtain rfl : j.target = target := by rw [Job.job_eq hjob]
  obtain rfl : j.strategy = strategy := by rw [Job.job_eq hjob]
  have hdeadline : j.deadline = g.deadline b.now duration := by rw [Job.job_eq hjob]
  simp only [Job.summary, Job.bench]
  refine ⟨Job.stoppedEarly_iff_of_marked hmarked, fun hmark hless => ?_⟩
  rw [Job.Marked, if_neg (by simp [hmark])] at hmarked
  obtain ⟨-, -, hover⟩ := hmarked.resolve_left (Nat.not_le_of_lt hless)
  rw [← hdeadline]
  unfold Job.isOver at hover
  split at hover
  · rename_i deadline hd
    exact ⟨deadline, of_decide_eq_true hover, hd⟩
  · cases hover

/-- Refills of nothing go on to the deadline, and two of three requests have been sent unmarked. -/
theorem Generator.sendWith_stoppedEarly_expired :
    let r := (ofTwo none).sendWith (Ledger.steady (some 0))
      (estimatorOf .burst (Ledger.steady (some 0))) (.saturation { initialFill := 2 }) 3
      (some (seconds 2)) (Bench.ofTwo .never) none
    (∃ s, r.1 = .ok s ∧ s.dispatched = 2 ∧ s.stoppedEarly = false ∧ s.finished = seconds 2) ∧
      r.2.1.shutdown ≠ .raised := by
  intro r
  have hr : r = (.ok
      { strategy := "saturation", dispatched := 2, accepted := 2, failed := 0, groups := 1
        started := 0, finished := seconds 2, stoppedEarly := false }, r.2.1, r.2.2) :=
    Prod.ext (by cbv) rfl
  obtain ⟨hiff, -⟩ := sendWith_stoppedEarly_iff _ _ _ _ _ _ _ _ hr
  refine ⟨⟨_, congrArg Prod.fst hr, rfl, rfl, rfl⟩, fun hraised => ?_⟩
  have hset := hiff.mpr ⟨by decide, fun h => h.2 hraised⟩
  cases hset

end Throughput
