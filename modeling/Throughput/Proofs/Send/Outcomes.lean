import Throughput.Proofs.Send.Order

/-!
# The outcomes of a phase

Where a phase ends, every request it issued has been submitted once, and every submission has been
recorded once, by the ledger's answer if that came in time and as timed out if not.
-/

namespace Throughput

variable {σ ε : Type}

/-- Does an outcome report what became of a submission? -/
def Outcome.Reports (timeout : Duration) (o : Outcome) (e : Entry) : Prop :=
  o.request = e.request ∧ o.submittedAt = e.startedAt ∧
    ((∃ latency ≤ timeout, e.latency = some latency ∧ o.latency = latency ∧
        ((∃ handle, e.answer = some (e.startedAt + latency, .ok handle) ∧
            o.handle = some handle ∧ o.failure = none) ∨
          ∃ error, e.answer = some (e.startedAt + latency, .error error) ∧
            o.handle = none ∧ o.failure.map Failure.kind = some error.failureKind)) ∨
      (∀ latency, e.latency = some latency → timeout < latency) ∧ e.answer = none ∧
        o.latency = timeout ∧ o.handle = none ∧ o.failure.map Failure.kind = some .timedOut)

theorem Entry.outcome_request (timeout : Duration) (e : Entry) :
    (e.outcome timeout).request = e.request := by
  unfold outcome
  split <;> rfl

/-- The outcome of a settled entry reports it. -/
theorem Entry.IsSettled.reports {timeout : Duration} {e : Entry} (h : e.IsSettled timeout) :
    (e.outcome timeout).Reports timeout e := by
  by_cases hin : e.InTime timeout
  · obtain ⟨latency, hle, hlat⟩ := hin
    obtain ⟨answer, hanswer⟩ := h.1 latency hle hlat
    have hduration : e.duration timeout = latency := by
      simp [duration, hlat, Nat.min_eq_left hle]
    cases answer with
    | ok handle =>
      refine ⟨by simp [outcome, hanswer], by simp [outcome, hanswer], .inl
        ⟨latency, hle, hlat, by simp [outcome, hanswer, hduration], .inl ⟨handle, hanswer, ?_⟩⟩⟩
      simp [outcome, hanswer]
    | error error =>
      refine ⟨by simp [outcome, hanswer], by simp [outcome, hanswer], .inl
        ⟨latency, hle, hlat, by simp [outcome, hanswer, hduration], .inr ⟨error, hanswer, ?_⟩⟩⟩
      simp [outcome, hanswer, Failure.ofError, Failure.of]
  -- too late or never are the same to the phase: it stops waiting when the time is over
  · have hanswer := h.2 hin
    have hlate : ∀ latency, e.latency = some latency → timeout < latency :=
      fun latency hlat => Nat.lt_of_not_le fun hle => hin ⟨latency, hle, hlat⟩
    have hduration : e.duration timeout = timeout := by
      unfold duration
      split
      · rename_i latency hlat
        exact Nat.min_eq_right (hlate latency hlat).le
      · rfl
    refine ⟨by simp [outcome, hanswer], by simp [outcome, hanswer], .inr
      ⟨hlate, hanswer, by simp [outcome, hanswer, hduration], ?_⟩⟩
    simp [outcome, hanswer, Failure.ofError, Failure.of, LedgerError.failureKind]

namespace Job

variable {j : Job (σ × Journal) ε} {p p' : Phase (σ × Journal) ε}

/-- Has each request that was issued been submitted or queued, once? -/
def IsCounted (p : Phase (σ × Journal) ε) : Prop :=
  p.ledger.2.length + p.queued.length = p.dispatched

theorem Move.counted (hj : j.IsJournaled) (hp : j.Shaped p) {before : Tracker}
    (hb : j.IsBalanced before p) (h : IsCounted p) (m : Move j p p') : IsCounted p' := by
  obtain ⟨-, issued, ⟨hcount, -⟩, sent, hsent, hcalls⟩ := m.books hj hp hb
  have hqueued := congrArg List.length hsent
  have hlength := congrArg List.length hcalls
  simp only [Journal.calls, List.length_append, List.length_map] at hqueued hlength
  unfold IsCounted at h ⊢
  omega

theorem counted_run (hs : j.IsSound) (hj : j.IsJournaled) (b : Bench σ) (memory : ε) :
    (j.run (start b.journaled memory)).ledger.2.length =
      (j.run (start b.journaled memory)).dispatched := by
  have hcounted := run_keeps (P := fun p => j.IsBalanced b.tracker p ∧ IsCounted p)
    (j.shaped_start b.journaled memory) ⟨j.balanced_start b memory, rfl⟩
    fun p p' hp h m => ⟨(m.books hj hp h.1).1, m.counted hj hp h.1 h.2⟩
  have hidle := (run_idle hs (j.shaped_start b.journaled memory)).2
  simpa [IsCounted, hidle] using hcounted.2

end Job

/-- Every request of a phase has been submitted once and every submission is recorded once, by the
ledger's answer if it came in time, at the end of that time at the latest, and as timed out if not.
Nothing else is recorded. In the order of the calls the recorded requests are those of the plan. -/
theorem Generator.sendWith_records_each_once (g : Generator) (ledger : Ledger σ)
    (estimator : Estimator σ ε) (strategy : Strategy) (target : Nat) (duration : Option Duration)
    (b : Bench σ) (memory : ε) {summary : SendSummary} {after : Bench σ} {memory' : ε}
    (h : g.sendWith ledger estimator strategy target duration b memory =
      (.ok summary, after, memory')) :
    ∃ journal : Journal,
    g.sendWith ledger.journaled estimator.journaled strategy target duration b.journaled memory =
      (.ok summary, after.withJournal journal, memory') ∧
    (∃ added reports : List Outcome,
      after.tracker.outcomes.toList = b.tracker.outcomes.toList ++ added ∧ reports.Perm added ∧
      List.Forall₂ (Outcome.Reports g.submitTimeout) reports journal ∧
      (∀ first, g.Distinct → g.StandAt b.sequences first →
        reports.map Outcome.request = g.plan first summary.dispatched) ∧
      summary.accepted = added.countP (fun o => o.handle.isSome)) ∧
    journal.length = summary.dispatched ∧
    summary.accepted + summary.failed = summary.dispatched ∧
    after.tracker.counts.total = b.tracker.counts.total + summary.dispatched := by
  obtain ⟨journal, j, hsame, hsound, hj, rfl, rfl, rfl, hjournal, htracker, -⟩ :=
    journal_of_sendWith h
  refine ⟨journal, hsame, ?_⟩
  have hcounted := Job.counted_run hsound hj b memory
  have hbalanced := Job.balanced_run hj b memory
  rw [hjournal] at hcounted
  rw [Job.IsBalanced, (Job.run_idle hsound (j.shaped_start b.journaled memory)).1, htracker,
    hjournal] at hbalanced
  obtain ⟨hsettled, added, hrecorded, hadded⟩ := hbalanced.recorded
  have hlength := hadded.length_eq
  rw [List.length_map, hcounted] at hlength
  have hle := added.countP_le_length (p := fun o => o.handle.isSome)
  have haccepted := b.tracker.accepted_recordAll added
  have hfailed := b.tracker.failed_recordAll added
  have houtcomes := b.tracker.outcomes_recordAll added
  rw [← hrecorded] at haccepted hfailed houtcomes
  simp only [Job.summary, OutcomeCounts.total, htracker,
    show b.journaled.tracker = b.tracker from rfl]
  refine ⟨⟨added, _, houtcomes, hadded.symm, ?_, fun first hd hb => ?_, by omega⟩, hcounted,
    by omega, by omega⟩
  · rw [List.forall₂_map_left_iff, List.forall₂_same]
    exact fun e he => (hsettled e he).reports
  · rw [List.map_map, ← (Job.follows_run hsound hj hd hb memory).1, hjournal]
    exact List.map_congr_left fun e _ => e.outcome_request _

/-- All answers come at the very end of the time allowed. -/
theorem Generator.sendWith_records_each_once_late :
    let r := (ofTwo none).sendWith (Ledger.steady (some (seconds 10)))
      (estimatorOf .burst (Ledger.steady (some (seconds 10)))) (.steadyBatch 2 none) 3 none
      (Bench.ofTwo .never) none
    r.2.1.tracker.counts.total = 3 := by
  intro r
  have hr : r = (.ok
      { strategy := "steady_batch", dispatched := 3, accepted := 3, failed := 0, groups := 2
        started := 0, finished := seconds 20, stoppedEarly := false }, r.2.1, r.2.2) :=
    Prod.ext (by cbv) rfl
  obtain ⟨journal, -, -, -, -, htotal⟩ := sendWith_records_each_once _ _ _ _ _ _ _ _ hr
  exact htotal

end Throughput
