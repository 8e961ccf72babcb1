import Throughput.Proofs.Send.Progress
import Throughput.Send.Bounds

/-!
# Phases that overrun their clock

A phase on a clock with an end goes through the same events as on one without, up to the first pause
whose end the clock cannot tell. If there is none, both come to the same end.
-/

namespace Throughput

variable {σ ε : Type}

namespace Job

variable {j : Job σ ε} {p : Phase σ ε}

/-- A phase after so many events, or all of them if there are fewer. -/
def after (j : Job σ ε) (n : Nat) (p : Phase σ ε) : Phase σ ε := j.advance (fun _ _ => true) n p

/-- Does a phase come to a pause that overruns the clock? -/
def Overruns (j : Job σ ε) (p : Phase σ ε) : Prop := ∃ n, j.pauseOverruns (j.after n p) = true

theorem run_eq_after (j : Job σ ε) (p : Phase σ ε) : j.run p = j.after (j.stepsLeft p) p := rfl

theorem after_succ {t : Instant} {e : Event} (h : j.next? p = some (t, e)) (n : Nat) :
    j.after (n + 1) p = j.after n (j.step e p) := by
  unfold after
  rw [advance, h]
  rfl

theorem after_add (m n : Nat) (p : Phase σ ε) : j.after (m + n) p = j.after n (j.after m p) := by
  induction m generalizing p with
  | zero => rw [Nat.zero_add]; rfl
  | succ m ih =>
    cases hnext : j.next? p with
    | none => simp only [after, advance_of_next? hnext]
    | some next =>
      obtain ⟨t, e⟩ := next
      rw [Nat.add_right_comm, after_succ hnext, after_succ hnext, ih]

/-- The first pause that overruns is where a phase is left. -/
theorem advanceInBounds_cases (steps : Nat) (p : Phase σ ε) :
    (∃ n, j.advanceInBounds steps p = j.after n p ∧ j.pauseOverruns (j.after n p) = true) ∨
      j.advanceInBounds steps p = j.after steps p ∧
        ∀ n < steps, j.pauseOverruns (j.after n p) = false := by
  induction steps generalizing p with
  | zero => exact .inr ⟨rfl, nofun⟩
  | succ steps ih =>
    unfold advanceInBounds
    split
    · rename_i hover
      exact .inl ⟨0, rfl, hover⟩
    · rename_i hfits
      have hfits := Bool.eq_false_iff.mpr hfits
      split
      · rename_i t e hnext
        rcases ih (j.step e p) with ⟨n, heq, hover⟩ | ⟨heq, hrest⟩
        · rw [← after_succ hnext] at heq hover
          exact .inl ⟨n + 1, heq, hover⟩
        · refine .inr ⟨heq.trans (after_succ hnext _).symm, fun n hn => ?_⟩
          cases n with
          | zero => exact hfits
          | succ n =>
            rw [after_succ hnext]
            exact hrest n (Nat.lt_of_succ_lt_succ hn)
      · rename_i hnone
        have hstays : ∀ n, j.after n p = p := advance_of_next? hnone _
        exact .inr ⟨(hstays _).symm, fun n _ => (hstays n).symm ▸ hfits⟩

/-- Only a pause can overrun the clock of a phase. -/
theorem lt_of_pauseOverruns (h : j.pauseOverruns p = true) : ∃ size pause,
    j.strategy = .steadyBatch size (some pause) ∧ Instant.latest < p.now + pause := by
  unfold pauseOverruns at h
  split at h
  · rename_i size pause hstage hstrategy
    simp only [Bool.and_eq_true, decide_eq_true_eq] at h
    exact ⟨size, pause, hstrategy, h.2⟩
  · nomatch h

/-- A phase that has ended makes no pause. -/
theorem pauseOverruns_of_next? (h : j.next? p = none) : j.pauseOverruns p = false := by
  unfold pauseOverruns
  rcases ended_of_next? h with hstage | hstage <;> simp only [hstage]

/-- A phase is left at a pause that overruns the clock, and otherwise run to its end. -/
theorem runInBounds_cases (hj : j.IsSound) (hp : j.Shaped p) :
    (∃ n, j.runInBounds p = j.after n p ∧ j.pauseOverruns (j.runInBounds p) = true) ∨
      ¬ j.Overruns p ∧ j.runInBounds p = j.run p ∧ j.pauseOverruns (j.run p) = false := by
  have hended := pauseOverruns_of_next? (next?_run hj hp)
  rcases advanceInBounds_cases (j := j) (j.stepsLeft p) p with ⟨n, heq, hover⟩ | ⟨heq, hrest⟩
  · rw [← heq] at hover
    exact .inl ⟨n, heq, hover⟩
  · refine .inr ⟨fun ⟨n, hover⟩ => ?_, heq, hended⟩
    rcases Nat.lt_or_ge n (j.stepsLeft p) with hn | hn
    · rw [hrest n hn] at hover
      nomatch hover
    · -- nothing follows the end of a run
      obtain ⟨more, rfl⟩ := Nat.exists_eq_add_of_le hn
      have hstays : j.after more (j.run p) = j.run p := advance_of_next? (next?_run hj hp) _ _
      rw [after_add, ← run_eq_after, hstays, hended] at hover
      nomatch hover

end Job

namespace Generator

variable {g : Generator} {ledger : Ledger σ} {estimator : Estimator σ ε} {strategy : Strategy}
  {target : Nat} {duration : Option Duration} {b : Bench σ} {memory : ε}

/-- Can the clock of a phase not tell when sending must stop, or when a pause would end? -/
def Overruns (g : Generator) (ledger : Ledger σ) (estimator : Estimator σ ε) (strategy : Strategy)
    (target : Nat) (duration : Option Duration) (b : Bench σ) (memory : ε) : Prop :=
  g.deadlineOverruns b.now duration = true ∨
    ∃ j, g.job ledger estimator strategy target duration b.now = .ok j ∧
      j.Overruns (Job.start b memory)

theorem deadlineOverruns_iff {now : Instant} : g.deadlineOverruns now duration = true ↔
    ∃ deadline, g.deadline now duration = some deadline ∧ Instant.latest < deadline := by
  simp only [deadlineOverruns, Option.any_eq_true, decide_eq_true_eq]

/-- A phase that does not overrun its clock is run to its end. -/
theorem sendWithInBounds_eq
    (h : ¬ g.Overruns ledger estimator strategy target duration b memory) :
    g.sendWithInBounds ledger estimator strategy target duration b memory =
      g.sendWith ledger estimator strategy target duration b memory := by
  obtain ⟨hdeadline, hpauses⟩ := not_or.mp h
  unfold sendWithInBounds sendWith
  rw [if_neg hdeadline]
  cases hjob : g.job ledger estimator strategy target duration b.now with
  | error e => rfl
  | ok j =>
    rcases Job.runInBounds_cases (Job.isSound_of_job hjob) (j.shaped_start b memory) with
      ⟨n, heq, hover⟩ | ⟨-, heq, hfits⟩
    · rw [heq] at hover
      exact absurd ⟨j, hjob, n, hover⟩ hpauses
    · simp only [heq, hfits, Bool.false_eq_true, if_false]

theorem sendInBounds_eq
    (h : ¬ g.Overruns ledger (estimatorOf strategy ledger) strategy target duration b none) :
    g.sendInBounds ledger strategy target duration b = g.send ledger strategy target duration b := by
  unfold sendInBounds send
  rw [sendWithInBounds_eq h]

/-- A phase that overruns its clock is left before it starts or after some of its events. -/
theorem sendWithInBounds_overruns
    (h : g.Overruns ledger estimator strategy target duration b memory) : ∃ after memory',
      g.sendWithInBounds ledger estimator strategy target duration b memory =
        (.error (.overflow .instant), after, memory') ∧
      (after = b ∨ ∃ j n, g.job ledger estimator strategy target duration b.now = .ok j ∧
        after = Job.bench (j.after n (Job.start b memory))) := by
  unfold sendWithInBounds
  split
  · exact ⟨b, memory, rfl, .inl rfl⟩
  · rename_i hdeadline
    obtain ⟨j, hjob, hover⟩ := h.resolve_left hdeadline
    rw [hjob]
    rcases Job.runInBounds_cases (Job.isSound_of_job hjob) (j.shaped_start b memory) with
      ⟨n, heq, hpause⟩ | ⟨hfits, -⟩
    · simp only [hpause, if_true]
      exact ⟨_, _, rfl, .inr ⟨j, n, rfl, by rw [heq]⟩⟩
    · exact absurd hover hfits

end Generator

end Throughput
