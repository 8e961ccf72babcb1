import Throughput.Proofs.Send.Course

/-!
# The events of a course

A trace tells which events a course takes, each with the phase to which it happens. However the
events are ordered, there are only so many of them.
-/

namespace Throughput.Job

variable {σ ε : Type} {j : Job σ ε} {p q : Phase σ ε} {t : Instant}

/-- Events in their order, each with the phase before it. -/
abbrev Steps (σ ε : Type) := List (Phase σ ε × Event)

/-- The phases that can follow a phase, with the events that lead there. -/
inductive Trace (j : Job σ ε) (p : Phase σ ε) : Steps σ ε → Phase σ ε → Prop where
  | refl : Trace j p [] p
  | event {steps : Steps σ ε} {q : Phase σ ε} {t : Instant} {e : Event} (h : Trace j p steps q)
      (hdue : j.Due q t e) : Trace j p (steps ++ [(q, e)]) (j.step e q)
  | raise {steps : Steps σ ε} {q : Phase σ ε} {t : Instant} (h : Trace j p steps q)
      (hnow : q.now ≤ t) (hdue : ∀ t' e, j.Enabled q t' e → t ≤ t') (hfree : ¬ IsBusy q) :
      Trace j p steps (raisedAt t q)

theorem Course.exists_trace (h : j.Course p q) : ∃ steps, j.Trace p steps q := by
  induction h with
  | refl => exact ⟨[], .refl⟩
  | event _ hdue ih =>
    obtain ⟨steps, h⟩ := ih
    exact ⟨_, .event h hdue⟩
  | raise _ hnow hdue hfree ih =>
    obtain ⟨steps, h⟩ := ih
    exact ⟨steps, .raise h hnow hdue hfree⟩

theorem Trace.course {steps : Steps σ ε} (h : j.Trace p steps q) : j.Course p q := by
  induction h with
  | refl => exact .refl
  | event _ hdue ih => exact .event ih hdue
  | raise _ hnow hdue hfree ih => exact .raise ih hnow hdue hfree

/-- What every event and every raising of the signal preserve of a phase and the events so far. -/
theorem Trace.keeps {I : Steps σ ε → Phase σ ε → Prop} {steps : Steps σ ε} (hp : j.Shaped p)
    (hI : I [] p)
    (event : ∀ steps q t e, j.Shaped q → I steps q → j.Due q t e → I (steps ++ [(q, e)]) (j.step e q))
    (raise : ∀ steps q t, j.Shaped q → I steps q → q.now ≤ t →
      (∀ t' e, j.Enabled q t' e → t ≤ t') → ¬ IsBusy q → I steps (raisedAt t q))
    (h : j.Trace p steps q) : j.Shaped q ∧ I steps q := by
  induction h with
  | refl => exact ⟨hp, hI⟩
  | event _ hdue ih => exact ⟨(step_move ih.1 hdue).shaped ih.1, event _ _ _ _ ih.1 ih.2 hdue⟩
  | raise _ hnow hdue hfree ih =>
    exact ⟨ih.1.raisedAt hdue, raise _ _ _ ih.1 ih.2 hnow hdue hfree⟩

/-- Something can happen to a phase until it has ended. -/
theorem due_or_ended (hp : j.Shaped p) :
    (∃ t e, j.Due p t e) ∨ p.stage = .finished ∨ p.stage = .zeroInterval := by
  cases hnext : j.next? p with
  | none => exact .inr (ended_of_next? hnext)
  | some next => exact .inl ⟨_, _, due_of_next? hp.2.1 hnext⟩

end Throughput.Job
