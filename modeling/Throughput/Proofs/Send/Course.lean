import Throughput.Proofs.Send.Dispatch

/-!
# The courses of a phase

Events of one instant may happen in any order, and the signal may be raised between any two of them.
A course is what a phase goes through in one such order.
-/

namespace Throughput.Job

variable {σ ε : Type} {j : Job σ ε} {p q r : Phase σ ε} {t : Instant}

/-- Does a phase act before anything else can happen? It does at its very beginning, and after a read
that takes no time. -/
def IsBusy (p : Phase σ ε) : Prop :=
  match p.stage with
  | .starting => True
  | .priming due | .estimating due _ => due ≤ p.now
  | _ => False

/-- A phase when the signal is raised at an instant. -/
def raisedAt (t : Instant) (p : Phase σ ε) : Phase σ ε := { p with now := t, shutdown := .raised }

/-- The phases that can follow a phase. -/
inductive Course (j : Job σ ε) (p : Phase σ ε) : Phase σ ε → Prop where
  | refl : Course j p p
  | event {q : Phase σ ε} {t : Instant} {e : Event} (h : Course j p q) (hdue : j.Due q t e) :
      Course j p (j.step e q)
  | raise {q : Phase σ ε} {t : Instant} (h : Course j p q) (hnow : q.now ≤ t)
      (hdue : ∀ t' e, j.Enabled q t' e → t ≤ t') (hfree : ¬ IsBusy q) : Course j p (raisedAt t q)

theorem Course.trans (h : j.Course p q) (h' : j.Course q r) : j.Course p r := by
  induction h' with
  | refl => exact h
  | event _ hdue ih => exact .event ih hdue
  | raise _ hnow hdue hfree ih => exact .raise ih hnow hdue hfree

theorem proceed_now (j : Job σ ε) (p : Phase σ ε) : (j.proceed p).now = p.now := by
  unfold proceed sendNext
  split
  · split <;> rfl
  · split
    · rfl
    · split <;> rfl
  · dsimp only
    split
    · rfl
    · split <;> rfl

theorem goOn_now (j : Job σ ε) (p : Phase σ ε) : (j.goOn p).now = p.now := by
  unfold goOn
  split
  · exact j.proceed_now p
  · exact j.proceed_now p
  · unfold afterGroup
    split
    · split
      · exact j.proceed_now p
      · rfl
    · exact j.proceed_now p
  · rw [startRefills_eq]
    split <;> rfl
  · unfold afterTick
    split
    · rfl
    · split <;> rfl
  · rfl
  · rfl
  · rfl

/-- An event happens at its instant. -/
theorem step_now {e : Event} (h : j.Due p t e) : (j.step e p).now = t := by
  obtain ⟨he, -⟩ := h
  cases e with
  | settle =>
    obtain ⟨f, rest, hf, rfl⟩ := he
    exact congrArg Phase.now (settleFirst_eq hf)
  | start => exact he.2.symm
  | wake => exact (j.goOn_now _).trans (eq_of_wakesAt he).symm

theorem now_le_of_enabled (hord : p.flights.Ordered p.now) {e : Event} (h : j.Enabled p t e) :
    p.now ≤ t := by
  cases e with
  | settle =>
    obtain ⟨f, rest, hf, rfl⟩ := h
    exact hord.2 f (by simp [hf])
  | start => exact h.2.ge
  | wake =>
    rw [eq_of_wakesAt h]
    exact j.le_waitEnd p

/-- An event takes the clock forward, but not past any other. -/
theorem le_step_now (hp : j.Shaped p) {e : Event} (h : j.Due p t e) :
    p.now ≤ (j.step e p).now ∧ ∀ t' e', j.Enabled p t' e' → (j.step e p).now ≤ t' := by
  rw [step_now h]
  exact ⟨now_le_of_enabled hp.2.1 h.1, h.2⟩

/-- Raising the signal leaves a phase well-shaped. -/
theorem Shaped.raisedAt (hp : j.Shaped p) (hdue : ∀ t' e, j.Enabled p t' e → t ≤ t') :
    j.Shaped (raisedAt t p) := by
  obtain ⟨hle, hord, hshape⟩ := hp
  refine ⟨hle, ⟨hord.1, fun f hf => ?_⟩, hshape⟩
  cases hflights : p.flights with
  | nil => simp [Job.raisedAt, hflights] at hf
  | cons first rest =>
    have hfirst := hdue first.settlesAt .settle ⟨first, rest, hflights, rfl⟩
    have hpair := hord.1
    simp only [Job.raisedAt, hflights] at hf hpair
    rcases List.mem_cons.mp hf with rfl | hf
    · exact hfirst
    · exact hfirst.trans (List.rel_of_pairwise_cons hpair hf)

/-- What every move and every raising of the signal preserve holds throughout a course. -/
theorem Course.keeps {I : Phase σ ε → Prop} (hp : j.Shaped p) (hI : I p)
    (move : ∀ q q', j.Shaped q → I q → Move j q q' → q.now ≤ q'.now →
      (∀ t e, j.Enabled q t e → q'.now ≤ t) → I q')
    (raise : ∀ q t, j.Shaped q → I q → q.now ≤ t → (∀ t' e, j.Enabled q t' e → t ≤ t') →
      ¬ IsBusy q → I (raisedAt t q))
    (h : j.Course p q) : j.Shaped q ∧ I q := by
  induction h with
  | refl => exact ⟨hp, hI⟩
  | event _ hdue ih =>
    have hmove := step_move ih.1 hdue
    obtain ⟨hnow, hfirst⟩ := le_step_now ih.1 hdue
    exact ⟨hmove.shaped ih.1, move _ _ ih.1 ih.2 hmove hnow hfirst⟩
  | raise _ hnow hdue hfree ih =>
    exact ⟨ih.1.raisedAt hdue, raise _ _ ih.1 ih.2 hnow hdue hfree⟩

theorem Course.shaped (hp : j.Shaped p) (h : j.Course p q) : j.Shaped q :=
  (h.keeps (I := fun _ => True) hp trivial (fun _ _ _ _ _ _ _ => trivial)
    (fun _ _ _ _ _ _ _ => trivial)).1

/-- A run takes one course. -/
theorem course_advance (allowed : Instant → Bool → Bool) (steps : Nat) (hp : j.Shaped p) :
    j.Course p (j.advance allowed steps p) := by
  induction steps generalizing p with
  | zero => exact .refl
  | succ steps ih =>
    unfold advance
    cases hn : j.next? p with
    | none => exact .refl
    | some next =>
      dsimp only
      split
      · have hdue := due_of_next? hp.2.1 hn
        exact (Course.event .refl hdue).trans (ih ((step_move hp hdue).shaped hp))
      · exact .refl

end Throughput.Job
