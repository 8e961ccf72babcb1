import Throughput.Proofs.Send.Books
import Throughput.Proofs.Send.Progress

/-!
# What a move sends

A move of a journaled phase may issue requests and may submit some. What is issued and not yet
submitted is queued, and the books stay balanced.
-/

namespace Throughput.Job

variable {σ ε : Type} {j : Job (σ × Journal) ε} {p p' : Phase (σ × Journal) ε} {before : Tracker}

/-- Does a job work on a journaled ledger? -/
structure IsJournaled (j : Job (σ × Journal) ε) : Prop where
  ledger : ∃ ledger : Ledger σ, j.ledger = ledger.journaled
  estimator : ∃ estimator : Estimator σ ε, j.estimator = estimator.journaled

/-- Are the books of a phase balanced that began with the given record? -/
def IsBalanced (j : Job (σ × Journal) ε) (before : Tracker) (p : Phase (σ × Journal) ε) : Prop :=
  Balanced j.generator.submitTimeout before p.tracker p.ledger.2 p.flights

/-- Are requests those that a move issues? They are the next of their senders, built one by one or
all at once. -/
def Issues (j : Job σ ε) (p p' : Phase σ ε) (issued : List Request) : Prop :=
  p'.dispatched = p.dispatched + issued.length ∧
    (issued = [] ∧ p'.sequences = p.sequences ∨
      j.strategy = .burst ∧ p.dispatched = 0 ∧
        j.generator.buildAll j.target p.sequences = (issued, p'.sequences) ∨
      j.strategy ≠ .burst ∧
        ∃ count, j.generator.build p.dispatched count p.sequences = (issued, p'.sequences))

/-- Does a move submit queued and issued requests in their order, and queue the others? -/
def Submits (p p' : Phase (σ × Journal) ε) (issued : List Request) : Prop :=
  ∃ sent, p.queued ++ issued = sent ++ p'.queued ∧
    p'.ledger.2.calls = p.ledger.2.calls ++ sent.map (·, p'.now)

theorem issues_nil {p p' : Phase σ ε} {j : Job σ ε} (hd : p'.dispatched = p.dispatched)
    (hs : p'.sequences = p.sequences) : j.Issues p p' [] :=
  ⟨by simp [hd], .inl ⟨rfl, hs⟩⟩

theorem submits_nil (hq : p'.queued = p.queued) (hc : p'.ledger.2.calls = p.ledger.2.calls) :
    Submits p p' [] :=
  ⟨[], by simp [hq], by simp [hc]⟩

theorem balanced_launch (hj : j.IsJournaled) (h : j.IsBalanced before p) (requests : List Request) :
    j.IsBalanced before (j.launch requests p) ∧
      (j.launch requests p).ledger.2.calls =
        p.ledger.2.calls ++ requests.map (·, p.now) := by
  obtain ⟨ledger, hl⟩ := hj.ledger
  unfold IsBalanced launch
  rw [hl]
  exact Balanced.launch h requests p.ledger.1

theorem balanced_sendGroup (hj : j.IsJournaled) (h : j.IsBalanced before p)
    (requests : List Request) (sequences : Sequences) :
    j.IsBalanced before (j.sendGroup requests sequences p) ∧
      (j.sendGroup requests sequences p).ledger.2.calls =
        p.ledger.2.calls ++ requests.map (·, p.now) :=
  balanced_launch (p := { p with
    sequences, stage := .group, dispatched := p.dispatched + requests.length
    groups := p.groups + 1 }) hj h requests

theorem IsBalanced.congr (h : j.IsBalanced before p) (ht : p'.tracker = p.tracker)
    (hl : p'.ledger.2 = p.ledger.2) (hf : p'.flights = p.flights) : j.IsBalanced before p' := by
  unfold IsBalanced at h ⊢
  rwa [ht, hl, hf]

theorem prime_journal (hj : j.IsJournaled) (p : Phase (σ × Journal) ε) :
    (j.primed p).ledger.2 = p.ledger.2 := by
  obtain ⟨estimator, he⟩ := hj.estimator
  simp only [primed, he]
  rfl

theorem refilled_journal (hj : j.IsJournaled) (p : Phase (σ × Journal) ε) (c : Saturation) :
    (j.refilled p c).ledger.2 = p.ledger.2 := by
  obtain ⟨estimator, he⟩ := hj.estimator
  simp only [refilled, he]
  rfl

/-- What a move does to the books. -/
theorem Move.books (hj : j.IsJournaled) (hp : j.Shaped p) (h : j.IsBalanced before p)
    (m : Move j p p') :
    j.IsBalanced before p' ∧ ∃ issued, j.Issues p p' issued ∧ Submits p p' issued := by
  obtain ⟨hle, hord, hp⟩ := hp
  cases m with
  | settle f rest hf =>
    rw [IsBalanced, hf] at h
    obtain ⟨hb, hc⟩ := Balanced.settle h p.ledger.1
    rw [settleFirst_eq hf]
    exact ⟨hb, [], issues_nil rfl rfl, submits_nil rfl hc⟩
  | start hq =>
    obtain ⟨hb, hc⟩ := balanced_launch (p := { p with queued := [] }) hj h p.queued
    exact ⟨hb, [], issues_nil rfl rfl, p.queued, rfl, hc⟩
  | burst hs hstage hleft =>
    simp only [hstage] at hp
    obtain ⟨hb, hc⟩ := balanced_sendGroup hj h (j.generator.buildAll j.target p.sequences).1
      (j.generator.buildAll j.target p.sequences).2
    refine ⟨hb, _, ⟨rfl, .inr (.inl ⟨hs, hp.2.2, rfl⟩)⟩, _, ?_, hc⟩
    simp [sendGroup, launch, hp.2.1]
  | group hs hd hgo hleft =>
    obtain ⟨hb, hc⟩ := balanced_sendGroup (p := j.wakeUp p) hj h
      (j.generator.build p.dispatched (j.groupSize p.dispatched) p.sequences).1
      (j.generator.build p.dispatched (j.groupSize p.dispatched) p.sequences).2
    refine ⟨hb, _, ⟨rfl, .inr (.inr ⟨hs, _, rfl⟩)⟩, _, ?_, hc⟩
    simp [sendGroup, launch, hd.2.2]
  | stop hs hd hstop hleft => exact ⟨h, [], issues_nil rfl rfl, submits_nil rfl rfl⟩
  | complete hs hd hdone => exact ⟨h, [], issues_nil rfl rfl, submits_nil rfl rfl⟩
  | pause size pause hs hstage hidle hleft =>
    exact ⟨h, [], issues_nil rfl rfl, submits_nil rfl rfl⟩
  | prime c hs hd hdone => exact ⟨h, [], issues_nil rfl rfl, submits_nil rfl rfl⟩
  | startRefills c due hs hstage =>
    have hjournal := prime_journal hj (j.wakeUp p)
    have hcalls := congrArg Journal.calls hjournal
    rw [startRefills_eq]
    split
    · exact ⟨h.congr rfl hjournal rfl, [], issues_nil rfl rfl, submits_nil rfl hcalls⟩
    · exact ⟨h.congr rfl hjournal rfl, [], issues_nil rfl rfl, submits_nil rfl hcalls⟩
  | cut tick hstage hfirst hraised => exact ⟨h, [], issues_nil rfl rfl, submits_nil rfl rfl⟩
  | expire tick hstage hfirst hraised hover =>
    exact ⟨h, [], issues_nil rfl rfl, submits_nil rfl rfl⟩
  | ask c tick hs hstage hfirst hraised hover =>
    exact ⟨h, [], issues_nil rfl rfl, submits_nil rfl rfl⟩
  | refill c due next hs hstage hfirst =>
    have hjournal := refilled_journal hj (j.wakeUp p) c
    have hburst : j.strategy ≠ .burst := by simp [hs]
    refine ⟨h.congr rfl hjournal rfl,
      (j.generator.build p.dispatched (j.refillNow (j.wakeUp p) c) p.sequences).1,
      ⟨?_, .inr (.inr ⟨hburst, _, rfl⟩)⟩, [], rfl, ?_⟩
    · rw [Generator.length_build]
      rfl
    · rw [List.map_nil, List.append_nil]
      exact congrArg Journal.calls hjournal
  | drained hstage hidle => exact ⟨h, [], issues_nil rfl rfl, submits_nil rfl rfl⟩

/-- A journaled job is what a generator makes of a journaled ledger. -/
theorem isJournaled_of_job {g : Generator} {ledger : Ledger σ} {estimator : Estimator σ ε}
    {strategy : Strategy} {target : Nat} {duration : Option Duration} {now : Instant}
    (h : g.job ledger.journaled estimator.journaled strategy target duration now = .ok j) :
    j.IsJournaled := by
  rw [job_eq h]
  exact ⟨⟨ledger, rfl⟩, ⟨estimator, rfl⟩⟩

theorem balanced_start (j : Job (σ × Journal) ε) (b : Bench σ) (memory : ε) :
    j.IsBalanced b.tracker (start b.journaled memory) :=
  Balanced.refl _ _

/-- The books are balanced where a run ends. -/
theorem balanced_run (hj : j.IsJournaled) (b : Bench σ) (memory : ε) :
    j.IsBalanced b.tracker (j.run (start b.journaled memory)) := by
  refine run_keeps (j.shaped_start _ _) (j.balanced_start b memory) ?_
  intro p p' hp hb m
  exact (m.books hj hp hb).1

end Throughput.Job
