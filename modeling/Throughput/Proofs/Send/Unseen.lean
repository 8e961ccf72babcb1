import Throughput.Proofs.Send.Dispatch

/-!
# Nobody sees the journal

A phase over a journaled ledger goes as it would go over the ledger itself: without its journal it is
the same phase, event by event.
-/

namespace Throughput

variable {σ ε : Type}

/-- A submission under way without its journal. -/
def Flight.forget (f : Flight (σ × Journal)) : Flight σ where
  request := f.request
  startedAt := f.startedAt
  settlesAt := f.settlesAt
  answer := f.answer.map fun answer now s => ((answer now (s, [])).1, (answer now (s, [])).2.1)

/-- Does the answer to a submission not depend on the journal? -/
def Flight.IsBlind (f : Flight (σ × Journal)) : Prop :=
  ∀ answer, f.answer = some answer →
    ∃ (call : Call σ Handle) (place : Nat), answer = (call.journaled place).answer

/-- Submissions that are being started, without their journal. -/
def Launch.forget (l : Launch (σ × Journal)) : Launch σ where
  ledger := l.ledger.1
  tracker := l.tracker
  started := l.started.map Flight.forget

/-- A phase without its journal. -/
def Phase.forget (p : Phase (σ × Journal) ε) : Phase σ ε where
  now := p.now
  shutdown := p.shutdown
  ledger := p.ledger.1
  tracker := p.tracker
  sequences := p.sequences
  estimator := p.estimator
  stage := p.stage
  flights := p.flights.map Flight.forget
  queued := p.queued
  dispatched := p.dispatched
  groups := p.groups
  stoppedEarly := p.stoppedEarly

/-- The same job over the journaled ledger. -/
def Job.journaled (j : Job σ ε) : Job (σ × Journal) ε where
  generator := j.generator
  ledger := j.ledger.journaled
  estimator := j.estimator.journaled
  strategy := j.strategy
  target := j.target
  deadline := j.deadline

section Fields

variable (j : Job σ ε) (p : Phase (σ × Journal) ε)

@[simp] theorem Phase.forget_now : p.forget.now = p.now := rfl
@[simp] theorem Phase.forget_shutdown : p.forget.shutdown = p.shutdown := rfl
@[simp] theorem Phase.forget_ledger : p.forget.ledger = p.ledger.1 := rfl
@[simp] theorem Phase.forget_tracker : p.forget.tracker = p.tracker := rfl
@[simp] theorem Phase.forget_stage : p.forget.stage = p.stage := rfl
@[simp] theorem Phase.forget_flights : p.forget.flights = p.flights.map Flight.forget := rfl
@[simp] theorem Phase.forget_queued : p.forget.queued = p.queued := rfl
@[simp] theorem Phase.forget_dispatched : p.forget.dispatched = p.dispatched := rfl

@[simp] theorem Job.journaled_strategy : j.journaled.strategy = j.strategy := rfl
@[simp] theorem Job.journaled_target : j.journaled.target = j.target := rfl
@[simp] theorem Job.journaled_isOver : j.journaled.isOver = j.isOver := rfl

theorem Job.shouldStop_forget : j.shouldStop p.forget = j.journaled.shouldStop p := rfl

end Fields

namespace Flight

variable (ledger : Ledger σ) (timeout : Duration) (now : Instant) (request : Request)
  (s : σ × Journal)

theorem start_forget :
    (start ledger.journaled timeout now request s).1.forget =
        (start ledger timeout now request s.1).1 ∧
      (start ledger.journaled timeout now request s).2.1 =
        (start ledger timeout now request s.1).2 := by
  unfold start
  dsimp only [Ledger.journaled, Call.journaled]
  split
  · split <;> exact ⟨rfl, rfl⟩
  · exact ⟨rfl, rfl⟩

theorem start_blind : (start ledger.journaled timeout now request s).1.IsBlind := by
  unfold start
  dsimp only [Ledger.journaled]
  split
  · split
    · intro answer h
      exact ⟨_, _, (Option.some.inj h).symm⟩
    · nofun
  · nofun

theorem settle_forget {f : Flight (σ × Journal)} (h : f.IsBlind) :
    (f.settle timeout s).1 = (f.forget.settle timeout s.1).1 ∧
      (f.settle timeout s).2.1 = (f.forget.settle timeout s.1).2 := by
  obtain ⟨s, journal⟩ := s
  unfold settle forget
  cases hf : f.answer with
  | none => exact ⟨rfl, rfl⟩
  | some answer =>
    obtain ⟨call, place, rfl⟩ := h answer hf
    simp only [Option.map_some, Call.journaled_answer]
    generalize call.answer f.settlesAt s = result
    rcases result with ⟨error | handle, s⟩ <;> exact ⟨rfl, rfl⟩

end Flight

/-- Submissions settle in the same order without their journal. -/
theorem Flights.map_forget_add (flights : Flights (σ × Journal))
    (started : List (Flight (σ × Journal))) :
    (Flights.add flights started).map Flight.forget =
      Flights.add (flights.map Flight.forget) (started.map Flight.forget) := by
  have hsame : ∀ f g : Flight (σ × Journal), f.notAfter g = f.forget.notAfter g.forget :=
    fun _ _ => rfl
  unfold add
  rw [List.map_merge (fun f _ g _ => hsame f g), List.map_mergeSort (fun f _ g _ => hsame f g)]

namespace Launch

variable (ledger : Ledger σ) (timeout : Duration) (now : Instant)

theorem add_forget (l : Launch (σ × Journal)) (request : Request) :
    (l.add ledger.journaled timeout now request).forget =
      l.forget.add ledger timeout now request := by
  -- without its journal it settles at the same instant, now or later
  obtain ⟨hflight, hledger⟩ := Flight.start_forget ledger timeout now request l.ledger
  have hblind := Flight.start_blind ledger timeout now request l.ledger
  unfold add
  dsimp only
  rw [show l.forget.ledger = l.ledger.1 from rfl, ← hflight, ← hledger]
  generalize Flight.start ledger.journaled timeout now request l.ledger = started at hblind ⊢
  obtain ⟨f, s⟩ := started
  obtain ⟨houtcome, hstate⟩ := Flight.settle_forget timeout s hblind
  by_cases hnow : f.settlesAt ≤ now
  · rw [if_pos hnow, if_pos (show f.forget.settlesAt ≤ now from hnow), ← houtcome, ← hstate]
    rfl
  · rw [if_neg hnow, if_neg (show ¬ f.forget.settlesAt ≤ now from hnow)]
    rfl

theorem add_blind {l : Launch (σ × Journal)} (h : ∀ f ∈ l.started, f.IsBlind) (request : Request) :
    ∀ f ∈ (l.add ledger.journaled timeout now request).started, f.IsBlind := by
  have hblind := Flight.start_blind ledger timeout now request l.ledger
  unfold add
  dsimp only
  split
  · exact h
  · intro f hf
    rcases List.mem_cons.mp hf with rfl | hf
    · exact hblind
    · exact h f hf

theorem all_forget (requests : List Request) (s : σ × Journal) (tracker : Tracker) :
    (all ledger.journaled timeout now requests s tracker).forget =
        all ledger timeout now requests s.1 tracker ∧
      ∀ f ∈ (all ledger.journaled timeout now requests s tracker).started, f.IsBlind := by
  have hfold : ∀ l : Launch (σ × Journal), (∀ f ∈ l.started, f.IsBlind) →
      (requests.foldl (add ledger.journaled timeout now) l).forget =
          requests.foldl (add ledger timeout now) l.forget ∧
        ∀ f ∈ (requests.foldl (add ledger.journaled timeout now) l).started, f.IsBlind := by
    induction requests with
    | nil => exact fun l h => ⟨rfl, h⟩
    | cons request requests ih =>
      intro l h
      rw [List.foldl_cons, List.foldl_cons, ← add_forget]
      exact ih _ (add_blind ledger timeout now h request)
  exact hfold { ledger := s, tracker } nofun

end Launch

namespace Job

variable (j : Job σ ε) (p : Phase (σ × Journal) ε)

/-- Does no submission under way depend on the journal? -/
def IsBlind (p : Phase (σ × Journal) ε) : Prop := ∀ f ∈ p.flights, f.IsBlind

theorem launch_forget (requests : List Request) :
    (j.journaled.launch requests p).forget = j.launch requests p.forget := by
  have hall := (Launch.all_forget j.ledger j.generator.submitTimeout p.now requests p.ledger
    p.tracker).1
  unfold launch
  rw [Phase.forget_ledger, Phase.forget_tracker, Phase.forget_now, ← hall]
  unfold Phase.forget
  rw [Flights.map_forget_add, List.map_reverse]
  rfl

theorem sendGroup_forget (requests : List Request) (sequences : Sequences) :
    (j.journaled.sendGroup requests sequences p).forget =
      j.sendGroup requests sequences p.forget := by
  unfold sendGroup
  rw [launch_forget]
  rfl

theorem sendNext_forget (size : Nat) :
    (j.journaled.sendNext size p).forget = j.sendNext size p.forget := by
  unfold sendNext
  rw [shouldStop_forget]
  split
  · rfl
  · exact j.sendGroup_forget p _ _

theorem proceed_forget : (j.journaled.proceed p).forget = j.proceed p.forget := by
  unfold proceed
  rw [Job.journaled_strategy, Job.journaled_target, Phase.forget_dispatched]
  split
  · split
    · rfl
    · exact j.sendGroup_forget p _ _
  · split
    · rfl
    · exact j.sendNext_forget p _
  · dsimp only
    split
    · rfl
    · exact j.sendNext_forget p _

theorem afterGroup_forget : (j.journaled.afterGroup p).forget = j.afterGroup p.forget := by
  unfold afterGroup
  rw [Job.journaled_strategy, Job.journaled_target, Phase.forget_dispatched]
  split
  · split
    · exact j.proceed_forget p
    · rfl
  · exact j.proceed_forget p

theorem startRefills_forget (c : Saturation) :
    (j.journaled.startRefills c p).forget = j.startRefills c p.forget := by
  rw [startRefills_eq, startRefills_eq]
  split <;> rfl

theorem afterTick_forget (c : Saturation) (tick : Instant) :
    (j.journaled.afterTick c tick p).forget = j.afterTick c tick p.forget := by
  unfold afterTick
  rw [Phase.forget_shutdown, Phase.forget_now, Job.journaled_isOver]
  split
  · rfl
  · split <;> rfl

theorem refill_forget (c : Saturation) (next : Instant) :
    (j.journaled.refill c next p).forget = j.refill c next p.forget := rfl

theorem goOn_forget : (j.journaled.goOn p).forget = j.goOn p.forget := by
  unfold goOn
  rw [Phase.forget_stage, Job.journaled_strategy]
  split
  · exact j.proceed_forget p
  · exact j.proceed_forget p
  · exact j.afterGroup_forget p
  · exact j.startRefills_forget p _
  · exact j.afterTick_forget p _ _
  · exact j.refill_forget p _ _
  · rfl
  · rfl

variable {j p}

/-- Each event does the same to the phase without its journal. -/
theorem step_forget (hp : IsBlind p) (e : Event) :
    (j.journaled.step e p).forget = j.step e p.forget := by
  cases e with
  | settle =>
    cases hf : p.flights with
    | nil => simp [step, settleFirst, hf, Phase.forget]
    | cons f rest =>
      obtain ⟨houtcome, hstate⟩ :=
        Flight.settle_forget j.generator.submitTimeout p.ledger (hp f (by simp [hf]))
      have hforget : p.forget.flights = f.forget :: rest.map Flight.forget := by
        simp [Phase.forget, hf]
      simp only [step]
      rw [settleFirst_eq hf, settleFirst_eq hforget, Phase.forget_ledger, ← houtcome, ← hstate]
      rfl
  | start => exact j.launch_forget { p with queued := [] } p.queued
  | wake => exact j.goOn_forget (j.journaled.wakeUp p)

theorem next?_forget : j.next? p.forget = j.journaled.next? p := by
  have hwakes : j.wakesAt p.forget = j.journaled.wakesAt p := by
    unfold wakesAt Phase.isIdle
    rw [Phase.forget_stage, Phase.forget_queued, Phase.forget_flights, List.isEmpty_map]
    rfl
  unfold next?
  rw [hwakes, Phase.forget_queued, Phase.forget_flights]
  cases p.flights <;> cases p.queued <;> rfl

theorem isOwn_forget (e : Event) : isOwn p.forget e = isOwn p e := by
  cases e <;> rfl

/-- No answer that is awaited depends on the journal while the books are balanced. -/
theorem IsBalanced.blind {before : Tracker} (h : j.journaled.IsBalanced before p) :
    IsBlind p := by
  intro f hf answer hanswer
  -- whatever is under way is the submission of an entry, and answers by the ledger's call
  obtain ⟨place, e, -, -, -, -, -, hawaits⟩ := Balanced.awaits h hf
  rw [hanswer] at hawaits
  obtain ⟨-, call, rfl⟩ := hawaits
  exact ⟨call, place, rfl⟩

theorem isJournaled_journaled (j : Job σ ε) : j.journaled.IsJournaled :=
  ⟨⟨j.ledger, rfl⟩, ⟨j.estimator, rfl⟩⟩

theorem advance_forget (allowed : Instant → Bool → Bool) {before : Tracker} (steps : Nat)
    (hp : j.journaled.Shaped p) (hb : j.journaled.IsBalanced before p) :
    (j.journaled.advance allowed steps p).forget = j.advance allowed steps p.forget := by
  induction steps generalizing p with
  | zero => rfl
  | succ steps ih =>
    unfold advance
    rw [next?_forget]
    cases hn : j.journaled.next? p with
    | none => rfl
    | some next =>
      have hmove := step_move hp (due_of_next? hp.2.1 hn)
      have hbooks := (hmove.books j.isJournaled_journaled hp hb).1
      dsimp only
      rw [isOwn_forget]
      split
      · rw [ih (hmove.shaped hp) hbooks, step_forget hb.blind]
      · rfl

theorem stepsLeft_forget : j.stepsLeft p.forget = j.journaled.stepsLeft p := by
  unfold stepsLeft
  rw [Phase.forget_flights, List.length_map]
  rfl

end Job

/-- A phase over a ledger is the phase over the journaled ledger, and that has a journal of it. -/
theorem Generator.sendWith_journal (g : Generator) (ledger : Ledger σ) (estimator : Estimator σ ε)
    (strategy : Strategy) (target : Nat) (duration : Option Duration) (b : Bench σ) (memory : ε) :
    let r := g.sendWith ledger estimator strategy target duration b memory
    ∃ journal, g.sendWith ledger.journaled estimator.journaled strategy target duration b.journaled
      memory = (r.1, r.2.1.withJournal journal, r.2.2) := by
  have hjob : g.job ledger.journaled estimator.journaled strategy target duration b.now =
      (g.job ledger estimator strategy target duration b.now).map Job.journaled := by
    unfold job
    dsimp only
    split
    · rfl
    · split <;> rfl
    · split <;> rfl
  unfold sendWith
  rw [show b.journaled.now = b.now from rfl, hjob]
  cases g.job ledger estimator strategy target duration b.now with
  | error e => exact ⟨[], rfl⟩
  | ok j =>
    refine ⟨(j.journaled.run (Job.start b.journaled memory)).ledger.2, ?_⟩
    have hrun := Job.advance_forget (j := j) (fun _ _ => true)
      (j.journaled.stepsLeft (Job.start b.journaled memory)) (j.journaled.shaped_start _ _)
      (j.journaled.balanced_start b memory)
    -- the journal does not change how many events are ahead
    have hsame : (j.journaled.run (Job.start b.journaled memory)).forget =
        j.run (Job.start b memory) := by
      unfold Job.run
      rw [hrun, ← Job.stepsLeft_forget]
      rfl
    dsimp only [Except.map]
    rw [← hsame]
    rfl

/-- What a journaled job sums up is what the phase reports without a journal. -/
theorem Generator.sendWith_of_journaled {g : Generator} {ledger : Ledger σ}
    {estimator : Estimator σ ε} {strategy : Strategy} {target : Nat} {duration : Option Duration}
    {b : Bench σ} {j : Job (σ × Journal) ε}
    (hjob : g.job ledger.journaled estimator.journaled strategy target duration b.now = .ok j)
    (hticks : j.Ticks) (memory : ε) :
    let p := j.run (Job.start b.journaled memory)
    p.stage = .finished ∧ (g.sendWith ledger estimator strategy target duration b memory).1 =
      .ok (j.summary b.journaled p) := by
  obtain ⟨hended, hsend⟩ := Job.sendWith_of_job (b := b.journaled) hjob hticks memory
  obtain ⟨journal, hsame⟩ := g.sendWith_journal ledger estimator strategy target duration b memory
  refine ⟨hended, ?_⟩
  rw [← congrArg Prod.fst hsame, hsend]

/-- A phase that has been reported has a journal, and the same phase with the journal is the run of a
journaled job. -/
theorem Generator.journal_of_sendWith {g : Generator} {ledger : Ledger σ}
    {estimator : Estimator σ ε} {strategy : Strategy} {target : Nat} {duration : Option Duration}
    {b after : Bench σ} {memory memory' : ε} {summary : SendSummary}
    (h : g.sendWith ledger estimator strategy target duration b memory =
      (.ok summary, after, memory')) :
    ∃ (journal : Journal) (j : Job (σ × Journal) ε),
      g.sendWith ledger.journaled estimator.journaled strategy target duration b.journaled memory =
        (.ok summary, after.withJournal journal, memory') ∧
      j.IsSound ∧ j.IsJournaled ∧ j.generator = g ∧ j.target = target ∧
      let p := j.run (Job.start b.journaled memory)
      summary = j.summary b.journaled p ∧ p.ledger.2 = journal ∧ p.tracker = after.tracker ∧
        p.sequences = after.sequences := by
  obtain ⟨journal, hsame⟩ := g.sendWith_journal ledger estimator strategy target duration b memory
  simp only [h] at hsame
  obtain ⟨j, hjob, -, hsummary, hafter⟩ := Job.run_of_sendWith hsame
  have heq := Job.job_eq hjob
  exact ⟨journal, j, hsame, Job.isSound_of_job hjob, Job.isJournaled_of_job hjob, by rw [heq],
    by rw [heq], hsummary, congrArg (·.ledger.2) hafter.symm, congrArg (·.tracker) hafter.symm,
    congrArg (·.sequences) hafter.symm⟩

end Throughput
