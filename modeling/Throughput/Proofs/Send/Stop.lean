import Throughput.Proofs.Send.Course
import Throughput.Proofs.Send.Order

/-!
# Where sending stops

A phase that must stop issues nothing more, and what it has submitted by then is still recorded. The
exception is a burst: it looks neither at the signal nor at its limits and is submitted as a whole when
its phase starts.
-/

namespace Throughput

namespace Shutdown

theorem wait_snd (s : Shutdown) (now wake : Instant) :
    (s.wait now wake).2 = s ∨ (s.wait now wake).2 = .raised := by
  unfold wait
  grind

end Shutdown

variable {σ ε : Type}

namespace Job

section Moves

variable {j : Job σ ε} {p p' : Phase σ ε} {t : Instant}

/-- Do reads of the ledger take no time? -/
def ReadsAtOnce (j : Job σ ε) : Prop := ∀ now s, j.estimator.consumedTime now s = 0

/-- Did a phase that has asked its estimator have no reason to stop, and does it go on at once? -/
def IsReady (j : Job σ ε) (p : Phase σ ε) : Prop :=
  match p.stage with
  | .estimating due _ => due ≤ p.now ∧ j.shouldStop p = false
  | _ => True

theorem Move.shutdown_eq (m : Move j p p') :
    p'.shutdown = p.shutdown ∨ p'.shutdown = (j.wakeUp p).shutdown := by
  cases m with
  | settle f rest hf =>
    rw [settleFirst_eq hf]
    exact .inl rfl
  | startRefills c due hs hstage =>
    rw [startRefills_eq]
    split <;> exact .inr rfl
  | start | burst | pause | drained => exact .inl rfl
  | group | stop | complete | prime | cut | expire | ask | refill => exact .inr rfl

/-- A signal that has been seen stays seen. -/
theorem Move.seen (m : Move j p p') (hnow : p.now ≤ p'.now)
    (h : p.shutdown.seenAt p.now = true) : p'.shutdown.seenAt p'.now = true := by
  have hwait : (j.waitEnd p).2 = p.shutdown ∨ (j.waitEnd p).2 = .raised := by
    unfold waitEnd
    split
    · exact p.shutdown.wait_snd ..
    · exact p.shutdown.wait_snd ..
    · exact .inl rfl
    · exact .inl rfl
    · exact .inl rfl
  have hshutdown : p'.shutdown = p.shutdown ∨ p'.shutdown = .raised := by
    rcases m.shutdown_eq with hs | hs
    · exact .inl hs
    · rw [hs]
      exact hwait
  rcases hshutdown with hs | hs
  · rw [hs]
    exact Shutdown.seenAt_mono h hnow
  · rw [hs]
    rfl

theorem now_eq_of_queued (hq : p.queued ≠ []) (hnow : p.now ≤ t)
    (hdue : ∀ t' e, j.Enabled p t' e → t ≤ t') : t = p.now :=
  Nat.le_antisymm (hdue p.now .start ⟨hq, rfl⟩) hnow

theorem now_eq_of_ready {due next : Instant} (hs : p.stage = .estimating due next)
    (hready : due ≤ p.now) (hnow : p.now ≤ t) (hdue : ∀ t' e, j.Enabled p t' e → t ≤ t') :
    t = p.now := by
  refine Nat.le_antisymm (hdue p.now .wake ?_) hnow
  simp [Enabled, wakesAt, waitEnd, hs, Nat.max_eq_left hready]

theorem ready_awaitRefill (j : Job σ ε) (tick : Instant) (p : Phase σ ε) :
    j.IsReady (j.awaitRefill tick p) := by
  unfold IsReady
  rcases j.awaitRefill_stage p tick with hs | hs <;> simp only [hs]

theorem Move.ready (hreads : j.ReadsAtOnce) (h : j.IsReady p) (m : Move j p p')
    (hnow : p.now ≤ p'.now) (hdue : ∀ t e, j.Enabled p t e → p'.now ≤ t) : j.IsReady p' := by
  cases m with
  | settle f rest hf =>
    rw [settleFirst_eq hf] at hnow hdue ⊢
    unfold IsReady at h ⊢
    cases hs : p.stage with
    | estimating due next =>
      simp only [hs] at h ⊢
      -- the refill is due at once, so no time has passed
      have hsame := now_eq_of_ready hs h.1 hnow hdue
      simp only at hsame
      rw [hsame]
      exact h
    | _ => trivial
  | start hq => exact h
  | ask c tick hs hstage hfirst hraised hover =>
    refine ⟨by rw [hreads]; exact Nat.le_refl _, ?_⟩
    have hw : j.waitEnd p = p.shutdown.wait p.now (j.upToDeadline tick) := by
      simp [waitEnd, hstage]
    simp only [shouldStop, Bool.or_eq_false_iff]
    refine ⟨?_, hover⟩
    simp only [wakeUp, hw] at hraised ⊢
    have hseen := Shutdown.seenAt_eq_false_of_wait hraised
    rwa [Shutdown.wait_eq_of_ne_raised hraised]
  | startRefills c due hs hstage =>
    rw [startRefills_eq]
    split
    · trivial
    · exact j.ready_awaitRefill ..
  | refill c due next hs hstage hfirst =>
    rw [refill_eq]
    exact j.ready_awaitRefill ..
  | burst | group | stop | complete | pause | prime | cut | expire | drained => trivial

/-- The signal cannot be raised between the question of a refill and its answer. -/
theorem IsReady.raisedAt (h : j.IsReady p) (hfree : ¬ IsBusy p) : j.IsReady (raisedAt t p) := by
  unfold IsReady at h ⊢
  unfold IsBusy at hfree
  cases hs : p.stage with
  | estimating due next =>
    simp only [hs] at h hfree
    exact absurd h.1 hfree
  | _ => simp only [Job.raisedAt, hs]

/-- Whatever issues requests had no reason to stop, unless it is the start of a burst. -/
theorem Move.open_of_issue (hready : j.IsReady p) (m : Move j p p')
    (hmore : p'.dispatched ≠ p.dispatched) :
    j.strategy = .burst ∧ p.stage = .starting ∧ p'.now = p.now ∨
      j.strategy ≠ .burst ∧ j.shouldStop p' = false := by
  cases m with
  | settle f rest hf =>
    rw [settleFirst_eq hf] at hmore
    exact absurd rfl hmore
  | burst hs hstage hleft => exact .inl ⟨hs, hstage, rfl⟩
  | group hs hd hgo hleft => exact .inr ⟨hs, hgo⟩
  | refill c due next hs hstage hfirst =>
    simp only [IsReady, hstage] at hready
    refine .inr ⟨by simp [hs], ?_⟩
    have hwake : j.wakeUp p = p := wakeUp_eq_self (by
      simp [waitEnd, hstage, Nat.max_eq_left hready.1])
    rw [hwake]
    exact hready.2
  | startRefills c due hs hstage =>
    rw [startRefills_eq] at hmore
    split at hmore <;> exact absurd rfl hmore
  | start | stop | complete | pause | prime | cut | expire | ask | drained => exact absurd rfl hmore

/-- A phase starts only once. -/
theorem Move.started (hp : j.Shaped p) (m : Move j p p') : p'.stage ≠ .starting := by
  obtain ⟨-, -, hp⟩ := hp
  have hlater : ∀ tick q, (j.awaitRefill tick q).stage ≠ .starting := by
    intro tick q
    rcases j.awaitRefill_stage q tick with hs | hs <;> simp [hs]
  cases m with
  | settle f rest hf =>
    rw [settleFirst_eq hf]
    intro hs
    simp only at hs
    simp [hs, hf] at hp
  | start hq =>
    intro hs
    simp only [launch] at hs
    simp only [hs] at hp
    exact hq hp.2.1
  | startRefills c due hs hstage =>
    rw [startRefills_eq]
    split
    · intro hs
      cases hs
    · exact hlater _ _
  | refill c due next hs hstage hfirst =>
    rw [refill_eq]
    exact hlater _ _
  | burst | group | stop | complete | pause | prime | cut | expire | ask | drained =>
    intro hs
    cases hs

/-- A burst is issued as a whole when it starts. -/
theorem Move.dispatched_of_burst (hs : j.strategy = .burst) (hp : j.Shaped p)
    (hstage : p.stage = .starting) (m : Move j p p') :
    p.dispatched = 0 ∧ p'.dispatched = j.target ∧ p'.now = p.now := by
  obtain ⟨-, -, hp⟩ := hp
  simp only [hstage] at hp
  obtain ⟨hflights, hqueued, hzero⟩ := hp
  refine ⟨hzero, ?_⟩
  cases m with
  | burst => simp [sendGroup, launch, Generator.length_buildAll, hzero]
  | complete hs' hd hdone =>
    have hnow : (j.wakeUp p).now = p.now := by simp [wakeUp, waitEnd, hstage]
    exact ⟨show p.dispatched = j.target by omega, hnow⟩
  | settle f rest hf =>
    rw [hflights] at hf
    cases hf
  | start hq => exact absurd hqueued hq
  | group hs' | stop hs' => exact absurd hs hs'
  | pause size pause hs' | prime c hs' | startRefills c due hs' | ask c tick hs'
  | refill c due next hs' =>
    rw [hs] at hs'
    cases hs'
  | cut tick hstage' | expire tick hstage' | drained hstage' =>
    rw [hstage] at hstage'
    cases hstage'

/-- Only refills are queued. -/
theorem saturation_of_queued (hp : j.Shaped p) (hq : p.queued ≠ []) :
    ∃ c, j.strategy = .saturation c := by
  obtain ⟨-, -, hp⟩ := hp
  cases hstage : p.stage <;> simp only [hstage] at hp
  case starting | pausing | priming => exact absurd hp.2.1 hq
  case group => exact absurd hp.1 hq
  case refilling | estimating =>
    obtain ⟨c, hc, -⟩ := hp.2.1
    exact ⟨c, hc⟩
  case draining =>
    obtain ⟨c, hc, -⟩ := hp
    exact ⟨c, hc⟩
  case finished | zeroInterval => exact absurd hp.2 hq

theorem queued_of_burst (hp : j.Shaped p) (hs : j.strategy = .burst) : p.queued = [] := by
  by_contra hq
  obtain ⟨c, hc⟩ := saturation_of_queued hp hq
  simp [hs] at hc

end Moves

variable {j : Job (σ × Journal) ε} {p p' q : Phase (σ × Journal) ε} {b : Bench σ} {t : Instant}

/-- What holds of every phase that a bench leads to: its books are balanced, and its calls were made
in time. -/
structure OnTime (j : Job (σ × Journal) ε) (b : Bench σ) (p : Phase (σ × Journal) ε) : Prop where
  balanced : j.IsBalanced b.tracker p
  ready : j.IsReady p
  clock : b.now ≤ p.now
  fresh : p.stage = .starting → p.now = b.now ∧ p.shutdown = b.shutdown
  calls : ∀ call ∈ p.ledger.2.calls, b.now ≤ call.2 ∧ (j.strategy = .burst → call.2 = b.now) ∧
    (j.strategy ≠ .burst → j.isOver call.2 = false)
  queued : p.queued ≠ [] → j.strategy ≠ .burst → j.isOver p.now = false

theorem onTime_start (j : Job (σ × Journal) ε) (b : Bench σ) (memory : ε) :
    j.OnTime b (start b.journaled memory) where
  balanced := j.balanced_start b memory
  ready := trivial
  clock := Nat.le_refl _
  fresh _ := ⟨rfl, rfl⟩
  calls := nofun
  queued h := absurd rfl h

theorem OnTime.move (hj : j.IsJournaled) (hreads : j.ReadsAtOnce) (hp : j.Shaped p)
    (h : j.OnTime b p) (m : Move j p p') (hnow : p.now ≤ p'.now)
    (hdue : ∀ t e, j.Enabled p t e → p'.now ≤ t) : j.OnTime b p' := by
  obtain ⟨hbalanced, issued, ⟨hcount, -⟩, sent, hsent, hcalls⟩ := m.books hj hp h.balanced
  -- whatever is submitted or queued now was issued now or queued at this very instant
  have hissued : issued ≠ [] → p'.dispatched ≠ p.dispatched := by
    intro hne
    have hpos := List.length_pos_of_ne_nil hne
    omega
  have hopen : p.queued ++ issued ≠ [] → j.strategy ≠ .burst → j.isOver p'.now = false := by
    intro hne hburst
    by_cases hq : p.queued = []
    · rw [hq, List.nil_append] at hne
      rcases m.open_of_issue h.ready (hissued hne) with ⟨hs, -⟩ | ⟨-, hgo⟩
      · exact absurd hs hburst
      · simp only [shouldStop, Bool.or_eq_false_iff] at hgo
        exact hgo.2
    · rw [now_eq_of_queued hq hnow hdue]
      exact h.queued hq hburst
  have hfirst : p.queued ++ issued ≠ [] → j.strategy = .burst → p'.now = b.now := by
    intro hne hburst
    rw [queued_of_burst hp hburst, List.nil_append] at hne
    rcases m.open_of_issue h.ready (hissued hne) with ⟨-, hs, hsame⟩ | ⟨hs, -⟩
    · rw [hsame]
      exact (h.fresh hs).1
    · exact absurd hburst hs
  refine ⟨hbalanced, m.ready hreads h.ready hnow hdue, h.clock.trans hnow,
    fun hs => absurd hs (m.started hp), ?_, ?_⟩
  · intro call hc
    rw [hcalls] at hc
    rcases List.mem_append.mp hc with hc | hc
    · exact h.calls call hc
    · obtain ⟨request, hr, rfl⟩ := List.mem_map.mp hc
      have hne : p.queued ++ issued ≠ [] := by
        rw [hsent]
        exact List.ne_nil_of_mem (List.mem_append_left _ hr)
      exact ⟨h.clock.trans hnow, hfirst hne, hopen hne⟩
  · intro hq
    refine hopen ?_
    rw [hsent]
    exact List.append_ne_nil_of_right_ne_nil _ hq

theorem OnTime.raise (h : j.OnTime b p) (hnow : p.now ≤ t)
    (hdue : ∀ t' e, j.Enabled p t' e → t ≤ t') (hfree : ¬ IsBusy p) :
    j.OnTime b (raisedAt t p) where
  balanced := h.balanced
  ready := h.ready.raisedAt hfree
  clock := h.clock.trans hnow
  fresh hs := by
    have hs : p.stage = .starting := hs
    exact absurd trivial (by simpa only [IsBusy, hs] using hfree)
  calls := h.calls
  queued hq hburst := by
    rw [show (raisedAt t p).now = p.now from now_eq_of_queued hq hnow hdue]
    exact h.queued hq hburst

theorem Course.onTime (hj : j.IsJournaled) (hreads : j.ReadsAtOnce) {memory : ε}
    (h : j.Course (start b.journaled memory) p) : j.OnTime b p :=
  (h.keeps (j.shaped_start _ _) (j.onTime_start b memory)
    (fun _ _ hp hI m hnow hdue => hI.move hj hreads hp m hnow hdue)
    (fun _ _ _ hI hnow hdue hfree => hI.raise hnow hdue hfree)).2

/-- What has become of a phase since it saw the signal: it has issued nothing, and what was queued may
have been submitted at once. -/
structure Silent (j : Job (σ × Journal) ε) (p q : Phase (σ × Journal) ε) : Prop where
  seen : q.shutdown.seenAt q.now = true
  started : j.strategy = .burst → q.stage ≠ .starting
  dispatched : q.dispatched = p.dispatched
  calls : ∃ late, late ++ q.queued = p.queued ∧
    q.ledger.2.calls = p.ledger.2.calls ++ late.map (·, p.now)
  queued : q.queued ≠ [] → q.now = p.now

theorem Silent.move (hj : j.IsJournaled) (hq : j.Shaped q) (hb : j.OnTime b q)
    (h : j.Silent p q) {q' : Phase (σ × Journal) ε} (m : Move j q q') (hnow : q.now ≤ q'.now)
    (hdue : ∀ t e, j.Enabled q t e → q'.now ≤ t) : j.Silent p q' := by
  obtain ⟨-, issued, ⟨hcount, -⟩, sent, hsent, hcalls⟩ := m.books hj hq hb.balanced
  have hseen := m.seen hnow h.seen
  -- only the start of a burst would not look at the signal, and that is over
  have hsame : q'.dispatched = q.dispatched := by
    by_contra hmore
    rcases m.open_of_issue hb.ready hmore with ⟨hs, hstage, -⟩ | ⟨-, hgo⟩
    · exact h.started hs hstage
    · simp [shouldStop, hseen] at hgo
  obtain rfl : issued = [] := List.length_eq_zero_iff.mp (by omega)
  rw [List.append_nil] at hsent
  have hinstant : q.queued ≠ [] → q'.now = p.now := by
    intro hne
    rw [now_eq_of_queued hne hnow hdue]
    exact h.queued hne
  obtain ⟨late, hlate, hbefore⟩ := h.calls
  refine ⟨hseen, fun _ => m.started hq, hsame.trans h.dispatched, ⟨late ++ sent, ?_, ?_⟩, ?_⟩
  · rw [List.append_assoc, ← hsent, hlate]
  · have hat : sent.map (·, q'.now) = sent.map (·, p.now) := by
      apply List.map_congr_left
      intro request hr
      rw [hinstant (hsent ▸ List.ne_nil_of_mem (List.mem_append_left _ hr))]
    rw [hcalls, hbefore, hat, List.map_append, List.append_assoc]
  · intro hne
    exact hinstant (hsent ▸ List.append_ne_nil_of_right_ne_nil _ hne)

theorem Silent.raise (h : j.Silent p q) (hnow : q.now ≤ t)
    (hdue : ∀ t' e, j.Enabled q t' e → t ≤ t') : j.Silent p (raisedAt t q) where
  seen := rfl
  started := h.started
  dispatched := h.dispatched
  calls := h.calls
  queued hne := by
    rw [show (raisedAt t q).now = q.now from now_eq_of_queued hne hnow hdue]
    exact h.queued hne

/-- A phase that has seen the signal issues nothing more, in whatever order events happen, unless it is a
burst that has yet to start. -/
theorem Course.silent (hj : j.IsJournaled) (hreads : j.ReadsAtOnce) (hp : j.Shaped p)
    (hb : j.OnTime b p) (hseen : p.shutdown.seenAt p.now = true)
    (hstarted : j.strategy = .burst → p.stage ≠ .starting) (h : j.Course p q) : j.Silent p q := by
  have hself : j.Silent p p := ⟨hseen, hstarted, rfl, ⟨[], rfl, by simp⟩, fun _ => rfl⟩
  exact (h.keeps (I := fun q => j.OnTime b q ∧ j.Silent p q) hp ⟨hb, hself⟩
    (fun _ _ hq hI m hnow hdue =>
      ⟨hI.1.move hj hreads hq m hnow hdue, hI.2.move hj hq hI.1 m hnow hdue⟩)
    (fun _ _ _ hI hnow hdue hfree => ⟨hI.1.raise hnow hdue hfree, hI.2.raise hnow hdue⟩)).2.2

/-- Is a burst yet to start, or has it made all its calls? -/
structure AtOnce (j : Job (σ × Journal) ε) (b : Bench σ) (p : Phase (σ × Journal) ε) : Prop where
  before : p.stage = .starting → p.sequences = b.sequences ∧ p.ledger.2.calls = []
  after : p.stage ≠ .starting →
    p.ledger.2.calls = (j.generator.buildAll j.target b.sequences).1.map (·, b.now)

theorem AtOnce.move (hj : j.IsJournaled) (hs : j.strategy = .burst) (hp : j.Shaped p)
    (hb : j.OnTime b p) (h : j.AtOnce b p) (m : Move j p p') : j.AtOnce b p' := by
  refine ⟨fun hstage => absurd hstage (m.started hp), fun _ => ?_⟩
  obtain ⟨-, issued, ⟨hcount, hissues⟩, sent, hsent, hcalls⟩ := m.books hj hp hb.balanced
  -- a burst queues nothing, so what is issued now is submitted now
  rw [queued_of_burst hp hs, queued_of_burst (m.shaped hp) hs, List.append_nil, List.nil_append]
    at hsent
  subst hsent
  rw [hcalls]
  by_cases hstage : p.stage = .starting
  · obtain ⟨hsequences, hnone⟩ := h.before hstage
    obtain ⟨hzero, hall, hsame⟩ := m.dispatched_of_burst hs hp hstage
    rw [hsame, (hb.fresh hstage).1]
    rw [hnone, List.nil_append, ← hsequences]
    rcases hissues with ⟨rfl, -⟩ | ⟨-, -, hbuilt⟩ | ⟨hburst, -⟩
    · have hempty := j.generator.length_buildAll j.target p.sequences
      rw [hcount, hzero, List.length_nil] at hall
      rw [List.eq_nil_of_length_eq_zero (hempty.trans hall.symm)]
    · rw [hbuilt]
    · exact absurd hs hburst
  · have hnone : issued = [] := by
      by_contra hne
      have hpos := List.length_pos_of_ne_nil hne
      rcases m.open_of_issue hb.ready (by omega) with ⟨-, hstarting, -⟩ | ⟨hburst, -⟩
      · exact hstage hstarting
      · exact hburst hs
    rw [hnone, List.map_nil, List.append_nil]
    exact h.after hstage

/-- Whatever its limits are and whenever the signal is raised, a burst makes all its calls when it
starts. -/
theorem Course.atOnce (hj : j.IsJournaled) (hreads : j.ReadsAtOnce) (hs : j.strategy = .burst)
    {memory : ε} (h : j.Course (start b.journaled memory) p) : j.AtOnce b p := by
  have hstart : j.AtOnce b (start b.journaled memory) :=
    ⟨fun _ => ⟨rfl, rfl⟩, fun hstage => absurd rfl hstage⟩
  refine (h.keeps (I := fun p => j.OnTime b p ∧ j.AtOnce b p) (j.shaped_start _ _)
    ⟨j.onTime_start b memory, hstart⟩ (fun _ _ hp hI m hnow hdue => ?_)
    fun _ _ _ hI hnow hdue hfree => ?_).2.2
  · exact ⟨hI.1.move hj hreads hp m hnow hdue, hI.2.move hj hs hp hI.1 m⟩
  · exact ⟨hI.1.raise hnow hdue hfree, hI.2.before, hI.2.after⟩

/-- What has been submitted stays submitted. -/
theorem Course.calls_prefix (hj : j.IsJournaled) (hp : j.Shaped p) {before : Tracker}
    (hb : j.IsBalanced before p) (h : j.Course p q) :
    j.IsBalanced before q ∧ p.ledger.2.calls <+: q.ledger.2.calls :=
  (h.keeps (I := fun q => j.IsBalanced before q ∧ p.ledger.2.calls <+: q.ledger.2.calls) hp
    ⟨hb, List.prefix_rfl⟩
    (fun _ _ hq hI m _ _ => by
      obtain ⟨hbalanced, issued, -, sent, -, hcalls⟩ := m.books hj hq hI.1
      exact ⟨hbalanced, hI.2.trans (hcalls ▸ List.prefix_append _ _)⟩)
    (fun _ _ _ hI _ _ _ => hI)).2

end Job

/-- Batches and refills make no call at or after the deadline, and none at all if the signal was raised
before the start. A burst makes all its calls when it starts, whatever the signal and the limits say, so
that of all strategies it alone makes calls that should not be made, and it does so exactly if there is
anything to send and the signal was raised before the start or a limit is zero. Once the signal is seen
later, nothing more is issued, and only a refill that was queued at this very instant is still submitted.
Whatever has been submitted is recorded when the phase has ended, and it comes to its end. -/
theorem Generator.course_stops (g : Generator) (ledger : Ledger σ) (estimator : Estimator σ ε)
    (strategy : Strategy) (target : Nat) (duration : Option Duration) (b : Bench σ) (memory : ε)
    {j : Job (σ × Journal) ε}
    (hjob : g.job ledger.journaled estimator.journaled strategy target duration b.now = .ok j)
    (hreads : ∀ now s, estimator.consumedTime now s = 0) {p : Phase (σ × Journal) ε}
    (hp : j.Course (Job.start b.journaled memory) p) :
    (∀ e ∈ p.ledger.2, b.now ≤ e.startedAt ∧
      (strategy ≠ .burst → ∀ limit, duration = some limit ∨ g.sendTimeout = some limit →
        e.startedAt < b.now + limit)) ∧
    (p.stage ≠ .starting →
      (strategy = .burst →
        p.ledger.2.calls = (g.buildAll target b.sequences).1.map (·, b.now)) ∧
      (b.shutdown.seenAt b.now = true → (p.ledger.2 ≠ [] ↔ strategy = .burst ∧ 0 < target)) ∧
      ((∃ e ∈ p.ledger.2, ∃ limit, (duration = some limit ∨ g.sendTimeout = some limit) ∧
          b.now + limit ≤ e.startedAt) ↔
        strategy = .burst ∧ 0 < target ∧ (duration = some 0 ∨ g.sendTimeout = some 0))) ∧
    (p.shutdown.seenAt p.now = true → (strategy = .burst → p.stage ≠ .starting) →
      ∀ q, j.Course p q → q.dispatched = p.dispatched ∧
        ∃ late, late <+: p.queued ∧ (late ≠ [] → ∃ c, strategy = .saturation c) ∧
          q.ledger.2.calls = p.ledger.2.calls ++ late.map (·, p.now)) ∧
    (∀ q, j.Course p q → j.next? q = none →
      p.ledger.2.calls <+: q.ledger.2.calls ∧ (∀ e ∈ q.ledger.2, e.IsSettled g.submitTimeout) ∧
        ∃ added, q.tracker = b.tracker.recordAll added ∧
          added.Perm (q.ledger.2.map (Entry.outcome g.submitTimeout))) ∧
    j.Course p (j.run p) ∧ j.next? (j.run p) = none := by
  have hsound := Job.isSound_of_job hjob
  have hj := Job.isJournaled_of_job hjob
  have hshaped := hp.shaped (j.shaped_start _ _)
  have heq := Job.job_eq hjob
  have hatOnce : j.ReadsAtOnce := by
    intro now s
    rw [heq]
    exact hreads now _
  obtain rfl : j.generator = g := by rw [heq]
  obtain rfl : j.strategy = strategy := by rw [heq]
  obtain rfl : j.target = target := by rw [heq]
  have hdeadline : j.deadline = j.generator.deadline b.now duration := by rw [heq]
  have htime := hp.onTime hj hatOnce
  have hopen : ∀ e ∈ p.ledger.2, j.strategy ≠ .burst → ∀ limit,
      duration = some limit ∨ j.generator.sendTimeout = some limit →
        e.startedAt < b.now + limit := by
    intro e he hs limit hlimit
    obtain ⟨-, -, hbefore⟩ := htime.calls (e.request, e.startedAt) (List.mem_map_of_mem he)
    have hopen := hbefore hs
    obtain ⟨deadline, hle, hd⟩ := j.generator.deadline_le b.now hlimit
    simp only [Job.isOver, hdeadline, hd, decide_eq_false_iff_not, Nat.not_le] at hopen
    exact hopen.trans_le hle
  refine ⟨fun e he => ⟨(htime.calls _ (List.mem_map_of_mem he)).1, hopen e he⟩, fun hstarted => ?_,
    fun hseen hburst q hq => ?_, fun q hq hend => ?_, Job.course_advance _ _ hshaped, ?_⟩
  · have hcalls : j.strategy = .burst → p.ledger.2.calls =
        (j.generator.buildAll j.target b.sequences).1.map (·, b.now) :=
      fun hs => (hp.atOnce hj hatOnce hs).after hstarted
    have hmany : j.strategy = .burst → p.ledger.2.length = j.target := by
      intro hs
      have hlength := congrArg List.length (hcalls hs)
      rwa [Journal.calls, List.length_map, List.length_map, Generator.length_buildAll] at hlength
    have hstart : j.strategy = .burst → ∀ e ∈ p.ledger.2, e.startedAt = b.now :=
      fun hs e he => (htime.calls _ (List.mem_map_of_mem he)).2.1 hs
    refine ⟨hcalls, fun hseen => ⟨fun hne => ?_, ?_⟩, ⟨?_, ?_⟩⟩
    · by_cases hs : j.strategy = .burst
      · exact ⟨hs, hmany hs ▸ List.length_pos_of_ne_nil hne⟩
      · obtain ⟨late, hlate, hmade⟩ := (Job.Course.silent hj hatOnce (j.shaped_start _ _)
          (j.onTime_start b memory) hseen (fun h => absurd h hs) hp).calls
        obtain ⟨rfl, -⟩ := List.append_eq_nil_iff.mp hlate
        exact absurd (List.map_eq_nil_iff.mp hmade) hne
    · rintro ⟨hs, hpos⟩
      exact List.ne_nil_of_length_pos (hmany hs ▸ hpos)
    · rintro ⟨e, he, limit, hlimit, hlate⟩
      have hs : j.strategy = .burst := by
        by_contra hs
        exact Nat.not_lt.mpr hlate (hopen e he hs limit hlimit)
      rw [hstart hs e he] at hlate
      obtain rfl := Nat.eq_zero_of_le_zero (Nat.le_of_add_le_add_left (c := 0) hlate)
      exact ⟨hs, hmany hs ▸ List.length_pos_of_mem he, hlimit⟩
    · rintro ⟨hs, hpos, hzero⟩
      obtain ⟨e, he⟩ := List.exists_mem_of_ne_nil _ (List.ne_nil_of_length_pos (hmany hs ▸ hpos))
      exact ⟨e, he, 0, hzero, (hstart hs e he).ge⟩
  · have hsilent := Job.Course.silent hj hatOnce hshaped htime hseen hburst hq
    obtain ⟨late, hlate, hcalls⟩ := hsilent.calls
    refine ⟨hsilent.dispatched, late, ⟨_, hlate⟩, fun hne => ?_, hcalls⟩
    exact Job.saturation_of_queued hshaped (hlate ▸ List.append_ne_nil_of_left_ne_nil hne _)
  · obtain ⟨hbalanced, hkept⟩ := hq.calls_prefix hj hshaped htime.balanced
    have hidle := Job.idle_of_next? hend
    rw [Job.IsBalanced, hidle.1] at hbalanced
    exact ⟨hkept, hbalanced.recorded⟩
  · exact Job.next?_run hsound hshaped

/-- An estimator whose answer is always the same. -/
def Estimator.always (consumed : Nat) : Estimator σ Unit where
  prime _ s := (none, s)
  consumed _ s := (.ok consumed, s)

/-- A job that has no time to send. -/
def Job.tooLate (strategy : Strategy) : Job (Unit × Journal) CountedHeight where
  generator := .ofTwo (some 0)
  ledger := (Ledger.steady (some 0)).journaled
  estimator := (Generator.estimatorOf .burst (Ledger.steady (some 0))).journaled
  strategy
  target := 3
  deadline := some 0

/-- A job that refills by one request at a time. -/
def Job.byOne : Job (Unit × Journal) Unit where
  generator := .ofTwo none
  ledger := (Ledger.steady (some 0)).journaled
  estimator := (Estimator.always 1).journaled
  strategy := .saturation { initialFill := 1 }
  target := 3
  deadline := some (seconds 10)

/-- The phase of that job when it has queued its first refill. -/
def Job.byOneQueued : Phase (Unit × Journal) Unit :=
  byOne.advance (fun _ _ => true) 5 (start (Bench.ofTwo .never).journaled ())

namespace Generator

/-- With no time to send and the signal raised before the start, a burst of three is sent all the same,
where batches are not. A refill that was queued before the signal was raised is submitted after it. -/
theorem course_stops_unheeded :
    (let p := (Job.tooLate .burst).run (Job.start (Bench.ofTwo .raised).journaled none)
     p.ledger.2 ≠ [] ∧ p.ledger.2.calls.map Prod.snd = [0, 0, 0]) ∧
    ((Job.tooLate (.steadyBatch 2 none)).run
      (Job.start (Bench.ofTwo .raised).journaled none)).ledger.2 = [] ∧
    ∃ p q : Phase (Unit × Journal) Unit,
      Job.byOne.Course (Job.start (Bench.ofTwo .never).journaled ()) p ∧ p.shutdown = .raised ∧
      Job.byOne.Course p q ∧ p.ledger.2.length = 1 ∧ q.ledger.2.length = 2 := by
  have hrun : ∀ strategy, (Job.tooLate strategy).Course
      (Job.start (Bench.ofTwo .raised).journaled none)
      ((Job.tooLate strategy).run (Job.start (Bench.ofTwo .raised).journaled none)) :=
    fun strategy => Job.course_advance _ _ (Job.shaped_start _ _ _)
  obtain ⟨-, hburst, -⟩ := course_stops (ofTwo (some 0)) (Ledger.steady (some 0))
    (estimatorOf .burst (Ledger.steady (some 0))) .burst 3 none (Bench.ofTwo .raised) none
    (j := Job.tooLate .burst) rfl (fun _ _ => rfl) (hrun _)
  obtain ⟨-, hbatch, -⟩ := course_stops (ofTwo (some 0)) (Ledger.steady (some 0))
    (estimatorOf .burst (Ledger.steady (some 0))) (.steadyBatch 2 none) 3 none (Bench.ofTwo .raised)
    none (j := Job.tooLate (.steadyBatch 2 none)) rfl (fun _ _ => rfl) (hrun _)
  obtain ⟨hcalls, hraised, -⟩ := hburst (by cbv; intro h; cases h)
  obtain ⟨-, hnone, -⟩ := hbatch (by cbv; intro h; cases h)
  refine ⟨⟨(hraised rfl).mpr ⟨rfl, by decide⟩, ?_⟩, ?_, ?_⟩
  · rw [hcalls rfl]
    rfl
  · by_contra hne
    cases ((hnone rfl).mp hne).1
  · -- the signal comes at the instant of the refill, between its queueing and its start
    have hstart := Job.byOne.shaped_start (Bench.ofTwo .never).journaled ()
    have hcourse : Job.byOne.Course _ Job.byOneQueued := Job.course_advance (fun _ _ => true) 5 hstart
    have hshaped := hcourse.shaped hstart
    have hnow : ∀ t e, Job.byOne.Enabled Job.byOneQueued t e → Job.byOneQueued.now ≤ t :=
      fun _ _ => Job.now_le_of_enabled hshaped.2.1
    have hstage : Job.byOneQueued.stage = .refilling (seconds 2) := by cbv
    have hfree : ¬ Job.IsBusy Job.byOneQueued := by
      simp only [Job.IsBusy, hstage, not_false_eq_true]
    have hqueued : Job.byOneQueued.queued.length = 1 := by cbv
    have hdue : Job.byOne.Due (Job.raisedAt Job.byOneQueued.now Job.byOneQueued)
        Job.byOneQueued.now .start := by
      refine ⟨⟨List.ne_nil_of_length_pos (hqueued ▸ Nat.one_pos), rfl⟩, fun _ _ => ?_⟩
      exact Job.now_le_of_enabled (hshaped.raisedAt hnow).2.1
    exact ⟨_, _, .raise hcourse (Nat.le_refl _) hnow hfree, rfl, .event .refl hdue, by cbv, by cbv⟩

end Generator

end Throughput
