import Throughput.Proofs.Poll.Verdict
import Throughput.Proofs.Run.Account
import Throughput.Proofs.Send.Settled

/-!
# What the report of a poll covers

A poll reports on the submissions that have been accepted by its end. Beside a send phase it may end
before the phase does, and what is accepted afterwards is in the record of the run but not in the report
of the poll.
-/

namespace Throughput

variable {σ ε ω : Type} {ledger : Ledger σ}

namespace Poll

variable (config : PollConfig) (watch : Watch ω) (now : Instant) (shutdown : Shutdown) (world : ω)

/-- A poll reports on the handles of its source at its end. -/
theorem run_handles
    (hnodup : let poll := (run config watch now shutdown world).2
      (watch.handles poll.now poll.world).toList.Nodup) :
    let r := run config watch now shutdown world
    r.1.records.map (·.handle) = (watch.handles r.2.now r.2.world).toList ∧
      r.1.started + r.1.elapsed = r.2.now := by
  constructor
  · rw [run_eq] at hnodup ⊢
    simp only [report]
    rw [records_eq hnodup, List.map_map]
    exact List.map_id _
  · have hle := (run_later config watch now shutdown world).now_le
    exact Nat.add_sub_of_le hle

/-- A poll that ends neither by its deadline nor by the signal has found its source sealed. -/
theorem sealed_of_run
    (hstatus : let r := run config watch now shutdown world
      r.1.status = .complete ∨ r.1.status = .thresholdReached) :
    ∃ x : Instant × ω, watch.Later (now, world) x ∧
      watch.Later x (run config watch now shutdown world).2.place ∧
      watch.isSealed x.1 x.2 = true := by
  have hgoes := goes_ending config watch now shutdown world config.words
  obtain ⟨past, a, hrounds, -, hsealed, -⟩ := hgoes.decided hstatus
  obtain ⟨-, hplaces, -⟩ := hgoes.places
  obtain ⟨hfirst, hlast, q, rfl⟩ := hplaces a (by simp [hrounds])
  exact ⟨_, hfirst, hlast, hsealed⟩

end Poll

/-- In whatever order a record hands out its handles, it hands out each of them once. -/
theorem Chance.nodup_arrange (chance : Chance) (t : Tracker) : (chance.arrange t.handles).Nodup :=
  (chance.perm _).nodup_iff.mpr t.nodup_handles

namespace Job

variable {j : Job σ ε} {chance : Chance} {before : Tracker} {x y : Instant × Phase σ ε}

/-- A poll beside a phase lets it go on up to the instant of the poll. -/
theorem UpTo.later (hj : j.IsSound) (hlater : (Watch.sending j chance).Later x y)
    (h : j.UpTo before x.1 x.2) : j.UpTo before y.1 y.2 := by
  refine hlater.keeps (P := fun x => j.UpTo before x.1 x.2) (fun x y hstep h => ?_) h
  cases hstep with
  | advance hle => exact h.runUntil hj hle
  | receipt => exact ⟨h.shaped, h.forward, h.recorded, h.due⟩
  | answer => exact ⟨h.shaped, h.forward, h.recorded, h.due⟩

/-- A poll beside a phase that has ended does not set it going again. -/
theorem ended_later (hlater : (Watch.sending j chance).Later x y) (h : j.next? x.2 = none) :
    j.next? y.2 = none := by
  refine hlater.keeps (P := fun x => j.next? x.2 = none) (fun x y hstep h => ?_) h
  cases hstep with
  | @advance now limit hle p =>
    have hsame : j.runUntil limit p = p := advance_of_next? h ..
    exact (congrArg j.next? hsame).trans h
  | receipt => exact h
  | answer => exact h

end Job

/-- Does the report of a poll cover the first of the outcomes that were recorded, which had settled by
its end, and not the others, which had not settled before? -/
structure PollReport.Covers (r : PollReport) (seen late : List Outcome) : Prop where
  records : (seen.filterMap (·.handle)).Nodup →
    (r.records.map (·.handle)).Perm (seen.filterMap (·.handle))
  settled : ∀ o ∈ seen, o.settledAt ≤ r.started + r.elapsed
  unsettled : ∀ o ∈ late, r.started + r.elapsed ≤ o.settledAt
  decided : r.status = .complete ∨ r.status = .thresholdReached → late = []

/-- What a send phase records has settled by its end. -/
theorem Generator.records_of_send {g : Generator} {strategy : Strategy} {target : Nat}
    {duration : Option Duration} {b after : Bench σ} {send : SendSummary}
    (h : g.send ledger strategy target duration b = (.ok send, after)) :
    ∃ outcomes, after.tracker = b.tracker.recordAll outcomes ∧
      ∀ o ∈ outcomes, o.settledAt ≤ after.now := by
  unfold Generator.send at h
  obtain ⟨hresult, hafter⟩ := Prod.mk.inj h
  obtain ⟨j, -, -, -, hbench⟩ := Job.run_of_sendWith (Prod.ext hresult (Prod.ext hafter rfl))
  have hstart := j.upTo_start b (none : CountedHeight)
  obtain ⟨-, -, outcomes, htracker, houtcomes⟩ := Job.advance_records (fun _ _ => true)
    (j.stepsLeft (Job.start b none)) hstart.shaped hstart.forward hstart.due
  rw [hbench]
  exact ⟨outcomes, htracker, fun o ho => (houtcomes o ho).2.1⟩

namespace RunConfig

variable {c : RunConfig} {g : Generator} {b after : Bench σ} {send : SendSummary}
  {inclusion : PollReport} {cap : Nat}

/-- A poll after a send phase covers everything that the phase recorded. -/
theorem sendThenPoll_covers (hb : b.tracker = .withCap cap)
    (h : c.sendThenPoll ledger g b = (.ok (send, inclusion), after)) :
    ∃ outcomes, after.tracker = (b.tracker.recordAll outcomes).close ∧
      inclusion.Covers outcomes [] := by
  unfold sendThenPoll at h
  split at h
  · nomatch h
  · rename_i sent sentBench hsent
    obtain ⟨outcomes, htracker, hsettled⟩ := Generator.records_of_send hsent
    obtain ⟨hresult, hafter⟩ := Prod.mk.inj h
    obtain ⟨-, hinclusion⟩ := Prod.mk.inj (Except.ok.inj hresult)
    let watch := Watch.fixed ledger (c.poll.chance.arrange sentBench.close.tracker.handles).toArray
    have hlater := Poll.run_later c.poll watch sentBench.now sentBench.shutdown sentBench.ledger
    obtain ⟨hhandles, hend⟩ := Poll.run_handles c.poll watch sentBench.now sentBench.shutdown
      sentBench.ledger (c.poll.chance.nodup_arrange _)
    refine ⟨outcomes, ?_, ?_⟩
    · rw [← hafter, ← htracker]
      rfl
    · rw [← hinclusion]
      refine ⟨fun hdistinct => ?_, fun o ho => ?_, nofun, fun _ => rfl⟩
      · refine (List.Perm.of_eq hhandles).trans ((c.poll.chance.perm _).trans ?_)
        have hperm := Tracker.handles_perm cap hdistinct
        rwa [← hb, ← htracker] at hperm
      · refine Nat.le_trans (hsettled o ho) ?_
        exact Nat.le_trans hlater.now_le (Nat.le_of_eq hend.symm)

/-- A poll beside a send phase covers what the phase has recorded by the end of the poll. -/
theorem pollBeside_covers {j : Job σ CountedHeight} (hj : j.IsSound)
    (hb : b.tracker = .withCap cap) :
    ∃ seen late,
      (j.run (c.pollBeside j b).2.world).tracker = b.tracker.recordAll (seen ++ late) ∧
        (c.pollBeside j b).1.Covers seen late := by
  unfold pollBeside
  generalize { c.poll with timeout := c.poll.timeout + c.duration.getD 0 } = config
  generalize c.poll.chance = chance
  have hphase := (j.upTo_start b none).runUntil hj (Nat.le_refl b.now)
  change j.UpTo b.tracker b.now ((Watch.sending j chance).advance b.now (Job.start b none)) at hphase
  generalize (Watch.sending j chance).advance b.now (Job.start b none) = phase at hphase ⊢
  have hend := hphase.later hj (Poll.run_later config (.sending j chance) b.now b.shutdown phase)
  obtain ⟨seen, late, hseen, hall, hsettled, hunsettled, hended⟩ := hend.run
  obtain ⟨hhandles, hinstant⟩ := Poll.run_handles config (.sending j chance) b.now b.shutdown phase
    (chance.nodup_arrange _)
  refine ⟨seen, late, hall, fun hdistinct => ?_, fun o ho => ?_, fun o ho => ?_, fun hstatus => ?_⟩
  · refine (List.Perm.of_eq hhandles).trans ((chance.perm _).trans ?_)
    have hperm := Tracker.handles_perm cap hdistinct
    rwa [← hb, ← hseen] at hperm
  · exact Nat.le_trans (hsettled o ho) (Nat.le_of_eq hinstant.symm)
  · exact Nat.le_trans (Nat.le_of_eq hinstant) (hunsettled o ho)
  · -- a sealed record is that of a phase that has ended, to which nothing is added
    obtain ⟨x, hfirst, hlast, hsealed⟩ := Poll.sealed_of_run config _ _ _ _ hstatus
    have hfinished : x.2.stage = .finished := by simpa [Watch.sending] using hsealed
    have hshaped := (hphase.later hj hfirst).shaped
    exact hended (Job.ended_later hlast (Job.next?_of_finished hshaped hfinished))

theorem sendWhilePolling_covers {s : Saturation} (hb : b.tracker = .withCap cap)
    (h : c.sendWhilePolling ledger g s b = (.ok (send, inclusion), after)) :
    ∃ seen late, after.tracker = (b.tracker.recordAll (seen ++ late)).close ∧
      inclusion.Covers seen late := by
  cases hjob : g.job ledger (s.estimate.estimator ledger) c.strategy c.target c.duration b.now with
  | error e =>
    unfold sendWhilePolling at h
    rw [hjob] at h
    nomatch h
  | ok j =>
    rw [sendWhilePolling_of_job hjob] at h
    obtain ⟨hresult, hafter⟩ := Prod.mk.inj h
    split at hresult
    · nomatch hresult
    · obtain ⟨-, hinclusion⟩ := Prod.mk.inj (Except.ok.inj hresult)
      obtain ⟨seen, late, htracker, hcovers⟩ :=
        pollBeside_covers (c := c) (Job.isSound_of_job hjob) hb
      rw [hinclusion] at hcovers
      refine ⟨seen, late, ?_, hcovers⟩
      rw [← hafter, ← htracker]
      rfl

theorem load_covers (hb : b.tracker = .withCap cap)
    (h : c.load ledger g b = (.ok (send, inclusion), after)) :
    ∃ seen late, after.tracker = (b.tracker.recordAll (seen ++ late)).close ∧
      inclusion.Covers seen late ∧ ((∀ s, c.strategy ≠ .saturation s) → late = []) := by
  unfold load at h
  split at h
  · rename_i s hs
    obtain ⟨seen, late, htracker, hcovers⟩ := sendWhilePolling_covers hb h
    exact ⟨seen, late, htracker, hcovers, fun hother => absurd hs (hother s)⟩
  · obtain ⟨outcomes, htracker, hcovers⟩ := sendThenPoll_covers hb h
    exact ⟨outcomes, [], by rwa [List.append_nil], hcovers, fun _ => rfl⟩

variable {now : Instant} {shutdown : Shutdown} {s : σ} {report : RunReport}

/-- What a run records of its submissions, in this order. -/
def recorded (c : RunConfig) (ledger : Ledger σ) (now : Instant) (shutdown : Shutdown) (s : σ) :
    List Outcome :=
  match c.prepare ledger now s with
  | (.error _, _) => []
  | (.ok f, s) => (c.load ledger f.generator (c.bench f now shutdown s)).2.tracker.outcomes.toList

theorem recorded_eq {f : Footing} {s' : σ} {result : Except RunError (SendSummary × PollReport)}
    (hprepared : c.prepare ledger now s = (.ok f, s'))
    (hloaded : c.load ledger f.generator (c.bench f now shutdown s') = (result, b)) :
    c.recorded ledger now shutdown s = b.tracker.outcomes.toList := by
  unfold recorded
  rw [hprepared]
  dsimp only
  rw [hloaded]

/-- A run reports if it can be prepared and loaded. -/
theorem run_eq_ok : (c.run ledger now shutdown s).1 = .ok report ↔
    ∃ f s' send inclusion b, c.prepare ledger now s = (.ok f, s') ∧
      c.load ledger f.generator (c.bench f now shutdown s') = (.ok (send, inclusion), b) ∧
      report = (c.conclude ledger f send inclusion b).1 := by
  constructor
  · intro h
    unfold run at h
    split at h
    · nomatch h
    · rename_i f s' hprepared
      dsimp only at h
      split at h
      · nomatch h
      · rename_i send inclusion b hloaded
        exact ⟨f, s', send, inclusion, b, hprepared, hloaded, (Except.ok.inj h).symm⟩
  · rintro ⟨f, s', send, inclusion, b, hprepared, hloaded, rfl⟩
    rw [run_of_loaded hprepared hloaded]

/-- In a run that records distinct handles, the poll accounts for the submissions that were accepted by
its end, each as verified or as unresolved. Those that were accepted afterwards are missing from its
report, though the run counts them. There are none where sending has ended before polling starts, where
the poll found all or enough included, or where all that was accepted had settled before its end. -/
theorem run_accounts_settled (c : RunConfig) (ledger : Ledger σ) (now : Instant)
    (shutdown : Shutdown) (s : σ) {report : RunReport}
    (hrun : (c.run ledger now shutdown s).1 = .ok report)
    (hdistinct : ((c.recorded ledger now shutdown s).filterMap (·.handle)).Nodup) :
    let poll := report.inclusion
    let ended := poll.started + poll.elapsed
    ∃ seen late, c.recorded ledger now shutdown s = seen ++ late ∧
      (∀ o ∈ seen, o.settledAt ≤ ended) ∧ (∀ o ∈ late, ended ≤ o.settledAt) ∧
      (poll.records.map (·.handle)).Perm (seen.filterMap (·.handle)) ∧
      poll.verified + poll.unresolved = seen.countP (·.handle.isSome) ∧
      report.submissions.accepted =
        poll.verified + poll.unresolved + late.countP (·.handle.isSome) ∧
      ((∀ strategy, c.strategy ≠ .saturation strategy) ∨
          poll.status = .complete ∨ poll.status = .thresholdReached ∨
          (∀ o ∈ c.recorded ledger now shutdown s, o.handle.isSome → o.settledAt < ended) →
        poll.verified + poll.unresolved = report.submissions.accepted) := by
  obtain ⟨f, s', send, inclusion, b, hprepared, hloaded, rfl⟩ := run_eq_ok.mp hrun
  obtain ⟨seen, late, htracker, hcovers, hfirst⟩ :=
    load_covers (b := c.bench f now shutdown s') rfl hloaded
  have hrecorded : c.recorded ledger now shutdown s = seen ++ late := by
    rw [recorded_eq hprepared hloaded, htracker]
    exact (Tracker.outcomes_recordAll _ _).trans (List.nil_append _)
  have haccepted : b.tracker.counts.accepted = (seen ++ late).countP (·.handle.isSome) := by
    rw [htracker]
    exact (Tracker.accepted_recordAll _ _).trans (Nat.zero_add _)
  rw [hrecorded] at hdistinct ⊢
  rw [List.filterMap_append] at hdistinct
  have hrecords := hcovers.records hdistinct.of_append_left
  have hcounted : inclusion.verified + inclusion.unresolved = seen.countP (·.handle.isSome) := by
    have hlength := hrecords.length_eq
    rw [List.length_map, List.length_filterMap_eq_countP] at hlength
    exact inclusion.verified_add_unresolved.trans hlength
  obtain ⟨-, hsubmissions⟩ := conclude_report c ledger f send inclusion b
  rw [hsubmissions, haccepted, List.countP_append]
  refine ⟨seen, late, rfl, hcovers.settled, hcovers.unsettled, hrecords, hcounted, ?_, ?_⟩
  · exact congrArg (· + _) hcounted.symm
  · intro hall
    have hnone : late.countP (·.handle.isSome) = 0 := by
      rcases hall with hother | hcomplete | hreached | hsettled
      · rw [hfirst hother, List.countP_nil]
      · rw [hcovers.decided (.inl hcomplete), List.countP_nil]
      · rw [hcovers.decided (.inr hreached), List.countP_nil]
      · rw [List.countP_eq_zero]
        intro o ho hsome
        have hbefore := hsettled o (List.mem_append_right _ ho) hsome
        exact absurd (hcovers.unsettled o ho) (Nat.not_le.mpr hbefore)
    rw [hnone]
    exact hcounted

end RunConfig

/-! ## A run that is cut short -/

/-- A ledger that takes a second for each submission and numbers its handles. -/
def Ledger.slow : Ledger Nat where
  submit _ _ count := (.pure (seconds 1) (.ok (BitVec.ofNat 256 count)), count + 1)
  sequenceNumber _ _ count := (.ok 0, count)
  balance _ _ count := (.ok 0, count)
  height _ count := (.ok 0, count)
  block _ _ count := (.ok none, count)
  receipt _ _ count := (.pure 0 (.ok none), count)

/-- A backlog of two. -/
def Saturation.ofTwo : Saturation := { initialFill := 2, fillChunk := 2 }

def RunConfig.ofBacklog (threshold : Float) : RunConfig :=
  { senders := [1], strategy := .saturation .ofTwo, target := 5, duration := some (seconds 10)
    poll := { completionThreshold := threshold } }

/-- What the run stands on. -/
def Footing.ofBacklog : Footing :=
  ⟨0, .ofStarts [(1, 0)], [], { senders := #[1], nonempty := Nat.zero_lt_one, template := {} }⟩

/-- The bench of the run; the signal will be raised while the first two submissions are under way. -/
def Bench.ofBacklog : Bench Nat where
  now := 0
  shutdown := .due (milliseconds 500)
  ledger := 0
  tracker := .withCap 5
  sequences := .ofStarts [(1, 0)]

/-- What the run is about. -/
def Job.ofBacklog : Job Nat CountedHeight :=
  { generator := Footing.ofBacklog.generator, ledger := .slow
    estimator := Saturation.ofTwo.estimate.estimator .slow, strategy := .saturation .ofTwo
    target := 5, deadline := some (seconds 10) }

set_option maxRecDepth 4000 in
theorem RunConfig.ofBacklog_cancelled (threshold : Float) :
    let poll := ((ofBacklog threshold).pollBeside .ofBacklog .ofBacklog).1
    poll.started + poll.elapsed = milliseconds 500 := by
  cbv

set_option maxRecDepth 4000 in
theorem RunConfig.ofBacklog_recorded (threshold : Float) :
    let phase := Job.ofBacklog.run
      ((ofBacklog threshold).pollBeside .ofBacklog .ofBacklog).2.world
    phase.stage = .finished ∧
      phase.tracker.outcomes.toList.map (fun o => (o.handle, o.settledAt)) =
        [(some 0, seconds 1), (some 1, seconds 1)] := by
  cbv

theorem RunConfig.load_ofBacklog (threshold : Float) :
    ∃ send b, (ofBacklog threshold).load .slow Footing.ofBacklog.generator .ofBacklog =
      (.ok (send, ((ofBacklog threshold).pollBeside .ofBacklog .ofBacklog).1), b) ∧
      b.tracker.outcomes.toList.map (fun o => (o.handle, o.settledAt)) =
        [(some 0, seconds 1), (some 1, seconds 1)] := by
  obtain ⟨hstage, houtcomes⟩ := ofBacklog_recorded threshold
  have hjob : Footing.ofBacklog.generator.job .slow (Saturation.ofTwo.estimate.estimator .slow)
      (ofBacklog threshold).strategy (ofBacklog threshold).target (ofBacklog threshold).duration
      Bench.ofBacklog.now = .ok .ofBacklog := rfl
  have hload := sendWhilePolling_of_job hjob
  generalize (ofBacklog threshold).pollBeside .ofBacklog .ofBacklog = r at hstage houtcomes hload ⊢
  dsimp only at hload hstage houtcomes
  generalize Job.ofBacklog.run r.2.world = phase at hstage houtcomes hload
  rw [if_neg (by rw [hstage]; nofun)] at hload
  exact ⟨_, _, hload, houtcomes⟩

/-- The signal ends the poll while the two submissions are under way. They are accepted, but the report
of the poll has none of them. -/
theorem RunConfig.run_accounts_settled_cancelled :
    ∃ report, ((ofBacklog 0.95).run .slow 0 (.due (milliseconds 500)) 0).1 = .ok report ∧
      report.submissions.accepted = 2 ∧
      report.inclusion.verified + report.inclusion.unresolved = 0 := by
  obtain ⟨send, b, hload, houtcomes⟩ := load_ofBacklog 0.95
  have hprepared : (ofBacklog 0.95).prepare .slow 0 0 = (.ok .ofBacklog, 0) := rfl
  have hrun := run_eq_ok.mpr ⟨_, _, _, _, _, hprepared, hload, rfl⟩
  have hended := ofBacklog_cancelled 0.95
  dsimp only at hended
  generalize (ofBacklog 0.95).pollBeside .ofBacklog .ofBacklog = r at hload hrun hended
  have hinclusion : ((ofBacklog 0.95).conclude .slow .ofBacklog send r.1 b).1.inclusion = r.1 := rfl
  generalize ((ofBacklog 0.95).conclude .slow .ofBacklog send r.1 b).1 = report at hrun hinclusion
  have hrecorded : (ofBacklog 0.95).recorded .slow 0 (.due (milliseconds 500)) 0 =
      b.tracker.outcomes.toList := recorded_eq hprepared hload
  rw [← hrecorded] at houtcomes
  have hhandles : ((ofBacklog 0.95).recorded .slow 0 (.due (milliseconds 500)) 0).filterMap
      (·.handle) = [0, 1] := by
    have hfirst := congrArg (List.filterMap Prod.fst) houtcomes
    rwa [List.filterMap_map] at hfirst
  obtain ⟨seen, late, hall, hsettled, -, -, hcounted, haccepted, -⟩ :=
    run_accounts_settled _ _ _ _ _ hrun (by rw [hhandles]; decide)
  have hseen : seen = [] := by
    rw [List.eq_nil_iff_forall_not_mem]
    intro o ho
    have hmem : (o.handle, o.settledAt) ∈ [(some 0, seconds 1), (some 1, seconds 1)] := by
      rw [← houtcomes, hall]
      exact List.mem_map_of_mem (List.mem_append_left _ ho)
    have hearly := hsettled o ho
    rw [hinclusion, hended] at hearly
    have hlate : o.settledAt = seconds 1 := by
      simp only [List.mem_cons, Prod.mk.injEq, List.not_mem_nil, or_false] at hmem
      exact hmem.elim (·.2) (·.2)
    rw [hlate] at hearly
    exact absurd hearly (by decide)
  rw [hseen, List.countP_nil] at hcounted
  refine ⟨report, hrun, ?_, hcounted⟩
  rw [haccepted, hcounted, ← List.length_filterMap_eq_countP]
  rw [hall, hseen, List.nil_append] at hhandles
  rw [hhandles]
  rfl

end Throughput
