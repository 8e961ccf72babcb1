import Throughput.Proofs.Poll.Estimated
import Throughput.Proofs.Run.Coverage
import Throughput.Proofs.Run.Footing
import Throughput.Proofs.Run.Window
import Throughput.Proofs.Send.Extends
import Throughput.Proofs.Send.Issued

/-!
# The figures of a report agree

The figures of a report come from counters that are kept apart: those of the senders, of the send phase,
of the record, of the poll and of the blocks. They agree however a run is cut short.
-/

namespace Throughput

variable {σ ε : Type} {ledger : Ledger σ} {g : Generator} {first : Nat → UInt64}
  {seeds : Sequences} {cap target : Nat}

/-! ## What has been recorded -/

theorem Ledger.keeps_true (ledger : Ledger σ) : ledger.Keeps fun _ _ => True :=
  ⟨fun _ => ⟨by simp, by simp, by simp, by simp, by simp, by simp⟩, by simp, by simp⟩

theorem Estimator.keeps_true (estimator : Estimator σ ε) : estimator.Keeps fun _ => True :=
  ⟨by simp, by simp⟩

/-- Do a summary, a record and counters agree? -/
structure SendSummary.Agrees (send : SendSummary) (g : Generator) (first : Nat → UInt64)
    (seeds : Sequences) (cap : Nat) (t : Tracker) (m : Sequences) : Prop where
  kept : t.Kept cap
  dispatched : send.dispatched = t.outcomes.size
  accepted : send.accepted = t.counts.accepted
  failed : send.failed = t.counts.failed
  stand : g.StandAt m (g.numbersAfter first send.dispatched)
  starts : ∀ a, m.start? a = seeds.start? a

theorem SendSummary.Agrees.close {send : SendSummary} {t : Tracker}
    (h : send.Agrees g first seeds cap t m) : send.Agrees g first seeds cap t.close m :=
  ⟨h.kept.close, h.dispatched, h.accepted, h.failed, h.stand, h.starts⟩

namespace Job

variable {j : Job σ ε} {p : Phase σ ε}

/-- Does a phase give account of its requests, and has its record been empty at first? -/
def Booked (j : Job σ ε) (first : Nat → UInt64) (seeds : Sequences) (cap : Nat) (p : Phase σ ε) :
    Prop :=
  j.Sound (fun _ _ => True) first seeds p ∧ (Tracker.withCap cap).Extends p.tracker

theorem booked_start {b : Bench σ} (hb : b.tracker = .withCap cap)
    (hstand : j.generator.StandAt b.sequences first) (memory : ε) :
    j.Booked first b.sequences cap (start b memory) := by
  refine ⟨sound_start trivial ?_ hstand memory, ?_⟩
  · rw [hb]
    rfl
  · change (Tracker.withCap cap).Extends b.tracker
    rw [hb]
    exact .refl _

theorem booked_advance (hd : j.generator.Distinct) (h : j.Booked first seeds cap p)
    (allowed : Instant → Bool → Bool) (steps : Nat) :
    j.Booked first seeds cap (j.advance allowed steps p) :=
  ⟨sound_advance j.ledger.keeps_true (fun _ => j.estimator.keeps_true) hd h.1 allowed steps,
    extends_advance h.1.1 h.2 allowed steps⟩

/-- A poll beside a phase adds nothing to its record. -/
theorem sending_booked (hd : j.generator.Distinct) {chance : Chance} :
    (Watch.sending j chance).Keeps (j.Booked first seeds cap) := by
  have hsound : (Watch.sending j chance).Keeps (j.Sound (fun _ _ => True) first seeds) :=
    sending_keeps j.ledger.keeps_true (fun _ => j.estimator.keeps_true) hd
  exact ⟨fun h limit => booked_advance hd h _ _,
    fun h now handle => ⟨hsound.receipt h.1 now handle, h.2⟩,
    fun h asked handle before now => ⟨hsound.receiptAnswer h.1 asked handle before now, h.2⟩⟩

/-- The summary of a phase that has come to its end agrees with the record that it leaves. -/
theorem summary_agrees (hj : j.IsSound) (hd : j.generator.Distinct) (h : j.Booked first seeds cap p)
    {before : Bench σ} (hbefore : before.tracker = .withCap cap) :
    let ended := j.run p
    (j.summary before ended).Agrees j.generator first seeds cap ended.tracker ended.sequences ∧
      (j.summary before ended).dispatched ≤ j.target := by
  intro ended
  obtain ⟨⟨hshaped, haccounted⟩, hextends⟩ : j.Booked first seeds cap ended :=
    booked_advance hd h _ _
  obtain ⟨hflights, hqueued⟩ : ended.flights = [] ∧ ended.queued = [] := run_idle hj h.1.1
  refine ⟨⟨Tracker.kept_of_extends hextends, ?_, ?_, ?_, haccounted.stand, haccounted.starts⟩,
    hshaped.1⟩
  · have hlength := haccounted.requests.length_eq
    unfold Phase.requests Tracker.requests at hlength
    rw [hflights, hqueued, Generator.length_plan] at hlength
    change ended.dispatched = _
    simpa using hlength.symm
  · change ended.tracker.counts.accepted - before.tracker.counts.accepted = _
    rw [hbefore]
    rfl
  · change ended.tracker.counts.failed - before.tracker.counts.failed = _
    rw [hbefore]
    rfl

end Job

/-- What is sent in one go is summed up as it is recorded. -/
theorem Generator.agrees_of_send {strategy : Strategy} {duration : Option Duration} (hd : g.Distinct)
    {b after : Bench σ} {send : SendSummary} (hb : b.tracker = .withCap cap)
    (hstand : g.StandAt b.sequences first)
    (h : g.send ledger strategy target duration b = (.ok send, after)) :
    send.Agrees g first b.sequences cap after.tracker after.sequences ∧ send.dispatched ≤ target := by
  unfold Generator.send at h
  obtain ⟨hresult, hafter⟩ := Prod.mk.inj h
  obtain ⟨j, hjob, -, hsend, hbench⟩ := Job.run_of_sendWith (Prod.ext hresult (Prod.ext hafter rfl))
  have hj := Job.isSound_of_job hjob
  obtain rfl := Job.job_eq hjob
  rw [hsend, hbench]
  exact Job.summary_agrees hj hd (Job.booked_start hb hstand none) hb

/-! ## What has been polled -/

namespace Watch

variable {j : Job σ ε} {chance : Chance} {x : Instant × Phase σ ε}

/-- The record of a phase is extended while it is polled. -/
theorem sending_extends (before : Tracker) :
    (Watch.sending j chance).Keeps fun p => j.Shaped p ∧ before.Extends p.tracker :=
  ⟨fun h _ => ⟨Job.shaped_advance h.1 _ _, Job.extends_advance h.1 h.2 _ _⟩, fun h _ _ => h,
    fun h _ _ _ _ => h⟩

/-- The record of a phase only grows while it is polled. -/
theorem sending_grows (h : j.Shaped x.2) : (Watch.sending j chance).Grows x := by
  refine ⟨fun _ => chance.nodup_arrange _, fun {y z} hxy hyz => ?_⟩
  obtain ⟨hshaped, -⟩ := (sending_extends x.2.tracker).later hxy ⟨h, .refl _⟩
  obtain ⟨-, hextends⟩ := (sending_extends y.2.tracker).later hyz ⟨hshaped, .refl _⟩
  exact fun handle hmem => (chance.perm _).mem_iff.mpr
    (hextends.handles_subset ((chance.perm _).mem_iff.mp hmem))

end Watch

/-- Do the figures of a poll agree with each other and with a record? -/
structure PollReport.Agrees (r : PollReport) (t : Tracker) : Prop where
  verified : r.verified ≤ r.estimate.tracked
  tracked : r.estimate.tracked ≤ t.handles.length
  exact : r.estimate.exact = true → r.estimate.included = r.verified
  records : r.records.map (·.handle) ⊆ t.handles

/-- A poll agrees with the record that it watches, and with any record that comes from it. -/
theorem Poll.run_agrees {ω : Type} {config : PollConfig} (hcap : config.sampleCap ≠ 0)
    {watch : Watch ω} {now : Instant} {shutdown : Shutdown} {world : ω}
    (hgrows : watch.Grows (now, world)) {t : Tracker}
    (ht : let poll := (run config watch now shutdown world).2
      (watch.handles poll.now poll.world).toList ⊆ t.handles) :
    (run config watch now shutdown world).1.Agrees t := by
  obtain ⟨hverified, htracked, hexact⟩ := run_estimates config hcap watch now shutdown world hgrows
  have hnodup := hgrows.nodup (run_later config watch now shutdown world)
  refine ⟨hverified, htracked.trans ?_, hexact, ?_⟩
  · exact (List.subperm_of_subset hnodup ht).length_le
  · rw [(run_handles config watch now shutdown world hnodup).1]
    exact ht

namespace RunConfig

variable {c : RunConfig} {b after : Bench σ} {send : SendSummary} {inclusion : PollReport}

/-- Do a summary and the report of a poll agree with the record and the counters of a bench? -/
structure Agrees (c : RunConfig) (g : Generator) (first : Nat → UInt64) (seeds : Sequences)
    (send : SendSummary) (inclusion : PollReport) (b : Bench σ) : Prop where
  sent : send.Agrees g first seeds c.failureSampleCap b.tracker b.sequences
  bounded : send.dispatched ≤ c.target
  polled : inclusion.Agrees b.tracker

section Load

variable (hd : g.Distinct) (hcap : c.poll.sampleCap ≠ 0)
  (hb : b.tracker = .withCap c.failureSampleCap) (hstand : g.StandAt b.sequences first)

include hd hcap hb hstand

theorem sendThenPoll_agrees (h : c.sendThenPoll ledger g b = (.ok (send, inclusion), after)) :
    c.Agrees g first b.sequences send inclusion after := by
  unfold sendThenPoll at h
  split at h
  · nomatch h
  · rename_i sent sentBench hsent
    obtain ⟨hagrees, htarget⟩ := Generator.agrees_of_send hd hb hstand hsent
    obtain ⟨hresult, hafter⟩ := Prod.mk.inj h
    obtain ⟨hsend, hinclusion⟩ := Prod.mk.inj (Except.ok.inj hresult)
    rw [← hsend, ← hinclusion, ← hafter]
    refine ⟨hagrees.close, htarget, ?_⟩
    apply Poll.run_agrees hcap
    · exact Watch.fixed_grows _ (c.poll.chance.nodup_arrange _) _
    · exact (c.poll.chance.perm _).subset

theorem sendWhilePolling_agrees {s : Saturation}
    (h : c.sendWhilePolling ledger g s b = (.ok (send, inclusion), after)) :
    c.Agrees g first b.sequences send inclusion after := by
  cases hjob : g.job ledger (s.estimate.estimator ledger) c.strategy c.target c.duration b.now with
  | error e =>
    unfold sendWhilePolling at h
    rw [hjob] at h
    nomatch h
  | ok j =>
    have hj := Job.isSound_of_job hjob
    have hfields := Job.job_eq hjob
    have hgenerator : j.generator = g := by rw [hfields]
    have htarget : j.target = c.target := by rw [hfields]
    rw [← hgenerator] at hd hstand ⊢
    rw [sendWhilePolling_of_job hjob] at h
    obtain ⟨hresult, hafter⟩ := Prod.mk.inj h
    split at hresult
    · nomatch hresult
    · obtain ⟨hsend, hinclusion⟩ := Prod.mk.inj (Except.ok.inj hresult)
      have hkeeps : (Watch.sending j c.poll.chance).Keeps
          (j.Booked first b.sequences c.failureSampleCap) := Job.sending_booked hd
      have hstart := hkeeps.advance (Job.booked_start hb hstand none) b.now
      have hpolled : j.Booked first b.sequences c.failureSampleCap (c.pollBeside j b).2.world :=
        Poll.run_keeps hkeeps _ _ _ hstart
      obtain ⟨hagrees, hdispatched⟩ := Job.summary_agrees hj hd hpolled hb
      rw [htarget] at hdispatched
      rw [← hsend, ← hinclusion, ← hafter]
      refine ⟨hagrees.close, hdispatched, ?_⟩
      have hended : (c.pollBeside j b).2.world.tracker.Extends
          (j.run (c.pollBeside j b).2.world).tracker :=
        Job.extends_advance hpolled.1.1 (.refl _) _ _
      have hconfig : ({ c.poll with timeout := c.poll.timeout + c.duration.getD 0 } :
          PollConfig).sampleCap ≠ 0 := hcap
      exact Poll.run_agrees hconfig (Watch.sending_grows hstart.1.1)
        (List.Subset.trans (c.poll.chance.perm _).subset hended.handles_subset)

theorem load_agrees (h : c.load ledger g b = (.ok (send, inclusion), after)) :
    c.Agrees g first b.sequences send inclusion after := by
  unfold load at h
  split at h
  · exact sendWhilePolling_agrees hd hcap hb hstand h
  · exact sendThenPoll_agrees hd hcap hb hstand h

end Load

end RunConfig

/-! ## What has been included -/

/-- A table that takes the instant of each outcome with a handle has that of the last with a handle, or
what it had. -/
theorem getElem?_foldl_submitted
    {f : Std.HashMap Handle Instant → Outcome → Std.HashMap Handle Instant}
    (hf : ∀ m o handle, (f m o)[handle]? =
      if o.handle = some handle then some o.submittedAt else m[handle]?)
    (outcomes : List Outcome) (handle : Handle) (m : Std.HashMap Handle Instant) :
    (outcomes.foldl f m)[handle]? =
      ((outcomes.reverse.find? (·.handle = some handle)).map (·.submittedAt)).or m[handle]? := by
  induction outcomes generalizing m with
  | nil => rfl
  | cons o outcomes ih =>
    rw [List.foldl_cons, ih, hf, List.reverse_cons, List.find?_append, Option.map_or,
      Option.or_assoc]
    by_cases ho : o.handle = some handle <;> simp [ho]

/-- The latency of a record with an inclusion counts from the last outcome with its handle. -/
theorem inclusionLatencies_eq (outcomes : List Outcome) (records : List PollRecord) :
    inclusionLatencies outcomes records = records.filterMap fun r => r.inclusion.bind fun i =>
      (outcomes.reverse.find? (·.handle = some r.handle)).map (i.observedAt - ·.submittedAt) := by
  unfold inclusionLatencies
  dsimp only
  congr
  funext r
  congr
  funext i
  rw [getElem?_foldl_submitted (fun m o handle => ?_), Std.HashMap.getElem?_empty, Option.or_none,
    Option.map_map]
  · rfl
  · cases o.handle with
    | none => simp
    | some given => simp [Std.HashMap.getElem?_insert]

/-- There is a latency for each record with an inclusion, if its handle was given to an outcome. -/
theorem length_inclusionLatencies {outcomes : List Outcome} {records : List PollRecord}
    (h : records.map (·.handle) ⊆ outcomes.filterMap (·.handle)) :
    (inclusionLatencies outcomes records).length = records.countP (·.inclusion.isSome) := by
  rw [inclusionLatencies_eq, List.length_filterMap_eq_countP]
  apply List.countP_congr
  intro r hr
  obtain ⟨o, ho, hhandle⟩ := List.mem_filterMap.mp (h (List.mem_map_of_mem hr))
  cases r.inclusion with
  | none => simp
  | some i =>
    rw [Option.bind_some, Option.isSome_map, List.find?_isSome]
    exact iff_of_true ⟨o, List.mem_reverse.mpr ho, decide_eq_true hhandle⟩ rfl

theorem LatencyStats.samples_ofSamples (samples : List Duration) :
    (ofSamples samples).samples = samples.length := by
  simp [ofSamples]

namespace RunConfig

variable {c : RunConfig} {report : RunReport}

/-- A run that reports has loaded its ledger from a footing that its reads have given it. -/
theorem run_agrees {now : Instant} {shutdown : Shutdown} {s : σ}
    (hrun : (c.run ledger now shutdown s).1 = .ok report) :
    c.IsValid ∧ ∃ f send inclusion b,
      f.generator.Distinct ∧
      (∀ a, a ∈ f.sequences ↔ ∃ place < f.generator.senders.size, f.generator.senderAt place = a) ∧
      c.Agrees f.generator (f.generator.firstOf f.sequences) f.sequences send inclusion b ∧
      report = (c.conclude ledger f send inclusion b).1 := by
  obtain ⟨f, s', send, inclusion, b, hprepared, hloaded, hreport⟩ := run_eq_ok.mp hrun
  obtain ⟨hvalidate, ⟨s₁, s₂, -, hseed, -⟩, hg⟩ := prepare_eq_ok.mp hprepared
  have hvalid := isValid_of_validate hvalidate
  have hd := Generator.distinct_of_ofSequences hg
  have hstand := Generator.standAt_firstOf hg (Sequences.seed_spec hseed).2
  exact ⟨hvalid, f, send, inclusion, b, hd, Generator.mem_sequences_iff hg,
    load_agrees hd hvalid.sampleCap rfl hstand hloaded, hreport⟩

/-- The figures of a report agree, whatever the ledger answers and whenever the run is shut down. All that
was dispatched has been issued by the counters of the senders, recorded once and timed, and is accepted
or failed. What the poll verifies has been timed too, is among what its estimate tracks, and that among
what was accepted; an exact estimate is what was verified. The failures give reasons up to the cap. No
more blocks are analysed than were produced or may be analysed, and none up to an unknown end. -/
theorem run_figures_agree (c : RunConfig) (ledger : Ledger σ) (now : Instant) (shutdown : Shutdown)
    (s : σ) (htarget : c.target < 2 ^ 64) {report : RunReport}
    (hrun : (c.run ledger now shutdown s).1 = .ok report) :
    let counts := report.submissions
    let poll := report.inclusion
    let metrics := report.metrics
    counts.total = report.send.dispatched ∧
    (report.sequences.map (·.issued.toNat)).sum = report.send.dispatched ∧
    report.send.dispatched ≤ c.target ∧
    counts.accepted = report.send.accepted ∧
    counts.rejected + counts.timedOut + counts.transport + counts.malformed = report.send.failed ∧
    metrics.submitLatency.samples = counts.total ∧
    metrics.inclusionLatency.samples = poll.verified ∧
    poll.verified ≤ poll.estimate.tracked ∧
    poll.estimate.tracked ≤ counts.accepted ∧
    (poll.estimate.exact = true → poll.estimate.included = poll.verified) ∧
    report.failureSamples.length = min c.failureSampleCap report.send.failed ∧
    (∀ last, report.window.endHeight = some last → ∃ produced,
      metrics.blocksProduced = some produced ∧
        metrics.blocksAnalyzed ≤ min c.maxBlocksAnalyzed.toNat produced.toNat) ∧
    (report.window.endHeight = none → metrics.blocksAnalyzed = 0) := by
  intro counts poll metrics
  obtain ⟨hvalid, f, send, inclusion, b, hd, hmem, ⟨hsent, hbounded, hpolled⟩, rfl⟩ :=
    run_agrees hrun
  have hkept := hsent.kept
  -- The load adds no sender and drops none, so the sum is over the senders of the generator.
  have hstarts : ∀ a, a ∈ b.sequences ↔ a ∈ f.sequences := by
    intro a
    have hsame := hsent.starts a
    unfold Sequences.start? at hsame
    have hsome := congrArg Option.isSome hsame
    rw [Option.isSome_map, Option.isSome_map] at hsome
    rw [Std.ExtTreeMap.mem_iff_isSome_getElem?, Std.ExtTreeMap.mem_iff_isSome_getElem?, hsome]
  -- The record is what ties the figures: each of the other counters is compared with it.
  have htotal : counts.total = b.tracker.outcomes.size := hkept.counted
  have hblocks := length_analyzedBlocks_le hvalid.blocks ledger b.now
    ⟨f.startHeight, (ledger.height b.now b.ledger).1.toOption⟩ (ledger.height b.now b.ledger).2
  have hproduced : metrics.blocksProduced =
      (c.conclude ledger f send inclusion b).1.window.blocksProduced := rfl
  change metrics.blocksAnalyzed ≤ metrics.blocksProduced.elim _ _ at hblocks
  refine ⟨htotal.trans hsent.dispatched.symm, ?_, hbounded, hsent.accepted.symm, hsent.failed.symm,
    ?_, ?_, hpolled.verified, hpolled.tracked.trans hkept.length_handles_le, hpolled.exact, ?_,
    fun last hlast => ?_, fun hnone => ?_⟩
  · apply Generator.sum_issued hd
    · exact fun a => (hstarts a).trans (hmem a)
    · exact hsent.stand
    · intro place hp
      have hsender := (hmem (f.generator.senderAt place)).mpr ⟨place, hp, rfl⟩
      rw [hsent.starts]
      obtain ⟨counter, hcounter⟩ :=
        Option.isSome_iff_exists.mp (Std.ExtTreeMap.mem_iff_isSome_getElem?.mp hsender)
      simp [Generator.firstOf, Sequences.start?, hcounter]
    · exact Nat.lt_of_le_of_lt hbounded htarget
  · refine (LatencyStats.samples_ofSamples _).trans ?_
    rw [htotal, List.length_map, Array.length_toList]
  · refine (LatencyStats.samples_ofSamples _).trans ?_
    rw [length_inclusionLatencies (List.Subset.trans hpolled.records hkept.handles)]
    exact inclusion.verified_eq.symm
  · exact hkept.sampled.trans (congrArg _ hsent.failed.symm)
  · unfold RunWindow.blocksProduced at hproduced
    rw [hlast] at hproduced
    rw [hproduced] at hblocks
    exact ⟨_, hproduced, hblocks⟩
  · unfold RunWindow.blocksProduced at hproduced
    rw [hnone] at hproduced
    rw [hproduced] at hblocks
    exact Nat.le_zero.mp hblocks

theorem run_ofBacklog : ∃ report,
    ((ofBacklog 0.95).run .slow 0 (.due (milliseconds 500)) 0).1 = .ok report ∧
      report.metrics.submitLatency.samples = 2 := by
  obtain ⟨send, b, hload, houtcomes⟩ := load_ofBacklog 0.95
  have hprepared : (ofBacklog 0.95).prepare .slow 0 0 = (.ok .ofBacklog, 0) := rfl
  refine ⟨_, run_eq_ok.mpr ⟨_, _, _, _, _, hprepared, hload, rfl⟩, ?_⟩
  refine (LatencyStats.samples_ofSamples _).trans ?_
  have hlength := congrArg List.length houtcomes
  rwa [List.length_map] at hlength ⊢

/-- The signal ends the poll while two submissions are under way; they are counted everywhere all the
same. -/
theorem run_figures_agree_cancelled : ∃ report,
    ((ofBacklog 0.95).run .slow 0 (.due (milliseconds 500)) 0).1 = .ok report ∧
      (ofBacklog 0.95).target < 2 ^ 64 ∧ report.submissions.total = 2 ∧ report.send.dispatched = 2 ∧
      (report.sequences.map (·.issued.toNat)).sum = 2 ∧
      report.send.accepted + report.send.failed = 2 ∧
      report.inclusion.estimate.tracked ≤ report.submissions.accepted := by
  obtain ⟨report, hrun, hsamples⟩ := run_ofBacklog
  have htarget : (ofBacklog 0.95).target < 2 ^ 64 := by decide
  obtain ⟨htotal, hissued, -, haccepted, hfailed, htimed, -, -, htracked, -⟩ :=
    run_figures_agree _ _ _ _ _ htarget hrun
  rw [hsamples] at htimed
  rw [← htimed] at htotal
  rw [← htotal] at hissued
  exact ⟨report, hrun, htarget, htimed.symm, htotal.symm, hissued,
    by rw [← haccepted, ← hfailed]; exact htimed.symm, htracked⟩

end RunConfig

end Throughput
