import Throughput.Proofs.Poll.Rounds
import Throughput.Proofs.Run.Figures

/-!
# Latencies of inclusion

A submission is polled only after it has been recorded, and it is recorded when it has settled. So what
a run measures from a submission to its inclusion is at least what the submission took, also where the
poll goes on beside the send phase.
-/

namespace Throughput

variable {σ ε ω : Type} {ledger : Ledger σ}

/-! ## Observations and records -/

theorem Attempt.observedAt_of_sighting {a : Attempt ω} {handle : Handle} {i : Inclusion}
    (h : a.sighting? handle = some i) : i.observedAt = a.endedAt := by
  obtain ⟨answers, -, hanswers⟩ := Option.bind_eq_some_iff.mp h
  obtain ⟨⟨asked, answer⟩, -, hfound⟩ := List.exists_of_findSome?_eq_some hanswers
  dsimp only at hfound
  split at hfound
  · split at hfound
    · exact congrArg Inclusion.observedAt (Option.some.inj hfound).symm
    · nomatch hfound
  · nomatch hfound

/-- What a poll reports included was observed at or after an instant at which it was watched. -/
theorem Poll.run_observed (config : PollConfig) (watch : Watch ω) (now : Instant)
    (shutdown : Shutdown) (world : ω) (hgrows : watch.Grows (now, world)) :
    let r := run config watch now shutdown world
    ∀ record ∈ r.1.records, ∀ i, record.inclusion = some i → ∃ x,
      watch.Later (now, world) x ∧ watch.Later x r.2.place ∧
        record.handle ∈ (watch.handles x.1 x.2).toList ∧ x.1 ≤ i.observedAt := by
  intro r record hrecord i hi
  have hgoes := goes_ending config watch now shutdown world config.words
  obtain ⟨-, hplaces, -⟩ := hgoes.places
  rw [show r.1.records = _ from records_ending config shutdown _ hgrows] at hrecord
  obtain ⟨handle, -, rfl⟩ := List.mem_map.mp hrecord
  obtain ⟨a, ha, hsighting⟩ := List.exists_of_findSome?_eq_some hi
  obtain ⟨hfirst, hlast, q, rfl⟩ := hplaces a ha
  refine ⟨_, hfirst, hlast, mem_of_sighting (by rw [hsighting]; rfl), ?_⟩
  rw [Attempt.observedAt_of_sighting hsighting]
  exact now_le_endedAt ..

namespace Tracker

/-- A record that began empty has given its handles to outcomes. -/
theorem exists_outcome {cap : Nat} {outcomes : List Outcome} {handle : Handle}
    (h : handle ∈ ((withCap cap).recordAll outcomes).handles) :
    ∃ o ∈ outcomes, o.handle = some handle := by
  rcases mem_handles_recordAll.mp h with hgiven | hnone
  · exact List.mem_filterMap.mp hgiven
  · simp [withCap, handles] at hnone

theorem Extends.outcomes_subset {before after : Tracker} (h : before.Extends after) :
    before.outcomes.toList ⊆ after.outcomes.toList := by
  obtain ⟨added, rfl, -⟩ := h
  rw [outcomes_recordAll]
  exact List.subset_append_left ..

end Tracker

/-- Had every submission that a poll reports included settled when it was observed? -/
def PollReport.ObservesSettled (r : PollReport) (outcomes : List Outcome) : Prop :=
  ∀ record ∈ r.records, ∀ i, record.inclusion = some i →
    ∃ o ∈ outcomes, o.handle = some record.handle ∧ o.settledAt ≤ i.observedAt

namespace RunConfig

variable {c : RunConfig} {g : Generator} {b after : Bench σ} {send : SendSummary}
  {inclusion : PollReport} {cap : Nat}

/-- A poll after a send phase starts when everything has settled that was sent. -/
theorem sendThenPoll_observes (hb : b.tracker = .withCap cap)
    (h : c.sendThenPoll ledger g b = (.ok (send, inclusion), after)) :
    inclusion.ObservesSettled after.tracker.outcomes.toList := by
  unfold sendThenPoll at h
  split at h
  · nomatch h
  · rename_i sent sentBench hsent
    obtain ⟨outcomes, htracker, hsettled⟩ := Generator.records_of_send hsent
    obtain ⟨hresult, hafter⟩ := Prod.mk.inj h
    obtain ⟨-, hinclusion⟩ := Prod.mk.inj (Except.ok.inj hresult)
    rw [← hinclusion, ← hafter]
    intro record hrecord i hi
    obtain ⟨x, hlater, -, hhandle, hobserved⟩ := Poll.run_observed _ _ _ _ _
      (Watch.fixed_grows _ (c.poll.chance.nodup_arrange _) _) record hrecord i hi
    rw [hb] at htracker
    have hrecorded : record.handle ∈ ((Tracker.withCap cap).recordAll outcomes).handles := by
      rw [← htracker]
      exact (c.poll.chance.perm _).subset hhandle
    obtain ⟨o, ho, hgiven⟩ := Tracker.exists_outcome hrecorded
    refine ⟨o, ?_, hgiven, Nat.le_trans (hsettled o ho) (Nat.le_trans hlater.now_le hobserved)⟩
    change o ∈ sentBench.tracker.outcomes.toList
    rw [htracker, Tracker.outcomes_recordAll]
    exact List.mem_append_right _ ho

/-- A poll beside a send phase watches only what has settled by then. -/
theorem pollBeside_observes {j : Job σ CountedHeight} (hj : j.IsSound)
    (hb : b.tracker = .withCap cap) :
    (c.pollBeside j b).1.ObservesSettled
      (j.run (c.pollBeside j b).2.world).tracker.outcomes.toList := by
  unfold pollBeside
  generalize { c.poll with timeout := c.poll.timeout + c.duration.getD 0 } = config
  generalize c.poll.chance = chance
  have hphase := (j.upTo_start b none).runUntil hj (Nat.le_refl b.now)
  change j.UpTo b.tracker b.now ((Watch.sending j chance).advance b.now (Job.start b none)) at hphase
  generalize (Watch.sending j chance).advance b.now (Job.start b none) = phase at hphase ⊢
  intro record hrecord i hi
  obtain ⟨x, hfirst, hlast, hhandle, hobserved⟩ :=
    Poll.run_observed _ _ _ _ _ (Watch.sending_grows hphase.shaped) record hrecord i hi
  have hwatched := hphase.later hj hfirst
  obtain ⟨outcomes, htracker, hsettled⟩ := hwatched.recorded
  rw [hb] at htracker
  obtain ⟨o, ho, hgiven⟩ :=
    Tracker.exists_outcome (by rw [← htracker]; exact (chance.perm _).subset hhandle)
  refine ⟨o, ?_, hgiven, Nat.le_trans (hsettled o ho) hobserved⟩
  -- what is recorded when a handle is watched stays in the record to the end of the phase
  obtain ⟨hshaped, hpolled⟩ :=
    (Watch.sending_extends x.2.tracker).later hlast ⟨hwatched.shaped, .refl _⟩
  refine (Job.extends_advance hshaped hpolled (fun _ _ => true) _).outcomes_subset ?_
  rw [htracker, Tracker.outcomes_recordAll]
  exact List.mem_append_right _ ho

theorem sendWhilePolling_observes {s : Saturation} (hb : b.tracker = .withCap cap)
    (h : c.sendWhilePolling ledger g s b = (.ok (send, inclusion), after)) :
    inclusion.ObservesSettled after.tracker.outcomes.toList := by
  cases hjob : g.job ledger (s.estimate.estimator ledger) c.strategy c.target c.duration b.now with
  | error e =>
    unfold sendWhilePolling at h
    rw [hjob] at h
    nomatch h
  | ok j =>
    rw [sendWhilePolling_of_job hjob] at h
    obtain ⟨hresult, hafter⟩ := Prod.mk.inj h
    split at hresult
    · nomatch hresult
    · obtain ⟨-, hinclusion⟩ := Prod.mk.inj (Except.ok.inj hresult)
      have hobserves := pollBeside_observes (c := c) (Job.isSound_of_job hjob) hb
      rw [hinclusion] at hobserves
      rw [← hafter]
      exact hobserves

theorem load_observes (hb : b.tracker = .withCap cap)
    (h : c.load ledger g b = (.ok (send, inclusion), after)) :
    inclusion.ObservesSettled after.tracker.outcomes.toList := by
  unfold load at h
  split at h
  · exact sendWhilePolling_observes hb h
  · exact sendThenPoll_observes hb h

end RunConfig

/-! ## Latencies -/

/-- Outcomes that were given the same handle are the same, if handles are distinct. -/
theorem Outcome.eq_of_handle {outcomes : List Outcome}
    (hdistinct : (outcomes.filterMap (·.handle)).Nodup) {o o' : Outcome} {handle : Handle}
    (ho : o ∈ outcomes) (ho' : o' ∈ outcomes) (hgiven : o.handle = some handle)
    (hgiven' : o'.handle = some handle) : o = o' := by
  let Apart (x y : Outcome) : Prop := ∀ handle, x.handle = some handle → y.handle ≠ some handle
  have hsymm : Std.Symm Apart := ⟨fun _ _ h handle hy hx => h handle hx hy⟩
  have hapart : outcomes.Pairwise Apart := (List.pairwise_filterMap.mp hdistinct).imp
    fun h handle hx hy => h handle hx handle hy rfl
  by_contra hne
  exact hapart.forall ho ho' hne handle hgiven hgiven'

/-- Each record with an inclusion has a latency, and in the order of the records. -/
theorem inclusionLatencies_forall₂ {outcomes : List Outcome}
    (hdistinct : (outcomes.filterMap (·.handle)).Nodup) {records : List PollRecord}
    {R : PollRecord → Duration → Prop}
    (h : ∀ r ∈ records, ∀ i, r.inclusion = some i →
      ∃ o ∈ outcomes, o.handle = some r.handle ∧ R r (i.observedAt - o.submittedAt)) :
    List.Forall₂ R (records.filter (·.inclusion.isSome)) (inclusionLatencies outcomes records) := by
  rw [inclusionLatencies_eq]
  induction records with
  | nil => exact .nil
  | cons r records ih =>
    obtain ⟨hfirst, hrest⟩ := List.forall_mem_cons.mp h
    have hlatencies := ih hrest
    cases hi : r.inclusion with
    | none =>
      rw [List.filter_cons_of_neg (by simp [hi]), List.filterMap_cons_none (by rw [hi]; rfl)]
      exact hlatencies
    | some i =>
      obtain ⟨o, ho, hgiven, hlatency⟩ := hfirst i hi
      obtain ⟨o', hfound⟩ := Option.isSome_iff_exists.mp
        (List.find?_isSome.mpr ⟨o, List.mem_reverse.mpr ho, decide_eq_true hgiven⟩ :
          (outcomes.reverse.find? (·.handle = some r.handle)).isSome = true)
      have ho' := List.mem_reverse.mp (List.mem_of_find?_eq_some hfound)
      have hgiven' := List.find?_some hfound
      obtain rfl := Outcome.eq_of_handle hdistinct ho ho' hgiven (by simpa using hgiven')
      rw [List.filter_cons_of_pos (by simp [hi]),
        List.filterMap_cons_some (by rw [hi, Option.bind_some, hfound]; rfl)]
      exact .cons hlatency hlatencies

/-- A run that records distinct handles has one latency for each record that its poll reports included,
in the order of the records. It is what lies between the submission with the handle of the record and
its observation, which was not before the submission had settled. -/
theorem RunConfig.run_latencies (c : RunConfig) (ledger : Ledger σ) (now : Instant)
    (shutdown : Shutdown) (s : σ) {report : RunReport}
    (hrun : (c.run ledger now shutdown s).1 = .ok report)
    (hdistinct : ((c.recorded ledger now shutdown s).filterMap (·.handle)).Nodup) :
    let outcomes := c.recorded ledger now shutdown s
    let records := report.inclusion.records
    let latencies := inclusionLatencies outcomes records
    report.metrics.inclusionLatency = .ofSamples latencies ∧
      List.Forall₂ (fun r latency => ∃ o ∈ outcomes, ∃ i, o.handle = some r.handle ∧
          r.inclusion = some i ∧ o.submittedAt + latency = i.observedAt ∧ o.latency ≤ latency)
        (records.filter (·.inclusion.isSome)) latencies := by
  obtain ⟨f, s', send, inclusion, b, hprepared, hloaded, rfl⟩ := run_eq_ok.mp hrun
  have hobserves := load_observes (b := c.bench f now shutdown s') rfl hloaded
  rw [recorded_eq hprepared hloaded] at hdistinct ⊢
  refine ⟨rfl, inclusionLatencies_forall₂ hdistinct fun r hr i hi => ?_⟩
  obtain ⟨o, ho, hgiven, hsettled⟩ := hobserves r hr i hi
  unfold Outcome.settledAt at hsettled
  have hafter : o.submittedAt ≤ i.observedAt := Nat.le_trans (Nat.le_add_right ..) hsettled
  exact ⟨o, ho, hgiven, o, ho, i, hgiven, hi, Nat.add_sub_of_le hafter,
    Nat.le_sub_of_add_le' hsettled⟩

/-! ## A run in which all is included -/

/-- A ledger that takes a second for each submission and includes it at once. -/
def Ledger.prompt : Ledger Nat :=
  { Ledger.slow with receipt := fun _ _ count => (.pure 0 (.ok (some ⟨1, true⟩)), count) }

/-- The submissions of a backlog to this ledger. -/
def Job.prompt : Job Nat CountedHeight :=
  { Job.ofBacklog with
    ledger := .prompt, estimator := Saturation.ofTwo.estimate.estimator .prompt }

/-- The signal will be raised while more is awaited. -/
def Bench.prompt : Bench Nat := { Bench.ofBacklog with shutdown := .due (seconds 3) }

/-- The phase at which the poll begins. -/
def Phase.prompt : Phase Nat CountedHeight :=
  (Watch.sending Job.prompt).advance 0 (Job.start Bench.prompt none)

/-- The poll has the time of the send phase as well as its own. -/
def PollConfig.prompt (threshold : Float) : PollConfig :=
  let c := RunConfig.ofBacklog threshold
  { c.poll with timeout := c.poll.timeout + c.duration.getD 0 }

theorem Job.job_prompt (threshold : Float) :
    Footing.ofBacklog.generator.job .prompt (Saturation.ofTwo.estimate.estimator .prompt)
      (RunConfig.ofBacklog threshold).strategy (RunConfig.ofBacklog threshold).target
      (RunConfig.ofBacklog threshold).duration Bench.prompt.now = .ok .prompt := rfl

namespace RunConfig

set_option maxRecDepth 4000 in
theorem recorded_prompt (threshold : Float) :
    let phase := Job.prompt.run ((ofBacklog threshold).pollBeside .prompt .prompt).2.world
    phase.stage = .finished ∧
      phase.tracker.outcomes.toList.map (fun o => (o.handle, o.submittedAt)) =
        [(some 0, 0), (some 1, 0)] := by
  cbv

theorem pollBeside_prompt (threshold : Float) : (ofBacklog threshold).pollBeside .prompt .prompt =
    Poll.run (.prompt threshold) (.sending .prompt) 0 (.due (seconds 3)) .prompt := rfl

set_option maxRecDepth 4000 in
theorem firstSighting_prompt (threshold : Float) :
    let words := (PollConfig.prompt threshold).words
    let e := Poll.ending (.prompt threshold) (.sending .prompt) 0 (.due (seconds 3)) .prompt words
    ((Watch.sending .prompt).handles e.2.now e.2.world).toList.map (fun handle => firstSighting
        (Poll.history (.prompt threshold) (.sending .prompt) 0 (.due (seconds 3)) .prompt words)
        handle) =
      [some ⟨1, true, seconds 2⟩, some ⟨1, true, seconds 2⟩] := by
  cbv

theorem inclusions_prompt (threshold : Float) :
    ((ofBacklog threshold).pollBeside .prompt .prompt).1.records.map (·.inclusion) =
      [some ⟨1, true, seconds 2⟩, some ⟨1, true, seconds 2⟩] := by
  have hj := Job.isSound_of_job (Job.job_prompt threshold)
  have hstart := ((Job.prompt.upTo_start Bench.prompt none).runUntil hj (Nat.le_refl 0)).shaped
  have hgrows : (Watch.sending .prompt).Grows (0, Phase.prompt) := Watch.sending_grows hstart
  rw [pollBeside_prompt, Poll.run_eq, Poll.records_ending _ _ _ hgrows, List.map_map]
  simp only [Function.comp_def]
  exact firstSighting_prompt threshold

/-- Where everything was submitted at the start the latencies are the times of the observations. -/
theorem latencies_of_start {outcomes : List Outcome} {records : List PollRecord}
    {latencies : List Duration} (hstart : ∀ o ∈ outcomes, o.submittedAt = 0)
    (h : List.Forall₂ (fun r latency => ∃ o ∈ outcomes, ∃ i, o.handle = some r.handle ∧
      r.inclusion = some i ∧ o.submittedAt + latency = i.observedAt ∧ o.latency ≤ latency)
      records latencies) :
    latencies = (records.map (·.inclusion)).filterMap (Option.map (·.observedAt)) := by
  induction h with
  | nil => rfl
  | cons hfirst _ ih =>
    obtain ⟨o, ho, i, -, hi, hlatency, -⟩ := hfirst
    rw [hstart o ho, Nat.zero_add] at hlatency
    rw [List.map_cons, hi, List.filterMap_cons_some (Option.map_some ..), ← ih, hlatency]

/-- The poll goes on beside the send phase and finds both submissions included two seconds after they
were made, which is later than they had settled. -/
theorem run_latencies_prompt :
    ∃ report, ((ofBacklog 0.95).run .prompt 0 (.due (seconds 3)) 0).1 = .ok report ∧
      (((ofBacklog 0.95).recorded .prompt 0 (.due (seconds 3)) 0).filterMap (·.handle)).Nodup ∧
      report.metrics.inclusionLatency = .ofSamples [seconds 2, seconds 2] := by
  obtain ⟨hstage, houtcomes⟩ := recorded_prompt 0.95
  have hinclusions := inclusions_prompt 0.95
  have hload := sendWhilePolling_of_job (Job.job_prompt 0.95)
  have hprepared : (ofBacklog 0.95).prepare .prompt 0 0 = (.ok .ofBacklog, 0) := rfl
  generalize (ofBacklog 0.95).pollBeside .prompt .prompt = r at hstage houtcomes hinclusions hload
  dsimp only at hload hstage houtcomes
  generalize Job.prompt.run r.2.world = phase at hstage houtcomes hload
  rw [if_neg (by rw [hstage]; nofun)] at hload
  have hrun := run_eq_ok.mpr ⟨_, _, _, _, _, hprepared, hload, rfl⟩
  have hrecorded : (ofBacklog 0.95).recorded .prompt 0 (.due (seconds 3)) 0 =
      phase.tracker.outcomes.toList := recorded_eq hprepared hload
  have hhandles : phase.tracker.outcomes.toList.filterMap (·.handle) = [0, 1] := by
    have hfirst := congrArg (List.filterMap Prod.fst) houtcomes
    rwa [List.filterMap_map] at hfirst
  have hdistinct : (((ofBacklog 0.95).recorded .prompt 0 (.due (seconds 3)) 0).filterMap
      (·.handle)).Nodup := by
    rw [hrecorded, hhandles]
    decide
  refine ⟨_, hrun, hdistinct, ?_⟩
  obtain ⟨hsamples, hlatencies⟩ := run_latencies _ _ _ _ _ hrun hdistinct
  rw [hsamples]
  rw [hrecorded] at hlatencies ⊢
  have hsubmitted : ∀ o ∈ phase.tracker.outcomes.toList, o.submittedAt = 0 := by
    intro o ho
    have hmem : (o.handle, o.submittedAt) ∈ [(some 0, 0), (some 1, 0)] := by
      rw [← houtcomes]
      exact List.mem_map_of_mem ho
    simp only [List.mem_cons, Prod.mk.injEq, List.not_mem_nil, or_false] at hmem
    exact hmem.elim (·.2) (·.2)
  change List.Forall₂ _ (r.1.records.filter _) (inclusionLatencies _ r.1.records) at hlatencies
  change LatencyStats.ofSamples (inclusionLatencies _ r.1.records) = _
  have hkept : (r.1.records.filter (·.inclusion.isSome)).map (·.inclusion) =
      [some ⟨1, true, seconds 2⟩, some ⟨1, true, seconds 2⟩] := by
    rw [← Function.comp_def Option.isSome, ← List.filter_map, hinclusions]
    rfl
  rw [latencies_of_start hsubmitted hlatencies, hkept]
  rfl

end RunConfig

end Throughput
