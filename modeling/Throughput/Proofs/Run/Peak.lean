import Throughput.Proofs.Run.Ratio
import Throughput.Proofs.Simulated.Batches

/-!
# The peak of a run in batches

A ledger counts a submission that its caller has given up as in progress for ever. In a run in batches
that is nothing where the latency is within the time allowed, and else it is all that is submitted.
-/

namespace Throughput

open Simulated

variable {σ ε : Type}

namespace Generator

theorem submitTimeout_ofSequences {m : Sequences} {template : Template} {timeout : Duration}
    {sendTimeout : Option Duration} {g : Generator}
    (h : ofSequences m template timeout sendTimeout = .ok g) : g.submitTimeout = timeout := by
  unfold ofSequences at h
  dsimp only at h
  split at h <;> cases h
  rfl

end Generator

/-- A load of groups is sent first. What follows only reads. -/
theorem RunConfig.sent_of_load {ledger : Ledger σ} {c : RunConfig} {g : Generator} {b after : Bench σ}
    {send : SendSummary} {inclusion : PollReport} (hgroups : ∀ s, c.strategy ≠ .saturation s)
    (hloaded : c.load ledger g b = (.ok (send, inclusion), after)) :
    ∃ sent, g.send ledger c.strategy c.target c.duration b = (.ok send, sent) ∧
      ∀ {J : σ → Prop}, ledger.ReadsKeep J → J sent.ledger → J after.ledger := by
  unfold load at hloaded
  split at hloaded
  · rename_i s hs
    exact absurd hs (hgroups s)
  · unfold sendThenPoll at hloaded
    split at hloaded
    · nomatch (Prod.mk.inj hloaded).1
    · rename_i send' sent hsent
      obtain ⟨hresult, rfl⟩ := Prod.mk.inj hloaded
      obtain ⟨rfl, -⟩ := Prod.mk.inj (Except.ok.inj hresult)
      exact ⟨sent, hsent, fun hreads hs =>
        Poll.run_keeps (fixed_keeps hreads _) c.poll sent.close.now sent.close.shutdown hs⟩

namespace Simulated

variable {c : Config} {size : Nat} {pause : Option Duration}

/-- Reads do not move the counts of submissions. -/
theorem reads_keep_peak (c : Config) (peak : Nat) :
    (Ledger.simulated c).ReadsKeep fun s => s.peakInFlight = peak :=
  ⟨fun h _ _ => h, fun h _ _ => h, fun h _ => h, fun h _ _ => h, fun h _ _ => h,
    fun h _ _ _ _ => h⟩

/-- Is the peak bounded by the size of a group, or the number of all submissions? -/
structure PeaksAt (c : Config) (timeout : Duration) (size submissions peak : Nat) : Prop where
  returns : c.submitLatency ≤ timeout → peak ≤ size
  givesUp : timeout < c.submitLatency → peak = submissions

theorem peaksAt_of_course {j : Job State ε} {b : Bench State} {memory : ε} {p : Phase State ε}
    (hl : j.ledger = .simulated c) (hs : j.strategy = .steadyBatch size pause)
    (hfresh : b.ledger.IsFresh) (h : j.Course (Job.start b memory) p) :
    PeaksAt c j.generator.submitTimeout size p.dispatched p.ledger.peakInFlight := by
  obtain ⟨t, hwatched⟩ := h.watched hl hs
  obtain ⟨hreturns, hgivesUp⟩ := hwatched.observed.peak hfresh
  rw [hwatched.begun] at hgivesUp
  exact ⟨hreturns, hgivesUp⟩

end Simulated

/-- Batches that are sent to a fresh ledger leave a peak of the size of a group or of all submissions. -/
theorem Generator.peaksAt_sendWith (g : Generator) (c : Simulated.Config)
    (estimator : Estimator State ε) {size : Nat} (hsize : 0 < size) (pause : Option Duration)
    (target : Nat) (duration : Option Duration) {b : Bench State} (hfresh : b.ledger.IsFresh)
    (memory : ε) : ∃ j : Job State ε,
      g.job (.simulated c) estimator (.steadyBatch size pause) target duration b.now = .ok j ∧
      (∀ p, j.Course (Job.start b memory) p → p.flights.length ≤ size ∧
        PeaksAt c g.submitTimeout size p.dispatched p.ledger.peakInFlight) ∧
      let p := j.run (Job.start b memory)
      j.Course (Job.start b memory) p ∧ p.stage = .finished ∧
        g.sendWith (.simulated c) estimator (.steadyBatch size pause) target duration b memory =
          (.ok (j.summary b p), Job.bench p, p.estimator) := by
  obtain ⟨j, hjob⟩ := Job.exists_job g (.simulated c) estimator (.steadyBatch size pause) target
    duration b.now (fun _ _ hs => by cases hs; exact Nat.ne_of_gt hsize) nofun
  have heq := Job.job_eq hjob
  have hl : j.ledger = .simulated c := by rw [heq]
  have hs : j.strategy = .steadyBatch size pause := by rw [heq]
  obtain rfl : j.generator = g := by rw [heq]
  have hticks : j.Ticks := fun _ hc => nomatch hs.symm.trans hc
  refine ⟨j, hjob, fun p hp => ⟨?_, peaksAt_of_course hl hs hfresh hp⟩, ?_⟩
  · obtain ⟨t, hwatched⟩ := hp.watched hl hs
    have hwithin := hwatched.observed.within t (List.prefix_refl t)
    have hbegun := hwatched.observed.begun
    unfold Timeline.underWay at hwithin
    omega
  · exact ⟨Job.course_advance _ _ (j.shaped_start b memory), Job.sendWith_of_job hjob hticks memory⟩

/-- A run in batches over a fresh ledger reports, and leaves the peak of its batches. -/
theorem RunConfig.peaksAt_run (c : Simulated.Config) {cfg : RunConfig} {size : Nat}
    {pause : Option Duration} (hs : cfg.strategy = .steadyBatch size pause)
    (hvalid : cfg.validate = .ok ()) (now : Instant) (shutdown : Shutdown) {s : State}
    (hfresh : s.IsFresh) : ∃ report ended final,
      cfg.run (.simulated c) now shutdown s = (.ok report, ended, final) ∧
        PeaksAt c cfg.submitTimeout size report.send.dispatched final.peakInFlight := by
  have hv := isValid_of_validate hvalid
  obtain ⟨f, hprepared, -⟩ := prepare_simulated (c := c) hvalid now s
  have htimeout := Generator.submitTimeout_ofSequences (prepare_eq_ok.mp hprepared).2.2
  obtain ⟨send, inclusion, b, hloaded⟩ :=
    load_of_isValid hv (.simulated c) f.generator (cfg.bench f now shutdown (s.caughtUp c now))
  have hrun := run_of_loaded hprepared hloaded
  -- the reads before the load leave a fresh ledger fresh
  have hopening : (cfg.bench f now shutdown (s.caughtUp c now)).ledger.IsFresh :=
    ⟨hfresh.inFlight, hfresh.peak⟩
  obtain ⟨j, -, hpeaks, hcourse, -, hresult⟩ := f.generator.peaksAt_sendWith c
    (Generator.estimatorOf cfg.strategy (.simulated c))
    (Nat.pos_of_ne_zero (hv.batch size pause hs)) pause cfg.target cfg.duration hopening none
  obtain ⟨-, hpeak⟩ := hpeaks _ hcourse
  obtain ⟨sent, hsent, hkept⟩ := sent_of_load (fun _ h => nomatch hs.symm.trans h) hloaded
  unfold Generator.send at hsent
  rw [hs] at hresult hsent
  rw [hresult] at hsent
  obtain ⟨hsummary, rfl⟩ := Prod.mk.inj hsent
  have hafter := hkept (reads_keep_peak c _) rfl
  have hfinal := (reads_keep_peak c _).conclude cfg f send inclusion b rfl
  refine ⟨_, _, _, hrun, ?_⟩
  rw [hfinal, hafter]
  change PeaksAt c cfg.submitTimeout size send.dispatched _
  rw [← htimeout, ← Except.ok.inj hsummary]
  exact hpeak

namespace Simulated

/-- The peak of a fresh ledger is the largest number of submissions that were in progress or had been
given up. So where none is given up it is the largest number in progress, and otherwise it may exceed
that by the number given up. Batches are all given up or not at all: where the latency is within the time
allowed the peak is at most the size of a batch, and else it is the number of all submissions. -/
theorem peak_counts_givenUp (c : Config) {fresh : State} (hfresh : fresh.IsFresh) :
    (∀ t : Timeline, t.IsPossible →
      let peak := (t.after c fresh).peakInFlight
      t.IsPeak (fun past => past.underWay + past.givenUp) peak ∧
      (t.givenUp = 0 → t.IsPeak Timeline.underWay peak) ∧
      ∀ most, t.IsPeak Timeline.underWay most → most ≤ peak ∧ peak ≤ most + t.givenUp) ∧
    (∀ {ε : Type} (g : Generator) (estimator : Estimator State ε) {size : Nat}
        (pause : Option Duration) (target : Nat) (duration : Option Duration) {b : Bench State}
        (memory : ε), 0 < size → b.ledger = fresh → ∃ j : Job State ε,
      g.job (.simulated c) estimator (.steadyBatch size pause) target duration b.now = .ok j ∧
      (∀ p, j.Course (Job.start b memory) p → p.flights.length ≤ size ∧
        PeaksAt c g.submitTimeout size p.dispatched p.ledger.peakInFlight) ∧
      let p := j.run (Job.start b memory)
      j.Course (Job.start b memory) p ∧ p.stage = .finished ∧
        g.sendWith (.simulated c) estimator (.steadyBatch size pause) target duration b memory =
          (.ok (j.summary b p), Job.bench p, p.estimator)) ∧
    ∀ (cfg : RunConfig) (size : Nat) (pause : Option Duration) (now : Instant)
        (shutdown : Shutdown), cfg.strategy = .steadyBatch size pause → cfg.validate = .ok () →
      ∃ report ended final, cfg.run (.simulated c) now shutdown fresh = (.ok report, ended, final) ∧
        PeaksAt c cfg.submitTimeout size report.send.dispatched final.peakInFlight := by
  refine ⟨fun t ht => ?_, ?_, ?_⟩
  · intro peak
    obtain ⟨-, hpeak⟩ := Timeline.counts_after c hfresh ht
    refine ⟨hpeak, fun hnone => ?_, fun most hmost => ⟨?_, ?_⟩⟩
    · refine hpeak.congr fun past hpast => ?_
      have hgivenUp := Timeline.givenUp_le_of_prefix hpast
      omega
    · exact hmost.le_of_forall fun past hpast =>
        (Nat.le_add_right ..).trans (hpeak.2 ⟨past, hpast, rfl⟩)
    · refine hpeak.le_add hmost fun past hpast => ?_
      exact Nat.add_le_add_left (Timeline.givenUp_le_of_prefix hpast) _
  · rintro ε g estimator size pause target duration b memory hsize rfl
    exact g.peaksAt_sendWith c estimator hsize pause target duration hfresh memory
  · intro cfg size pause now shutdown hs hvalid
    exact RunConfig.peaksAt_run c hs hvalid now shutdown hfresh

/-- A ledger that takes a second for each submission. -/
def Config.ofSecond : Config := { submitLatency := seconds 1 }

/-- Two submissions one after the other, of which the first is given up. -/
def Timeline.ofTwo : Timeline :=
  [.act 0 (.start ⟨1, 2, 0, 21000, 0, none⟩), .giveUp,
    .act (seconds 1) (.start ⟨1, 2, 0, 21000, 1, none⟩),
    .act (seconds 2) (.settle ⟨1, 2, 0, 21000, 1, none⟩)]

theorem Timeline.isPossible_ofTwo : ofTwo.IsPossible :=
  isPossible_concat.mpr ⟨isPossible_concat.mpr ⟨isPossible_concat.mpr ⟨isPossible_concat.mpr
    ⟨isPossible_nil, by decide⟩, by decide⟩, by decide⟩, by decide⟩

/-- The peak after the last of two submissions. -/
theorem Timeline.isPeak_ofTwo (number : Timeline → Nat) : ofTwo.IsPeak number
    (max (number ofTwo) (max (number (ofTwo.take 3)) (max (number (ofTwo.take 2))
      (max (number (ofTwo.take 1)) (number []))))) :=
  ((((IsPeak.nil number).concat _).concat _).concat _).concat _

end Simulated

/-- Three submissions, one at a time, with half a second for each. -/
def RunConfig.ofThreeLate : RunConfig :=
  { senders := [1], strategy := .steadyBatch 1 none, target := 3, submitTimeout := milliseconds 500 }

namespace Simulated

/-- Of two submissions one is in progress at a time, and the peak is two. In a run that gives all of its
submissions up it is the number of all of them. -/
theorem peak_counts_givenUp_once :
    let fresh := State.genesis .ofSecond []
    Timeline.ofTwo.IsPeak Timeline.underWay 1 ∧
      (Timeline.ofTwo.after .ofSecond fresh).peakInFlight = 2 ∧
      ∃ report ended final,
        RunConfig.ofThreeLate.run (.simulated .ofSecond) 0 .never fresh = (.ok report, ended, final) ∧
          final.peakInFlight = report.send.dispatched := by
  intro fresh
  obtain ⟨htimelines, -, hruns⟩ :=
    peak_counts_givenUp .ofSecond (State.isFresh_genesis .ofSecond [])
  obtain ⟨hpeak, -, -⟩ := htimelines _ Timeline.isPossible_ofTwo
  refine ⟨Timeline.isPeak_ofTwo Timeline.underWay,
    hpeak.unique (Timeline.isPeak_ofTwo fun past => past.underWay + past.givenUp), ?_⟩
  obtain ⟨report, ended, final, hrun, hpeaks⟩ := hruns .ofThreeLate 1 none 0 .never rfl rfl
  exact ⟨report, ended, final, hrun, hpeaks.givesUp (by decide)⟩

end Simulated

end Throughput
