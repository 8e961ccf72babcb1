import Throughput.Proofs.Run.Failure
import Throughput.Proofs.Run.Figures
import Throughput.Proofs.Run.Inclusion
import Throughput.Proofs.Text.Clip

/-!
# The reasons that a run keeps

Every failure in the record of a run stands for an error. Its reason is the wording of the error, cut
between characters to fit the limit, and the samples of a report are the first of these reasons.
-/

namespace Throughput

variable {σ : Type} {ledger : Ledger σ}

namespace Outcome

variable {o : Outcome}

theorem IsTold.exists_error (h : o.IsTold) {failure : Failure} (hfailure : o.failure = some failure) :
    ∃ error, failure = .ofError error := by
  rcases h with ⟨-, hnone⟩ | ⟨-, error, herror⟩
  · rw [hnone] at hfailure
    nomatch hfailure
  · rw [herror] at hfailure
    exact ⟨error, (Option.some.inj hfailure).symm⟩

theorem exists_failure_of_reason? {reason : String} (h : o.reason? = some reason) :
    ∃ failure, o.failure = some failure ∧ failure.reason = reason := by
  unfold reason? at h
  split at h
  · nomatch h
  · exact Option.map_eq_some_iff.mp h

end Outcome

theorem Generator.send_extends (g : Generator) (ledger : Ledger σ) (strategy : Strategy)
    (target : Nat) (duration : Option Duration) (b : Bench σ) :
    b.tracker.Extends (g.send ledger strategy target duration b).2.tracker := by
  unfold send sendWith
  cases g.job ledger (estimatorOf strategy ledger) strategy target duration b.now with
  | error e => exact .refl _
  | ok j => exact Job.extends_advance (j.shaped_start b none) (.refl _) _ _

namespace RunConfig

variable {c : RunConfig} {now : Instant} {shutdown : Shutdown} {s : σ} {report : RunReport}

/-- However a load ends, it has added to the record and closed it. -/
theorem load_extends (c : RunConfig) (ledger : Ledger σ) (g : Generator) (b : Bench σ) :
    ∃ t, b.tracker.Extends t ∧ (c.load ledger g b).2.tracker = t.close := by
  unfold load
  split
  · rename_i s hs
    cases hjob : g.job ledger (s.estimate.estimator ledger) c.strategy c.target c.duration b.now with
    | error e =>
      unfold sendWhilePolling
      rw [hjob]
      exact ⟨_, .refl _, rfl⟩
    | ok j =>
      -- the phase goes on while it is polled, and once more when the poll has ended
      have hkeeps : (Watch.sending j c.poll.chance).Keeps fun p =>
          j.Shaped p ∧ b.tracker.Extends p.tracker := Watch.sending_extends b.tracker
      have hstart := hkeeps.advance (w := Job.start b none) ⟨j.shaped_start b none, .refl _⟩ b.now
      obtain ⟨hshaped, hextends⟩ : j.Shaped (c.pollBeside j b).2.world ∧
          b.tracker.Extends (c.pollBeside j b).2.world.tracker :=
        Poll.run_keeps hkeeps _ _ _ hstart
      rw [sendWhilePolling_of_job hjob]
      exact ⟨_, Job.extends_advance hshaped hextends _ _, rfl⟩
  · exact ⟨_, g.send_extends ledger c.strategy c.target c.duration b,
      (c.sendThenPoll_record ledger g b).2⟩

/-- Every outcome of a run has either a handle or the failure of an error. -/
theorem recorded_told (c : RunConfig) (ledger : Ledger σ) (now : Instant) (shutdown : Shutdown)
    (s : σ) : ∀ o ∈ c.recorded ledger now shutdown s, o.IsTold := by
  unfold recorded
  split
  · exact nofun
  · rename_i f s' _
    obtain ⟨t, hextends, hclosed⟩ :=
      c.load_extends ledger f.generator (c.bench f now shutdown s')
    rw [hclosed]
    exact (Tracker.told_of_extends hextends).1

/-- The samples of a report are the first reasons that its run has recorded. -/
theorem failureSamples_eq (hrun : (c.run ledger now shutdown s).1 = .ok report) :
    report.failureSamples =
      ((c.recorded ledger now shutdown s).filterMap (·.reason?)).take c.failureSampleCap := by
  obtain ⟨f, s', send, inclusion, b, hprepared, hloaded, rfl⟩ := run_eq_ok.mp hrun
  obtain ⟨t, hextends, hclosed⟩ :=
    c.load_extends ledger f.generator (c.bench f now shutdown s')
  rw [hloaded] at hclosed
  change b.tracker.samples.toList = _
  rw [recorded_eq hprepared hloaded, hclosed]
  exact (Tracker.told_of_extends hextends).2

/-- A reason is the longest start of what was given that ends between characters and has at most 120
bytes: all of it if that fits, and at least 117 bytes of it if not. Going back from byte 120 leads to
its end and never below its start, and cutting it again changes nothing. So the reasons that a run
records, each cut from the wording of an error, and the samples of its report are valid and have at most
120 bytes. -/
theorem run_cuts_reasons (c : RunConfig) (ledger : Ledger σ) (now : Instant) (shutdown : Shutdown)
    (s : σ) :
    (∀ (kind : FailureKind) (text : String),
      let reason := (Failure.of kind text).reason
      IsLongestStart 120 text reason ∧
      boundaryUpTo? text 120 = some reason.utf8ByteSize ∧
      (text.utf8ByteSize ≤ 120 → reason = text) ∧
      (120 < text.utf8ByteSize → 117 ≤ reason.utf8ByteSize) ∧
      (Failure.of kind reason).reason = reason) ∧
    (∀ o ∈ c.recorded ledger now shutdown s, ∀ failure, o.failure = some failure →
      (∃ error, failure = .ofError error) ∧
        failure.reason.toByteArray.IsValidUTF8 ∧ failure.reason.utf8ByteSize ≤ 120) ∧
    ∀ report, (c.run ledger now shutdown s).1 = .ok report → ∀ sample ∈ report.failureSamples,
      sample.toByteArray.IsValidUTF8 ∧ sample.utf8ByteSize ≤ 120 := by
  have hrecorded : ∀ o ∈ c.recorded ledger now shutdown s, ∀ failure, o.failure = some failure →
      (∃ error, failure = .ofError error) ∧ failure.reason.utf8ByteSize ≤ 120 := by
    intro o ho failure hfailure
    obtain ⟨error, rfl⟩ := (recorded_told _ _ _ _ _ o ho).exists_error hfailure
    exact ⟨⟨error, rfl⟩, (Failure.isLongestStart_reason ..).fits⟩
  refine ⟨fun kind text => ?_, fun o ho failure hfailure => ?_, fun report hrun sample hsample => ?_⟩
  · have hlongest := Failure.isLongestStart_reason kind text
    refine ⟨hlongest, hlongest.boundaryUpTo?_eq, Failure.reason_of_le kind, fun hlong => ?_,
      Failure.reason_of_le kind hlongest.fits⟩
    have hroom : 120 ≤ (Failure.of kind text).reason.utf8ByteSize + 3 :=
      Failure.le_reason_of_lt kind hlong
    omega
  · obtain ⟨herror, hfits⟩ := hrecorded o ho failure hfailure
    exact ⟨herror, failure.reason.isValidUTF8, hfits⟩
  · rw [failureSamples_eq hrun] at hsample
    obtain ⟨o, ho, hreason⟩ := List.mem_filterMap.mp (List.mem_of_mem_take hsample)
    obtain ⟨failure, hfailure, rfl⟩ := Outcome.exists_failure_of_reason? hreason
    exact ⟨failure.reason.isValidUTF8, (hrecorded o ho failure hfailure).2⟩

end RunConfig

/-! ## A wording that is cut inside a character -/

/-- A ledger that refuses every submission at once. -/
def Ledger.refusing (error : LedgerError) : Ledger Nat :=
  { Ledger.slow with submit := fun _ _ count => (.pure 0 (.error error), count) }

/-- A run of one submission. -/
def RunConfig.ofOne : RunConfig := { senders := [1], strategy := .burst, target := 1 }

/-- The bench of the run. -/
def Bench.ofOne : Bench Nat := RunConfig.ofOne.bench .ofBacklog 0 .never 0

/-- What the run is about. -/
def Job.ofOne (error : LedgerError) : Job Nat CountedHeight :=
  { generator := Footing.ofBacklog.generator, ledger := .refusing error
    estimator := Generator.estimatorOf .burst (.refusing error), strategy := .burst, target := 1
    deadline := none }

/-- The submission is refused at once. -/
theorem Job.run_ofOne (error : LedgerError) :
    (ofOne error).run (start .ofOne none) = (ofOne error).advance (fun _ _ => true) 8
      { (ofOne error).step .wake (start .ofOne none) with flights := [] } := by
  have hflights : ((ofOne error).step .wake (start .ofOne none)).flights = [] :=
    flights_launch (fun _ _ _ => rfl) ..
  rw [← hflights]
  rfl

/-- An error with a wording of 121 bytes, of which the last 100 are those of 25 characters. -/
def LedgerError.ofLong : LedgerError := .rejected (String.ofList ('a' :: List.replicate 25 '😀'))

namespace RunConfig

theorem prepare_ofOne (error : LedgerError) :
    ofOne.prepare (.refusing error) 0 0 = (.ok .ofBacklog, 0) := rfl

theorem recorded_ofOne (error : LedgerError) :
    ∃ o, ofOne.recorded (.refusing error) 0 .never 0 = [o] ∧ o.handle = none ∧
      o.failure = some (.ofError error) := by
  have hsent : (ofOne.load (.refusing error) Footing.ofBacklog.generator .ofOne).2.tracker =
      ((Job.ofOne error).run (Job.start .ofOne none)).tracker.close :=
    (sendThenPoll_record ..).2
  have hrecorded : (ofOne.recorded (.refusing error) 0 .never 0).map
      (fun o => (o.handle, o.failure)) = [(none, some (.ofError error))] := by
    rw [recorded_eq (b := (ofOne.load _ _ .ofOne).2) (prepare_ofOne error) rfl, hsent,
      Job.run_ofOne]
    rfl
  obtain ⟨o, ho, htold⟩ := List.map_eq_singleton_iff.mp hrecorded
  exact ⟨o, ho, Prod.mk.inj htold⟩

theorem run_ofOne (error : LedgerError) :
    ∃ report, (ofOne.run (.refusing error) 0 .never 0).1 = .ok report :=
  run_of_prepared (prepare_ofOne error)

/-- Byte 120 of the wording is the last of a character that starts at byte 117, and that is where the
reason ends. -/
theorem run_cuts_reasons_refused :
    let wording := LedgerError.ofLong.message
    let failure := Failure.ofError .ofLong
    120 < wording.utf8ByteSize ∧ failure.reason.utf8ByteSize = 117 ∧
      boundaryUpTo? wording 120 = some 117 ∧
      failure.reason.utf8ByteSize ≤ 120 ∧
      (Failure.of .rejected failure.reason).reason = failure.reason ∧
      (∃ o ∈ ofOne.recorded (.refusing .ofLong) 0 .never 0, o.failure = some failure ∧
        failure.reason.toByteArray.IsValidUTF8) ∧
      ∃ report, (ofOne.run (.refusing .ofLong) 0 .never 0).1 = .ok report ∧
        failure.reason ∈ report.failureSamples ∧ failure.reason.utf8ByteSize ≤ 120 := by
  intro wording failure
  have hlong : 120 < wording.utf8ByteSize := by decide +kernel
  have hshort : failure.reason.utf8ByteSize ≤ 117 := by decide +kernel
  obtain ⟨report, hrun⟩ := run_ofOne .ofLong
  obtain ⟨o, hrecorded, hhandle, hfailure⟩ := recorded_ofOne .ofLong
  have hsample : failure.reason ∈ report.failureSamples := by
    rw [failureSamples_eq hrun, hrecorded]
    simp [Outcome.reason?, hhandle, hfailure, ofOne, failure]
  obtain ⟨hcuts, hreasons, hsamples⟩ := run_cuts_reasons ofOne (.refusing .ofLong) 0 .never 0
  obtain ⟨-, hboundary, -, hmost, -⟩ := hcuts .rejected wording
  obtain ⟨-, -, hwhole, -, -⟩ := hcuts .rejected failure.reason
  obtain ⟨-, hvalid, hfits⟩ :=
    hreasons o (hrecorded ▸ List.mem_singleton_self o) failure hfailure
  have hreason : failure.reason.utf8ByteSize = 117 := Nat.le_antisymm hshort (hmost hlong)
  refine ⟨hlong, hreason, ?_, hfits, hwhole hfits, ⟨o, ?_, hfailure, hvalid⟩, report, hrun,
    hsample, (hsamples report hrun _ hsample).2⟩
  · rw [← hreason]
    exact hboundary
  · rw [hrecorded]
    exact List.mem_singleton_self o

end RunConfig

end Throughput
