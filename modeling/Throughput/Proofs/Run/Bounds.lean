import Throughput.Proofs.Run.Footing
import Throughput.Proofs.Send.Duration
import Throughput.Run.Bounds

/-!
# Runs that go beyond their bounds

A run on a clock with an end is the run on one without, as long as the clock can tell every instant that
it is asked for and there is room for the failure reasons. Otherwise it is stopped.
-/

namespace Throughput

variable {σ ω : Type} {ledger : Ledger σ}

namespace Poll

variable (config : PollConfig) (watch : Watch ω) {now : Instant} (shutdown : Shutdown) (world : ω)

/-- A poll whose interval is not zero starts if the clock can tell its end. -/
theorem startInBounds_of_le (hinterval : config.interval ≠ 0)
    (h : now + config.timeout ≤ Instant.latest) :
    startInBounds config watch now shutdown world = .ok (run config watch now shutdown world) := by
  unfold startInBounds start
  rw [if_pos h, if_neg hinterval]

theorem startInBounds_of_lt (h : Instant.latest < now + config.timeout) :
    startInBounds config watch now shutdown world = .error (.overflow .instant) :=
  if_neg (Nat.not_le.mpr h)

end Poll

namespace RunConfig

variable {c : RunConfig} {g : Generator} {b : Bench σ}

/-- Can the clock tell the ends of a send phase and of the poll beside it? -/
structure FitsBeside (c : RunConfig) (g : Generator) (b : Bench σ) : Prop where
  sum : c.timeoutBeside ≤ Duration.longest
  deadline : g.deadlineOverruns b.now c.duration = false
  last : b.now + c.timeoutBeside ≤ Instant.latest

/-- Can the clock tell the end of a send phase, those of its pauses, and that of the poll after it? -/
structure FitsAfter (c : RunConfig) (ledger : Ledger σ) (g : Generator) (b : Bench σ) : Prop where
  send : ¬ g.Overruns ledger (Generator.estimatorOf c.strategy ledger) c.strategy c.target c.duration
    b none
  last : (g.send ledger c.strategy c.target c.duration b).2.now + c.poll.timeout ≤ Instant.latest

/-- Does a run stay within the bounds of its clock and of its lists? -/
structure Fits (c : RunConfig) (ledger : Ledger σ) (g : Generator) (b : Bench σ) : Prop where
  room : c.failureSampleCap ≤ roomFor 24
  beside : ∀ s, c.strategy = .saturation s → c.FitsBeside g b
  after : (∀ s, c.strategy ≠ .saturation s) → c.FitsAfter ledger g b

theorem sendWhilePollingInBounds_eq (hinterval : c.poll.interval ≠ 0) (h : c.FitsBeside g b)
    (s : Saturation) :
    c.sendWhilePollingInBounds ledger g s b = c.sendWhilePolling ledger g s b := by
  unfold sendWhilePollingInBounds sendWhilePolling
  rw [if_neg (Nat.not_lt.mpr h.sum), if_neg (Bool.eq_false_iff.mp h.deadline)]
  cases g.job ledger (s.estimate.estimator ledger) c.strategy c.target c.duration b.now with
  | error e => rfl
  | ok j =>
    dsimp only
    rw [Poll.startInBounds_of_le { c.poll with timeout := c.timeoutBeside } _ _ _ hinterval h.last]
    rfl

/-- A poll beside a send phase is stopped before it asks for anything. -/
theorem sendWhilePollingInBounds_of_not (hjob : ∃ j : Job σ CountedHeight,
      g.job ledger (s.estimate.estimator ledger) c.strategy c.target c.duration b.now = .ok j)
    (h : ¬ c.FitsBeside g b) :
    ∃ what after, c.sendWhilePollingInBounds ledger g s b = (.error (.overflow what), after) := by
  unfold sendWhilePollingInBounds
  split
  · exact ⟨_, _, rfl⟩
  · rename_i hsum
    split
    · exact ⟨_, _, rfl⟩
    · rename_i hdeadline
      obtain ⟨j, hjob⟩ := hjob
      have hlate : Instant.latest < b.now + c.timeoutBeside := by
        by_contra hlast
        exact h ⟨Nat.not_lt.mp hsum, Bool.eq_false_iff.mpr hdeadline, Nat.not_lt.mp hlast⟩
      rw [hjob]
      dsimp only
      rw [Poll.startInBounds_of_lt { c.poll with timeout := c.timeoutBeside } _ _ _ hlate]
      exact ⟨_, _, rfl⟩

/-- Where sending has a limit, it is enough that the clock can tell the limit, and from the last instant of
sending on every pause and the time to poll. -/
theorem fitsAfter_of_limits {limit : Duration} (htime : ∀ now s, ledger.readTime now s = 0)
    (hlimit : g.Limits c.duration c.strategy limit)
    (hdeadline : ∀ deadline, g.deadline b.now c.duration = some deadline → deadline ≤ Instant.latest)
    (hpause : ∀ size pause, c.strategy = .steadyBatch size (some pause) →
      b.now + limit + g.submitTimeout + pause ≤ Instant.latest)
    (hlast : b.now + limit + g.submitTimeout + c.poll.timeout ≤ Instant.latest) :
    c.FitsAfter ledger g b := by
  have hreads : ∀ now s, (Generator.estimatorOf c.strategy ledger).primeTime now s = 0 ∧
      (Generator.estimatorOf c.strategy ledger).consumedTime now s = 0 := by
    unfold Generator.estimatorOf
    split <;> exact fun now x => ⟨htime now x.1, htime now x.1⟩
  refine ⟨Generator.not_overruns hreads hdeadline fun size pause hs => ⟨limit, hlimit, hpause _ _ hs⟩,
    (Nat.add_le_add_right ?_ _).trans hlast⟩
  exact Generator.sendWith_now_le hreads hlimit c.target none

theorem sendThenPollInBounds_eq (hinterval : c.poll.interval ≠ 0) (h : c.FitsAfter ledger g b) :
    c.sendThenPollInBounds ledger g b = c.sendThenPoll ledger g b := by
  have hlast := h.last
  unfold sendThenPollInBounds sendThenPoll
  rw [Generator.sendInBounds_eq h.send]
  generalize g.send ledger c.strategy c.target c.duration b = sent at hlast
  obtain ⟨_ | send, after⟩ := sent
  · rfl
  · change after.close.now + c.poll.timeout ≤ Instant.latest at hlast
    dsimp only
    rw [Poll.startInBounds_of_le c.poll _ _ _ hinterval hlast]

/-- A poll after a send phase is stopped before it asks for anything. -/
theorem sendThenPollInBounds_of_not {send : SendSummary} {sent : Bench σ}
    (hsent : g.send ledger c.strategy c.target c.duration b = (.ok send, sent))
    (h : ¬ c.FitsAfter ledger g b) :
    ∃ what after, c.sendThenPollInBounds ledger g b = (.error (.overflow what), after) := by
  unfold sendThenPollInBounds
  by_cases hover : g.Overruns ledger (Generator.estimatorOf c.strategy ledger) c.strategy c.target
    c.duration b none
  · obtain ⟨after, memory', hstopped, -⟩ := Generator.sendWithInBounds_overruns hover
    unfold Generator.sendInBounds
    rw [hstopped]
    exact ⟨_, _, rfl⟩
  · have hlate : Instant.latest < sent.close.now + c.poll.timeout := by
      by_contra hlast
      refine h ⟨hover, ?_⟩
      rw [hsent]
      exact Nat.not_lt.mp hlast
    rw [Generator.sendInBounds_eq hover, hsent]
    dsimp only
    rw [Poll.startInBounds_of_lt c.poll _ _ _ hlate]
    exact ⟨_, _, rfl⟩

theorem load_of_saturation {s : Saturation} (h : c.strategy = .saturation s) :
    c.load ledger g b = c.sendWhilePolling ledger g s b ∧
      c.loadInBounds ledger g b = c.sendWhilePollingInBounds ledger g s b := by
  unfold load loadInBounds
  rw [h]
  exact ⟨rfl, rfl⟩

theorem load_of_groups (h : ∀ s, c.strategy ≠ .saturation s) :
    c.load ledger g b = c.sendThenPoll ledger g b ∧
      c.loadInBounds ledger g b = c.sendThenPollInBounds ledger g b := by
  unfold load loadInBounds
  cases hs : c.strategy with
  | saturation s => exact absurd hs (h s)
  | burst | steadyBatch => exact ⟨rfl, rfl⟩

/-- A run that stays within its bounds goes on as one without. -/
theorem proceedInBounds_of_fits (hinterval : c.poll.interval ≠ 0) {f : Footing} {now : Instant}
    {shutdown : Shutdown} {s : σ} {send : SendSummary} {inclusion : PollReport} {after : Bench σ}
    (h : c.Fits ledger f.generator (c.bench f now shutdown s))
    (hloaded : c.load ledger f.generator (c.bench f now shutdown s) =
      (.ok (send, inclusion), after)) :
    let concluded := c.conclude ledger f send inclusion after
    c.proceedInBounds ledger f now shutdown s =
      (.ok concluded.1, concluded.2.now, concluded.2.ledger) := by
  have hsame : c.loadInBounds ledger f.generator (c.bench f now shutdown s) =
      (.ok (send, inclusion), after) := by
    rw [← hloaded]
    by_cases hgroups : ∀ s, c.strategy ≠ .saturation s
    · rw [(load_of_groups hgroups).1, (load_of_groups hgroups).2,
        sendThenPollInBounds_eq hinterval (h.after hgroups)]
    · obtain ⟨s, hs⟩ := not_forall_not.mp hgroups
      rw [(load_of_saturation hs).1, (load_of_saturation hs).2,
        sendWhilePollingInBounds_eq hinterval (h.beside s hs)]
  unfold bench at hsame
  unfold proceedInBounds Tracker.makeRoom
  rw [if_pos h.room]
  dsimp only
  rw [hsame]

end RunConfig

end Throughput
