import Throughput.Proofs.Poll.Queries
import Throughput.Proofs.Poll.Report

/-!
# The queries of a poll

The rounds of a poll follow one another before its deadline, and none begins once the signal is seen.
The log of a poll is that of its rounds, one after the other.
-/

namespace Throughput

variable {ω : Type}

/-- The log of a round. -/
def Attempt.log (config : PollConfig) (watch : Watch ω) (deadline : Instant) (a : Attempt ω) :
    QueryLog :=
  (Round.run watch.logged config.maxQueries deadline a.now a.asked (a.world, [])).2.2.2

namespace Poll

variable {config : PollConfig} {watch : Watch ω} {started deadline : Instant} {p q last : Poll ω}
  {rounds : List (Attempt ω)} {status : PollStatus}

/-! ## Rounds in time -/

theorem now_le_endedAt (config : PollConfig) (watch : Watch ω) (deadline : Instant) (q : Poll ω) :
    (q.attempt config watch deadline).now ≤ (q.attempt config watch deadline).endedAt :=
  (Round.run_later ..).now_le

/-- A round ends when its answers are in, and leaves the signal and the next tick as they are. -/
theorem round_end (config : PollConfig) (watch : Watch ω) (started deadline : Instant) (q : Poll ω) :
    let after := (q.round config watch started deadline).2
    after.now = (q.attempt config watch deadline).endedAt ∧ after.shutdown = q.shutdown ∧
      after.tick = q.tick := by
  unfold round attempt
  dsimp only
  split <;> exact ⟨rfl, rfl, rfl⟩

theorem endedAt_le (hbefore : q.now ≤ deadline) :
    (q.attempt config watch deadline).endedAt ≤ deadline :=
  Round.run_now_le watch config.maxQueries hbefore _ q.world

theorem now_await {outcome : Option PollStatus}
    (h : p.await watch config.interval deadline = (outcome, q)) (hbefore : p.now ≤ deadline) :
    q.now ≤ deadline := by
  have hwait := p.shutdown.wait_le p.now (min p.tick deadline)
  have hend : q.now = (p.shutdown.wait p.now (min p.tick deadline)).1 := by
    unfold await at h
    dsimp only at h
    split at h
    · rw [← (Prod.mk.inj h).2]
    · split at h <;> rw [← (Prod.mk.inj h).2]
  rw [hend]
  exact Nat.le_trans hwait (Nat.max_le.mpr ⟨hbefore, Nat.min_le_right ..⟩)

namespace Goes

/-- Each round begins at its tick or later, and before the deadline. -/
theorem starts (h : Goes config watch started deadline p rounds status last) :
    ∀ i a, rounds[i]? = some a → p.tick + i * config.interval ≤ a.now ∧ a.now < deadline := by
  have hfirst : ∀ {p q : Poll ω}, p.await watch config.interval deadline = (none, q) →
      p.tick + 0 * config.interval ≤ q.now ∧ q.now < deadline := fun hawait => by
    obtain ⟨rfl, hbefore, -⟩ := await_of_none hawait
    rw [Nat.zero_mul]
    exact ⟨Nat.le_max_right .., hbefore⟩
  induction h with
  | waited => nofun
  | ended hawait =>
    intro i a ha
    cases i with
    | zero => exact Option.some.inj ha ▸ hfirst hawait
    | succ i => nomatch ha
  | another hawait _ _ ih =>
    intro i a ha
    cases i with
    | zero => exact Option.some.inj ha ▸ hfirst hawait
    | succ i =>
      obtain ⟨htick, hbefore⟩ := ih i a ha
      obtain ⟨-, -, hnext, -⟩ := tick_await hawait
      rw [(round_end ..).2.2] at htick
      rw [Nat.succ_mul, Nat.add_comm _ config.interval, ← Nat.add_assoc]
      exact ⟨Nat.le_trans (Nat.add_le_add_right hnext _) htick, hbefore⟩
  | exhausted => nofun

/-- No round begins before the last has ended, or after the signal. -/
theorem inTurn (h : Goes config watch started deadline p rounds status last) :
    (∀ a ∈ rounds, p.now ≤ a.now ∧ p.shutdown.seenAt a.now = false) ∧
      rounds.Pairwise fun a b => a.endedAt ≤ b.now := by
  have hfirst : ∀ {p q : Poll ω}, p.await watch config.interval deadline = (none, q) →
      p.now ≤ q.now ∧ q.shutdown = p.shutdown ∧ p.shutdown.seenAt q.now = false := fun hawait => by
    obtain ⟨rfl, -, hunseen⟩ := await_of_none hawait
    exact ⟨Nat.le_max_left .., rfl, hunseen⟩
  induction h with
  | waited => exact ⟨nofun, .nil⟩
  | ended hawait =>
    obtain ⟨hle, -, hunseen⟩ := hfirst hawait
    exact ⟨List.forall_mem_singleton.mpr ⟨hle, hunseen⟩, List.pairwise_singleton ..⟩
  | @another p q last rest _ hawait _ _ ih =>
    obtain ⟨hle, hshutdown, hunseen⟩ := hfirst hawait
    obtain ⟨hrest, hordered⟩ := ih
    obtain ⟨hnow, hsignal, -⟩ := round_end config watch started deadline q
    rw [hnow, hsignal, hshutdown] at hrest
    have hends : q.now ≤ (q.attempt config watch deadline).endedAt := now_le_endedAt ..
    constructor
    · refine List.forall_mem_cons.mpr ⟨⟨hle, hunseen⟩, fun a ha => ?_⟩
      exact ⟨Nat.le_trans hle (Nat.le_trans hends (hrest a ha).1), (hrest a ha).2⟩
    · exact List.pairwise_cons.mpr ⟨fun a ha => (hrest a ha).1, hordered⟩
  | exhausted => exact ⟨nofun, .nil⟩

/-- A poll ends at its deadline at the latest. -/
theorem now_le (h : Goes config watch started deadline p rounds status last)
    (hbefore : p.now ≤ deadline) : last.now ≤ deadline := by
  induction h with
  | waited hawait => exact now_await hawait hbefore
  | ended hawait =>
    rw [(round_end ..).1]
    exact endedAt_le (now_await hawait hbefore)
  | another hawait _ _ ih =>
    apply ih
    rw [(round_end ..).1]
    exact endedAt_le (now_await hawait hbefore)
  | exhausted => exact hbefore

end Goes

/-! ## Queries -/

/-- The same poll with a log. -/
def withLog (log : QueryLog) (p : Poll ω) : Poll (ω × QueryLog) :=
  { p with world := (p.world, log) }

/-- The queries of a round with a log are made as without, and the log tells of them. -/
theorem log_attempt (config : PollConfig) (watch : Watch ω) (deadline : Instant) (q : Poll ω) :
    let a := q.attempt config watch deadline
    (∀ log, Round.run watch.logged config.maxQueries deadline q.now a.asked (q.world, log) =
      let done := Round.run watch config.maxQueries deadline q.now a.asked q.world
      (done.1, done.2.1, done.2.2, log ++ a.log config watch deadline)) ∧
    QueryLog.TellsOf (max config.maxQueries 1) a.now a.asked a.answers.isSome a.endedAt
      (a.log config watch deadline) := by
  obtain ⟨events, hevents, htells⟩ := Round.run_logged watch config.maxQueries deadline q.now
    (q.choose config (watch.handles q.now q.world)).2.1 q.world
  unfold Attempt.log attempt
  dsimp only
  rw [hevents []]
  exact ⟨hevents, htells⟩

theorem Goes.tells (h : Goes config watch started deadline p rounds status last) {a : Attempt ω}
    (ha : a ∈ rounds) :
    QueryLog.TellsOf (max config.maxQueries 1) a.now a.asked a.answers.isSome a.endedAt
      (a.log config watch deadline) := by
  obtain ⟨-, -, q, rfl⟩ := h.places.2.1 a ha
  exact (log_attempt ..).2

theorem round_logged (config : PollConfig) (watch : Watch ω) (started deadline : Instant) (q : Poll ω)
    (log : QueryLog) :
    (q.withLog log).round config watch.logged started deadline =
      ((q.round config watch started deadline).1, (q.round config watch started deadline).2.withLog
        (log ++ (q.attempt config watch deadline).log config watch deadline)) := by
  have hchosen : (q.withLog log).choose config
      (watch.logged.handles (q.withLog log).now (q.withLog log).world) =
        q.choose config (watch.handles q.now q.world) := rfl
  have hrun : Round.run watch.logged config.maxQueries deadline (q.withLog log).now
      (q.choose config (watch.handles q.now q.world)).2.1 (q.withLog log).world = _ :=
        (log_attempt config watch deadline q).1 log
  unfold round
  dsimp only
  rw [hchosen, hrun]
  dsimp only [attempt]
  split <;> rfl

theorem await_logged (watch : Watch ω) (interval deadline : Instant) (p : Poll ω) (log : QueryLog) :
    (p.withLog log).await watch.logged interval deadline =
      ((p.await watch interval deadline).1, (p.await watch interval deadline).2.withLog log) := by
  unfold await
  dsimp only [withLog]
  split
  · rfl
  · split <;> rfl

/-- A poll with a log goes as it does without, and its log is that of its rounds. -/
theorem roundsUntilDone_logged (left : Nat) (p : Poll ω) (log : QueryLog) :
    let e := roundsUntilDone config watch started deadline left p
    let rounds := attempts config watch started deadline left p
    roundsUntilDone config watch.logged started deadline left (p.withLog log) =
      (e.1, e.2.withLog (log ++ rounds.flatMap (·.log config watch deadline))) := by
  induction left generalizing p log with
  | zero => exact (congrArg (fun log => (PollStatus.timedOut, p.withLog log)) (List.append_nil log)).symm
  | succ left ih =>
    unfold roundsUntilDone attempts
    rw [await_logged]
    cases hawait : p.await watch config.interval deadline with
    | mk outcome q =>
      cases outcome with
      | some status => simp
      | none =>
        dsimp only
        rw [round_logged]
        cases hround : q.round config watch started deadline with
        | mk outcome last =>
          cases outcome with
          | some status => simp
          | none =>
            dsimp only
            rw [ih, List.flatMap_cons, List.append_assoc]

theorem ending_logged (config : PollConfig) (watch : Watch ω) (now : Instant) (shutdown : Shutdown)
    (world : ω) (words : WordStream) :
    let e := ending config watch now shutdown world words
    let rounds := history config watch now shutdown world words
    ending config watch.logged now shutdown (world, []) words =
      (e.1, e.2.withLog (rounds.flatMap (·.log config watch (now + config.timeout)))) :=
  roundsUntilDone_logged _ (fresh now shutdown world words) []

end Poll

end Throughput
