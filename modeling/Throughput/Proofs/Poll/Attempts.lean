import Throughput.Proofs.Poll.Later

/-!
# The rounds of a poll

What each round of a poll has looked at, asked for and been told is written down beside the poll. A
poll ends with a wait or a round that ends it, and never because its rounds are bounded.
-/

namespace Throughput

variable {ω : Type}

/-- A round that a poll has made, and the world at its beginning. -/
structure Attempt (ω : Type) where
  now : Instant
  world : ω
  isSealed : Bool
  handles : List Handle
  asked : List Handle
  /-- The answers in the order in which they came, unless the round was cut off. -/
  answers : Option (List (Handle × Answer (Option Receipt)))
  endedAt : Instant

namespace Attempt

def place (a : Attempt ω) : Instant × ω := (a.now, a.world)

/-- The inclusion of a handle that a list of answers tells of, observed when the last is in. -/
def inclusionIn (observedAt : Instant) (answers : List (Handle × Answer (Option Receipt)))
    (handle : Handle) : Option Inclusion :=
  answers.findSome? fun (asked, answer) =>
    match answer with
    | .ok (some receipt) =>
      if asked = handle then some ⟨receipt.block, receipt.succeeded, observedAt⟩ else none
    | _ => none

def errorsIn (answers : List (Handle × Answer (Option Receipt))) : Nat :=
  answers.countP fun (_, answer) => !answer.isOk

/-- What a round has seen of a handle; a round that was cut off has seen nothing. -/
def sighting? (a : Attempt ω) (handle : Handle) : Option Inclusion :=
  a.answers.bind fun answers => inclusionIn a.endedAt answers handle

/-- The duration since the start of the poll, the numbers of handles that were tracked and asked for,
and the number of errors, of a round that was not cut off. -/
def summary? (started : Instant) (a : Attempt ω) : Option (Duration × Nat × Nat × Nat) :=
  a.answers.map fun answers =>
    (a.endedAt - started, a.handles.length, a.asked.length, errorsIn answers)

end Attempt

/-- What the first round has seen of a handle that has seen anything of it. -/
def firstSighting (attempts : List (Attempt ω)) (handle : Handle) : Option Inclusion :=
  attempts.findSome? (·.sighting? handle)

/-- The part of a summary that does not depend on an estimate. -/
def RoundSummary.figures (r : RoundSummary) : Duration × Nat × Nat × Nat :=
  (r.elapsed, r.tracked, r.queried, r.errors)

namespace Poll

variable {config : PollConfig} {watch : Watch ω} {started deadline : Instant} {p q : Poll ω}

/-- The round that a poll is about to make. -/
def attempt (config : PollConfig) (watch : Watch ω) (deadline : Instant) (p : Poll ω) : Attempt ω :=
  let handles := watch.handles p.now p.world
  let (_, asked, _) := p.choose config handles
  let (answers, endedAt, _) := Round.run watch config.maxQueries deadline p.now asked p.world
  { now := p.now, world := p.world, isSealed := watch.isSealed p.now p.world
    handles := handles.toList, asked, answers, endedAt }

/-- All rounds that a poll makes. -/
def attempts (config : PollConfig) (watch : Watch ω) (started deadline : Instant) :
    Nat → Poll ω → List (Attempt ω)
  | 0, _ => []
  | left + 1, p =>
    match p.await watch config.interval deadline with
    | (some _, _) => []
    | (none, p) =>
      p.attempt config watch deadline ::
        match p.round config watch started deadline with
        | (some _, _) => []
        | (none, p) => attempts config watch started deadline left p

/-- A poll with its rounds, its result and its end. Only at an interval of zero, at which no poll is
started, the rounds may run out. -/
inductive Goes (config : PollConfig) (watch : Watch ω) (started deadline : Instant) :
    Poll ω → List (Attempt ω) → PollStatus → Poll ω → Prop
  | waited {p q : Poll ω} {status : PollStatus}
    (hawait : p.await watch config.interval deadline = (some status, q)) :
    Goes config watch started deadline p [] status q
  | ended {p q : Poll ω} {status : PollStatus}
    (hawait : p.await watch config.interval deadline = (none, q))
    (hround : (q.round config watch started deadline).1 = some status) :
    Goes config watch started deadline p [q.attempt config watch deadline] status
      (q.round config watch started deadline).2
  | another {p q last : Poll ω} {rest : List (Attempt ω)} {status : PollStatus}
    (hawait : p.await watch config.interval deadline = (none, q))
    (hround : (q.round config watch started deadline).1 = none)
    (hrest : Goes config watch started deadline (q.round config watch started deadline).2 rest
      status last) :
    Goes config watch started deadline p (q.attempt config watch deadline :: rest) status last
  | exhausted {p : Poll ω} (hzero : config.interval = 0) :
    Goes config watch started deadline p [] .timedOut p

/-- The poll at its next tick. -/
def atTick (config : PollConfig) (watch : Watch ω) (p : Poll ω) : Poll ω :=
  let now := max p.now p.tick
  { p with now, world := watch.advance now p.world, tick := nextTick config.interval p.tick now }

/-- A wait that does not end a poll lasts to the tick, which comes before the deadline and is not after
the signal. -/
theorem await_of_none (h : p.await watch config.interval deadline = (none, q)) :
    q = p.atTick config watch ∧ q.now < deadline ∧ p.shutdown.seenAt q.now = false := by
  unfold await at h
  dsimp only at h
  split at h
  · nomatch h
  · rename_i hraised
    split at h
    · nomatch h
    · rename_i hbefore
      obtain ⟨-, rfl⟩ := Prod.mk.inj h
      have hne : (p.shutdown.wait p.now (min p.tick deadline)).2 ≠ .raised := by
        simpa [Shutdown.isRaised] using hraised
      have hunseen := Shutdown.seenAt_eq_false_of_wait hne
      simp only [Shutdown.wait_eq_of_ne_raised hne] at hbefore hunseen ⊢
      have htick : min p.tick deadline = p.tick := by grind
      rw [htick] at hbefore hunseen ⊢
      exact ⟨rfl, Nat.lt_of_not_le hbefore, hunseen⟩

/-- A wait for a tick that comes before the deadline and is not after the signal does not end a poll. -/
theorem await_of_tick (hbefore : max p.now p.tick < deadline)
    (hunseen : p.shutdown.seenAt (max p.now p.tick) = false) :
    p.await watch config.interval deadline = (none, p.atTick config watch) := by
  have htick : min p.tick deadline = p.tick := by grind
  obtain ⟨hwait, hraised⟩ := Shutdown.wait_of_unseen hunseen
  unfold await
  rw [htick, hwait]
  dsimp only
  rw [hraised, if_neg Bool.false_ne_true, if_neg (Nat.not_le.mpr hbefore)]
  rfl

theorem attempts_of_late (h : max p.now p.tick < deadline →
    p.shutdown.seenAt (max p.now p.tick) = true) (left : Nat) :
    attempts config watch started deadline left p = [] := by
  cases left with
  | zero => rfl
  | succ left =>
    unfold attempts
    split
    · rfl
    · rename_i hawait
      obtain ⟨rfl, hbefore, hunseen⟩ := await_of_none hawait
      exact absurd (hunseen.symm.trans (h hbefore)) Bool.false_ne_true

theorem attempts_of_tick (hbefore : max p.now p.tick < deadline)
    (hunseen : p.shutdown.seenAt (max p.now p.tick) = false) (left : Nat) :
    attempts config watch started deadline (left + 1) p =
      (p.atTick config watch).attempt config watch deadline ::
        match ((p.atTick config watch).round config watch started deadline).1 with
        | some _ => []
        | none => attempts config watch started deadline left
            ((p.atTick config watch).round config watch started deadline).2 := by
  rw [attempts, show p.await watch config.interval deadline = (none, p.atTick config watch) from
    await_of_tick hbefore hunseen]
  dsimp only
  split <;> simp [*]

/-- A wait that does not end a poll ends before the deadline, at or after the tick. -/
theorem tick_await (h : p.await watch config.interval deadline = (none, q)) :
    p.tick < deadline ∧ q.now < deadline ∧ p.tick + config.interval ≤ q.tick ∧
      q.tick < deadline + config.interval := by
  obtain ⟨rfl, hbefore, -⟩ := await_of_none h
  simp only [atTick, nextTick] at hbefore ⊢
  split <;> grind

theorem tick_round : (q.round config watch started deadline).2.tick = q.tick := by
  unfold round
  dsimp only
  split <;> rfl

/-- Are there ticks left for every interval up to the deadline? -/
def HasTicks (config : PollConfig) (deadline : Instant) (left : Nat) (p : Poll ω) : Prop :=
  deadline + config.interval ≤ p.tick + left * config.interval ∧
    p.tick < deadline + config.interval

/-- The number of rounds is bounded so that it never ends a poll. -/
theorem goes_roundsUntilDone (left : Nat) (p : Poll ω)
    (hleft : config.interval ≠ 0 → p.HasTicks config deadline left) :
    Goes config watch started deadline p (attempts config watch started deadline left p)
      (roundsUntilDone config watch started deadline left p).1
      (roundsUntilDone config watch started deadline left p).2 := by
  induction left generalizing p with
  | zero =>
    apply Goes.exhausted
    by_contra hinterval
    obtain ⟨hticks, htick⟩ := hleft hinterval
    rw [Nat.zero_mul] at hticks
    exact absurd htick (Nat.not_lt.mpr hticks)
  | succ left ih =>
    unfold attempts roundsUntilDone
    cases hawait : p.await watch config.interval deadline with
    | mk status q =>
      cases status with
      | some status => exact .waited hawait
      | none =>
        dsimp only
        cases hround : q.round config watch started deadline with
        | mk status last =>
          have hlast : last = (q.round config watch started deadline).2 := by rw [hround]
          cases status with
          | some status =>
            dsimp only
            rw [hlast]
            exact .ended hawait (by rw [hround])
          | none =>
            obtain ⟨-, -, hnext, hbound⟩ := tick_await hawait
            have hticks : (q.round config watch started deadline).2.tick = q.tick := tick_round
            rw [← hlast] at hticks
            dsimp only
            refine .another hawait (by rw [hround]) ?_
            rw [← hlast]
            apply ih
            intro hinterval
            obtain ⟨hbefore, htick⟩ := hleft hinterval
            rw [Nat.succ_mul] at hbefore
            constructor <;> grind

/-- A poll before its first tick, with any random words. -/
def fresh (now : Instant) (shutdown : Shutdown) (world : ω) (words : WordStream) : Poll ω :=
  { now, shutdown, world, tick := now, words }

/-- What is reported of a poll that started at an instant and has come to its end. -/
def report (watch : Watch ω) (started : Instant) (status : PollStatus) (p : Poll ω) : PollReport where
  status
  estimate := p.estimate
  records := records (watch.handles p.now p.world).toList p.sightings p.now
  queryErrors := p.sightings.errors
  rounds := p.rounds.reverse
  started
  elapsed := p.now - started

/-- How a poll with any random words ends, and its end. -/
def ending (config : PollConfig) (watch : Watch ω) (now : Instant) (shutdown : Shutdown) (world : ω)
    (words : WordStream) : PollStatus × Poll ω :=
  roundsUntilDone config watch now (now + config.timeout) (config.timeout / config.interval + 2)
    (fresh now shutdown world words)

/-- The rounds of a poll with any random words. -/
def history (config : PollConfig) (watch : Watch ω) (now : Instant) (shutdown : Shutdown) (world : ω)
    (words : WordStream) : List (Attempt ω) :=
  attempts config watch now (now + config.timeout) (config.timeout / config.interval + 2)
    (fresh now shutdown world words)

/-- A poll begins with a round, if there is time for one and no signal yet. -/
theorem history_eq_cons (config : PollConfig) (watch : Watch ω) (now : Instant) {shutdown : Shutdown}
    (world : ω) (words : WordStream) (htimeout : config.timeout ≠ 0)
    (hunseen : shutdown.seenAt now = false) :
    ∃ rest, history config watch now shutdown world words =
      ((fresh now shutdown world words).atTick config watch).attempt config watch
        (now + config.timeout) :: rest := by
  have hnow : max (fresh now shutdown world words).now (fresh now shutdown world words).tick = now :=
    Nat.max_self now
  refine ⟨_, attempts_of_tick ?_ ?_ (config.timeout / config.interval + 1)⟩
  · rw [hnow]
    exact Nat.lt_add_of_pos_right (Nat.pos_of_ne_zero htimeout)
  · rw [hnow]
    exact hunseen

theorem run_eq (config : PollConfig) (watch : Watch ω) (now : Instant) (shutdown : Shutdown)
    (world : ω) :
    let e := ending config watch now shutdown world config.words
    run config watch now shutdown world = (report watch now e.1 e.2, e.2) := rfl

theorem start_eq (watch : Watch ω) (now : Instant) (shutdown : Shutdown) (world : ω)
    (hinterval : config.interval ≠ 0) :
    let e := ending config watch now shutdown world config.words
    start config watch now shutdown world = .ok (report watch now e.1 e.2, e.2) := if_neg hinterval

theorem goes_ending (config : PollConfig) (watch : Watch ω) (now : Instant)
    (shutdown : Shutdown) (world : ω) (words : WordStream) :
    Goes config watch now (now + config.timeout) (fresh now shutdown world words)
      (history config watch now shutdown world words)
      (ending config watch now shutdown world words).1
      (ending config watch now shutdown world words).2 := by
  apply goes_roundsUntilDone
  intro hinterval
  have hpos : 0 < config.interval := Nat.pos_of_ne_zero hinterval
  have hdiv := Nat.lt_div_mul_add (a := config.timeout) hpos
  have hticks : (config.timeout / config.interval + 2) * config.interval =
      config.timeout / config.interval * config.interval + 2 * config.interval := Nat.add_mul ..
  unfold HasTicks
  rw [hticks]
  simp only [fresh]
  constructor <;> grind

end Poll

end Throughput
