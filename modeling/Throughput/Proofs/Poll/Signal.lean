import Throughput.Proofs.Poll.Rounds

/-!
# A poll that is shut down

A poll looks at the signal between its rounds alone. It begins no round once it has seen the signal, but
a round under way when the signal is raised goes on as it would have without: it asks for the handles
that still wait for a slot until the deadline cuts it off.
-/

namespace Throughput

variable {ω : Type}

namespace QueryLog

/-- The queries that are made after the signal. -/
def late (shutdown : Shutdown) (log : QueryLog) : List (Instant × Handle) :=
  log.asks.filter fun ask => shutdown.seenAt ask.1

theorem late_append (shutdown : Shutdown) (log more : QueryLog) :
    late shutdown (log ++ more) = log.late shutdown ++ more.late shutdown := by
  unfold late
  rw [asks_append, List.filter_append]

theorem late_flatMap {α : Type} (shutdown : Shutdown) (rounds : List α) (log : α → QueryLog) :
    late shutdown (rounds.flatMap log) = rounds.flatMap fun a => (log a).late shutdown := by
  induction rounds with
  | nil => rfl
  | cons a rounds ih => rw [List.flatMap_cons, List.flatMap_cons, late_append, ih]

namespace TellsOf

variable {log : QueryLog} {limit : Nat} {now endedAt : Instant} {handles : List Handle}
  {finished : Bool} {shutdown : Shutdown}

/-- Before the signal nothing is late. -/
theorem late_eq_nil (h : TellsOf limit now handles finished endedAt log)
    (hunseen : shutdown.seenAt endedAt = false) : log.late shutdown = [] := by
  refine List.filter_eq_nil_iff.mpr fun ask hask hlate => ?_
  obtain ⟨e, he, heq⟩ := exists_of_mem_asks hask
  have hearly := Shutdown.unseen_of_le hunseen (h.between e he).2
  rw [heq] at hearly
  exact Bool.false_ne_true (hearly.symm.trans hlate)

/-- Of a round that begins before the signal, only the handles that waited for a slot are late. -/
theorem late_sublist (h : TellsOf limit now handles finished endedAt log)
    (hunseen : shutdown.seenAt now = false) :
    ((log.late shutdown).map (·.2)).Sublist (handles.drop limit) := by
  have hfirst : (log.asks.take limit).filter (fun ask => shutdown.seenAt ask.1) = [] := by
    refine List.filter_eq_nil_iff.mpr fun ask hask hlate => ?_
    rw [h.atOnce ask hask, hunseen] at hlate
    exact Bool.false_ne_true hlate
  have hlate : log.late shutdown = (log.asks.drop limit).filter fun ask => shutdown.seenAt ask.1 := by
    unfold late
    conv_lhs => rw [← List.take_append_drop limit log.asks]
    rw [List.filter_append, hfirst, List.nil_append]
  rw [hlate]
  refine (List.filter_sublist.map _).trans ?_
  rw [List.map_drop]
  exact h.asks.sublist.drop limit

end TellsOf

end QueryLog

namespace Poll

variable {config : PollConfig} {watch : Watch ω} {started deadline : Instant}

/-- The same poll with another signal. -/
def withSignal (shutdown : Shutdown) (p : Poll ω) : Poll ω := { p with shutdown }

theorem round_withSignal (shutdown : Shutdown) (q : Poll ω) :
    (q.withSignal shutdown).round config watch started deadline =
      ((q.round config watch started deadline).1,
        (q.round config watch started deadline).2.withSignal shutdown) := by
  unfold round
  dsimp only
  have hchosen : (q.withSignal shutdown).choose config
      (watch.handles (q.withSignal shutdown).now (q.withSignal shutdown).world) =
        q.choose config (watch.handles q.now q.world) := rfl
  rw [hchosen]
  dsimp only [withSignal]
  split <;> rfl

/-- The rounds of a poll that is shut down are those that a poll begins before the signal which is not. -/
theorem attempts_withSignal (shutdown : Shutdown) (left : Nat) (p : Poll ω) :
    attempts config watch started deadline left (p.withSignal shutdown) =
      (attempts config watch started deadline left (p.withSignal .never)).takeWhile
        fun a => !shutdown.seenAt a.now := by
  induction left generalizing p with
  | zero => rfl
  | succ left ih =>
    by_cases hbefore : max p.now p.tick < deadline
    · let q := p.atTick config watch
      have hround : ∀ s, ((p.withSignal s).atTick config watch).round config watch started deadline =
          ((q.round config watch started deadline).1,
            (q.round config watch started deadline).2.withSignal s) := fun s => round_withSignal s q
      rw [attempts_of_tick (p := p.withSignal .never) hbefore rfl, hround]
      cases hseen : shutdown.seenAt (max p.now p.tick) with
      | true =>
        rw [attempts_of_late fun _ => hseen, List.takeWhile_cons_of_neg]
        simp [hseen, attempt, atTick, withSignal]
      | false =>
        rw [attempts_of_tick (p := p.withSignal shutdown) hbefore hseen, hround,
          List.takeWhile_cons_of_pos]
        · dsimp only
          cases (q.round config watch started deadline).1 with
          | some status => rfl
          | none => rw [ih]; rfl
        · simp [hseen, attempt, atTick, withSignal]
    · have hnone : ∀ s, attempts config watch started deadline (left + 1) (p.withSignal s) = [] :=
        fun s => attempts_of_late (p := p.withSignal s) (fun h => absurd h hbefore) _
      rw [hnone, hnone, List.takeWhile_nil]

/-- A poll that is shut down begins the rounds that it would have begun before the signal, and no others,
and each goes as it would have gone. So what is asked after the signal is asked by the last round, for
handles that have waited for a slot: for all of them, if the deadline does not cut the round off. Where
no round has more handles than slots, nothing is asked after the signal. -/
theorem queries_after_signal (config : PollConfig) (watch : Watch ω) (now : Instant)
    (shutdown : Shutdown) (world : ω) (words : WordStream) :
    let e := ending config watch now shutdown world words
    let rounds := history config watch now shutdown world words
    let log : QueryLog := rounds.flatMap (·.log config watch (now + config.timeout))
    ending config watch.logged now shutdown (world, []) words = (e.1, e.2.withLog log) ∧
    rounds = (history config watch now .never world words).takeWhile
      (fun a => !shutdown.seenAt a.now) ∧
    (∀ past a, rounds = past ++ [a] →
      let round := a.log config watch (now + config.timeout)
      QueryLog.late shutdown log = round.late shutdown ∧
      ((round.late shutdown).map (·.2)).Sublist (a.asked.drop (max config.maxQueries 1)) ∧
      (a.answers.isSome → round.asks.map (·.2) = a.asked)) ∧
    ((∀ a ∈ rounds, a.asked.length ≤ max config.maxQueries 1) →
      QueryLog.late shutdown log = []) := by
  intro e rounds log
  have hgoes : Goes config watch now (now + config.timeout) (fresh now shutdown world words) rounds
      e.1 e.2 := goes_ending config watch now shutdown world words
  obtain ⟨hstarts, hordered⟩ := hgoes.inTurn
  have hunseen : ∀ a ∈ rounds, shutdown.seenAt a.now = false := fun a ha => (hstarts a ha).2
  have hlast : ∀ past a, rounds = past ++ [a] → QueryLog.late shutdown log =
      (a.log config watch (now + config.timeout)).late shutdown := by
    intro past a hrounds
    have ha : a ∈ rounds := by simp [hrounds]
    have hearly : past.flatMap (fun b =>
        (b.log config watch (now + config.timeout)).late shutdown) = [] := by
      refine List.flatMap_eq_nil_iff.mpr fun b hb => ?_
      rw [hrounds] at hordered
      have hbefore := (List.pairwise_append.mp hordered).2.2 b hb a (List.mem_singleton_self a)
      refine (hgoes.tells (by simp [hrounds, hb])).late_eq_nil ?_
      exact Shutdown.unseen_of_le (hunseen a ha) hbefore
    change QueryLog.late shutdown (rounds.flatMap _) = _
    rw [QueryLog.late_flatMap, hrounds, List.flatMap_append, hearly, List.nil_append,
      List.flatMap_singleton]
  refine ⟨ending_logged .., attempts_withSignal shutdown _ (fresh now shutdown world words),
    fun past a hrounds => ?_, fun hfew => ?_⟩
  · have ha : a ∈ rounds := by simp [hrounds]
    refine ⟨hlast past a hrounds, (hgoes.tells ha).late_sublist (hunseen a ha), fun hfinished => ?_⟩
    exact ((hgoes.tells ha).complete hfinished).1
  · rcases List.eq_nil_or_concat rounds with hnone | ⟨past, a, hrounds⟩
    · change QueryLog.late shutdown (rounds.flatMap _) = []
      rw [hnone]
      rfl
    · have ha : a ∈ rounds := by simp [hrounds]
      have hlate := (hgoes.tells ha).late_sublist (hunseen a ha)
      rw [List.drop_eq_nil_of_le (hfew a ha), List.sublist_nil, List.map_eq_nil_iff] at hlate
      rw [hlast past a (by simpa using hrounds), hlate]

end Poll

/-- A ledger that takes a second to say that it does not know a handle. -/
def Scripted.Script.slow : Scripted.Script := { receiptLatency := seconds 1 }

/-- Three handles on this ledger. -/
def Watch.slowly : Watch Scripted.State := .fixed (.scripted .slow) #[1, 2, 3]

/-- One query after the other. -/
def PollConfig.oneByOne (threshold : Float) : PollConfig :=
  { interval := seconds 1, timeout := seconds 10, completionThreshold := threshold, maxQueries := 1 }

namespace Poll

set_option maxRecDepth 4000 in
theorem ending_oneByOne (threshold : Float) (words : WordStream) :
    let e := ending (.oneByOne threshold) .slowly 0 (.due (milliseconds 500)) {} words
    (e.1, e.2.now) = (.cancelled, seconds 3) := by
  cbv

set_option maxRecDepth 4000 in
theorem late_oneByOne (threshold : Float) (words : WordStream) :
    let rounds := history (.oneByOne threshold) .slowly 0 (.due (milliseconds 500)) {} words
    QueryLog.late (.due (milliseconds 500)) (rounds.flatMap
      (·.log (.oneByOne threshold) .slowly (0 + (PollConfig.oneByOne threshold).timeout))) =
        [(seconds 1, 2), (seconds 2, 3)] := by
  cbv

/-- The signal is raised while the first of three handles is asked for. The others are asked for one
after the other, and the poll ends two and a half seconds after the signal. -/
theorem queries_after_signal_oneByOne :
    let e := ending (.oneByOne 0.95) .slowly 0 (.due (milliseconds 500)) {} (.ofSeed 7)
    ∃ log : QueryLog,
      ending (.oneByOne 0.95) Watch.slowly.logged 0 (.due (milliseconds 500)) ({}, []) (.ofSeed 7) =
        (e.1, e.2.withLog log) ∧
      (e.1, e.2.now) = (.cancelled, seconds 3) ∧
      log.late (.due (milliseconds 500)) = [(seconds 1, 2), (seconds 2, 3)] := by
  intro e
  obtain ⟨hlogged, -⟩ := queries_after_signal (.oneByOne 0.95) .slowly 0 (.due (milliseconds 500)) {}
    (.ofSeed 7)
  exact ⟨_, hlogged, ending_oneByOne 0.95 (.ofSeed 7), late_oneByOne 0.95 (.ofSeed 7)⟩

end Poll

end Throughput
