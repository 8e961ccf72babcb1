import Throughput.Proofs.Poll.Band
import Throughput.Proofs.Poll.Estimated
import Throughput.Proofs.Poll.Sampled

/-!
# What the estimates of a poll are worth

After each round that is not cut off a poll has an estimate. It is never less than what the rounds up to
then have seen included, and it is just that after a round that asked for everything.
-/

namespace Throughput

variable {ω : Type}

namespace Sightings

/-- An answer is new at most once. -/
theorem hits_takeAll_le (s : Sightings) (observedAt : Instant)
    (answers : List (Handle × Answer (Option Receipt))) :
    (s.takeAll observedAt answers).2.1 ≤ answers.length := by
  have hfold : ∀ acc : Sightings × Nat × Nat,
      (answers.foldl (take observedAt) acc).2.1 ≤ acc.2.1 + answers.length := by
    induction answers with
    | nil => exact fun acc => Nat.le_refl _
    | cons x answers ih =>
      intro acc
      have htake : (take observedAt acc x).2.1 ≤ acc.2.1 + 1 := by
        obtain ⟨asked, answer⟩ := x
        unfold take
        match answer with
        | .ok none => exact Nat.le_succ _
        | .error _ => exact Nat.le_succ _
        | .ok (some receipt) =>
          dsimp only
          split
          · exact Nat.le_succ _
          · exact Nat.le_refl _
      have hrest := ih (take observedAt acc x)
      rw [List.foldl_cons, List.length_cons]
      omega
  have hall := hfold (s, 0, 0)
  rwa [Nat.zero_add] at hall

end Sightings

namespace Poll

variable {config : PollConfig} {watch : Watch ω} {started deadline : Instant} {p q : Poll ω}
  {earlier : List (Attempt ω)} {past rest : List (Poll ω)} {e : Estimate}

/-! ## The rounds and their estimates -/

/-- The poll before each of its rounds. -/
def turnsFrom (config : PollConfig) (watch : Watch ω) (started deadline : Instant) :
    Nat → Poll ω → List (Poll ω)
  | 0, _ => []
  | left + 1, p =>
    match p.await watch config.interval deadline with
    | (some _, _) => []
    | (none, p) =>
      p ::
        match p.round config watch started deadline with
        | (some _, _) => []
        | (none, p) => turnsFrom config watch started deadline left p

/-- The estimate after the round that a poll is about to make, unless the round is cut off. -/
def estimate? (config : PollConfig) (watch : Watch ω) (started deadline : Instant) (q : Poll ω) :
    Option Estimate :=
  (q.attempt config watch deadline).answers.map fun _ =>
    (q.round config watch started deadline).2.estimate

/-- A round that is not cut off has an estimate, of which its summary tells a part. -/
theorem round_estimate (config : PollConfig) (watch : Watch ω) (started deadline : Instant)
    (q : Poll ω) :
    let estimate := q.estimate? config watch started deadline
    let after := (q.round config watch started deadline).2
    after.estimate = estimate.getD q.estimate ∧
      after.rounds.map (fun r => (r.tracked, r.included)) =
        estimate.toList.map (fun e => (e.tracked, e.included)) ++
          q.rounds.map fun r => (r.tracked, r.included) := by
  unfold estimate?
  cases hanswers : (q.attempt config watch deadline).answers with
  | none =>
    obtain ⟨-, -, -, hrounds⟩ := round_of_cut started hanswers
    exact ⟨estimate_of_cut started hanswers, congrArg _ hrounds⟩
  | some answers =>
    refine ⟨rfl, ?_⟩
    unfold attempt at hanswers
    dsimp only at hanswers
    unfold round
    dsimp only
    rw [hanswers]
    rfl

/-- The rounds of a poll are made at its turns, and it reports what they come to. -/
theorem turnsFrom_spec (left : Nat) (p : Poll ω) :
    let turns := turnsFrom config watch started deadline left p
    let estimates := turns.filterMap (·.estimate? config watch started deadline)
    let last := (roundsUntilDone config watch started deadline left p).2
    attempts config watch started deadline left p =
        turns.map (·.attempt config watch deadline) ∧
      last.estimate = estimates.getLast?.getD p.estimate ∧
      last.rounds.map (fun r => (r.tracked, r.included)) =
        (estimates.map fun e => (e.tracked, e.included)).reverse ++
          p.rounds.map fun r => (r.tracked, r.included) := by
  induction left generalizing p with
  | zero => exact ⟨rfl, rfl, rfl⟩
  | succ left ih =>
    unfold turnsFrom attempts roundsUntilDone
    cases hawait : p.await watch config.interval deadline with
    | mk outcome q =>
      obtain ⟨-, hestimate, hrounds⟩ := await_kept hawait
      rw [← hestimate, ← hrounds]
      cases outcome with
      | some status => exact ⟨rfl, rfl, rfl⟩
      | none =>
        obtain ⟨hafter, hsummary⟩ := round_estimate config watch started deadline q
        dsimp only
        cases hround : q.round config watch started deadline with
        | mk outcome last =>
          rw [hround] at hafter hsummary
          dsimp only at hafter hsummary
          obtain ⟨hattempts, hreported, hsummaries⟩ := ih last
          rw [hafter] at hreported
          rw [hsummary] at hsummaries
          cases outcome with
          | some status =>
            cases hq : q.estimate? config watch started deadline <;> rw [hq] at hafter hsummary <;>
              simp [hafter, hsummary, hq]
          | none =>
            cases hq : q.estimate? config watch started deadline <;>
              simp [hattempts, hreported, hsummaries, hq, List.getLast?_cons]

/-- What a poll has seen where it makes a round. -/
theorem saw_turnsFrom {left : Nat} (hsaw : p.Saw started earlier)
    (hturns : turnsFrom config watch started deadline left p = past ++ q :: rest) :
    q.Saw started (earlier ++ past.map (·.attempt config watch deadline)) := by
  induction left generalizing p earlier past with
  | zero => simp [turnsFrom] at hturns
  | succ left ih =>
    unfold turnsFrom at hturns
    split at hturns
    · simp at hturns
    · rename_i p' hawait
      have hbefore := hsaw.await hawait
      cases past with
      | nil =>
        obtain ⟨rfl, -⟩ := List.cons.inj hturns
        simpa using hbefore
      | cons p'' past =>
        obtain ⟨rfl, htail⟩ := List.cons.inj hturns
        split at htail
        · simp at htail
        · rename_i hround
          have hafter : (p'.round config watch started deadline).2.Saw started _ := hbefore.round
          rw [hround] at hafter
          have hq := ih hafter htail
          rwa [List.append_assoc] at hq

/-! ## What an estimate says -/

/-- After a round all of few handles are counted, and of many a sample is projected; in either case what
has been seen by then is known. -/
theorem estimate_spec (hsaw : q.Saw started earlier)
    (hnodup : (q.attempt config watch deadline).handles.Nodup)
    (hseen : ∀ handle, (firstSighting (earlier ++ [q.attempt config watch deadline]) handle).isSome →
      handle ∈ (q.attempt config watch deadline).handles)
    (h : q.estimate? config watch started deadline = some e) :
    let a := q.attempt config watch deadline
    let verified := a.handles.countP fun handle => (firstSighting (earlier ++ [a]) handle).isSome
    (a.handles.length ≤ config.samplingThreshold → e = .counted a.handles.length verified) ∧
    (config.samplingThreshold < a.handles.length → ∃ hits ≤ min config.sampleCap a.handles.length,
      e = .sampled a.handles.length (min config.sampleCap a.handles.length) hits verified) := by
  intro a verified
  obtain ⟨answers, hanswers, rfl⟩ := Option.map_eq_some_iff.mp h
  have hestimate := estimate_of_answers started hanswers
  have hafter : (q.round config watch started deadline).2.Saw started (earlier ++ [a]) := hsaw.round
  generalize (q.round config watch started deadline).2 = after at hestimate hafter
  have hlength : a.handles.length = (watch.handles q.now q.world).size := Array.length_toList
  have hverified : a.handles.countP after.sightings.has = verified := by
    congr 1
    funext handle
    rw [← hafter.included, Std.HashMap.isSome_getElem?_eq_contains]
    rfl
  rw [hestimate, hlength]
  refine ⟨fun hfew => ?_, fun hmany => ?_⟩
  · rw [choose_of_le hfew, ← hverified]
    rfl
  · let sample := sampleOf config (watch.handles q.now q.world) q
    obtain ⟨hscope, hasked⟩ := choose_of_lt hmany q
    have hsize : sample.length = min config.sampleCap (watch.handles q.now q.world).size :=
      (sampleOf_spec config hnodup q).2.2
    have hparts : sample.length = (sample.filter q.sightings.has).length + a.asked.length := by
      rw [show a.asked = _ from hasked]
      exact List.length_eq_length_filter_add ..
    have hanswered : answers.length = a.asked.length := by
      rw [← (answers_attempt hanswers).length_eq, List.length_map]
    have hnew := q.sightings.hits_takeAll_le (q.attempt config watch deadline).endedAt answers
    have hknown : after.sightings.included.size = verified := by
      rw [← hverified, List.countP_eq_length_filter]
      refine (after.sightings.length_filter_has hnodup fun handle hsome => hseen handle ?_).symm
      rwa [← hafter.included]
    rw [hscope, ← hknown]
    refine ⟨_, (Nat.add_le_add_left hnew _).trans ?_, rfl⟩
    rw [hanswered, ← hparts, hsize]

/-- A poll with any random words before each of its rounds. -/
def turns (config : PollConfig) (watch : Watch ω) (now : Instant) (shutdown : Shutdown) (world : ω)
    (words : WordStream) : List (Poll ω) :=
  turnsFrom config watch now (now + config.timeout) (config.timeout / config.interval + 2)
    (fresh now shutdown world words)

/-- A sampled estimate has what is known below its lower bound, that below the estimate, that below the
upper bound, and all within what is tracked, as long as the counts are exact in binary64. A poll over a
growing set reports the estimate of its last round that was not cut off, and of each such round what it
tracked and estimated. Such an estimate is of the snapshot of its round, in which everything is that has
been seen by then; as much as that is its lower bound at least. A round that asked for everything has
counted it. -/
theorem estimates_bracket (config : PollConfig) (watch : Watch ω) (now : Instant)
    (shutdown : Shutdown) (world : ω) (words : WordStream) (hgrows : watch.Grows (now, world)) :
    let e := ending config watch now shutdown world words
    let turns := turns config watch now shutdown world words
    let report := report watch now e.1 e.2
    let attempt (q : Poll ω) := q.attempt config watch (now + config.timeout)
    let estimate? (q : Poll ω) := q.estimate? config watch now (now + config.timeout)
    let estimates := turns.filterMap estimate?
    (∀ tracked sampleSize hits known, sampleSize ≤ tracked → hits ≤ sampleSize → known ≤ tracked →
      tracked < 2 ^ 53 → (Estimate.sampled tracked sampleSize hits known).Brackets known) ∧
    (config.interval ≠ 0 → words = config.words →
      start config watch now shutdown world = .ok (report, e.2)) ∧
    report.estimate = estimates.getLast?.getD {} ∧
    report.rounds.map (fun r => (r.tracked, r.included)) =
      estimates.map (fun e => (e.tracked, e.included)) ∧
    history config watch now shutdown world words = turns.map attempt ∧
    ∀ past q rest estimate, turns = past ++ q :: rest → estimate? q = some estimate →
      let snapshot := (attempt q).handles
      let seen handle := (firstSighting ((past ++ [q]).map attempt) handle).isSome
      let verified := snapshot.countP seen
      estimate.tracked = snapshot.length ∧
      (∀ handle, seen handle → handle ∈ snapshot) ∧
      verified ≤ estimate.lower ∧ verified ≤ estimate.included ∧
      estimate.included ≤ estimate.upper ∧
      (snapshot.length ≤ config.samplingThreshold →
        estimate.lower = verified ∧ estimate.included = verified ∧ estimate.upper = verified) ∧
      (snapshot.length < 2 ^ 53 → estimate.Brackets verified) := by
  intro e turns report attempt estimate? estimates
  obtain ⟨hattempts, hestimate, hrounds⟩ : history config watch now shutdown world words =
        turns.map attempt ∧
      report.estimate = estimates.getLast?.getD {} ∧
      e.2.rounds.map (fun r => (r.tracked, r.included)) =
        (estimates.map fun e => (e.tracked, e.included)).reverse ++ [] := turnsFrom_spec ..
  have hgoes := goes_ending config watch now shutdown world words
  refine ⟨fun _ _ _ _ hs hh hk ht => Estimate.sampled_brackets ht hs hh hk, ?_, hestimate, ?_,
    hattempts, ?_⟩
  · rintro hinterval rfl
    exact start_eq watch now shutdown world hinterval
  · rw [show report.rounds = e.2.rounds.reverse from rfl, List.map_reverse, hrounds,
      List.append_nil, List.reverse_reverse]
  · intro past q rest estimate hturns hq snapshot seen verified
    have hhistory : history config watch now shutdown world words =
        past.map attempt ++ attempt q :: rest.map attempt := by
      rw [hattempts, hturns, List.map_append, List.map_cons]
    have hsaw : q.Saw now (past.map attempt) :=
      saw_turnsFrom (saw_fresh now shutdown world words) hturns
    have hpast : (past ++ [q]).map attempt = past.map attempt ++ [attempt q] := List.map_append
    have hnodup : snapshot.Nodup := nodup_handles hgrows hgoes (by simp [hhistory])
    have hseen : ∀ handle, seen handle → handle ∈ snapshot := by
      intro handle hhandle
      exact mem_of_firstSighting hgrows hgoes hhistory (hpast ▸ hhandle)
    obtain ⟨hfew, hmany⟩ := estimate_spec hsaw hnodup (hpast ▸ hseen) hq
    rw [← hpast] at hfew hmany
    have hverified : verified ≤ snapshot.length := List.countP_le_length
    rcases Nat.lt_or_ge config.samplingThreshold snapshot.length with hlt | hle
    · obtain ⟨hits, hhits, hsampled⟩ : ∃ hits ≤ min config.sampleCap snapshot.length,
        estimate = .sampled snapshot.length (min config.sampleCap snapshot.length) hits verified :=
          hmany hlt
      obtain ⟨hlower, hincluded, hupper⟩ := Estimate.known_le_sampled snapshot.length
        (min config.sampleCap snapshot.length) hits verified
      rw [hsampled]
      exact ⟨Estimate.tracked_sampled .., hseen, hlower, hincluded, hupper,
        fun hle => absurd hlt (Nat.not_lt.mpr hle),
        fun ht => Estimate.sampled_brackets ht (Nat.min_le_right ..) hhits hverified⟩
    · rw [show estimate = .counted snapshot.length verified from hfew hle]
      exact ⟨rfl, hseen, le_rfl, le_rfl, le_rfl, fun _ => ⟨rfl, rfl, rfl⟩,
        fun _ => Estimate.counted_brackets hverified⟩

/-- The band of two hits among four of ten holds the three that are known. A
round over everything has counted all three. -/
theorem estimates_bracket_everySecond :
    (Estimate.sampled 10 4 2 3).Brackets 3 ∧
    ∃ first rest estimate,
      turns (.everySecond 0.95) .promptly 0 .never {} (.ofSeed 0) = first :: rest ∧
      first.estimate? (.everySecond 0.95) .promptly 0 (0 + seconds 10) = some estimate ∧
      estimate.lower = 3 ∧ estimate.included = 3 ∧ estimate.upper = 3 := by
  obtain ⟨hsampled, -, -, -, -, hrounds⟩ := estimates_bracket (.everySecond 0.95) .promptly 0 .never {}
    (.ofSeed 0) (Watch.fixed_grows (.scripted .prompt) (by decide) _)
  let q := (fresh 0 .never {} (.ofSeed 0)).atTick (.everySecond 0.95) .promptly
  obtain ⟨hfirst, hseen⟩ := first_everySecond 0.95 (.ofSeed 0)
  simp only [Prod.mk.injEq] at hfirst
  obtain ⟨-, hhandles, hanswers⟩ := hfirst
  obtain ⟨rest, hturns⟩ : ∃ rest,
    turns (.everySecond 0.95) .promptly 0 .never {} (.ofSeed 0) = [] ++ q :: rest := ⟨_, rfl⟩
  obtain ⟨estimate, hestimate⟩ : ∃ estimate,
      q.estimate? (.everySecond 0.95) .promptly 0 (0 + seconds 10) = some estimate := by
    obtain ⟨answers, hanswers⟩ := Option.isSome_iff_exists.mp hanswers
    exact ⟨_, Option.map_eq_some_iff.mpr ⟨answers, hanswers, rfl⟩⟩
  obtain ⟨-, -, -, -, -, hcounted, -⟩ := hrounds [] q rest estimate hturns hestimate
  refine ⟨hsampled 10 4 2 3 (by decide) (by decide) (by decide) (by decide), q, rest, estimate, hturns,
    hestimate, ?_⟩
  rw [List.nil_append, List.map_singleton, hhandles] at hcounted
  have hall := hcounted (by decide)
  rwa [List.countP_eq_length.mpr (List.all_eq_true.mp hseen)] at hall

end Poll

end Throughput
