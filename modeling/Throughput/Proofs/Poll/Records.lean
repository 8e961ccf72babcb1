import Mathlib.Algebra.GroupWithZero.Nat
import Throughput.Proofs.Poll.Attempts

/-!
# What a poll has seen

The sightings of a poll are the first of its completed rounds, and its summaries are of these rounds.
-/

namespace Throughput

variable {ω : Type}

namespace Attempt

theorem inclusionIn_cons (observedAt : Instant) (x : Handle × Answer (Option Receipt))
    (answers : List (Handle × Answer (Option Receipt))) (handle : Handle) :
    inclusionIn observedAt (x :: answers) handle =
      (inclusionIn observedAt [x] handle).or (inclusionIn observedAt answers handle) := by
  change List.findSome? _ ([x] ++ answers) = _
  exact List.findSome?_append

theorem mem_of_inclusionIn {observedAt : Instant}
    {answers : List (Handle × Answer (Option Receipt))} {handle : Handle}
    (h : (inclusionIn observedAt answers handle).isSome) : handle ∈ answers.map (·.1) := by
  obtain ⟨⟨asked, answer⟩, hx, hsome⟩ := List.findSome?_isSome_iff.mp h
  dsimp only at hsome
  split at hsome
  · split at hsome
    · rename_i heq
      exact List.mem_map.mpr ⟨_, hx, heq⟩
    · nomatch hsome
  · nomatch hsome

end Attempt

namespace Sightings

open Attempt

variable {observedAt : Instant}

theorem included_take (acc : Sightings × Nat × Nat) (x : Handle × Answer (Option Receipt))
    (handle : Handle) :
    (take observedAt acc x).1.included[handle]? =
      acc.1.included[handle]?.or (inclusionIn observedAt [x] handle) := by
  obtain ⟨asked, answer⟩ := x
  unfold take inclusionIn
  match answer with
  | .ok none => simp
  | .error _ => simp
  | .ok (some receipt) =>
    dsimp only
    split
    · rename_i hknown
      by_cases heq : asked = handle
      · -- what is known of a handle stays
        subst heq
        obtain ⟨inclusion, hinclusion⟩ := Option.isSome_iff_exists.mp
          (Std.HashMap.isSome_getElem?_iff_mem.mpr (Std.HashMap.mem_iff_contains.mpr hknown))
        simp [hinclusion]
      · simp [heq]
    · rename_i hnew
      by_cases heq : asked = handle
      · subst heq
        have hnone : acc.1.included[asked]? = none := by simpa using hnew
        simp [hnone]
      · simp [heq, Std.HashMap.getElem?_insert]

theorem errors_take (observedAt : Instant) (acc : Sightings × Nat × Nat)
    (x : Handle × Answer (Option Receipt)) :
    (take observedAt acc x).1.errors = acc.1.errors + errorsIn [x] ∧
      (take observedAt acc x).2.2 = acc.2.2 + errorsIn [x] := by
  obtain ⟨asked, answer⟩ := x
  unfold take errorsIn
  match answer with
  | .ok none => exact ⟨rfl, rfl⟩
  | .error _ => exact ⟨rfl, rfl⟩
  | .ok (some receipt) =>
    dsimp only
    split <;> exact ⟨rfl, rfl⟩

/-- What is seen after a round is what was seen before it, or else what its answers tell. -/
theorem included_takeAll (s : Sightings) (observedAt : Instant)
    (answers : List (Handle × Answer (Option Receipt))) (handle : Handle) :
    (s.takeAll observedAt answers).1.included[handle]? =
      s.included[handle]?.or (inclusionIn observedAt answers handle) := by
  have hfold : ∀ acc : Sightings × Nat × Nat,
      (answers.foldl (take observedAt) acc).1.included[handle]? =
        acc.1.included[handle]?.or (inclusionIn observedAt answers handle) := by
    induction answers with
    | nil => simp [inclusionIn]
    | cons x answers ih =>
      intro acc
      rw [List.foldl_cons, ih, included_take, inclusionIn_cons _ x answers, Option.or_assoc]
  exact hfold (s, 0, 0)

theorem errors_takeAll (s : Sightings) (observedAt : Instant)
    (answers : List (Handle × Answer (Option Receipt))) :
    (s.takeAll observedAt answers).1.errors = s.errors + errorsIn answers ∧
      (s.takeAll observedAt answers).2.2 = errorsIn answers := by
  have hfold : ∀ acc : Sightings × Nat × Nat,
      (answers.foldl (take observedAt) acc).1.errors = acc.1.errors + errorsIn answers ∧
        (answers.foldl (take observedAt) acc).2.2 = acc.2.2 + errorsIn answers := by
    induction answers with
    | nil => exact fun acc => ⟨rfl, rfl⟩
    | cons x answers ih =>
      intro acc
      obtain ⟨hseen, hround⟩ := ih (take observedAt acc x)
      obtain ⟨hseen', hround'⟩ := errors_take observedAt acc x
      have hcons : errorsIn ([x] ++ answers) = errorsIn [x] + errorsIn answers :=
        List.countP_append
      rw [List.singleton_append] at hcons
      rw [List.foldl_cons]
      constructor <;> omega
  have hall := hfold (s, 0, 0)
  simpa [takeAll] using hall

end Sightings

theorem Estimate.tracked_sampled (tracked sampleSize hits known : Nat) :
    (sampled tracked sampleSize hits known).tracked = tracked := by
  unfold sampled
  split <;> rfl

namespace Poll

variable {config : PollConfig} {watch : Watch ω} {started deadline : Instant} {p q last : Poll ω}
  {past rounds : List (Attempt ω)} {status : PollStatus}
  {answers : List (Handle × Answer (Option Receipt))}

theorem tracked_estimateOf (handles : Array Handle) (s : Sightings) (hits : Nat) (scope : Scope) :
    (estimateOf handles s hits scope).tracked = handles.size := by
  unfold estimateOf
  cases scope with
  | all => rfl
  | sample size known => exact Estimate.tracked_sampled ..

/-- Only a sample of a set beyond the threshold is estimated inexactly. -/
theorem threshold_lt_of_estimateOf {handles : Array Handle} {s : Sightings} {hits : Nat}
    (h : (estimateOf handles s hits (q.choose config handles).1).exact = false) :
    config.samplingThreshold < handles.size := by
  by_contra hle
  unfold choose at h
  rw [if_pos (Nat.le_of_not_lt hle)] at h
  nomatch h

theorem mem_of_choose {handles : Array Handle} {handle : Handle}
    (h : handle ∈ (q.choose config handles).2.1) : handle ∈ handles.toList := by
  unfold choose at h
  split at h
  · exact h
  · simp only [List.partition_eq_filter_filter] at h
    obtain ⟨i, -, hi⟩ := List.mem_filterMap.mp (List.mem_filter.mp h).1
    exact Array.mem_toList_iff.mpr (Array.mem_of_getElem? hi)

theorem handles_attempt : (q.attempt config watch deadline).handles =
    (watch.handles q.place.1 q.place.2).toList := rfl

theorem place_attempt : (q.attempt config watch deadline).place = q.place := rfl

/-- A round has one answer for each handle it asked for, and asks only for handles it found. -/
theorem answers_attempt (h : (q.attempt config watch deadline).answers = some answers) :
    (answers.map (·.1)).Perm (q.attempt config watch deadline).asked :=
  Round.answers_perm h

theorem asked_attempt :
    (q.attempt config watch deadline).asked ⊆ (q.attempt config watch deadline).handles :=
  fun _ => mem_of_choose

theorem mem_of_sighting {handle : Handle}
    (h : ((q.attempt config watch deadline).sighting? handle).isSome) :
    handle ∈ (q.attempt config watch deadline).handles := by
  unfold Attempt.sighting? at h
  cases hanswers : (q.attempt config watch deadline).answers with
  | none => simp [hanswers] at h
  | some answers =>
    rw [hanswers, Option.bind_some] at h
    apply asked_attempt
    exact (answers_attempt hanswers).subset (Attempt.mem_of_inclusionIn h)

/-- A round that is cut off ends the poll, at the deadline and with nothing seen. -/
theorem round_of_cut (started : Instant)
    (h : (q.attempt config watch deadline).answers = none) :
    let after := (q.round config watch started deadline).2
    (q.round config watch started deadline).1 = some .timedOut ∧ deadline ≤ after.now ∧
      after.sightings = q.sightings ∧ after.rounds = q.rounds := by
  have hdeadline := Round.deadline_le_of_run h
  unfold attempt at h
  dsimp only at h hdeadline
  unfold round
  dsimp only
  rw [h]
  exact ⟨rfl, hdeadline, rfl, rfl⟩

/-- What a round does that is not cut off. -/
theorem round_of_answers (started : Instant)
    (h : (q.attempt config watch deadline).answers = some answers) :
    let a := q.attempt config watch deadline
    let after := (q.round config watch started deadline).2
    after.sightings = (q.sightings.takeAll a.endedAt answers).1 ∧
    (∃ r, after.rounds = r :: q.rounds ∧ some r.figures = a.summary? started) ∧
    (q.round config watch started deadline).1 =
      (if a.isSealed then verdict? config after.sightings after.estimate else none) ∧
    after.estimate.tracked = a.handles.length ∧
    (after.estimate.exact = false → config.samplingThreshold < a.handles.length) := by
  intro a after
  let taken := q.sightings.takeAll a.endedAt answers
  let handles := watch.handles q.now q.world
  let estimate := estimateOf handles taken.1 taken.2.1 (q.choose config handles).1
  have hround : q.round config watch started deadline =
      (if a.isSealed then verdict? config taken.1 estimate else none,
        { q with
          now := a.endedAt
          world := (Round.run watch config.maxQueries deadline q.now a.asked q.world).2.2
          words := (q.choose config handles).2.2
          sightings := taken.1
          estimate
          rounds := ⟨a.endedAt - started, estimate.tracked, a.asked.length, estimate.included,
            taken.2.2⟩ :: q.rounds }) := by
    unfold attempt at h
    dsimp only at h
    unfold round
    dsimp only
    rw [h]
    rfl
  have htracked : estimate.tracked = a.handles.length := tracked_estimateOf ..
  have herrors : taken.2.2 = Attempt.errorsIn answers := (Sightings.errors_takeAll ..).2
  have hsummary : a.summary? started =
      some (a.endedAt - started, a.handles.length, a.asked.length, Attempt.errorsIn answers) := by
    unfold Attempt.summary?
    rw [h]
    rfl
  have hverdict := congrArg Prod.fst hround
  have hafter := congrArg Prod.snd hround
  dsimp only at hverdict hafter
  change after = _ at hafter
  rw [hverdict, hafter]
  refine ⟨rfl, ⟨_, rfl, ?_⟩, rfl, htracked, threshold_lt_of_estimateOf⟩
  rw [hsummary, ← htracked, ← herrors]
  rfl

/-- Do the sightings of a poll and its summaries tell of the rounds that it has made? -/
structure Saw (started : Instant) (past : List (Attempt ω)) (p : Poll ω) : Prop where
  included : ∀ handle, p.sightings.included[handle]? = firstSighting past handle
  errors : p.sightings.errors = (p.rounds.map (·.errors)).sum
  rounds : p.rounds.reverse.map RoundSummary.figures = past.filterMap (·.summary? started)

theorem saw_fresh (now : Instant) (shutdown : Shutdown) (world : ω) (words : WordStream) :
    (fresh now shutdown world words).Saw now [] :=
  ⟨fun _ => Std.HashMap.getElem?_empty, rfl, rfl⟩

theorem firstSighting_concat (past : List (Attempt ω)) (a : Attempt ω) (handle : Handle) :
    firstSighting (past ++ [a]) handle = (firstSighting past handle).or (a.sighting? handle) := by
  unfold firstSighting
  rw [List.findSome?_append, List.findSome?_singleton]

namespace Saw

theorem round (h : q.Saw started past) :
    (q.round config watch started deadline).2.Saw started
      (past ++ [q.attempt config watch deadline]) := by
  cases hanswers : (q.attempt config watch deadline).answers with
  | none =>
    obtain ⟨-, -, hsightings, hrounds⟩ := round_of_cut started hanswers
    refine ⟨fun handle => ?_, ?_, ?_⟩
    · rw [hsightings, h.included, firstSighting_concat]
      simp [Attempt.sighting?, hanswers]
    · rw [hsightings, hrounds, h.errors]
    · rw [hrounds, h.rounds]
      simp [Attempt.summary?, hanswers]
  | some answers =>
    obtain ⟨hsightings, ⟨r, hrounds, hfigures⟩, -⟩ := round_of_answers started hanswers
    refine ⟨fun handle => ?_, ?_, ?_⟩
    · rw [hsightings, Sightings.included_takeAll, h.included, firstSighting_concat]
      simp [Attempt.sighting?, hanswers]
    · have hcount := (q.sightings.errors_takeAll
        (q.attempt config watch deadline).endedAt answers).1
      have herrors : r.errors = Attempt.errorsIn answers := by
        rw [Attempt.summary?, hanswers] at hfigures
        exact congrArg (·.2.2.2) (Option.some.inj hfigures)
      rw [hsightings, hcount, hrounds, h.errors, List.map_cons, List.sum_cons, herrors,
        Nat.add_comm]
    · rw [hrounds, List.reverse_cons, List.map_append, h.rounds, List.filterMap_append,
        List.map_singleton, List.filterMap_cons_some hfigures.symm, List.filterMap_nil]

theorem await (h : p.Saw started past) {outcome : Option PollStatus}
    (hawait : p.await watch config.interval deadline = (outcome, q)) : q.Saw started past := by
  unfold Poll.await at hawait
  dsimp only at hawait
  split at hawait
  · obtain ⟨-, rfl⟩ := Prod.mk.inj hawait
    exact ⟨h.included, h.errors, h.rounds⟩
  · split at hawait
    all_goals
      obtain ⟨-, rfl⟩ := Prod.mk.inj hawait
      exact ⟨h.included, h.errors, h.rounds⟩

/-- Where a poll ends, it has seen what all of its rounds have seen. -/
theorem ended (h : p.Saw started past)
    (hgoes : Goes config watch started deadline p rounds status last) :
    last.Saw started (past ++ rounds) := by
  induction hgoes generalizing past with
  | waited hawait =>
    rw [List.append_nil]
    exact h.await hawait
  | ended hawait => exact (h.await hawait).round
  | another hawait _ _ ih =>
    have hrest := ih (h.await hawait).round
    rwa [List.append_assoc] at hrest
  | exhausted => rwa [List.append_nil]

end Saw

end Poll

end Throughput
