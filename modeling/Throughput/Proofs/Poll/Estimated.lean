import Throughput.Proofs.Poll.Verdict

/-!
# What an estimate is about

The estimate of a poll is about the snapshot of its last completed round. Everything that the poll has
seen is in that snapshot, so that an estimate by counting agrees with the report.
-/

namespace Throughput

namespace Poll

variable {ω : Type} {config : PollConfig} {watch : Watch ω} {started deadline : Instant}
  {p q last : Poll ω} {rounds : List (Attempt ω)} {status : PollStatus} {x₀ : Instant × ω}
  {answers : List (Handle × Answer (Option Receipt))}

theorem exact_sampled {tracked sampleSize : Nat} (hits known : Nat) (htracked : tracked ≠ 0)
    (hsample : sampleSize ≠ 0) : (Estimate.sampled tracked sampleSize hits known).exact = false := by
  unfold Estimate.sampled
  rw [if_neg (by simp [htracked, hsample])]

/-- An exact estimate counts what has been seen, as no sample is empty. -/
theorem included_estimateOf (hcap : config.sampleCap ≠ 0) {handles : Array Handle} {s : Sightings}
    {hits : Nat} (h : (estimateOf handles s hits (q.choose config handles).1).exact = true) :
    (estimateOf handles s hits (q.choose config handles).1).included =
      handles.toList.countP s.has := by
  unfold choose at h ⊢
  by_cases hsmall : handles.size ≤ config.samplingThreshold
  · rw [if_pos hsmall]
    rfl
  · have hsize : handles.size ≠ 0 := by omega
    have hsample : min config.sampleCap handles.size ≠ 0 := by omega
    rw [if_neg hsmall] at h
    have hprojected := (exact_sampled _ s.included.size hsize hsample).symm.trans h
    exact absurd hprojected Bool.false_ne_true

/-- The estimate after a round that is not cut off. -/
theorem estimate_of_answers (started : Instant)
    (h : (q.attempt config watch deadline).answers = some answers) :
    (q.round config watch started deadline).2.estimate =
      estimateOf (watch.handles q.now q.world) (q.round config watch started deadline).2.sightings
        (q.sightings.takeAll (q.attempt config watch deadline).endedAt answers).2.1
        (q.choose config (watch.handles q.now q.world)).1 := by
  unfold attempt at h ⊢
  dsimp only at h
  unfold round
  dsimp only
  rw [h]

theorem estimate_of_cut (started : Instant)
    (h : (q.attempt config watch deadline).answers = none) :
    (q.round config watch started deadline).2.estimate = q.estimate := by
  unfold attempt at h
  dsimp only at h
  unfold round
  dsimp only
  rw [h]

/-- A wait tells a poll nothing. -/
theorem await_kept {outcome : Option PollStatus}
    (h : p.await watch config.interval deadline = (outcome, q)) :
    q.sightings = p.sightings ∧ q.estimate = p.estimate ∧ q.rounds = p.rounds := by
  unfold await at h
  dsimp only at h
  split at h
  · obtain ⟨-, rfl⟩ := Prod.mk.inj h
    exact ⟨rfl, rfl, rfl⟩
  · split at h
    all_goals
      obtain ⟨-, rfl⟩ := Prod.mk.inj h
      exact ⟨rfl, rfl, rfl⟩

/-- Is the estimate of a poll about a snapshot that has everything the poll has seen? -/
structure Estimates (p : Poll ω) (snapshot : List Handle) : Prop where
  nodup : snapshot.Nodup
  tracked : p.estimate.tracked = snapshot.length
  seen : ∀ handle, p.sightings.has handle = true → handle ∈ snapshot
  exact : p.estimate.exact = true → p.estimate.included = snapshot.countP p.sightings.has

theorem Estimates.of_eq {snapshot : List Handle} (h : p.Estimates snapshot)
    (hsightings : q.sightings = p.sightings) (hestimate : q.estimate = p.estimate) :
    q.Estimates snapshot := by
  refine ⟨h.nodup, ?_, ?_, ?_⟩
  · rw [hestimate]
    exact h.tracked
  · rw [hsightings]
    exact h.seen
  · rw [hestimate, hsightings]
    exact h.exact

/-- Is the estimate of a poll about handles that are still watched? -/
def Estimated (watch : Watch ω) (p : Poll ω) : Prop :=
  ∃ snapshot, p.Estimates snapshot ∧ snapshot ⊆ (watch.handles p.now p.world).toList

theorem estimated_fresh (watch : Watch ω) (now : Instant) (shutdown : Shutdown) (world : ω)
    (words : WordStream) : (fresh now shutdown world words).Estimated watch := by
  refine ⟨[], ⟨.nil, rfl, fun handle hhas => ?_, nofun⟩, List.nil_subset _⟩
  simp [fresh, Sightings.has] at hhas

namespace Estimated

theorem await (h : p.Estimated watch) (hgrows : watch.Grows p.place) {outcome : Option PollStatus}
    (hawait : p.await watch config.interval deadline = (outcome, q)) : q.Estimated watch := by
  obtain ⟨snapshot, hestimates, hwatched⟩ := h
  have hlater := await_later watch config.interval deadline p
  rw [hawait] at hlater
  obtain ⟨hsightings, hestimate, -⟩ := await_kept hawait
  exact ⟨snapshot, hestimates.of_eq hsightings hestimate,
    List.Subset.trans hwatched (hgrows.grows (.refl _) hlater)⟩

/-- A completed round is about its own snapshot, and one that is cut off changes nothing. -/
theorem round (hcap : config.sampleCap ≠ 0) (h : q.Estimated watch) (hgrows : watch.Grows q.place) :
    (q.round config watch started deadline).2.Estimated watch := by
  obtain ⟨snapshot, hestimates, hwatched⟩ := h
  have hlater := hgrows.grows (.refl _) (round_later config watch started deadline q)
  cases hanswers : (q.attempt config watch deadline).answers with
  | none =>
    obtain ⟨-, -, hsightings, -⟩ := round_of_cut started hanswers
    exact ⟨snapshot, hestimates.of_eq hsightings (estimate_of_cut started hanswers),
      List.Subset.trans hwatched hlater⟩
  | some answers =>
    obtain ⟨hsightings, -, -, htracked, -⟩ := round_of_answers started hanswers
    have hestimate := estimate_of_answers started hanswers
    refine ⟨_, ⟨hgrows.nodup (.refl _), htracked, fun handle hhas => ?_, fun hexact => ?_⟩, hlater⟩
    · have hsome : ((q.sightings.takeAll (q.attempt config watch deadline).endedAt
          answers).1.included[handle]?).isSome := by
        rw [hsightings] at hhas
        exact Std.HashMap.isSome_getElem?_iff_mem.mpr (Std.HashMap.mem_iff_contains.mpr hhas)
      rw [Sightings.included_takeAll, Option.isSome_or, Bool.or_eq_true] at hsome
      -- Seen in an earlier round it was in that snapshot, and what is watched only grows.
      rcases hsome with hbefore | hnew
      · apply hwatched
        apply hestimates.seen
        exact Std.HashMap.mem_iff_contains.mp (Std.HashMap.isSome_getElem?_iff_mem.mp hbefore)
      · apply asked_attempt
        exact (answers_attempt hanswers).subset (Attempt.mem_of_inclusionIn hnew)
    · rw [hestimate] at hexact ⊢
      exact included_estimateOf hcap hexact

/-- Wherever a poll ends, its estimate is about handles that are watched at its end. -/
theorem ended (hcap : config.sampleCap ≠ 0) (h : p.Estimated watch) (hgrows : watch.Grows x₀)
    (hfirst : watch.Later x₀ p.place)
    (hgoes : Goes config watch started deadline p rounds status last) : last.Estimated watch := by
  have hfrom : ∀ {p : Poll ω}, watch.Later x₀ p.place → watch.Grows p.place := fun hfirst =>
    ⟨fun hx => hgrows.nodup (hfirst.trans hx), fun hx hxy => hgrows.grows (hfirst.trans hx) hxy⟩
  have hawaits : ∀ {p q : Poll ω} {outcome : Option PollStatus}, watch.Later x₀ p.place →
      p.await watch config.interval deadline = (outcome, q) → watch.Later x₀ q.place := by
    intro p q outcome hfirst hawait
    have hlater := await_later watch config.interval deadline p
    rw [hawait] at hlater
    exact hfirst.trans hlater
  induction hgoes with
  | waited hawait => exact h.await (hfrom hfirst) hawait
  | ended hawait =>
    have hplace := hawaits hfirst hawait
    exact (h.await (hfrom hfirst) hawait).round hcap (hfrom hplace)
  | another hawait _ _ ih =>
    have hplace := hawaits hfirst hawait
    apply ih
    · exact (h.await (hfrom hfirst) hawait).round hcap (hfrom hplace)
    · exact hplace.trans (round_later ..)
  | exhausted => exact h

end Estimated

/-- A poll verifies as many handles as it has seen of the snapshot that its estimate is about. -/
theorem verified_report (started : Instant) {status : PollStatus} {snapshot : List Handle}
    (h : p.Estimates snapshot)
    (hnodup : (watch.handles p.now p.world).toList.Nodup)
    (hwatched : snapshot ⊆ (watch.handles p.now p.world).toList) :
    (report watch started status p).verified = snapshot.countP p.sightings.has := by
  -- More may be watched by now than the snapshot had, but nothing of it has been seen.
  have hperm : ((watch.handles p.now p.world).toList.filter p.sightings.has).Perm
      (snapshot.filter p.sightings.has) := by
    rw [List.perm_ext_iff_of_nodup (hnodup.filter _) (h.nodup.filter _)]
    intro handle
    rw [List.mem_filter, List.mem_filter]
    exact ⟨fun hhandle => ⟨h.seen handle hhandle.2, hhandle.2⟩,
      fun hhandle => ⟨hwatched hhandle.1, hhandle.2⟩⟩
  have hrecords := records_eq hnodup p.sightings p.now
  rw [List.countP_eq_length_filter, ← hperm.length_eq, ← List.countP_eq_length_filter,
    PollReport.verified_eq]
  unfold report
  rw [hrecords, List.countP_map]
  congr 1
  funext handle
  exact Std.HashMap.isSome_getElem?_eq_contains

/-- What a poll verifies is among what its estimate tracks, which is still watched at its end; if the
estimate is exact, it has counted what the poll verifies. -/
theorem run_estimates (config : PollConfig) (hcap : config.sampleCap ≠ 0) (watch : Watch ω)
    (now : Instant) (shutdown : Shutdown) (world : ω) (hgrows : watch.Grows (now, world)) :
    let r := run config watch now shutdown world
    r.1.verified ≤ r.1.estimate.tracked ∧
      r.1.estimate.tracked ≤ (watch.handles r.2.now r.2.world).toList.length ∧
      (r.1.estimate.exact = true → r.1.estimate.included = r.1.verified) := by
  intro r
  have hgoes := goes_ending config watch now shutdown world config.words
  have hlater := hgoes.places.1
  obtain ⟨snapshot, hestimates, hwatched⟩ :=
    (estimated_fresh watch now shutdown world config.words).ended hcap hgrows
      (.refl _) hgoes
  have hverified : r.1.verified = snapshot.countP r.2.sightings.has :=
    verified_report now hestimates (hgrows.nodup hlater) hwatched
  have htracked : r.1.estimate.tracked = snapshot.length := hestimates.tracked
  rw [hverified, htracked]
  refine ⟨List.countP_le_length, ?_, hestimates.exact⟩
  exact (List.subperm_of_subset hestimates.nodup hwatched).length_le

end Poll

end Throughput
