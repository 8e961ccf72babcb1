import Throughput.Proofs.Poll.Budget
import Throughput.Proofs.Poll.Live

/-!
# Samples of everything

A poll whose samples are as large as the set, and whose threshold asks for all of it, agrees with one
that asks for every handle in every round: it only leaves out handles that were seen before.
-/

namespace Throughput

variable {ω : Type} {handles : Array Handle} {receiptAt : Instant → Handle → Answer (Option Receipt)}

/-- Does the ledger answer each query as it is asked? -/
def Watch.AtOnce (watch : Watch ω) : Prop :=
  ∀ now handle w, (watch.receipt now handle w).1.latency = some 0

/-- Is this an answer that the ledger can give at an instant? -/
def Watch.Answers (watch : Watch ω) (now : Instant) (x : Handle × Answer (Option Receipt)) : Prop :=
  ∃ asked w, x.2 = ((watch.receipt now x.1 asked).1.answer now w).1

/-- Are the watched handles final, and does the ledger answer at once, by the handle and the time
alone? -/
structure Watch.Prompt (watch : Watch ω) (handles : Array Handle)
    (receiptAt : Instant → Handle → Answer (Option Receipt)) : Prop where
  handles : ∀ now w, watch.handles now w = handles
  isSealed : ∀ now w, watch.isSealed now w = true
  latency : ∀ now handle w, (watch.receipt now handle w).1.latency = some 0
  answer : ∀ now handle asked w, ((watch.receipt now handle asked).1.answer now w).1 =
    receiptAt now handle

theorem Watch.prompt_scripted {script : Scripted.Script} (h : script.receiptLatency = 0)
    (handles : Array Handle) :
    (Watch.fixed (.scripted script) handles).Prompt handles script.receipt :=
  ⟨fun _ _ => rfl, fun _ _ => rfl, fun _ _ _ => congrArg some h, fun _ _ _ _ => rfl⟩

/-- Does one configuration ask for all of so many handles, and the other for samples that have them all
and a share of one? -/
structure PollConfig.SamplesAll (sampling exhaustive : PollConfig) (size : Nat) : Prop where
  interval : sampling.interval = exhaustive.interval
  timeout : sampling.timeout = exhaustive.timeout
  exhaustive : size ≤ exhaustive.samplingThreshold
  beyond : sampling.samplingThreshold < size
  cap : size ≤ sampling.sampleCap
  threshold : sampling.completionThreshold = 1.0

/-- Are the estimates of samples exact that have all of so many handles? The quotients are rounded. -/
structure Estimate.ExactShares (size : Nat) : Prop where
  point : ∀ hits ≤ size, nearestCount
    (clampShare (Float.ofNat hits / Float.ofNat size) * Float.ofNat size) = hits
  share : ∀ hits ≤ size, 1.0 ≤ Float.ofNat hits / Float.ofNat size ↔ size ≤ hits

/-! ## Prompt answers -/

namespace Round

variable {watch : Watch ω}

/-- Where queries take no time, each is answered as it is asked for. -/
theorem fillSlots_atOnce (h : watch.AtOnce) (asked : List Handle) {r : Round ω}
    (hfree : r.free ≠ 0) : ∃ world answers, fillSlots watch asked [] r =
      { r with
        world, waiting := [], queries := Queries.add r.queries []
        answers := List.reverse answers ++ r.answers } ∧
      answers.map (·.1) = asked ∧ ∀ x ∈ answers, watch.Answers r.now x := by
  induction asked generalizing r with
  | nil => exact ⟨r.world, [], rfl, rfl, nofun⟩
  | cons handle rest ih =>
    rw [fillSlots_of_zero hfree (h ..)]
    let asked := watch.receipt r.now handle r.world
    let answered := asked.1.answer r.now asked.2
    obtain ⟨world, answers, hrest, hhandles, hanswers⟩ := ih (r := { r with
      world := answered.2, answers := (handle, answered.1) :: r.answers }) hfree
    refine ⟨world, (handle, answered.1) :: answers, hrest.trans ?_, congrArg _ hhandles,
      List.forall_mem_cons.mpr ⟨⟨r.world, asked.2, rfl⟩, hanswers⟩⟩
    rw [List.reverse_cons, List.append_assoc, List.singleton_append]

/-- A round in which queries take no time ends when it begins, and is not cut off. -/
theorem run_atOnce (h : watch.AtOnce) (limit : Nat) (deadline now : Instant) (asked : List Handle)
    (w : ω) : ∃ world answers, run watch limit deadline now asked w = (some answers, now, world) ∧
      answers.map (·.1) = asked ∧ ∀ x ∈ answers, watch.Answers now x := by
  let first : Round ω := { now, world := w, free := max limit 1, waiting := asked }
  have hfree : first.free ≠ 0 := Nat.ne_of_gt (Nat.le_max_right ..)
  obtain ⟨world, answers, hfilled, hhandles, hanswers⟩ := fillSlots_atOnce h asked hfree
  have hrests : Rests deadline (fillSlots watch asked [] first) := by
    rw [hfilled]
    intro q hq
    simp [Queries.add, first] at hq
  refine ⟨world, answers, ?_, hhandles, hanswers⟩
  unfold run
  dsimp only
  rw [goOn_of_rests _ hrests, hfilled]
  simp [isComplete, first]

/-- A round with prompt answers ends when it begins. -/
theorem run_prompt (h : watch.Prompt handles receiptAt) (limit : Nat) (deadline now : Instant)
    (asked : List Handle) (w : ω) : ∃ world, run watch limit deadline now asked w =
      (some (asked.map fun handle => (handle, receiptAt now handle)), now, world) := by
  obtain ⟨world, answers, hrun, rfl, hanswers⟩ := run_atOnce h.latency limit deadline now asked w
  refine ⟨world, hrun.trans ?_⟩
  have hsame : answers.map (fun x => (x.1, receiptAt now x.1)) = answers := by
    refine (List.map_congr_left fun x hx => ?_).trans (List.map_id answers)
    obtain ⟨asked, w, hanswer⟩ := hanswers x hx
    rw [← h.answer, ← hanswer]
    rfl
  rw [List.map_map]
  exact congrArg (fun answers => (some answers, now, world)) hsame.symm

end Round

namespace Attempt

/-- Of answers by handle a list has those for the handles that were asked for. -/
theorem inclusionIn_map (observedAt : Instant) (answer : Handle → Answer (Option Receipt))
    (asked : List Handle) (handle : Handle) :
    inclusionIn observedAt (asked.map fun handle => (handle, answer handle)) handle =
      if handle ∈ asked then inclusionIn observedAt [(handle, answer handle)] handle else none := by
  induction asked with
  | nil => rfl
  | cons other rest ih =>
    rw [List.map_cons, inclusionIn_cons, ih]
    by_cases heq : other = handle
    · subst heq
      cases inclusionIn observedAt [(other, answer other)] other <;> simp
    · have hother : inclusionIn observedAt [(other, answer other)] handle = none :=
        Option.not_isSome_iff_eq_none.mp fun hsome =>
          heq (by simpa using mem_of_inclusionIn hsome : handle = other).symm
      simp [hother, Ne.symm heq]

end Attempt

namespace Sightings

/-- Every new inclusion counts once. -/
theorem size_takeAll (s : Sightings) (observedAt : Instant)
    (answers : List (Handle × Answer (Option Receipt))) :
    (s.takeAll observedAt answers).1.included.size =
      s.included.size + (s.takeAll observedAt answers).2.1 := by
  have htake : ∀ (acc : Sightings × Nat × Nat) (x : Handle × Answer (Option Receipt)),
      acc.1.included.size = s.included.size + acc.2.1 →
        (take observedAt acc x).1.included.size =
          s.included.size + (take observedAt acc x).2.1 := by
    intro acc x hacc
    obtain ⟨asked, answer⟩ := x
    unfold take
    match answer with
    | .ok none => exact hacc
    | .error _ => exact hacc
    | .ok (some receipt) =>
      dsimp only
      split
      · exact hacc
      · rename_i hnew
        rw [Std.HashMap.size_insert, if_neg (by simpa using hnew), hacc, Nat.add_assoc]
  have hfold : ∀ acc : Sightings × Nat × Nat, acc.1.included.size = s.included.size + acc.2.1 →
      (answers.foldl (take observedAt) acc).1.included.size =
        s.included.size + (answers.foldl (take observedAt) acc).2.1 := by
    induction answers with
    | nil => exact fun _ hacc => hacc
    | cons x answers ih => exact fun acc hacc => ih _ (htake acc x hacc)
  exact hfold (s, 0, 0) rfl

/-- As many handles of a list have been seen as there are sightings, if all that were seen are in it. -/
theorem length_filter_has (s : Sightings) {sample : List Handle} (hnodup : sample.Nodup)
    (hall : ∀ handle, (s.included[handle]?).isSome → handle ∈ sample) :
    (sample.filter s.has).length = s.included.size := by
  rw [← Std.HashMap.length_keys]
  apply List.Perm.length_eq
  rw [List.perm_ext_iff_of_nodup (hnodup.filter _) Std.HashMap.nodup_keys]
  intro handle
  rw [List.mem_filter, Std.HashMap.mem_keys, Std.HashMap.mem_iff_contains]
  refine ⟨fun h => h.2, fun hhas => ⟨hall handle ?_, hhas⟩⟩
  rw [Std.HashMap.isSome_getElem?_eq_contains]
  exact hhas

/-- Whatever is seen was asked for. -/
theorem mem_of_takeAll {s : Sightings} {observedAt : Instant} {all asked : List Handle}
    {answer : Handle → Answer (Option Receipt)} (hasked : asked ⊆ all)
    (hall : ∀ handle, (s.included[handle]?).isSome → handle ∈ all) {handle : Handle}
    (h : ((s.takeAll observedAt
      (asked.map fun handle => (handle, answer handle))).1.included[handle]?).isSome) :
    handle ∈ all := by
  rw [included_takeAll, Option.isSome_or, Bool.or_eq_true] at h
  rcases h with hbefore | hnew
  · exact hall handle hbefore
  · apply hasked
    simpa using Attempt.mem_of_inclusionIn hnew

/-- Asking again for what was seen changes nothing in the sightings. -/
theorem takeAll_equiv {s t : Sightings} (h : s.included.Equiv t.included) {all rest : List Handle}
    (hrest : ∀ handle, handle ∈ rest ↔ handle ∈ all ∧ t.has handle = false) (observedAt : Instant)
    (answer : Handle → Answer (Option Receipt)) :
    (s.takeAll observedAt (all.map fun handle => (handle, answer handle))).1.included.Equiv
      (t.takeAll observedAt (rest.map fun handle => (handle, answer handle))).1.included := by
  refine Std.HashMap.Equiv.of_forall_getElem?_eq fun handle => ?_
  rw [included_takeAll, included_takeAll, h.getElem?_eq, Attempt.inclusionIn_map,
    Attempt.inclusionIn_map]
  cases hseen : t.included[handle]? with
  | some inclusion => rfl
  | none =>
    have hnew : t.has handle = false := by simpa [has] using hseen
    simp [hrest, hnew]

end Sightings

namespace Estimate

variable {config : PollConfig} {s : Sightings} {size : Nat}

/-- A round that asks for everything ends a poll just if all has been seen. -/
theorem verdict_counted (config : PollConfig) (s : Sightings) (tracked included : Nat) :
    Poll.verdict? config s (counted tracked included) =
      if s.included.size = tracked then some .complete else none := rfl

/-- A sample of everything is estimated as it is. -/
theorem sampled_all (h : ExactShares size) (hsize : size ≠ 0) {hits : Nat} (hhits : hits ≤ size) :
    let e := sampled size size hits hits
    e.tracked = size ∧ e.exact = false ∧ e.included = hits := by
  unfold sampled
  rw [if_neg (by simp [hsize])]
  refine ⟨rfl, rfl, ?_⟩
  change max (nearestCount _) hits = hits
  rw [h.point hits hhits, Nat.max_self]

/-- A sample of everything ends a poll just if all has been seen. -/
theorem verdict_sampled (h : ExactShares size) (hsize : size ≠ 0)
    (hthreshold : config.completionThreshold = 1.0) (hseen : s.included.size ≤ size) :
    Poll.verdict? config s (sampled size size s.included.size s.included.size) =
      if s.included.size = size then some .complete else none := by
  obtain ⟨htracked, hexact, hincluded⟩ := sampled_all h hsize hseen
  unfold Poll.verdict? fraction
  rw [htracked, hexact, hincluded, if_pos (Nat.pos_of_ne_zero hsize), hthreshold]
  by_cases hall : s.included.size = size
  · rw [if_pos hall, if_pos hall]
  · have hless : ¬(1.0 : Float) ≤ Float.ofNat s.included.size / Float.ofNat size := by
      rw [h.share _ hseen]
      omega
    rw [if_neg hall, if_neg hall, if_neg (by simp [hless])]

end Estimate

namespace Poll

variable {watch : Watch ω} {exhaustive sampling config : PollConfig} {started deadline : Instant}
  {p q : Poll ω}

/-- A sample as large as the set has all of its handles, in some order. -/
theorem sampleOf_perm (hcap : handles.size ≤ config.sampleCap) (hnodup : handles.toList.Nodup)
    (p : Poll ω) : (sampleOf config handles p).Perm handles.toList := by
  obtain ⟨honce, hsubset, hlength⟩ := sampleOf_spec config hnodup p
  rw [Nat.min_eq_right hcap] at hlength
  exact (List.subperm_of_subset honce hsubset).perm_of_length_le (Nat.le_of_eq hlength.symm)

/-- What a round with prompt answers does. -/
theorem round_prompt (h : watch.Prompt handles receiptAt) (config : PollConfig)
    (started deadline : Instant) (q : Poll ω) :
    let chosen := q.choose config handles
    let taken := q.sightings.takeAll q.now
      (chosen.2.1.map fun handle => (handle, receiptAt q.now handle))
    let after := (q.round config watch started deadline).2
    (q.round config watch started deadline).1 =
      verdict? config taken.1 (estimateOf handles taken.1 taken.2.1 chosen.1) ∧
    after.now = q.now ∧ after.shutdown = q.shutdown ∧ after.tick = q.tick ∧
    after.sightings = taken.1 ∧ after.rounds.length = q.rounds.length + 1 := by
  intro chosen taken after
  obtain ⟨world, hrun⟩ := Round.run_prompt h config.maxQueries deadline q.now chosen.2.1 q.world
  obtain ⟨summary, hround⟩ : ∃ summary, q.round config watch started deadline =
      (verdict? config taken.1 (estimateOf handles taken.1 taken.2.1 chosen.1),
        { q with
          world, words := chosen.2.2, sightings := taken.1
          estimate := estimateOf handles taken.1 taken.2.1 chosen.1
          rounds := summary :: q.rounds }) := by
    unfold round
    rw [h.handles, h.isSealed]
    dsimp only
    rw [hrun]
    exact ⟨_, rfl⟩
  rw [show after = _ from congrArg Prod.snd hround, hround]
  exact ⟨rfl, rfl, rfl, rfl, rfl, rfl⟩

/-- Have two polls come to the same point, and seen the same? -/
structure Alike (handles : Array Handle) (p q : Poll ω) : Prop where
  now : p.now = q.now
  shutdown : p.shutdown = q.shutdown
  tick : p.tick = q.tick
  seen : p.sightings.included.Equiv q.sightings.included
  tracked : ∀ handle, (q.sightings.included[handle]?).isSome → handle ∈ handles.toList
  rounds : p.rounds.length = q.rounds.length

namespace Alike

theorem await (h : p.Alike handles q) (watch : Watch ω) (interval deadline : Instant) :
    (p.await watch interval deadline).1 = (q.await watch interval deadline).1 ∧
      (p.await watch interval deadline).2.Alike handles (q.await watch interval deadline).2 := by
  unfold Poll.await
  rw [h.now, h.shutdown, h.tick]
  dsimp only
  split
  · exact ⟨rfl, rfl, rfl, rfl, h.seen, h.tracked, h.rounds⟩
  · split
    · exact ⟨rfl, rfl, rfl, rfl, h.seen, h.tracked, h.rounds⟩
    · exact ⟨rfl, rfl, rfl, rfl, h.seen, h.tracked, h.rounds⟩

/-- A round that asks for all handles and one with a sample of all of them see the same. -/
theorem round (h : p.Alike handles q) (hwatch : watch.Prompt handles receiptAt)
    (hconfig : sampling.SamplesAll exhaustive handles.size)
    (hshares : Estimate.ExactShares handles.size) (hnodup : handles.toList.Nodup)
    (started deadline : Instant) :
    (p.round exhaustive watch started deadline).1 = (q.round sampling watch started deadline).1 ∧
      (p.round exhaustive watch started deadline).2.Alike handles
        (q.round sampling watch started deadline).2 := by
  let sample := sampleOf sampling handles q
  have hsample : sample.Perm handles.toList := sampleOf_perm hconfig.cap hnodup q
  let rest := sample.filter fun handle => !q.sightings.has handle
  have hrest : ∀ handle, handle ∈ rest ↔ handle ∈ handles.toList ∧ q.sightings.has handle = false :=
    fun handle => by rw [List.mem_filter, hsample.mem_iff, Bool.not_eq_true']
  -- what both have seen after the round
  let answer := receiptAt q.now
  let seen := p.sightings.takeAll q.now (handles.toList.map fun handle => (handle, answer handle))
  let sampled := q.sightings.takeAll q.now (rest.map fun handle => (handle, answer handle))
  have hseen : seen.1.included.Equiv sampled.1.included :=
    Sightings.takeAll_equiv h.seen hrest q.now answer
  have htracked : ∀ handle, (sampled.1.included[handle]?).isSome → handle ∈ handles.toList :=
    fun handle => Sightings.mem_of_takeAll (fun handle hhandle => ((hrest handle).mp hhandle).1)
      h.tracked
  have hcount : (sample.filter q.sightings.has).length + sampled.2.1 = sampled.1.included.size := by
    rw [Sightings.size_takeAll, q.sightings.length_filter_has (hsample.nodup_iff.mpr hnodup)]
    exact fun handle hsome => hsample.mem_iff.mpr (h.tracked handle hsome)
  have hsize : sampled.1.included.size ≤ handles.size := by
    rw [← sampled.1.length_filter_has hnodup htracked, ← Array.length_toList]
    exact List.length_filter_le ..
  obtain ⟨hall, hnow, hshutdown, htick, hsightings, hrounds⟩ :=
    round_prompt hwatch exhaustive started deadline p
  obtain ⟨hpart, hnow', hshutdown', htick', hsightings', hrounds'⟩ :=
    round_prompt hwatch sampling started deadline q
  obtain ⟨hscope, hasked⟩ := choose_of_lt hconfig.beyond q
  rw [choose_of_le hconfig.exhaustive, h.now] at hall hsightings
  rw [hasked] at hpart hsightings'
  rw [hscope, Nat.min_eq_right hconfig.cap] at hpart
  constructor
  · rw [hall, hpart]
    change verdict? exhaustive seen.1 (.counted ..) =
      verdict? sampling sampled.1 (.sampled _ _ (_ + sampled.2.1) _)
    rw [Estimate.verdict_counted, hcount, Estimate.verdict_sampled hshares
      (Nat.ne_of_gt (Nat.zero_lt_of_lt hconfig.beyond)) hconfig.threshold hsize, hseen.size_eq]
  · refine ⟨?_, ?_, ?_, ?_, ?_, ?_⟩
    · rw [hnow, hnow', h.now]
    · rw [hshutdown, hshutdown', h.shutdown]
    · rw [htick, htick', h.tick]
    · rw [hsightings, hsightings']
      exact hseen
    · rw [hsightings']
      exact htracked
    · rw [hrounds, hrounds', h.rounds]

theorem roundsUntilDone (h : p.Alike handles q) (hwatch : watch.Prompt handles receiptAt)
    (hconfig : sampling.SamplesAll exhaustive handles.size)
    (hshares : Estimate.ExactShares handles.size) (hnodup : handles.toList.Nodup)
    (started deadline : Instant) (left : Nat) :
    (Poll.roundsUntilDone exhaustive watch started deadline left p).1 =
        (Poll.roundsUntilDone sampling watch started deadline left q).1 ∧
      (Poll.roundsUntilDone exhaustive watch started deadline left p).2.Alike handles
        (Poll.roundsUntilDone sampling watch started deadline left q).2 := by
  induction left generalizing p q with
  | zero => exact ⟨rfl, h⟩
  | succ left ih =>
    obtain ⟨houtcome, hawaited⟩ := h.await watch exhaustive.interval deadline
    unfold Poll.roundsUntilDone
    rw [hconfig.interval]
    generalize p.await watch exhaustive.interval deadline = waited at houtcome hawaited
    generalize q.await watch exhaustive.interval deadline = waited' at houtcome hawaited
    obtain ⟨outcome, p⟩ := waited
    obtain ⟨outcome', q⟩ := waited'
    obtain rfl : outcome = outcome' := houtcome
    cases outcome with
    | some status => exact ⟨rfl, hawaited⟩
    | none =>
      obtain ⟨hverdict, hmade⟩ := hawaited.round hwatch hconfig hshares hnodup started deadline
      dsimp only
      generalize p.round exhaustive watch started deadline = made at hverdict hmade
      generalize q.round sampling watch started deadline = made' at hverdict hmade
      obtain ⟨verdict, p⟩ := made
      obtain ⟨verdict', q⟩ := made'
      obtain rfl : verdict = verdict' := hverdict
      cases verdict with
      | some status => exact ⟨rfl, hmade⟩
      | none => exact ih hmade

end Alike

/-- A poll of a list without repetitions, whose samples have all of the list and whose threshold asks for
all of it, ends as one that asks for every handle in every round: with the same status, after the same
number of rounds, and with the same records. This holds for all random words and signals, where the ledger
answers at once by the handle and the time, and the quotients of the estimate are exact. -/
theorem sampling_agrees (hwatch : watch.Prompt handles receiptAt) (hnodup : handles.toList.Nodup)
    (hconfig : sampling.SamplesAll exhaustive handles.size)
    (hshares : Estimate.ExactShares handles.size) (now : Instant) (shutdown : Shutdown) (world : ω)
    (words words' : WordStream) :
    let e := ending exhaustive watch now shutdown world words
    let e' := ending sampling watch now shutdown world words'
    let r := report watch now e.1 e.2
    let r' := report watch now e'.1 e'.2
    (exhaustive.interval ≠ 0 →
      (words = exhaustive.words →
        start exhaustive watch now shutdown world = .ok (r, e.2)) ∧
      (words' = sampling.words →
        start sampling watch now shutdown world = .ok (r', e'.2))) ∧
    r'.status = r.status ∧ r'.records = r.records ∧ r'.heights = r.heights ∧
    r'.unresolved = r.unresolved ∧ r'.reverted = r.reverted ∧ r'.rounds.length = r.rounds.length := by
  intro e e' r r'
  have hfresh : (fresh now shutdown world words).Alike handles (fresh now shutdown world words') :=
    ⟨rfl, rfl, rfl, .refl _, by simp [fresh], rfl⟩
  obtain ⟨hstatus, hend⟩ : e.1 = e'.1 ∧ e.2.Alike handles e'.2 := by
    have hall := hfresh.roundsUntilDone hwatch hconfig hshares hnodup now
      (now + exhaustive.timeout) (exhaustive.timeout / exhaustive.interval + 2)
    unfold e e' ending
    rw [hconfig.interval, hconfig.timeout]
    exact hall
  have hrecords : r'.records = r.records := by
    change records (watch.handles ..).toList e'.2.sightings e'.2.now =
      records (watch.handles ..).toList e.2.sightings e.2.now
    rw [hwatch.handles, hwatch.handles, records_eq hnodup, records_eq hnodup, hend.now]
    simp only [hend.seen.getElem?_eq]
  refine ⟨fun hinterval => ⟨?_, ?_⟩, hstatus.symm, hrecords, ?_, ?_, ?_, ?_⟩
  · rintro rfl
    exact start_eq watch now shutdown world hinterval
  · rintro rfl
    exact start_eq watch now shutdown world (hconfig.interval ▸ hinterval)
  · unfold PollReport.heights PollReport.inclusions
    rw [hrecords]
  · unfold PollReport.unresolved PollReport.verified PollReport.inclusions
    rw [hrecords]
  · unfold PollReport.reverted PollReport.inclusions
    rw [hrecords]
  · change e'.2.rounds.reverse.length = e.2.rounds.reverse.length
    rw [List.length_reverse, List.length_reverse, hend.rounds]

end Poll

/-- Three handles on a ledger on which everything is included at once. -/
def Watch.promptly : Watch Scripted.State := .fixed (.scripted .prompt) #[1, 2, 3]

/-- Every handle in every round. -/
def PollConfig.everySecond (threshold : Float) : PollConfig :=
  { interval := seconds 1, timeout := seconds 10, completionThreshold := threshold }

/-- Samples of everything. -/
def PollConfig.inSamples : PollConfig :=
  { everySecond 1.0 with samplingThreshold := 2, sampleCap := 5, seed := some 7 }

theorem Estimate.exactShares_three : ExactShares 3 :=
  ⟨by decide +kernel, by decide +kernel⟩

namespace Poll

set_option maxRecDepth 4000 in
theorem first_everySecond (threshold : Float) (words : WordStream) :
    let q := (fresh 0 .never {} words).atTick (.everySecond threshold) .promptly
    let a := q.attempt (.everySecond threshold) .promptly (0 + (PollConfig.everySecond threshold).timeout)
    (a.isSealed, a.handles, a.answers.isSome) = (true, [1, 2, 3], true) ∧
      ([1, 2, 3] : List Handle).all (fun handle => (firstSighting [a] handle).isSome) := by
  cbv

theorem complete_everySecond (threshold : Float) (words : WordStream) :
    (ending (.everySecond threshold) .promptly 0 .never {} words).1 = .complete := by
  let q := (fresh 0 .never {} words).atTick (.everySecond threshold) .promptly
  let a := q.attempt (.everySecond threshold) .promptly (0 + (PollConfig.everySecond threshold).timeout)
  obtain ⟨rest, hrounds⟩ := history_eq_cons (.everySecond threshold) .promptly 0 {} words
    (show seconds 10 ≠ 0 by decide) (show Shutdown.never.seenAt 0 = false from rfl)
  have hgoes := goes_ending (.everySecond threshold) .promptly 0 .never {} words
  obtain ⟨hfirst, hseen⟩ := first_everySecond threshold words
  simp only [Prod.mk.injEq] at hfirst
  obtain ⟨hsealed, hhandles, hanswers⟩ := hfirst
  have hrounds : history _ _ _ _ _ _ = [] ++ a :: rest := hrounds
  refine (hgoes.complete (saw_fresh ..) hrounds hanswers hsealed ?_ fun handle => ⟨?_, ?_⟩).2
  · rw [hhandles]
    decide
  · intro hsome
    rw [List.nil_append, firstSighting_concat] at hsome
    exact mem_of_sighting hsome
  · intro hhandle
    rw [hhandles] at hhandle
    exact List.all_eq_true.mp hseen handle hhandle

/-- Samples of all three handles find them in any order, and the first ends the poll. -/
theorem sampling_agrees_promptly :
    let e := ending .inSamples .promptly 0 .never {} (.ofSeed 7)
    let e' := ending (.everySecond 1.0) .promptly 0 .never {} (.ofSeed 0)
    e.1 = .complete ∧
      (report .promptly 0 e.1 e.2).records = (report .promptly 0 e'.1 e'.2).records := by
  intro e e'
  have hwatch : Watch.promptly.Prompt #[1, 2, 3] Scripted.Script.prompt.receipt :=
    Watch.prompt_scripted rfl _
  have hconfig : PollConfig.inSamples.SamplesAll (.everySecond 1.0) 3 :=
    ⟨rfl, rfl, by decide, by decide, by decide, rfl⟩
  obtain ⟨-, hstatus, hrecords, -⟩ :=
    sampling_agrees hwatch (by decide) hconfig Estimate.exactShares_three 0 .never {} (.ofSeed 0)
      (.ofSeed 7)
  refine ⟨?_, hrecords⟩
  simp only [report, complete_everySecond] at hstatus
  exact hstatus

end Poll

end Throughput
