import Mathlib.Data.List.Flatten
import Mathlib.Data.List.Permutation
import Throughput.Proofs.Poll.Records
import Throughput.Scenario.Part

/-!
# The report of a poll

A poll reports each handle of its source as the first round has seen it that saw it included.
-/

namespace Throughput

variable {ω : Type}

/-- Does a set of watched handles only grow, and repeat none? -/
structure Watch.Grows (watch : Watch ω) (x₀ : Instant × ω) : Prop where
  nodup : ∀ {x}, watch.Later x₀ x → (watch.handles x.1 x.2).toList.Nodup
  grows : ∀ {x y}, watch.Later x₀ x → watch.Later x y →
    (watch.handles x.1 x.2).toList ⊆ (watch.handles y.1 y.2).toList

namespace Poll

variable {config : PollConfig} {watch : Watch ω} {started deadline : Instant} {p q last : Poll ω}
  {rounds : List (Attempt ω)} {status : PollStatus} {x₀ : Instant × ω}

theorem verdict_ne_timedOut {s : Sightings} {e : Estimate} :
    verdict? config s e ≠ some .timedOut := by
  unfold verdict?
  split
  · simp
  · split <;> simp

namespace Goes

/-- A poll that times out has come to its deadline. -/
theorem deadline_le (hinterval : config.interval ≠ 0)
    (h : Goes config watch started deadline p rounds .timedOut last) : deadline ≤ last.now := by
  generalize hstatus : PollStatus.timedOut = status at h
  induction h with
  | waited hawait =>
    subst hstatus
    unfold await at hawait
    dsimp only at hawait
    split at hawait
    · nomatch hawait
    · split at hawait
      · rename_i hle
        obtain ⟨-, rfl⟩ := Prod.mk.inj hawait
        exact hle
      · nomatch hawait
  | @ended p q status hawait hround =>
    subst hstatus
    cases hanswers : (q.attempt config watch deadline).answers with
    | none => exact (round_of_cut started hanswers).2.1
    | some answers =>
      obtain ⟨-, -, hverdict, -⟩ := round_of_answers started hanswers
      rw [hround] at hverdict
      split at hverdict
      · exact absurd hverdict.symm verdict_ne_timedOut
      · nomatch hverdict
  | another _ _ _ ih => exact ih hstatus
  | exhausted hzero => exact absurd hzero hinterval

/-- A round that is cut off is the last. -/
theorem cut (h : Goes config watch started deadline p rounds status last)
    {past rest : List (Attempt ω)} {a : Attempt ω} (hrounds : rounds = past ++ a :: rest)
    (hcut : a.answers = none) : rest = [] ∧ status = .timedOut := by
  induction h generalizing past with
  | waited => simp at hrounds
  | @ended p q status hawait hround =>
    obtain ⟨rfl, ha⟩ := List.append_eq_singleton_iff.mp hrounds.symm |>.resolve_right (by simp)
    obtain ⟨rfl, rfl⟩ := List.cons.inj ha
    have htimedOut := (round_of_cut started hcut).1
    exact ⟨rfl, Option.some.inj (hround.symm.trans htimedOut)⟩
  | @another p q last _ status hawait hround hrest ih =>
    cases past with
    | nil =>
      obtain ⟨rfl, -⟩ := List.cons.inj hrounds
      rw [(round_of_cut started hcut).1] at hround
      nomatch hround
    | cons b past => exact ih (List.cons.inj hrounds).2
  | exhausted => simp at hrounds

/-- The rounds of a poll follow one another in its world. -/
theorem places (h : Goes config watch started deadline p rounds status last) :
    watch.Later p.place last.place ∧
      (∀ a ∈ rounds, watch.Later p.place a.place ∧ watch.Later a.place last.place ∧
        ∃ q : Poll ω, a = q.attempt config watch deadline) ∧
      rounds.Pairwise fun a b => watch.Later a.place b.place := by
  have hawaits : ∀ {p q : Poll ω} {outcome : Option PollStatus},
      p.await watch config.interval deadline = (outcome, q) → watch.Later p.place q.place := by
    intro p q outcome hawait
    have hlater := await_later watch config.interval deadline p
    rwa [hawait] at hlater
  induction h with
  | waited hawait => exact ⟨hawaits hawait, nofun, .nil⟩
  | @ended p q status hawait hround =>
    have hbefore := hawaits hawait
    have hafter := round_later config watch started deadline q
    refine ⟨hbefore.trans hafter, fun a ha => ?_, List.pairwise_singleton ..⟩
    obtain rfl := List.mem_singleton.mp ha
    exact ⟨hbefore, hafter, q, rfl⟩
  | @another p q last _ status hawait hround hrest ih =>
    have hbefore := hawaits hawait
    have hafter := round_later config watch started deadline q
    obtain ⟨hlast, hplaces, hordered⟩ := ih
    refine ⟨hbefore.trans (hafter.trans hlast), fun a ha => ?_, ?_⟩
    · rcases List.mem_cons.mp ha with rfl | ha
      · exact ⟨hbefore, hafter.trans hlast, q, rfl⟩
      · obtain ⟨hfirst, hend, hmade⟩ := hplaces a ha
        exact ⟨hbefore.trans (hafter.trans hfirst), hend, hmade⟩
    · exact List.pairwise_cons.mpr ⟨fun a ha => hafter.trans (hplaces a ha).1, hordered⟩
  | exhausted => exact ⟨.refl _, nofun, .nil⟩

end Goes

section TakeEach

variable {step : List PollRecord × Std.HashMap Handle Inclusion → Handle →
    List PollRecord × Std.HashMap Handle Inclusion}
  (hothers : ∀ x handle other,
    (step x handle).2[other]? = if handle = other then none else x.2[other]?)

include hothers

/-- A fold that takes the entry of each handle out of a table leaves those of the other handles. -/
theorem getElem?_foldl_takeEach (handles : List Handle) (handle : Handle)
    (x : List PollRecord × Std.HashMap Handle Inclusion) :
    (handles.foldl step x).2[handle]? = if handle ∈ handles then none else x.2[handle]? := by
  induction handles generalizing x with
  | nil => rfl
  | cons other rest ih =>
    rw [List.foldl_cons, ih, hothers]
    by_cases heq : other = handle <;> simp [heq, @eq_comm _ handle]

/-- A handle that comes again finds its entry taken. -/
theorem foldl_takeEach_concat (record : Handle → Option Inclusion → PollRecord)
    (hrecord : ∀ x handle, (step x handle).1 = record handle x.2[handle]? :: x.1)
    (handles : List Handle) (handle : Handle)
    (x : List PollRecord × Std.HashMap Handle Inclusion) :
    ((handles ++ [handle]).foldl step x).1 =
      record handle (if handle ∈ handles then none else x.2[handle]?) ::
        (handles.foldl step x).1 := by
  rw [List.foldl_concat, hrecord, getElem?_foldl_takeEach hothers]

end TakeEach

/-- A handle has its sighting where it comes for the first time, and none where it comes again. -/
theorem records_concat (handles : List Handle) (handle : Handle) (s : Sightings) (now : Instant) :
    let found := if handle ∈ handles then none else s.included[handle]?
    records (handles ++ [handle]) s now =
      records handles s now ++ [⟨handle, found, (found.map (·.observedAt)).getD now⟩] := by
  intro found
  refine (congrArg List.reverse (foldl_takeEach_concat ?_ (fun handle found =>
    ⟨handle, found, (found.map (·.observedAt)).getD now⟩) ?_ handles handle
      ([], s.included))).trans List.reverse_cons
  · intro x handle other
    cases hfound : x.2[handle]? with
    | none =>
      simp only [hfound]
      split
      · rename_i heq
        rw [← heq, hfound]
      · rfl
    | some inclusion =>
      simp only [hfound]
      simp [Std.HashMap.getElem?_erase]
  · intro x handle
    cases hfound : x.2[handle]? with
    | none => simp only [hfound]; rfl
    | some inclusion => simp only [hfound]; rfl

/-- Of a list without repetitions each handle has its own sighting. -/
theorem records_eq {handles : List Handle} (hnodup : handles.Nodup) (s : Sightings)
    (now : Instant) :
    records handles s now = handles.map fun handle =>
      ⟨handle, s.included[handle]?, (s.included[handle]?.map (·.observedAt)).getD now⟩ := by
  induction handles using List.reverseRecOn with
  | nil => rfl
  | append_singleton handles handle ih =>
    rw [List.nodup_append_comm, List.singleton_append] at hnodup
    obtain ⟨hnew, hbefore⟩ := List.nodup_cons.mp hnodup
    rw [records_concat, ih hbefore, List.map_append, if_neg hnew]
    rfl

/-- The sightings of a poll are those of all of its rounds. -/
theorem saw_ending (config : PollConfig) (watch : Watch ω) (now : Instant) (shutdown : Shutdown)
    (world : ω) (words : WordStream) :
    (ending config watch now shutdown world words).2.Saw now
      (history config watch now shutdown world words) :=
  (saw_fresh now shutdown world words).ended (goes_ending config watch now shutdown world words)

/-- Each handle of the last snapshot is reported as the first round has seen it that has. -/
theorem records_ending (config : PollConfig) (shutdown : Shutdown) (words : WordStream)
    {now : Instant} {world : ω} (hgrows : watch.Grows (now, world)) :
    let e := ending config watch now shutdown world words
    let rounds := history config watch now shutdown world words
    (report watch now e.1 e.2).records =
      (watch.handles e.2.now e.2.world).toList.map fun handle => ⟨handle,
        firstSighting rounds handle,
        ((firstSighting rounds handle).map (·.observedAt)).getD e.2.now⟩ := by
  intro e rounds
  have hsaw : e.2.Saw now rounds := saw_ending config watch now shutdown world words
  have hlater := (goes_ending config watch now shutdown world words).places.1
  have hrecords := records_eq (hgrows.nodup hlater) e.2.sightings e.2.now
  simp only [hsaw.included] at hrecords
  exact hrecords

end Poll

namespace PollReport

/-- Neighbours that are equal are the only repetitions of a list in order. -/
theorem eraseReps_of_pairwise {heights : List UInt64} (h : heights.Pairwise (· ≤ ·)) :
    heights.eraseReps.Pairwise (· < ·) ∧ ∀ height, height ∈ heights.eraseReps ↔ height ∈ heights := by
  have hloop : ∀ (rest : List UInt64) (first : UInt64) (done : List UInt64),
      (first :: rest).Pairwise (· ≤ ·) → ∃ kept : List UInt64,
        List.eraseRepsBy.loop (· == ·) first rest done = done.reverse ++ first :: kept ∧
        (first :: kept).Pairwise (· < ·) ∧
        ∀ height, height ∈ first :: kept ↔ height ∈ first :: rest := by
    intro rest
    induction rest with
    | nil =>
      intro first done _
      exact ⟨[], List.reverse_cons .., List.pairwise_singleton .., fun _ => .rfl⟩
    | cons second rest ih =>
      intro first done hordered
      obtain ⟨hfirst, hrest⟩ := List.pairwise_cons.mp hordered
      unfold List.eraseRepsBy.loop
      by_cases heq : first = second
      · subst heq
        obtain ⟨kept, hkept, hstrict, hmem⟩ := ih first done hrest
        refine ⟨kept, by simpa using hkept, hstrict, fun height => ?_⟩
        rw [hmem height]
        simp
      · have hlt : first < second :=
          UInt64.lt_of_le_of_ne (hfirst second (List.mem_cons_self ..)) heq
        obtain ⟨kept, hkept, hstrict, hmem⟩ := ih second (first :: done) hrest
        refine ⟨second :: kept, ?_, ?_, fun height => ?_⟩
        · have hne : (first == second) = false := by simpa using heq
          simpa [hne] using hkept
        · refine List.pairwise_cons.mpr ⟨fun height hheight => ?_, hstrict⟩
          rcases List.mem_cons.mp hheight with rfl | hheight
          · exact hlt
          · exact UInt64.lt_trans hlt ((List.pairwise_cons.mp hstrict).1 height hheight)
        · rw [List.mem_cons, hmem height, ← List.mem_cons]
  cases heights with
  | nil => exact ⟨.nil, fun _ => .rfl⟩
  | cons first rest =>
    obtain ⟨kept, hkept, hstrict, hmem⟩ := hloop rest first [] h
    have heq : (first :: rest).eraseReps = first :: kept := hkept
    rw [heq]
    exact ⟨hstrict, hmem⟩

theorem heights_spec (r : PollReport) :
    r.heights.Pairwise (· < ·) ∧
      ∀ height, height ∈ r.heights ↔ ∃ i ∈ r.inclusions, i.block = height := by
  have hsorted : ((r.inclusions.map (·.block)).mergeSort (· ≤ ·)).Pairwise (· ≤ ·) := by
    have hbool : ((r.inclusions.map (·.block)).mergeSort (· ≤ ·)).Pairwise
        (fun x y => decide (x ≤ y) = true) := List.pairwise_mergeSort
      (fun x y z hxy hyz => by
        simp only [decide_eq_true_eq] at hxy hyz ⊢
        exact UInt64.le_trans hxy hyz)
      (fun x y => by
        simp only [Bool.or_eq_true, decide_eq_true_eq]
        exact UInt64.le_total x y) (r.inclusions.map (·.block))
    exact hbool.imp (by simp)
  obtain ⟨hstrict, hmem⟩ := eraseReps_of_pairwise hsorted
  refine ⟨hstrict, fun height => (hmem height).trans ?_⟩
  rw [List.mem_mergeSort, List.mem_map]

end PollReport

theorem PollReport.reverted_eq (r : PollReport) :
    r.reverted = r.records.countP fun record => record.inclusion.any (!·.succeeded) := by
  unfold reverted inclusions
  rw [← List.countP_eq_length_filter, List.countP_filterMap]
  congr 1
  funext record
  cases record.inclusion <;> rfl

theorem PollReport.verified_eq (r : PollReport) :
    r.verified = r.records.countP (·.inclusion.isSome) :=
  List.length_filterMap_eq_countP ..

theorem PollReport.verified_add_unresolved (r : PollReport) :
    r.verified + r.unresolved = r.records.length := by
  have hle : r.verified ≤ r.records.length := List.length_filterMap_le ..
  unfold unresolved
  omega

namespace Poll

/-- A poll at an interval that is not zero reports the handles of its source at its end, each with the
inclusion that the first round has seen that has seen one, and as observed at the end of that round;
the others are unresolved. All rounds but one that the deadline cut off have a summary, and the latter
ends the poll. The errors of the report are those of its summaries, its heights are the blocks of the
included records, and what is not verified is unresolved. -/
theorem report_first_sightings (config : PollConfig) (watch : Watch ω) (now : Instant)
    (shutdown : Shutdown) (world : ω) (words : WordStream) (hinterval : config.interval ≠ 0)
    (hgrows : watch.Grows (now, world)) :
    let e := ending config watch now shutdown world words
    let rounds := history config watch now shutdown world words
    let report := report watch now e.1 e.2
    let tracked := (watch.handles e.2.now e.2.world).toList
    (words = config.words →
      start config watch now shutdown world = .ok (report, e.2)) ∧
    report.records = tracked.map (fun handle => ⟨handle, firstSighting rounds handle,
      ((firstSighting rounds handle).map (·.observedAt)).getD e.2.now⟩) ∧
    (∀ a ∈ rounds, a.asked ⊆ a.handles ∧ a.handles ⊆ tracked ∧
      ∀ answers, a.answers = some answers → (answers.map (·.1)).Perm a.asked) ∧
    (∀ past rest a, rounds = past ++ a :: rest → a.answers = none →
      rest = [] ∧ report.status = .timedOut) ∧
    (report.status = .timedOut → now + config.timeout ≤ e.2.now) ∧
    report.rounds.map RoundSummary.figures = rounds.filterMap (·.summary? now) ∧
    report.queryErrors = (report.rounds.map (·.errors)).sum ∧
    report.heights.Pairwise (· < ·) ∧
    (∀ height, height ∈ report.heights ↔
      ∃ r ∈ report.records, ∃ i, r.inclusion = some i ∧ i.block = height) ∧
    report.reverted = report.records.countP (fun r => r.inclusion.any (!·.succeeded)) ∧
    report.verified = report.records.countP (·.inclusion.isSome) ∧
    report.verified + report.unresolved = report.records.length := by
  intro e rounds report tracked
  have hgoes : Goes config watch now (now + config.timeout) (fresh now shutdown world words) rounds
      e.1 e.2 := goes_ending config watch now shutdown world words
  obtain ⟨-, herrors, hrounds⟩ := saw_ending config watch now shutdown world words
  obtain ⟨-, hplaces, -⟩ := hgoes.places
  obtain ⟨hstrict, hheights⟩ := report.heights_spec
  refine ⟨?_, records_ending config shutdown words hgrows, ?_, ?_, ?_, hrounds, ?_, hstrict, ?_,
    report.reverted_eq, report.verified_eq, report.verified_add_unresolved⟩
  · rintro rfl
    unfold start
    rw [if_neg hinterval, run_eq]
  · intro a ha
    obtain ⟨hfirst, hlast, q, rfl⟩ := hplaces a ha
    rw [place_attempt] at hfirst hlast
    refine ⟨asked_attempt, ?_, fun answers => answers_attempt⟩
    rw [handles_attempt]
    exact hgrows.grows hfirst hlast
  · intro past rest a hsplit hcut
    exact hgoes.cut hsplit hcut
  · intro htimedOut
    change e.1 = .timedOut at htimedOut
    rw [htimedOut] at hgoes
    exact hgoes.deadline_le hinterval
  · rw [show report.rounds = e.2.rounds.reverse from rfl, List.map_reverse, List.sum_reverse]
    exact herrors
  · intro height
    rw [hheights height]
    unfold PollReport.inclusions
    simp only [List.mem_filterMap]
    constructor
    · rintro ⟨i, ⟨r, hr, hi⟩, hheight⟩
      exact ⟨r, hr, i, hi, hheight⟩
    · rintro ⟨r, hr, i, hi, hheight⟩
      exact ⟨i, ⟨r, hr, hi⟩, hheight⟩

end Poll

theorem Watch.fixed_grows {σ : Type} (ledger : Ledger σ) {handles : Array Handle}
    (h : handles.toList.Nodup) (x₀ : Instant × σ) : (Watch.fixed ledger handles).Grows x₀ :=
  ⟨fun _ => h, fun _ _ => List.Subset.refl _⟩

/-- A source that grows with the clock only grows, if no handle is listed twice. -/
theorem Watch.growing_grows {σ : Type} (ledger : Ledger σ) (batches : List (Instant × Array Handle))
    (sealAt : Option Instant) (x₀ : Instant × σ)
    (hnodup : (batches.flatMap (·.2.toList)).Nodup) :
    (Watch.growing ledger batches sealAt).Grows x₀ := by
  have hhandles : ∀ x : Instant × σ,
      ((Watch.growing ledger batches sealAt).handles x.1 x.2).toList =
        (batches.filter (·.1 ≤ x.1)).flatMap (·.2.toList) := by
    intro x
    have hfold : ∀ all : Array Handle, (batches.foldl
        (fun all entry => if entry.1 ≤ x.1 then all ++ entry.2 else all) all).toList =
          all.toList ++ (batches.filter (·.1 ≤ x.1)).flatMap (·.2.toList) := by
      clear hnodup
      induction batches with
      | nil => simp
      | cons entry rest ih =>
        intro all
        rw [List.foldl_cons, ih]
        by_cases hle : entry.1 ≤ x.1 <;> simp [hle]
    exact (hfold #[]).trans (List.nil_append _)
  refine ⟨fun {x} _ => ?_, fun {x y} _ hxy => ?_⟩
  · rw [hhandles]
    exact hnodup.sublist (List.filter_sublist.flatMap _)
  · rw [hhandles, hhandles]
    intro handle hhandle
    obtain ⟨entry, hentry, hmem⟩ := List.mem_flatMap.mp hhandle
    obtain ⟨hlisted, hle⟩ := List.mem_filter.mp hentry
    have hlater : entry.1 ≤ y.1 := Nat.le_trans (by simpa using hle) hxy.now_le
    exact List.mem_flatMap.mpr ⟨entry, List.mem_filter.mpr ⟨hlisted, by simpa using hlater⟩, hmem⟩

/-- A ledger whose receipts come late, vanish and fail. -/
def Ledger.wavering : Ledger Unit where
  submit _ _ s := (.pure 0 (.ok 0), s)
  sequenceNumber _ _ s := (.ok 0, s)
  balance _ _ s := (.ok 0, s)
  height _ s := (.ok 0, s)
  block _ _ s := (.ok none, s)
  receipt _ handle s := (⟨some (milliseconds 600), fun now s =>
    (if handle = 1 then if now < seconds 1 then .ok (some ⟨5, true⟩) else .ok none
      else if handle = 2 then
        if now < seconds 1 then .error (.transport "reset") else .ok (some ⟨6, false⟩)
      else .ok none, s)⟩, s)

/-- Two handles, and a third one second later. -/
def Watch.ofThree : Watch Unit := .growing .wavering [(0, #[1, 2]), (seconds 1, #[3])] none

/-- Three rounds, the last of which is cut off. -/
def PollConfig.ofThreeRounds (threshold : Float) : PollConfig :=
  { interval := seconds 1, timeout := milliseconds 2500, completionThreshold := threshold }

set_option maxRecDepth 4000 in
theorem Poll.firstSighting_wavering (threshold : Float) :
    ([1, 2, 3] : List Handle).map (firstSighting
        (history (.ofThreeRounds threshold) .ofThree 0 .never () (.ofSeed 0))) =
      [some ⟨5, true, milliseconds 600⟩, some ⟨6, false, milliseconds 1600⟩, none] := by
  cbv

set_option maxRecDepth 4000 in
theorem Poll.tracked_wavering (threshold : Float) :
    let e := ending (.ofThreeRounds threshold) .ofThree 0 .never () (.ofSeed 0)
    (Watch.ofThree.handles e.2.now e.2.world).toList = [1, 2, 3] := by
  cbv

/-- The first handle keeps the inclusion that has vanished, the second has the one that came after an
error, and the third is unresolved. -/
theorem Poll.report_first_sightings_wavering :
    let e := ending (.ofThreeRounds 0.95) .ofThree 0 .never () (.ofSeed 0)
    (report .ofThree 0 e.1 e.2).records.map (fun r => (r.handle, r.inclusion)) =
      [(1, some ⟨5, true, milliseconds 600⟩), (2, some ⟨6, false, milliseconds 1600⟩),
        (3, none)] := by
  intro e
  have hgrows : Watch.ofThree.Grows (0, ()) :=
    Watch.growing_grows _ [(0, #[1, 2]), (seconds 1, #[3])] none _ (by decide)
  obtain ⟨-, hrecords, -⟩ :=
    report_first_sightings (.ofThreeRounds 0.95) .ofThree 0 .never () (.ofSeed 0) (by decide) hgrows
  have htracked := tracked_wavering 0.95
  have hsightings := firstSighting_wavering 0.95
  dsimp only at hrecords htracked
  rw [hrecords, htracked]
  simp only [List.map_cons, List.map_nil, List.cons.injEq, and_true] at hsightings ⊢
  obtain ⟨hfirst, hsecond, hthird⟩ := hsightings
  rw [hfirst, hsecond, hthird]
  exact ⟨rfl, rfl, rfl⟩

end Throughput
