import Mathlib.Data.List.Dedup
import Throughput.Proofs.Poll.Sampled

/-!
# Handles that come again

A list of handles may have a handle more than once. A poll counts such a handle as often as it comes, but
sees it once: it never ends as complete, and what comes again of the handle is unresolved.
-/

namespace Throughput

variable {σ : Type} {ledger : Ledger σ} {handles handles' : Array Handle}

namespace Poll

variable {config : PollConfig} {started deadline : Instant} {p q : Poll σ}

/-! ## Records -/

theorem handles_records (handles : List Handle) (s : Sightings) (now : Instant) :
    (records handles s now).map (·.handle) = handles := by
  induction handles using List.reverseRecOn with
  | nil => rfl
  | append_singleton handles handle ih =>
    rw [records_concat, List.map_append, ih]
    rfl

/-- Each handle has a record in its place, with its sighting unless the handle has come before. -/
theorem records_split (earlier : List Handle) (handle : Handle) (rest : List Handle) (s : Sightings)
    (now : Instant) : ∃ before r after,
      records (earlier ++ handle :: rest) s now = before ++ r :: after ∧
      before.map (·.handle) = earlier ∧ r.handle = handle ∧ after.map (·.handle) = rest ∧
      r.inclusion = if handle ∈ earlier then none else s.included[handle]? := by
  induction rest using List.reverseRecOn with
  | nil => exact ⟨_, _, [], records_concat .., handles_records .., rfl, rfl, rfl⟩
  | append_singleton rest last ih =>
    obtain ⟨before, r, after, hrecords, hbefore, hhandle, hafter, hinclusion⟩ := ih
    rw [← List.cons_append, ← List.append_assoc, records_concat, hrecords, List.append_assoc,
      List.cons_append]
    refine ⟨before, r, _, rfl, hbefore, hhandle, ?_, hinclusion⟩
    rw [List.map_append, hafter]
    rfl

/-- Whatever is reported included has been seen. -/
theorem seen_of_included (handles : List Handle) (s : Sightings) (now : Instant) :
    ∀ r ∈ records handles s now, r.inclusion.isSome → (s.included[r.handle]?).isSome := by
  induction handles using List.reverseRecOn with
  | nil => exact nofun
  | append_singleton handles handle ih =>
    rw [records_concat]
    intro r hr hsome
    rcases List.mem_append.mp hr with hr | hr
    · exact ih r hr hsome
    · obtain rfl := List.mem_singleton.mp hr
      dsimp only at hsome ⊢
      split at hsome
      · nomatch hsome
      · exact hsome

/-- Whatever has been seen is reported included just if it does not come again. -/
theorem included_of_seen_iff (handles : List Handle) (s : Sightings) (now : Instant) :
    (∀ r ∈ records handles s now, (s.included[r.handle]?).isSome → r.inclusion.isSome) ↔
      (handles.filter fun handle => (s.included[handle]?).isSome).Nodup := by
  induction handles using List.reverseRecOn with
  | nil => simp [records]
  | append_singleton handles handle ih =>
    rw [records_concat, List.forall_mem_append, List.forall_mem_singleton, ih, List.filter_append,
      List.nodup_append_comm]
    dsimp only
    cases hseen : s.included[handle]? with
    | none =>
      rw [List.filter_cons_of_neg (by rw [hseen]; exact Bool.false_ne_true), List.filter_nil,
        List.nil_append]
      exact and_iff_left nofun
    | some i =>
      rw [List.filter_cons_of_pos (by rw [hseen]; rfl), List.filter_nil, List.singleton_append,
        List.nodup_cons, List.mem_filter, hseen, and_comm]
      by_cases hmem : handle ∈ handles <;> simp [hmem]

/-- What some of a list are, and others may be, is as frequent just if no others are. -/
theorem countP_eq_countP_iff {l : List PollRecord} {p q : PollRecord → Bool}
    (h : ∀ r ∈ l, q r = true → p r = true) :
    l.countP p = l.countP q ↔ ∀ r ∈ l, p r = true → q r = true := by
  induction l with
  | nil => simp
  | cons r l ih =>
    obtain ⟨hfirst, hrest⟩ := List.forall_mem_cons.mp h
    have hle := List.countP_mono_left hrest
    rw [List.forall_mem_cons, ← ih hrest, List.countP_cons, List.countP_cons]
    cases hp : p r <;> grind

/-! ## Rounds that take no time -/

/-- An exact estimate ends a poll just if all has been seen. -/
theorem verdict_of_exact (config : PollConfig) (s : Sightings) {e : Estimate} (h : e.exact = true) :
    verdict? config s e = if s.included.size = e.tracked then some .complete else none := by
  unfold verdict?
  rw [h]
  rfl

/-- A round over a fixed list on a ledger that answers at once takes no time, and either ends the poll as
complete or does not end it. -/
theorem round_atOnce (hatOnce : (Watch.fixed ledger handles).AtOnce)
    (hall : handles.size ≤ config.samplingThreshold) (started deadline : Instant) (q : Poll σ) :
    let made := q.round config (.fixed ledger handles) started deadline
    (made.1 = some .complete ∨ made.1 = none) ∧ made.2.now = q.now ∧
      made.2.shutdown = q.shutdown ∧ made.2.tick = q.tick := by
  intro made
  obtain ⟨world, answers, hrun, -⟩ := Round.run_atOnce hatOnce config.maxQueries deadline q.now
    (q.choose config handles).2.1 q.world
  have hanswers : (q.attempt config (.fixed ledger handles) deadline).answers = some answers :=
    congrArg Prod.fst hrun
  have hended : (q.attempt config (.fixed ledger handles) deadline).endedAt = q.now :=
    congrArg (·.2.1) hrun
  obtain ⟨-, -, houtcome, -, hsampled⟩ := round_of_answers started hanswers
  obtain ⟨hnow, hshutdown, htick⟩ := round_end config (.fixed ledger handles) started deadline q
  have hexact : made.2.estimate.exact = true := by
    by_contra hnot
    exact absurd (hsampled (Bool.eq_false_of_not_eq_true hnot)) (Nat.not_lt.mpr hall)
  refine ⟨?_, hnow.trans hended, hshutdown, htick⟩
  rw [houtcome, verdict_of_exact config _ hexact]
  split
  · split
    · exact .inl rfl
    · exact .inr rfl
  · exact .inr rfl

/-- Have two polls come to the same point in time? -/
structure InStep (p q : Poll σ) : Prop where
  now : p.now = q.now
  shutdown : p.shutdown = q.shutdown
  tick : p.tick = q.tick

namespace InStep

theorem await (h : p.InStep q) (ledger : Ledger σ) (handles handles' : Array Handle)
    (interval deadline : Instant) :
    (p.await (.fixed ledger handles) interval deadline).1 =
        (q.await (.fixed ledger handles') interval deadline).1 ∧
      (p.await (.fixed ledger handles) interval deadline).2.InStep
        (q.await (.fixed ledger handles') interval deadline).2 := by
  unfold Poll.await
  rw [h.now, h.shutdown, h.tick]
  dsimp only
  split
  · exact ⟨rfl, rfl, rfl, rfl⟩
  · split <;> exact ⟨rfl, rfl, rfl, rfl⟩

/-- Of two polls in step, over different lists, neither of which ends as complete, both end alike. -/
theorem roundsUntilDone (h : p.InStep q) (hatOnce : (Watch.fixed ledger handles).AtOnce)
    (hall : handles.size ≤ config.samplingThreshold)
    (hall' : handles'.size ≤ config.samplingThreshold) (started deadline : Instant) (left : Nat) :
    let status := (Poll.roundsUntilDone config (.fixed ledger handles) started deadline left p).1
    let status' := (Poll.roundsUntilDone config (.fixed ledger handles') started deadline left q).1
    status ≠ .complete → status' ≠ .complete → status = status' := by
  induction left generalizing p q with
  | zero => exact fun _ _ => rfl
  | succ left ih =>
    obtain ⟨houtcome, hawaited⟩ := h.await ledger handles handles' config.interval deadline
    unfold Poll.roundsUntilDone
    generalize p.await (.fixed ledger handles) config.interval deadline = waited
      at houtcome hawaited
    generalize q.await (.fixed ledger handles') config.interval deadline = waited'
      at houtcome hawaited
    obtain ⟨outcome, p⟩ := waited
    obtain ⟨outcome', q⟩ := waited'
    obtain rfl : outcome = outcome' := houtcome
    cases outcome with
    | some status => exact fun _ _ => rfl
    | none =>
      obtain ⟨hfirst, hnow, hshutdown, htick⟩ := round_atOnce hatOnce hall started deadline p
      obtain ⟨hsecond, hnow', hshutdown', htick'⟩ :=
        round_atOnce (show (Watch.fixed ledger handles').AtOnce from hatOnce) hall' started deadline q
      dsimp only
      generalize p.round config (.fixed ledger handles) started deadline = made
        at hfirst hnow hshutdown htick
      generalize q.round config (.fixed ledger handles') started deadline = made'
        at hsecond hnow' hshutdown' htick'
      have hmade : made.2.InStep made'.2 :=
        ⟨by rw [hnow, hnow', hawaited.now], by rw [hshutdown, hshutdown', hawaited.shutdown],
          by rw [htick, htick', hawaited.tick]⟩
      obtain ⟨verdict, p⟩ := made
      obtain ⟨verdict', q⟩ := made'
      rcases hfirst with rfl | rfl
      · exact fun hnot => absurd rfl hnot
      · rcases hsecond with rfl | rfl
        · exact fun _ hnot => absurd rfl hnot
        · exact ih hmade

end InStep

/-- A poll of a fixed list ends as complete only if no handle comes again. -/
theorem nodup_of_complete {now : Instant} {shutdown : Shutdown} {s : σ} {words : WordStream}
    (h : (ending config (.fixed ledger handles) now shutdown s words).1 = .complete) :
    handles.toList.Nodup := by
  have hgoes := goes_ending config (.fixed ledger handles) now shutdown s words
  have hsaw := saw_ending config (.fixed ledger handles) now shutdown s words
  obtain ⟨-, hplaces, -⟩ := hgoes.places
  have hhandles : ∀ a ∈ history config (.fixed ledger handles) now shutdown s words,
      a.handles = handles.toList := by
    intro a ha
    obtain ⟨-, -, q, rfl⟩ := hplaces a ha
    exact handles_attempt
  obtain ⟨past, a, hrounds, -, -, hcomplete, -⟩ := hgoes.decided (.inl h)
  have hlength := hcomplete h
  rw [hhandles a (by simp [hrounds])] at hlength
  generalize ending config (.fixed ledger handles) now shutdown s words = e at hsaw hlength
  -- the sightings are of different handles of the list, and as many as the list has
  have hkeys : e.2.sightings.included.keys.Nodup := Std.HashMap.nodup_keys
  have hseen : e.2.sightings.included.keys ⊆ handles.toList := by
    intro handle hhandle
    rw [Std.HashMap.mem_keys, ← Std.HashMap.isSome_getElem?_iff_mem, hsaw.included] at hhandle
    obtain ⟨b, hb, hsome⟩ := List.findSome?_isSome_iff.mp hhandle
    rw [← hhandles b hb]
    obtain ⟨-, -, q, rfl⟩ := hplaces b hb
    exact mem_of_sighting hsome
  rw [← Std.HashMap.length_keys] at hlength
  have hperm := (List.subperm_of_subset hkeys hseen).perm_of_length_le (Nat.le_of_eq hlength.symm)
  exact hperm.nodup_iff.mp hkeys

/-- A poll that asks for a fixed list of handles on a ledger that answers at once ends as the poll of the
list without its repetitions, unless there are repetitions and that poll is complete: with a repetition a
poll is never complete. Each handle has a record in its place, as the first round has seen it that has,
but without an inclusion where it has come before. So all records of handles that were seen are included,
and only handles that were never seen count as unresolved, just if no handle comes again that was seen. -/
theorem repeats_decide (config : PollConfig) (ledger : Ledger σ) (handles : Array Handle)
    (now : Instant) (shutdown : Shutdown) (s : σ) (words : WordStream)
    (hatOnce : ∀ now handle s, (ledger.receipt now handle s).1.latency = some 0)
    (hall : handles.size ≤ config.samplingThreshold) :
    let watch := Watch.fixed ledger handles
    let watch' := Watch.fixed ledger handles.toList.dedup.toArray
    let e := ending config watch now shutdown s words
    let e' := ending config watch' now shutdown s words
    let report := report watch now e.1 e.2
    let first := firstSighting (history config watch now shutdown s words)
    let seen handle := (first handle).isSome
    (config.interval ≠ 0 → words = config.words →
      start config watch now shutdown s = .ok (report, e.2) ∧
      start config watch' now shutdown s = .ok (Poll.report watch' now e'.1 e'.2, e'.2)) ∧
    (e.1 = e'.1 ↔ handles.toList.Nodup ∨ e'.1 ≠ .complete) ∧
    (∀ earlier handle rest, handles.toList = earlier ++ handle :: rest → ∃ before r after,
      report.records = before ++ r :: after ∧
      before.map (·.handle) = earlier ∧ r.handle = handle ∧ after.map (·.handle) = rest ∧
      r.inclusion = if handle ∈ earlier then none else first handle) ∧
    ((∀ r ∈ report.records, seen r.handle → r.inclusion.isSome) ↔
      (handles.toList.filter seen).Nodup) ∧
    (report.unresolved = handles.toList.countP (!seen ·) ↔ (handles.toList.filter seen).Nodup) := by
  intro watch watch' e e' report first seen
  have hsaw : e.2.Saw now (history config watch now shutdown s words) :=
    saw_ending config watch now shutdown s words
  have hfirst : ∀ handle, e.2.sightings.included[handle]? = first handle := hsaw.included
  have hrecords : report.records = records handles.toList e.2.sightings e.2.now := rfl
  have hincluded : (∀ r ∈ report.records, seen r.handle → r.inclusion.isSome) ↔
      (handles.toList.filter seen).Nodup := by
    have hall := included_of_seen_iff handles.toList e.2.sightings e.2.now
    simp only [hfirst] at hall
    exact hall
  refine ⟨fun hinterval hwords => ?_, ?_, ?_, hincluded, ?_⟩
  · subst hwords
    exact ⟨start_eq watch now shutdown s hinterval, start_eq watch' now shutdown s hinterval⟩
  · have hsame : handles.toList.Nodup → e.1 = e'.1 := by
      intro hnodup
      unfold e e' watch watch'
      rw [hnodup.dedup, Array.toArray_toList]
    have hless : handles.toList.dedup.toArray.size ≤ config.samplingThreshold :=
      Nat.le_trans (List.dedup_sublist _).length_le hall
    have hfresh : (fresh now shutdown s words).InStep (fresh now shutdown s words) := ⟨rfl, rfl, rfl⟩
    have hboth : e.1 ≠ .complete → e'.1 ≠ .complete → e.1 = e'.1 :=
      hfresh.roundsUntilDone hatOnce hall hless now (now + config.timeout) _
    constructor
    · intro hequal
      by_cases hcomplete : e'.1 = .complete
      · exact .inl (nodup_of_complete (hequal.trans hcomplete))
      · exact .inr hcomplete
    · rintro (hnodup | hnot)
      · exact hsame hnodup
      · by_cases hcomplete : e.1 = .complete
        · exact hsame (nodup_of_complete hcomplete)
        · exact hboth hcomplete hnot
  · intro earlier handle rest hsplit
    rw [hrecords, hsplit, ← hfirst]
    exact records_split ..
  · have hhandles : handles.toList.countP (!seen ·) = report.records.countP (!seen ·.handle) := by
      rw [← handles_records handles.toList e.2.sightings e.2.now, List.countP_map]
      rfl
    have hunresolved : report.unresolved = report.records.countP (·.inclusion.isNone) := by
      have hsum := report.verified_add_unresolved
      rw [report.verified_eq,
        List.length_eq_countP_add_countP (fun r : PollRecord => r.inclusion.isSome)] at hsum
      simpa [← Option.isNone_iff_eq_none] using hsum
    have hunseen : ∀ r ∈ report.records, (!seen r.handle) = true → r.inclusion.isNone = true := by
      intro r hr hnot
      have hseen := seen_of_included handles.toList e.2.sightings e.2.now r hr
      rw [hfirst] at hseen
      cases hi : r.inclusion with
      | none => rfl
      | some i => simp [seen, hseen (by rw [hi]; rfl)] at hnot
    rw [← hincluded, hunresolved, hhandles, countP_eq_countP_iff hunseen]
    refine forall₂_congr fun r _ => ?_
    cases r.inclusion <;> simp

end Poll

/-- Three handles, one of them twice, on a ledger on which everything is included at once. -/
def Watch.twice : Watch Scripted.State := .fixed (.scripted .prompt) #[1, 1, 2, 3]

namespace Poll

set_option maxRecDepth 4000 in
theorem sighting_twice (threshold : Float) (words : WordStream) :
    let q := (fresh 0 .never {} words).atTick (.everySecond threshold) .twice
    let a := q.attempt (.everySecond threshold) .twice (0 + (PollConfig.everySecond threshold).timeout)
    (a.sighting? 1).isSome = true := by
  cbv

/-- The poll of the list without the repetition is complete. The poll of the list is not, and has a handle
as unresolved that it has seen included in its first round. -/
theorem repeats_decide_twice :
    let e := ending (.everySecond 0.95) .twice 0 .never {} (.ofSeed 0)
    let e' := ending (.everySecond 0.95) .promptly 0 .never {} (.ofSeed 0)
    e.1 ≠ .complete ∧ e'.1 = .complete ∧
      (firstSighting (history (.everySecond 0.95) .twice 0 .never {} (.ofSeed 0)) 1).isSome ∧
      ∃ r ∈ (report .twice 0 e.1 e.2).records, r.handle = 1 ∧ r.inclusion = none := by
  intro e e'
  have hcomplete : e'.1 = .complete := complete_everySecond 0.95 (.ofSeed 0)
  obtain ⟨-, hstatus, hrecords, -⟩ := repeats_decide (.everySecond 0.95) (.scripted .prompt)
    #[1, 1, 2, 3] 0 .never {} (.ofSeed 0) (fun _ _ _ => rfl) (by decide)
  change e.1 = e'.1 ↔ _ at hstatus
  obtain ⟨rest, hrounds⟩ := history_eq_cons (.everySecond 0.95) .twice 0 {} (.ofSeed 0)
    (show seconds 10 ≠ 0 by decide) (show Shutdown.never.seenAt 0 = false from rfl)
  obtain ⟨before, r, after, hall, -, hhandle, -, hinclusion⟩ := hrecords [1] 1 [2, 3] rfl
  refine ⟨fun hboth => ?_, hcomplete, ?_, r, ?_, hhandle, hinclusion⟩
  · have hdistinct := hstatus.mp (hboth.trans hcomplete.symm)
    rcases hdistinct with hnodup | hnot
    · exact absurd hnodup (by decide)
    · exact hnot hcomplete
  · refine List.findSome?_isSome_iff.mpr ⟨_, ?_, sighting_twice 0.95 (.ofSeed 0)⟩
    rw [hrounds]
    exact List.mem_cons_self
  · rw [show (report .twice 0 e.1 e.2).records = before ++ r :: after from hall]
    simp

end Poll

end Throughput
