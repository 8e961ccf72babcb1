import Throughput.Proofs.Poll.Rounds
import Throughput.Proofs.Poll.Verdict
import Throughput.Proofs.Random.Sample

/-!
# The queries that a poll may make

A round over few handles asks for each of them once. A round over many asks for those of a sample that
have not been seen included. No more queries are in progress at once than the limit allows, and the
summaries count the queries that were made.
-/

namespace Throughput

variable {ω : Type}

namespace QueryLog

variable {α : Type}

theorem asks_flatMap (rounds : List α) (log : α → QueryLog) :
    asks (rounds.flatMap log) = rounds.flatMap fun a => (log a).asks := by
  unfold asks
  rw [List.filterMap_flatMap]

/-- If all rounds but the last leave no query in progress, the limit of each round is kept throughout. -/
theorem within_flatMap {limit : Nat} {rounds : List α} {log : α → QueryLog}
    (hwithin : ∀ a ∈ rounds, (log a).Within limit)
    (hdone : ∀ a ∈ rounds.dropLast, (log a).answers = (log a).asks.length) :
    Within limit (rounds.flatMap log) := by
  induction rounds with
  | nil => exact .nil _
  | cons a rest ih =>
    obtain ⟨hfirst, hrest⟩ := List.forall_mem_cons.mp hwithin
    cases rest with
    | nil => simpa using hfirst
    | cons b rest =>
      rw [List.dropLast_cons_cons, List.forall_mem_cons] at hdone
      rw [List.flatMap_cons]
      refine hfirst.append (ih hrest hdone.2) ?_
      rw [hdone.1]

end QueryLog

/-- However a poll draws, its samples have the sizes that it asks for. -/
theorem PollConfig.isDraw_draw (config : PollConfig) {length amount : Nat} (h : amount ≤ length)
    (words : WordStream) :
    Sample.IsDraw length amount ((config.draw length amount).run words).1.toList := by
  unfold draw
  split
  · rename_i sampler _
    exact sampler.isDraw h words
  · exact Sample.isDraw_indices h words

namespace Poll

variable {config : PollConfig} {watch : Watch ω} {started deadline : Instant} {p q last : Poll ω}
  {rounds earlier past rest : List (Attempt ω)} {a : Attempt ω} {status : PollStatus}
  {handles : Array Handle}

/-! ## Samples -/

/-- The sample that a poll draws of a set. -/
def sampleOf (config : PollConfig) (handles : Array Handle) (p : Poll ω) : List Handle :=
  let size := min config.sampleCap handles.size
  ((config.draw handles.size size).run p.words).1.toList.filterMap fun i => handles[i]?

theorem choose_of_le (h : handles.size ≤ config.samplingThreshold) (p : Poll ω) :
    p.choose config handles = (.all, handles.toList, p.words) := if_pos h

theorem choose_of_lt (h : config.samplingThreshold < handles.size) (p : Poll ω) :
    let sample := sampleOf config handles p
    (p.choose config handles).1 =
      .sample (min config.sampleCap handles.size) (sample.filter p.sightings.has).length ∧
    (p.choose config handles).2.1 = sample.filter fun handle => !p.sightings.has handle := by
  unfold choose
  rw [if_neg (Nat.not_le.mpr h)]
  simp only [List.partition_eq_filter_filter]
  exact ⟨rfl, rfl⟩

/-- A sample has no handle twice. -/
theorem sampleOf_spec (config : PollConfig) (hnodup : handles.toList.Nodup) (p : Poll ω) :
    let sample := sampleOf config handles p
    sample.Nodup ∧ sample ⊆ handles.toList ∧
      sample.length = min config.sampleCap handles.size := by
  have hdraw := config.isDraw_draw (Nat.min_le_right config.sampleCap handles.size) p.words
  unfold sampleOf
  dsimp only
  generalize ((config.draw handles.size (min config.sampleCap handles.size)).run
    p.words).1.toList = drawn at hdraw
  refine ⟨hdraw.nodup.filterMap fun i j handle hi hj => ?_, fun handle hhandle => ?_, ?_⟩
  · rw [Option.mem_def, ← Array.getElem?_toList] at hi hj
    exact (List.getElem?_inj (List.getElem?_eq_some_iff.mp hi).1 hnodup).mp (hi.trans hj.symm)
  · obtain ⟨i, -, hi⟩ := List.mem_filterMap.mp hhandle
    exact Array.mem_toList_iff.mpr (Array.mem_of_getElem? hi)
  · rw [List.length_filterMap_eq_countP, ← hdraw.size, List.countP_eq_length]
    exact fun i hi => by simpa using hdraw.lt i hi

/-- A round asks for no handle twice: for all of few handles, and of many for those of a sample that have
not been seen. -/
theorem asked_spec (config : PollConfig) (watch : Watch ω) (deadline : Instant) {q : Poll ω}
    (hnodup : (q.attempt config watch deadline).handles.Nodup) :
    let a := q.attempt config watch deadline
    a.asked.Nodup ∧ (a.handles.length ≤ config.samplingThreshold → a.asked = a.handles) ∧
      (config.samplingThreshold < a.handles.length →
        a.asked.length ≤ min config.sampleCap a.handles.length ∧
          ∀ handle ∈ a.asked, q.sightings.included[handle]? = none) := by
  intro a
  let handles := watch.handles q.now q.world
  have hsize : a.handles.length = handles.size := Array.length_toList
  rw [hsize]
  by_cases hfew : handles.size ≤ config.samplingThreshold
  · have hasked : a.asked = a.handles := congrArg (·.2.1) (choose_of_le hfew q)
    exact ⟨hasked ▸ hnodup, fun _ => hasked, fun hmany => absurd hfew (Nat.not_le.mpr hmany)⟩
  · have hmany := Nat.lt_of_not_le hfew
    have hasked : a.asked = (sampleOf config handles q).filter fun handle => !q.sightings.has handle :=
      (choose_of_lt hmany q).2
    obtain ⟨honce, -, hlength⟩ := sampleOf_spec config hnodup q
    refine ⟨hasked ▸ honce.filter _, fun h => absurd h hfew, fun _ => ⟨?_, fun handle hhandle => ?_⟩⟩
    · rw [hasked, ← hlength]
      exact List.length_filter_le ..
    · rw [hasked] at hhandle
      simpa [Sightings.has] using (List.mem_filter.mp hhandle).2

/-- If no round is cut off, each has a summary that says how many handles it asked for. -/
theorem Saw.queried (h : p.Saw started rounds) (hfinished : ∀ a ∈ rounds, a.answers.isSome) :
    p.rounds.reverse.map (·.queried) = rounds.map (·.asked.length) := by
  have hfigures := congrArg (List.map (·.2.2.1)) h.rounds
  rw [List.map_map, List.map_filterMap] at hfigures
  refine hfigures.trans ?_
  rw [← List.filterMap_eq_map]
  refine List.filterMap_congr fun a ha => ?_
  obtain ⟨answers, hanswers⟩ := Option.isSome_iff_exists.mp (hfinished a ha)
  simp [Attempt.summary?, hanswers]

namespace Goes

/-- What a poll has seen where it makes a round. -/
theorem saw (h : Goes config watch started deadline p rounds status last)
    (hsaw : p.Saw started earlier) (hrounds : rounds = past ++ a :: rest) :
    ∃ q : Poll ω, q.Saw started (earlier ++ past) ∧ a = q.attempt config watch deadline := by
  induction h generalizing earlier past with
  | waited => simp at hrounds
  | exhausted => simp at hrounds
  | @ended p q status hawait hround =>
    obtain ⟨rfl, ha⟩ := List.append_eq_singleton_iff.mp hrounds.symm |>.resolve_right (by simp)
    obtain ⟨rfl, rfl⟩ := List.cons.inj ha
    rw [List.append_nil]
    exact ⟨q, hsaw.await hawait, rfl⟩
  | @another p q last _ status hawait hround hrest ih =>
    cases past with
    | nil =>
      obtain ⟨rfl, -⟩ := List.cons.inj hrounds
      rw [List.append_nil]
      exact ⟨q, hsaw.await hawait, rfl⟩
    | cons b past =>
      obtain ⟨rfl, htail⟩ := List.cons.inj hrounds
      obtain ⟨q, hq, ha⟩ := ih (hsaw.await hawait).round htail
      rw [List.append_assoc] at hq
      exact ⟨q, hq, ha⟩

/-- Only the last round can be cut off. -/
theorem finished (h : Goes config watch started deadline p rounds status last) :
    ∀ a ∈ rounds.dropLast, a.answers.isSome := by
  intro a ha
  have hne : rounds ≠ [] := fun hnone => by simp [hnone] at ha
  obtain ⟨before, after, hsplit⟩ := List.append_of_mem ha
  have hrounds := List.dropLast_append_getLast hne
  rw [hsplit, List.append_assoc, List.cons_append] at hrounds
  by_contra hcut
  have hlast := (h.cut hrounds.symm (by simpa using hcut)).1
  simp at hlast

end Goes

/-- A poll over a growing set asks in no round for a handle twice. A round over no more handles than the
threshold that is not cut off asks for all of them. A round over more asks for handles of its snapshot
alone that no earlier round has seen included, and for no more of them than the cap allows. No more
queries are in progress at once than the limit, of which zero stands for one. If no round is cut off, as
many queries are made as the summaries tell. -/
theorem queries_within_budget (config : PollConfig) (watch : Watch ω) (now : Instant)
    (shutdown : Shutdown) (world : ω) (words : WordStream) (hgrows : watch.Grows (now, world)) :
    let e := ending config watch now shutdown world words
    let rounds := history config watch now shutdown world words
    let log : QueryLog := rounds.flatMap (·.log config watch (now + config.timeout))
    let report := report watch now e.1 e.2
    ending config watch.logged now shutdown (world, []) words = (e.1, e.2.withLog log) ∧
    (∀ past a rest, rounds = past ++ a :: rest →
      let asked := (a.log config watch (now + config.timeout)).asks.map (·.2)
      asked.Nodup ∧ asked ⊆ a.handles ∧
      (a.handles.length ≤ config.samplingThreshold → a.answers.isSome → asked = a.handles) ∧
      (config.samplingThreshold < a.handles.length →
        asked.length ≤ min config.sampleCap a.handles.length ∧
          ∀ handle ∈ asked, firstSighting past handle = none)) ∧
    log.Within (max config.maxQueries 1) ∧
    ((∀ a ∈ rounds, a.answers.isSome) →
      log.asks.length = (report.rounds.map (·.queried)).sum) := by
  intro e rounds log report
  have hgoes : Goes config watch now (now + config.timeout) (fresh now shutdown world words) rounds
      e.1 e.2 := goes_ending config watch now shutdown world words
  refine ⟨ending_logged .., fun past a rest hrounds => ?_, ?_, fun hfinished => ?_⟩
  · have ha : a ∈ rounds := by simp [hrounds]
    have hasks := (hgoes.tells ha).asks
    have hcomplete := (hgoes.tells ha).complete
    have hnodup := nodup_handles hgrows hgoes ha
    obtain ⟨q, hsaw, rfl⟩ := hgoes.saw (saw_fresh now shutdown world words) hrounds
    obtain ⟨honce, hfew, hmany⟩ := asked_spec config watch (now + config.timeout) hnodup
    refine ⟨honce.sublist hasks.sublist, List.Subset.trans hasks.subset asked_attempt,
      fun hle hfinished => (hcomplete hfinished).1.trans (hfew hle), fun hlt => ?_⟩
    obtain ⟨hlength, hnew⟩ := hmany hlt
    refine ⟨Nat.le_trans hasks.length_le hlength, fun handle hhandle => ?_⟩
    have hseen := hsaw.included handle
    rw [hnew handle (hasks.subset hhandle)] at hseen
    exact hseen.symm
  · exact QueryLog.within_flatMap (fun a ha => (hgoes.tells ha).within) fun a ha =>
      ((hgoes.tells (List.dropLast_subset _ ha)).complete (hgoes.finished a ha)).2
  · have hqueried : report.rounds.map (·.queried) = rounds.map (·.asked.length) :=
      (saw_ending config watch now shutdown world words).queried hfinished
    rw [hqueried, QueryLog.asks_flatMap, List.length_flatMap]
    congr 1
    refine List.map_congr_left fun a ha => ?_
    rw [← ((hgoes.tells ha).complete (hfinished a ha)).1, List.length_map]

end Poll

/-- Samples of one. -/
def PollConfig.ofOneEach : PollConfig :=
  { interval := seconds 1, timeout := milliseconds 2500, samplingThreshold := 1, sampleCap := 1
    maxQueries := 1 }

/-- A poll that starts with two handles asks for at most one of them at first, and never makes a query
before the last has been answered. -/
theorem Poll.queries_within_budget_ofOneEach : ∃ first rest,
    history .ofOneEach .ofThree 0 .never () (.ofSeed 0) = first :: rest ∧ first.handles = [1, 2] ∧
      (first.log .ofOneEach .ofThree (0 + milliseconds 2500)).asks.length ≤ 1 ∧
      QueryLog.Within 1
        ((first :: rest).flatMap (·.log .ofOneEach .ofThree (0 + milliseconds 2500))) := by
  have hgrows : Watch.ofThree.Grows (0, ()) :=
    Watch.growing_grows _ [(0, #[1, 2]), (seconds 1, #[3])] none _ (by decide)
  obtain ⟨-, hbudget, hwithin, -⟩ :=
    queries_within_budget .ofOneEach .ofThree 0 .never () (.ofSeed 0) hgrows
  let q := (fresh 0 .never () (.ofSeed 0)).atTick .ofOneEach .ofThree
  obtain ⟨rest, hrounds⟩ := history_eq_cons .ofOneEach .ofThree 0 () (.ofSeed 0) (by decide)
    (show Shutdown.never.seenAt 0 = false from rfl)
  have hhandles :
      (q.attempt .ofOneEach .ofThree (0 + PollConfig.ofOneEach.timeout)).handles = [1, 2] := by
    rw [handles_attempt]
    change (Watch.ofThree.handles (max 0 0) ()).toList = _
    decide
  rw [hrounds] at hbudget hwithin
  obtain ⟨-, -, -, hsampled⟩ := hbudget [] _ _ rfl
  rw [hhandles] at hsampled
  have hfew := (hsampled (show 1 < 2 by decide)).1
  rw [List.length_map] at hfew
  exact ⟨_, _, hrounds, hhandles, hfew, hwithin⟩

end Throughput
