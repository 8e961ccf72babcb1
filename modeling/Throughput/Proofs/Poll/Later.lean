import Mathlib.Data.List.Count
import Mathlib.Logic.Relation
import Throughput.Poll.Phase
import Throughput.Proofs.Schedule

/-!
# What a poll does to its world

A poll changes the world that it watches only by letting time go by and by its queries, and its clock
never goes back. A round that is not cut off has one answer to each of its queries.
-/

namespace Throughput

variable {ω : Type} {watch : Watch ω} {W : ω → Prop} {x₀ : Instant × ω}

namespace Watch

/-- What may happen to a world that is watched. -/
inductive Step (watch : Watch ω) : Instant × ω → Instant × ω → Prop
  | advance {now limit : Instant} (h : now ≤ limit) (w : ω) :
    watch.Step (now, w) (limit, watch.advance limit w)
  | receipt (now : Instant) (handle : Handle) (w : ω) :
    watch.Step (now, w) (now, (watch.receipt now handle w).2)
  /-- A query is answered that was made before in any world. -/
  | answer {asked now : Instant} (h : asked ≤ now) (handle : Handle) (before w : ω) :
    watch.Step (now, w) (now, ((watch.receipt asked handle before).1.answer now w).2)

/-- Can one world become another while it is watched? -/
def Later (watch : Watch ω) : Instant × ω → Instant × ω → Prop := Relation.ReflTransGen watch.Step

namespace Later

variable {x y z : Instant × ω}

theorem refl (x : Instant × ω) : watch.Later x x := Relation.ReflTransGen.refl

theorem trans (h : watch.Later x y) (h' : watch.Later y z) : watch.Later x z :=
  Relation.ReflTransGen.trans h h'

theorem step (h : watch.Later x y) (h' : watch.Step y z) : watch.Later x z :=
  Relation.ReflTransGen.tail h h'

/-- What every step keeps is kept. -/
theorem keeps {P : Instant × ω → Prop} (hstep : ∀ x y, watch.Step x y → P x → P y)
    (h : watch.Later x y) (hx : P x) : P y := by
  induction h with
  | refl => exact hx
  | tail _ hlast ih => exact hstep _ _ hlast ih

theorem now_le (h : watch.Later x y) : x.1 ≤ y.1 := by
  refine h.keeps (P := fun y => x.1 ≤ y.1) (fun y z hstep hle => ?_) (Nat.le_refl _)
  cases hstep with
  | advance hlimit => exact Nat.le_trans hle hlimit
  | receipt => exact hle
  | answer => exact hle

end Later

/-- Is a property of worlds kept by time and by queries? -/
structure Keeps (watch : Watch ω) (W : ω → Prop) : Prop where
  advance : ∀ {w}, W w → ∀ limit, W (watch.advance limit w)
  receipt : ∀ {w}, W w → ∀ now handle, W (watch.receipt now handle w).2
  /-- The answer to a query, whenever that was made. -/
  receiptAnswer : ∀ {w}, W w → ∀ asked handle before now,
    W ((watch.receipt asked handle before).1.answer now w).2

theorem Keeps.later (h : watch.Keeps W) {x y : Instant × ω} (hxy : watch.Later x y) (hx : W x.2) :
    W y.2 := by
  refine hxy.keeps (P := fun x => W x.2) (fun x y hstep hx => ?_) hx
  cases hstep with
  | advance => exact h.advance hx _
  | receipt => exact h.receipt hx ..
  | answer => exact h.receiptAnswer hx ..

end Watch

/-- Does the answer to a query come from the watched ledger, and not before the query was made? -/
def Query.Comes (watch : Watch ω) (q : Query ω) : Prop :=
  ∃ asked before, asked ≤ q.answersAt ∧ q.answer = (watch.receipt asked q.handle before).1.answer

theorem Queries.add_perm (queries : Queries ω) (started : List (Query ω)) :
    (Queries.add queries started).Perm (queries ++ started) :=
  perm_merge_mergeSort ..

/-- Newly started queries are collected the last first. -/
theorem Queries.add_reverse_perm (queries : Queries ω) (started : List (Query ω)) :
    (Queries.add queries started.reverse).Perm (queries ++ started) :=
  (Queries.add_perm ..).trans (started.reverse_perm.append_left _)

theorem Queries.length_add_reverse (queries : Queries ω) (started : List (Query ω)) :
    (Queries.add queries started.reverse).length = queries.length + started.length := by
  rw [(add_reverse_perm ..).length_eq, List.length_append]

/-- Are queries in the order of their answers, and is none of these overdue? -/
structure Queries.Scheduled (watch : Watch ω) (now : Instant) (queries : Queries ω) : Prop where
  ordered : queries.Pairwise fun p q => p.answersAt ≤ q.answersAt
  due : ∀ q ∈ queries, now ≤ q.answersAt
  comes : ∀ q ∈ queries, q.Comes watch

theorem Queries.Scheduled.nil (watch : Watch ω) (now : Instant) : Queries.Scheduled watch now [] :=
  ⟨.nil, nofun, nofun⟩

theorem Queries.Scheduled.add {now : Instant} {queries : Queries ω} {started : List (Query ω)}
    (h : queries.Scheduled watch now) (hdue : ∀ q ∈ started, now ≤ q.answersAt)
    (hcomes : ∀ q ∈ started, q.Comes watch) : (Queries.add queries started).Scheduled watch now := by
  have hmem : ∀ q ∈ Queries.add queries started, q ∈ queries ∨ q ∈ started :=
    fun q hq => List.mem_append.mp ((Queries.add_perm queries started).mem_iff.mp hq)
  refine ⟨pairwise_merge_mergeSort _ started h.ordered, fun q hq => ?_, fun q hq => ?_⟩
  · exact (hmem q hq).elim (h.due q) (hdue q)
  · exact (hmem q hq).elim (h.comes q) (hcomes q)

namespace Round

variable {r : Round ω} {limit : Nat} {asked : List Handle}

/-- Has a round come from a world by time and by queries alone? -/
structure Reached (watch : Watch ω) (x₀ : Instant × ω) (r : Round ω) : Prop where
  later : watch.Later x₀ (r.now, r.world)
  queries : r.queries.Scheduled watch r.now

theorem fillSlots_reached (handles : List Handle) {started : List (Query ω)}
    (hdue : ∀ q ∈ started, r.now ≤ q.answersAt) (hcomes : ∀ q ∈ started, q.Comes watch)
    (hr : r.Reached watch x₀) : (fillSlots watch handles started r).Reached watch x₀ := by
  have hadd : ∀ (started : List (Query ω)) (r : Round ω), (∀ q ∈ started, r.now ≤ q.answersAt) →
      (∀ q ∈ started, q.Comes watch) → r.Reached watch x₀ →
      (Queries.add r.queries started.reverse).Scheduled watch r.now := by
    intro started r hdue hcomes hr
    apply hr.queries.add
    · exact fun q hq => hdue q (List.mem_reverse.mp hq)
    · exact fun q hq => hcomes q (List.mem_reverse.mp hq)
  induction handles generalizing started r with
  | nil => exact ⟨hr.later, hadd started r hdue hcomes hr⟩
  | cons handle rest ih =>
    have hasked := hr.later.step (.receipt r.now handle r.world)
    have hanswer : ∀ latency, Query.Comes watch
        ⟨handle, r.now + latency, (watch.receipt r.now handle r.world).1.answer⟩ :=
      fun latency => ⟨r.now, r.world, Nat.le_add_right .., rfl⟩
    unfold fillSlots
    split
    · exact ⟨hr.later, hadd started r hdue hcomes hr⟩
    · dsimp only
      split
      · apply ih
        · exact hdue
        · exact hcomes
        · exact ⟨hasked, hr.queries⟩
      · split
        · apply ih
          · exact hdue
          · exact hcomes
          · exact ⟨hasked.step (.answer (Nat.le_refl _) handle r.world _), hr.queries⟩
        · apply ih
          · exact List.forall_mem_cons.mpr ⟨Nat.le_add_right .., hdue⟩
          · exact List.forall_mem_cons.mpr ⟨hanswer _, hcomes⟩
          · exact ⟨hasked, hr.queries⟩

theorem takeAnswers_reached {queries : Queries ω} (hq : queries.Scheduled watch r.now)
    (hr : watch.Later x₀ (r.now, r.world)) : (takeAnswers queries r).Reached watch x₀ := by
  induction queries generalizing r with
  | nil => exact ⟨hr, .nil ..⟩
  | cons q rest ih =>
    obtain ⟨-, hordered⟩ := List.pairwise_cons.mp hq.ordered
    obtain ⟨-, hdue⟩ := List.forall_mem_cons.mp hq.due
    obtain ⟨⟨asked, before, hasked, hanswer⟩, hcomes⟩ := List.forall_mem_cons.mp hq.comes
    unfold takeAnswers
    split
    · rename_i hnow
      have hstep := hr.step (.answer (Nat.le_trans hasked hnow) q.handle before r.world)
      rw [← hanswer] at hstep
      apply ih
      · exact ⟨hordered, hdue, hcomes⟩
      · exact hstep
    · exact ⟨hr, hq⟩

/-- A round after the answers that are due at an instant. -/
def turn (watch : Watch ω) (now : Instant) (r : Round ω) : Round ω :=
  let r := takeAnswers r.queries { r with now, world := watch.advance now r.world }
  fillSlots watch r.waiting [] r

/-- Is no answer to come before or at a deadline? -/
def Rests (deadline : Instant) (r : Round ω) : Prop := ∀ q ∈ r.queries.head?, deadline < q.answersAt

theorem rests_or_due (deadline : Instant) (r : Round ω) :
    r.Rests deadline ∨ ∃ q rest, r.queries = q :: rest ∧ q.answersAt ≤ deadline := by
  unfold Rests
  cases r.queries with
  | nil => exact .inl nofun
  | cons q rest =>
    rcases Nat.lt_or_ge deadline q.answersAt with hlate | hdue
    · exact .inl fun _ hq => Option.some.inj hq ▸ hlate
    · exact .inr ⟨q, rest, rfl, hdue⟩

theorem goOn_of_rests {deadline : Instant} (steps : Nat) (h : r.Rests deadline) :
    goOn watch deadline steps r = r := by
  cases steps with
  | zero => rfl
  | succ steps =>
    unfold goOn
    split
    · rfl
    · rename_i q rest hqueries
      exact if_pos (h q (by rw [hqueries]; rfl))

theorem goOn_of_due {deadline : Instant} {q : Query ω} {rest : Queries ω} (steps : Nat)
    (hqueries : r.queries = q :: rest) (hdue : q.answersAt ≤ deadline) :
    goOn watch deadline (steps + 1) r = goOn watch deadline steps (r.turn watch q.answersAt) := by
  rw [goOn, hqueries]
  dsimp only
  rw [if_neg (Nat.not_lt.mpr hdue)]
  unfold turn
  rw [hqueries]

/-- What every turn of a round keeps, the round keeps. -/
theorem goOn_keeps {deadline : Instant} {P : Round ω → Prop}
    (hturn : ∀ {r : Round ω} {q : Query ω} {rest : Queries ω}, r.queries = q :: rest →
      q.answersAt ≤ deadline → P r → P (r.turn watch q.answersAt))
    (steps : Nat) (hr : P r) : P (goOn watch deadline steps r) := by
  induction steps generalizing r with
  | zero => exact hr
  | succ steps ih =>
    rcases r.rests_or_due deadline with hrests | ⟨q, rest, hqueries, hdue⟩
    · rwa [goOn_of_rests _ hrests]
    · rw [goOn_of_due steps hqueries hdue]
      exact ih (hturn hqueries hdue hr)

/-- No answer is overdue. -/
theorem Reached.now_le (hr : r.Reached watch x₀) {q : Query ω} {rest : Queries ω}
    (hqueries : r.queries = q :: rest) : r.now ≤ q.answersAt :=
  hr.queries.due q (by simp [hqueries])

theorem Reached.turn (hr : r.Reached watch x₀) {q : Query ω} {rest : Queries ω}
    (hqueries : r.queries = q :: rest) : (r.turn watch q.answersAt).Reached watch x₀ := by
  have hfirst : ∀ p ∈ r.queries, q.answersAt ≤ p.answersAt := by
    have hordered := hr.queries.ordered
    rw [hqueries] at hordered ⊢
    exact List.forall_mem_cons.mpr ⟨Nat.le_refl _, (List.pairwise_cons.mp hordered).1⟩
  apply fillSlots_reached _ (by simp) (by simp)
  apply takeAnswers_reached
  · exact ⟨hr.queries.ordered, hfirst, hr.queries.comes⟩
  · exact hr.later.step (.advance (hr.now_le hqueries) r.world)

theorem goOn_reached (deadline : Instant) (steps : Nat) (hr : r.Reached watch x₀) :
    (goOn watch deadline steps r).Reached watch x₀ :=
  goOn_keeps (fun hqueries _ hr => hr.turn hqueries) steps hr

/-- What a round does to its world. -/
theorem run_later (watch : Watch ω) (limit : Nat) (deadline now : Instant) (handles : List Handle)
    (w : ω) : watch.Later (now, w) (run watch limit deadline now handles w).2 := by
  let start : Round ω := { now, world := w, free := max limit 1, waiting := handles }
  have hstart : start.Reached watch (now, w) := ⟨.refl _, .nil ..⟩
  have hfilled : (fillSlots watch handles [] start).Reached watch (now, w) :=
    fillSlots_reached handles (by simp) (by simp) hstart
  have hend := goOn_reached deadline handles.length hfilled
  unfold run
  dsimp only
  split
  · exact hend.later
  · exact hend.later.step (.advance (Nat.le_max_left ..) _)

/-- A round that is cut off lasts to the deadline. -/
theorem deadline_le_of_run {deadline now : Instant} {handles : List Handle} {w : ω}
    (h : (run watch limit deadline now handles w).1 = none) :
    deadline ≤ (run watch limit deadline now handles w).2.1 := by
  unfold run at h ⊢
  dsimp only at h ⊢
  split
  · rename_i hcomplete
    rw [if_pos hcomplete] at h
    nomatch h
  · exact Nat.le_max_right ..

/-- Is every handle that a round was asked for answered, in progress or waiting, and does every query
in progress have its slot? Some queries in progress are never answered. -/
def Covers (limit : Nat) (asked : List Handle) (r : Round ω) : Prop :=
  ∃ unanswered : List Handle,
    (r.answers.map (·.1) ++ (r.queries.map (·.handle) ++ (unanswered ++ r.waiting))).Perm asked ∧
      r.free + r.queries.length + unanswered.length = limit

theorem fillSlots_covers (handles : List Handle) {started : List (Query ω)}
    (unanswered : List Handle)
    (hperm : (r.answers.map (·.1) ++ (r.queries.map (·.handle) ++ started.map (·.handle) ++
      (unanswered ++ handles))).Perm asked)
    (hslots : r.free + r.queries.length + started.length + unanswered.length = limit) :
    (fillSlots watch handles started r).Covers limit asked := by
  have hadd : ∀ (started : List (Query ω)) (r : Round ω),
      ((Queries.add r.queries started.reverse).map (·.handle)).Perm
        (r.queries.map (·.handle) ++ started.map (·.handle)) := fun started r =>
    List.map_append ▸ (Queries.add_reverse_perm ..).map _
  induction handles generalizing started r unanswered with
  | nil =>
    refine ⟨unanswered, (((hadd started r).append_right _).append_left _).trans hperm, ?_⟩
    unfold fillSlots
    dsimp only
    rw [Queries.length_add_reverse]
    omega
  | cons handle rest ih =>
    unfold fillSlots
    split
    · refine ⟨unanswered, (((hadd started r).append_right _).append_left _).trans hperm, ?_⟩
      dsimp only
      rw [Queries.length_add_reverse]
      omega
    · -- each kind of call moves the handle to another part of the permutation
      rename_i hfree
      have hcount := List.perm_iff_count.mp hperm
      simp only [List.count_append, List.count_cons] at hcount
      dsimp only
      split
      · apply ih (handle :: unanswered)
        · refine List.perm_iff_count.mpr fun h => ?_
          have hh := hcount h
          simp only [List.count_append, List.count_cons]
          omega
        · simp only [List.length_cons]
          omega
      · split
        · apply ih unanswered
          · refine List.perm_iff_count.mpr fun h => ?_
            have hh := hcount h
            simp only [List.map_cons, List.count_append, List.count_cons]
            omega
          · exact hslots
        · apply ih unanswered
          · refine List.perm_iff_count.mpr fun h => ?_
            have hh := hcount h
            simp only [List.map_cons, List.count_append, List.count_cons]
            omega
          · simp only [List.length_cons]
            omega

theorem takeAnswers_covers {queries : Queries ω} (unanswered : List Handle)
    (hperm : (r.answers.map (·.1) ++ (queries.map (·.handle) ++ (unanswered ++ r.waiting))).Perm
      asked)
    (hslots : r.free + queries.length + unanswered.length = limit) :
    (takeAnswers queries r).Covers limit asked := by
  induction queries generalizing r with
  | nil => exact ⟨unanswered, hperm, hslots⟩
  | cons q rest ih =>
    unfold takeAnswers
    split
    · apply ih
      · exact (List.perm_middle.symm.trans hperm :)
      · rw [List.length_cons] at hslots
        dsimp only
        omega
    · exact ⟨unanswered, hperm, hslots⟩

theorem Covers.turn (hr : r.Covers limit asked) (now : Instant) :
    (r.turn watch now).Covers limit asked := by
  obtain ⟨unanswered, hperm, hslots⟩ := hr
  obtain ⟨unanswered, hperm, hslots⟩ := takeAnswers_covers
    (r := { r with now, world := watch.advance now r.world }) unanswered hperm hslots
  apply fillSlots_covers _ unanswered
  · simpa using hperm
  · simpa using hslots

theorem goOn_covers (watch : Watch ω) (deadline : Instant) (steps : Nat)
    (hr : r.Covers limit asked) : (goOn watch deadline steps r).Covers limit asked :=
  goOn_keeps (fun _ _ hr => hr.turn _) steps hr

theorem isComplete_iff : r.isComplete limit = true ↔ r.free = limit ∧ r.waiting = [] := by
  rw [isComplete, Bool.and_eq_true, beq_iff_eq, List.isEmpty_iff]

/-- A round that is not cut off has one answer for each handle that it asked for. -/
theorem answers_perm {deadline now : Instant} {handles : List Handle} {w : ω}
    {answers : List (Handle × Answer (Option Receipt))}
    (h : (run watch limit deadline now handles w).1 = some answers) :
    (answers.map (·.1)).Perm handles := by
  let start : Round ω := { now, world := w, free := max limit 1, waiting := handles }
  have hfilled : (fillSlots watch handles [] start).Covers (max limit 1) handles :=
    fillSlots_covers handles [] (.refl _) rfl
  obtain ⟨unanswered, hperm, hslots⟩ := goOn_covers watch deadline handles.length hfilled
  unfold run at h
  dsimp only at h
  split at h
  · rename_i hcomplete
    obtain ⟨hfree, hwaiting⟩ := isComplete_iff.mp hcomplete
    -- all slots are free again, so nothing is in progress
    generalize goOn watch deadline handles.length (fillSlots watch handles [] start) = r at *
    have hidle : r.queries.length = 0 ∧ unanswered.length = 0 := by omega
    have hqueries := List.length_eq_zero_iff.mp hidle.1
    have hnone := List.length_eq_zero_iff.mp hidle.2
    have hanswers : r.answers.reverse = answers := Option.some.inj h
    rw [hqueries, hnone, hwaiting] at hperm
    rw [← hanswers, List.map_reverse]
    exact (List.reverse_perm _).trans (by simpa using hperm)
  · nomatch h

end Round

namespace Poll

/-- The instant of a poll and its world. -/
def place (p : Poll ω) : Instant × ω := (p.now, p.world)

theorem round_later (config : PollConfig) (watch : Watch ω) (started deadline : Instant)
    (p : Poll ω) : watch.Later p.place (p.round config watch started deadline).2.place := by
  have hround := Round.run_later watch config.maxQueries deadline p.now
    (p.choose config (watch.handles p.now p.world)).2.1 p.world
  unfold round
  dsimp only
  split <;> exact hround

theorem await_later (watch : Watch ω) (interval deadline : Instant) (p : Poll ω) :
    watch.Later p.place (p.await watch interval deadline).2.place := by
  have hstay : watch.Later p.place p.place := .refl _
  have hstep := hstay.step (.advance (p.shutdown.le_wait p.now (min p.tick deadline)) p.world)
  unfold await
  dsimp only
  split
  · exact hstep
  · split <;> exact hstep

theorem roundsUntilDone_later (config : PollConfig) (watch : Watch ω) (started deadline : Instant)
    (left : Nat) (p : Poll ω) :
    watch.Later p.place (roundsUntilDone config watch started deadline left p).2.place := by
  induction left generalizing p with
  | zero => exact .refl _
  | succ left ih =>
    have hawait := await_later watch config.interval deadline p
    unfold roundsUntilDone
    split
    · rename_i heq
      rwa [heq] at hawait
    · rename_i q heq
      rw [heq] at hawait
      have hround := hawait.trans (round_later config watch started deadline q)
      split
      · rename_i heq
        rwa [heq] at hround
      · rename_i heq
        rw [heq] at hround
        exact hround.trans (ih _)

/-- What a whole poll does to its world. -/
theorem run_later (config : PollConfig) (watch : Watch ω) (now : Instant) (shutdown : Shutdown)
    (w : ω) : watch.Later (now, w) (run config watch now shutdown w).2.place :=
  roundsUntilDone_later config watch now (now + config.timeout)
    (config.timeout / config.interval + 2) { now, shutdown, world := w, tick := now, words := _ }

theorem run_keeps (h : watch.Keeps W) (config : PollConfig) (now : Instant) (shutdown : Shutdown)
    {w : ω} (hw : W w) : W (run config watch now shutdown w).2.world :=
  h.later (run_later config watch now shutdown w) hw

end Poll

end Throughput
