import Throughput.Proofs.Poll.Log

/-!
# The queries of a round

A round asks for its handles in order, as many at once as its limit allows. It asks for all of them
unless it is cut off, and it is cut off only at the deadline, with a query still in progress.
-/

namespace Throughput

variable {ω : Type} {watch : Watch ω} {deadline : Instant}

namespace Round

variable {r : Round ω} {limit : Nat} {asked : List Handle}

/-- Does nothing wait while a slot is free? -/
def Filled (r : Round ω) : Prop := r.waiting = [] ∨ r.free = 0

/-- Where a slot is free, nothing waits, so a round that is cut off has a query in progress. -/
theorem free_ne_of_cut (hlimit : 0 < limit) (hr : r.Filled) (hcut : r.isComplete limit ≠ true) :
    r.free ≠ limit := by
  intro hidle
  rcases hr with hnone | hfull
  · exact hcut (isComplete_iff.mpr ⟨hidle, hnone⟩)
  · exact absurd (hfull.symm.trans hidle) (Nat.ne_of_lt hlimit)

/-- How many handles have not been answered, not counting queries that never are. -/
def left (r : Round ω) : Nat := r.queries.length + r.waiting.length

theorem fillSlots_spec (watch : Watch ω) (handles : List Handle) (started : List (Query ω))
    (r : Round ω) :
    let filled := fillSlots watch handles started r
    filled.now = r.now ∧ filled.Filled ∧
      filled.left ≤ r.queries.length + started.length + handles.length := by
  induction handles generalizing started r with
  | nil => exact ⟨rfl, .inl rfl, Nat.le_of_eq (Queries.length_add_reverse r.queries started)⟩
  | cons handle rest ih =>
    by_cases hfree : r.free = 0
    · rw [fillSlots, if_pos hfree]
      refine ⟨rfl, .inr hfree, ?_⟩
      unfold left
      exact Nat.add_le_add_right (Nat.le_of_eq (Queries.length_add_reverse r.queries started)) _
    · cases hlatency : (watch.receipt r.now handle r.world).1.latency with
      | none =>
        rw [fillSlots_of_none hfree hlatency]
        obtain ⟨hnow, hfilled, hleft⟩ := ih started _
        exact ⟨hnow, hfilled, Nat.le_succ_of_le hleft⟩
      | some latency =>
        by_cases hzero : latency = 0
        · subst hzero
          rw [fillSlots_of_zero hfree hlatency]
          obtain ⟨hnow, hfilled, hleft⟩ := ih started _
          exact ⟨hnow, hfilled, Nat.le_succ_of_le hleft⟩
        · rw [fillSlots_of_some hfree hlatency hzero]
          obtain ⟨hnow, hfilled, hleft⟩ := ih _ _
          refine ⟨hnow, hfilled, Nat.le_trans hleft ?_⟩
          simp only [List.length_cons]
          omega

theorem takeAnswers_spec (queries : Queries ω) (r : Round ω) :
    let taken := takeAnswers queries r
    taken.now = r.now ∧ taken.waiting = r.waiting ∧ taken.queries <:+ queries := by
  induction queries generalizing r with
  | nil => exact ⟨rfl, rfl, List.nil_suffix⟩
  | cons q rest ih =>
    unfold takeAnswers
    split
    · obtain ⟨hnow, hwaiting, hsuffix⟩ := ih _
      exact ⟨hnow, hwaiting, hsuffix.trans (List.suffix_cons ..)⟩
    · exact ⟨rfl, rfl, List.suffix_refl _⟩

/-- Every turn of a round takes an answer. -/
theorem turn_spec (watch : Watch ω) {q : Query ω} {rest : Queries ω} (hqueries : r.queries = q :: rest) :
    (r.turn watch q.answersAt).now = q.answersAt ∧ (r.turn watch q.answersAt).Filled ∧
      (r.turn watch q.answersAt).left < r.left := by
  let advanced : Round ω := { r with now := q.answersAt, world := watch.advance q.answersAt r.world }
  let answered := q.answer q.answersAt advanced.world
  let next : Round ω :=
    { advanced with
      world := answered.2, free := r.free + 1, answers := (q.handle, answered.1) :: r.answers }
  have htaken : takeAnswers r.queries advanced = takeAnswers rest next := by
    rw [hqueries]
    exact if_pos (Nat.le_refl _)
  obtain ⟨hnow, hwaiting, hsuffix⟩ := takeAnswers_spec rest next
  rw [← htaken] at hnow hwaiting hsuffix
  obtain ⟨hfilled, hslots, hleft⟩ := fillSlots_spec watch (takeAnswers r.queries advanced).waiting []
    (takeAnswers r.queries advanced)
  have hlength : r.queries.length = rest.length + 1 := by rw [hqueries, List.length_cons]
  have hfewer := hsuffix.length_le
  refine ⟨hfilled.trans hnow, hslots, Nat.lt_of_le_of_lt hleft ?_⟩
  rw [hwaiting]
  unfold left
  change _ + 0 + r.waiting.length < _
  omega

/-- A round goes on until no answer is to come before or at the deadline. -/
theorem rests_goOn {steps : Nat} (h : r.left ≤ steps) : (goOn watch deadline steps r).Rests deadline := by
  induction steps generalizing r with
  | zero =>
    have hnone : r.queries = [] := List.length_eq_zero_iff.mp (by unfold left at h; omega)
    intro q hq
    change q ∈ r.queries.head? at hq
    rw [hnone] at hq
    nomatch hq
  | succ steps ih =>
    rcases r.rests_or_due deadline with hrests | ⟨q, rest, hqueries, hdue⟩
    · rwa [goOn_of_rests _ hrests]
    · rw [goOn_of_due steps hqueries hdue]
      obtain ⟨-, -, hless⟩ := turn_spec watch hqueries
      exact ih (by omega)

/-- As many steps as handles are enough: a round never ends for want of steps. -/
theorem rests_run (watch : Watch ω) (limit : Nat) (deadline now : Instant) (handles : List Handle)
    (w : ω) :
    let first : Round ω := { now, world := w, free := max limit 1, waiting := handles }
    (goOn watch deadline handles.length (fillSlots watch handles [] first)).Rests deadline := by
  intro first
  obtain ⟨-, -, hleft⟩ := fillSlots_spec watch handles [] first
  have hnone : first.queries.length + ([] : List (Query ω)).length = 0 := rfl
  exact rests_goOn (by omega)

theorem goOn_now_le (watch : Watch ω) (hr : r.now ≤ deadline) (steps : Nat) :
    (goOn watch deadline steps r).now ≤ deadline :=
  goOn_keeps (P := fun r => r.now ≤ deadline)
    (fun hqueries hdue _ => Nat.le_trans (Nat.le_of_eq (turn_spec watch hqueries).1) hdue) steps hr

theorem filled_goOn (hr : r.Filled) (steps : Nat) : (goOn watch deadline steps r).Filled :=
  goOn_keeps (fun hqueries _ _ => (turn_spec watch hqueries).2.1) steps hr

end Round

/-- Does a log tell of a round that asks for handles from one instant to another? It has the queries in
the order of the handles, as many at the first instant as the limit allows, and never has more in
progress. A finished round has asked for all of its handles and has all the answers; one that is cut off
has a query in progress. -/
structure QueryLog.TellsOf (limit : Nat) (now : Instant) (handles : List Handle) (finished : Bool)
    (endedAt : Instant) (log : QueryLog) : Prop where
  asks : log.asks.map (·.2) <+: handles
  complete : finished = true → log.asks.map (·.2) = handles ∧ log.answers = log.asks.length
  cut : finished = false → 0 < log.underWay
  within : log.Within limit
  between : ∀ e ∈ log, now ≤ e.now ∧ e.now ≤ endedAt
  atOnce : ∀ ask ∈ log.asks.take limit, ask.1 = now

namespace Round

variable {limit : Nat}

/-- The first queries of a round, as many as its limit allows, are made at its beginning. -/
theorem asks_atOnce {first filled last : Round ω} {fills goes : QueryLog}
    (hfills : Passes first filled fills) (hgoes : Passes filled last goes)
    (hnow : filled.now = first.now) (hfilled : filled.Filled) :
    ∀ ask ∈ QueryLog.asks (fills ++ goes) |>.take first.free, ask.1 = first.now := by
  have hat : ∀ ask ∈ fills.asks, ask.1 = first.now := fun ask hask => by
    obtain ⟨e, he, heq⟩ := QueryLog.exists_of_mem_asks hask
    obtain ⟨hfirst, hlast⟩ := hfills.between e he
    rw [← heq]
    exact Nat.le_antisymm (hnow ▸ hlast) hfirst
  intro ask hask
  rw [QueryLog.asks_append] at hask
  rcases hfilled with hnone | hfull
  · have hlater : goes.asks = [] := by
      have hwaiting := hgoes.waiting
      rw [hnone] at hwaiting
      exact List.map_eq_nil_iff.mp (List.append_eq_nil_iff.mp hwaiting).1
    rw [hlater, List.append_nil] at hask
    exact hat ask (List.mem_of_mem_take hask)
  · have hslots := hfills.slots
    rw [List.take_append_of_le_length (by omega)] at hask
    exact hat ask (List.mem_of_mem_take hask)

theorem run_now_le (watch : Watch ω) (limit : Nat) {deadline now : Instant} (hbefore : now ≤ deadline)
    (handles : List Handle) (w : ω) : (run watch limit deadline now handles w).2.1 ≤ deadline := by
  have hfilled := (fillSlots_spec watch handles []
    { now, world := w, free := max limit 1, waiting := handles }).1
  have hlast := goOn_now_le watch (Nat.le_trans (Nat.le_of_eq hfilled) hbefore) handles.length
  unfold run
  dsimp only
  split
  · exact hlast
  · exact Nat.max_le.mpr ⟨hlast, Nat.le_refl _⟩

/-- A round with a log goes as it does without, and the log tells of it. -/
theorem run_logged (watch : Watch ω) (limit : Nat) (deadline now : Instant)
    (handles : List Handle) (w : ω) : ∃ events : QueryLog,
      let done := run watch limit deadline now handles w
      (∀ log, run watch.logged limit deadline now handles (w, log) =
        (done.1, done.2.1, done.2.2, log ++ events)) ∧
      QueryLog.TellsOf (max limit 1) now handles done.1.isSome done.2.1 events := by
  let first : Round ω := { now, world := w, free := max limit 1, waiting := handles }
  let filled := fillSlots watch handles [] first
  let last := goOn watch deadline handles.length filled
  obtain ⟨hnow, hfilled, -⟩ := fillSlots_spec watch handles [] first
  have hreached : filled.Reached watch (now, w) :=
    fillSlots_reached handles (by simp) (by simp) ⟨.refl _, .nil ..⟩
  have hcovers : last.Covers (max limit 1) handles :=
    goOn_covers watch deadline handles.length (fillSlots_covers handles [] (.refl _) rfl)
  obtain ⟨fills, hfillsLogged, hfills⟩ := fillSlots_logged watch handles [] first
  obtain ⟨goes, hgoesLogged, hgoes⟩ := goOn_logged deadline handles.length hreached
  have hpasses : Passes first last (fills ++ goes) := hfills.trans hgoes
  have hatOnce := asks_atOnce hfills hgoes hnow hfilled
  have hlast : ∀ log, goOn watch.logged deadline handles.length
      (fillSlots watch.logged handles [] (first.withLog log)) =
        last.withLog (log ++ (fills ++ goes)) := fun log => by
    rw [← List.append_assoc]
    exact (congrArg (goOn watch.logged deadline handles.length) (hfillsLogged log)).trans
      (hgoesLogged (log ++ fills))
  have hlogged : ∀ log, run watch.logged limit deadline now handles (w, log) =
      let last := last.withLog (log ++ (fills ++ goes))
      if last.isComplete (max limit 1) then (some last.answers.reverse, last.now, last.world)
      else
        let now := max last.now deadline
        (none, now, watch.logged.advance now last.world) := fun log => by
    rw [← hlast]
    rfl
  refine ⟨fills ++ goes, ?_⟩
  by_cases hcomplete : last.isComplete (max limit 1) = true
  · have hrun : run watch limit deadline now handles w =
        (some last.answers.reverse, last.now, last.world) := if_pos hcomplete
    rw [hrun]
    obtain ⟨hfree, hwaiting⟩ := isComplete_iff.mp hcomplete
    refine ⟨fun log => ?_, ⟨_, hpasses.waiting⟩, fun _ => ⟨?_, ?_⟩,
      fun hcut => absurd hcut.symm Bool.false_ne_true, hpasses.within, hpasses.between, hatOnce⟩
    · exact (hlogged log).trans (if_pos hcomplete)
    · have hasks := hpasses.waiting
      rwa [hwaiting, List.append_nil] at hasks
    · have hslots := hpasses.slots
      rw [hfree] at hslots
      exact (Nat.add_left_cancel hslots).symm
  · have hrun : run watch limit deadline now handles w =
      (none, max last.now deadline, watch.advance (max last.now deadline) last.world) :=
        if_neg hcomplete
    rw [hrun]
    refine ⟨fun log => ?_, ⟨_, hpasses.waiting⟩,
      fun hfinished => absurd hfinished Bool.false_ne_true, fun _ => ?_, hpasses.within, fun e he => ?_,
      hatOnce⟩
    · exact (hlogged log).trans (if_neg hcomplete)
    · obtain ⟨unanswered, -, hfree⟩ := hcovers
      have hbusy : last.free ≠ max limit 1 :=
        free_ne_of_cut (by omega) (filled_goOn hfilled handles.length) hcomplete
      have hslots : last.free + (QueryLog.asks (fills ++ goes)).length =
        max limit 1 + QueryLog.answers (fills ++ goes) := hpasses.slots
      unfold QueryLog.underWay
      omega
    · obtain ⟨hafter, hbefore⟩ := hpasses.between e he
      exact ⟨hafter, Nat.le_trans hbefore (Nat.le_max_left ..)⟩

end Round

end Throughput
