import Throughput.Proofs.Poll.Attempts

/-!
# The log of a poll

A log beside a watched ledger has every query for a receipt when it is made, and again when it is
answered. Neither the ledger nor the poll sees it.
-/

namespace Throughput

variable {ω : Type}

/-- What happens to a query. -/
inductive QueryEvent where
  | asked (now : Instant) (handle : Handle)
  | answered (now : Instant) (handle : Handle)
deriving DecidableEq, Repr

namespace QueryEvent

def now : QueryEvent → Instant
  | asked now _ => now
  | answered now _ => now

/-- A query that is made, and when. -/
def ask? : QueryEvent → Option (Instant × Handle)
  | asked now handle => some (now, handle)
  | answered .. => none

def isAnswer : QueryEvent → Bool
  | asked .. => false
  | answered .. => true

end QueryEvent

/-- What happens to the queries of a poll, in order. -/
abbrev QueryLog := List QueryEvent

namespace QueryLog

variable {log more past : QueryLog} {limit : Nat}

/-- The queries that are made. -/
def asks (log : QueryLog) : List (Instant × Handle) := log.filterMap QueryEvent.ask?

/-- How many queries are answered. -/
def answers (log : QueryLog) : Nat := log.countP QueryEvent.isAnswer

/-- How many queries are in progress. -/
def underWay (log : QueryLog) : Nat := log.asks.length - log.answers

/-- Are there never more queries in progress than a limit allows? -/
def Within (limit : Nat) (log : QueryLog) : Prop :=
  ∀ past : QueryLog, past <+: log → past.asks.length ≤ past.answers + limit

theorem asks_append (log more : QueryLog) : asks (log ++ more) = log.asks ++ more.asks :=
  List.filterMap_append

theorem answers_append (log more : QueryLog) : answers (log ++ more) = log.answers + more.answers :=
  List.countP_append

theorem exists_of_mem_asks {ask : Instant × Handle} (h : ask ∈ log.asks) :
    ∃ e ∈ log, e.now = ask.1 := by
  obtain ⟨e, he, hask⟩ := List.mem_filterMap.mp h
  cases e with
  | asked now handle => exact ⟨_, he, congrArg Prod.fst (Option.some.inj hask)⟩
  | answered now handle => nomatch hask

theorem Within.append {room : Nat} (h : log.Within limit) (hmore : more.Within room)
    (hroom : log.asks.length + room ≤ log.answers + limit) : Within limit (log ++ more) := by
  intro past hpast
  rcases List.prefix_or_prefix_of_prefix hpast (List.prefix_append log more) with hlog | ⟨rest, rfl⟩
  · exact h past hlog
  · have hbound := hmore rest ((List.prefix_append_right_inj log).mp hpast)
    rw [asks_append, answers_append, List.length_append]
    omega

theorem Within.nil (limit : Nat) : Within limit [] := by
  intro past hpast
  rw [List.prefix_nil.mp hpast]
  exact Nat.zero_le _

theorem Within.concat (h : log.Within limit) {e : QueryEvent}
    (hlast : (asks (log ++ [e])).length ≤ answers (log ++ [e]) + limit) :
    Within limit (log ++ [e]) := by
  intro past hpast
  rcases List.prefix_concat_iff.mp hpast with rfl | hpast
  · exact hlast
  · exact h past hpast

end QueryLog

/-- A call whose answer is written into the log. -/
def Call.logged (call : Call ω (Option Receipt)) (handle : Handle) :
    Call (ω × QueryLog) (Option Receipt) :=
  ⟨call.latency, fun now (w, log) =>
    let (answer, w) := call.answer now w
    (answer, (w, log ++ [.answered now handle]))⟩

/-- The same watch with a log of its queries. -/
def Watch.logged (watch : Watch ω) : Watch (ω × QueryLog) where
  advance limit := fun (w, log) => (watch.advance limit w, log)
  handles now := fun (w, _) => watch.handles now w
  isSealed now := fun (w, _) => watch.isSealed now w
  receipt now handle := fun (w, log) =>
    let (call, w) := watch.receipt now handle w
    (call.logged handle, (w, log ++ [.asked now handle]))

/-- The same query in progress, with a log. -/
def Query.logged (q : Query ω) : Query (ω × QueryLog) :=
  ⟨q.handle, q.answersAt, (Call.logged ⟨none, q.answer⟩ q.handle).answer⟩

theorem Queries.map_logged_add (queries : Queries ω) (started : List (Query ω)) :
    Queries.add (queries.map Query.logged) (started.map Query.logged) =
      (Queries.add queries started).map Query.logged := by
  have hsame : ∀ p q : Query ω, p.notAfter q = p.logged.notAfter q.logged := fun _ _ => rfl
  unfold add
  rw [List.map_merge (fun p _ q _ => hsame p q), List.map_mergeSort (fun p _ q _ => hsame p q)]

namespace Round

variable {watch : Watch ω} {r r' r'' : Round ω} {log more : QueryLog} {x₀ : Instant × ω}

/-- The same round with a log. -/
def withLog (log : QueryLog) (r : Round ω) : Round (ω × QueryLog) :=
  { r with world := (r.world, log), queries := r.queries.map Query.logged }

/-- Does a log tell of what happens from one point of a round to another? What is asked for was waiting,
and whatever is asked for holds a slot until it is answered. -/
structure Passes (r r' : Round ω) (log : QueryLog) : Prop where
  now_le : r.now ≤ r'.now
  between : ∀ e ∈ log, r.now ≤ e.now ∧ e.now ≤ r'.now
  waiting : log.asks.map (·.2) ++ r'.waiting = r.waiting
  slots : r'.free + log.asks.length = r.free + log.answers
  within : log.Within r.free

namespace Passes

theorem nil (hnow : r.now ≤ r'.now) (hwaiting : r'.waiting = r.waiting) (hfree : r'.free = r.free) :
    Passes r r' [] :=
  ⟨hnow, nofun, hwaiting, congrArg (· + 0) hfree, .nil _⟩

theorem trans (h : Passes r r' log) (h' : Passes r' r'' more) : Passes r r'' (log ++ more) := by
  refine ⟨Nat.le_trans h.now_le h'.now_le, fun e he => ?_, ?_, ?_, ?_⟩
  · rcases List.mem_append.mp he with he | he
    · exact ⟨(h.between e he).1, Nat.le_trans (h.between e he).2 h'.now_le⟩
    · exact ⟨Nat.le_trans h.now_le (h'.between e he).1, (h'.between e he).2⟩
  · rw [QueryLog.asks_append, List.map_append, List.append_assoc, h'.waiting, h.waiting]
  · have hfirst := h.slots
    have hnext := h'.slots
    rw [QueryLog.asks_append, QueryLog.answers_append, List.length_append]
    omega
  · apply h.within.append h'.within
    have hfirst := h.slots
    omega

theorem ask (hnow : r'.now = r.now) {handle : Handle} (hwaiting : r.waiting = handle :: r'.waiting)
    (hfree : r.free = r'.free + 1) : Passes r r' [.asked r.now handle] := by
  refine ⟨Nat.le_of_eq hnow.symm, ?_, hwaiting.symm, hfree.symm, ?_⟩
  · simp [QueryEvent.now, hnow]
  · apply (QueryLog.Within.nil _).concat
    rw [hfree]
    exact Nat.le_add_left ..

theorem answer (hnow : r'.now = r.now) (handle : Handle) (hwaiting : r'.waiting = r.waiting)
    (hfree : r'.free = r.free + 1) : Passes r r' [.answered r.now handle] := by
  refine ⟨Nat.le_of_eq hnow.symm, ?_, hwaiting, hfree, ?_⟩
  · simp [QueryEvent.now, hnow]
  · exact (QueryLog.Within.nil _).concat (Nat.zero_le _)

end Passes

/-- Does a run with a log go from one point of a round to another, and does what it adds to its log tell
of this? -/
def IsLogged (logged : QueryLog → Round (ω × QueryLog)) (r r' : Round ω) : Prop :=
  ∃ events : QueryLog, (∀ log, logged log = r'.withLog (log ++ events)) ∧ Passes r r' events

namespace IsLogged

variable {logged logged' : QueryLog → Round (ω × QueryLog)}

theorem of_nil (hpasses : Passes r r' []) (h : ∀ log, logged log = r'.withLog log) :
    IsLogged logged r r' :=
  ⟨[], fun log => by rw [h, List.append_nil], hpasses⟩

theorem after (hfirst : Passes r r' log) (h : IsLogged logged r' r'')
    (heq : ∀ before, logged' before = logged (before ++ log)) : IsLogged logged' r r'' := by
  obtain ⟨events, hevents, hpasses⟩ := h
  refine ⟨log ++ events, fun before => ?_, hfirst.trans hpasses⟩
  rw [heq, hevents, List.append_assoc]

theorem trans (h : IsLogged logged r r') (next : Round (ω × QueryLog) → Round (ω × QueryLog))
    (h' : IsLogged (fun log => next (r'.withLog log)) r' r'') :
    IsLogged (fun log => next (logged log)) r r'' := by
  obtain ⟨events, hevents, hpasses⟩ := h
  exact after hpasses h' fun before => congrArg next (hevents before)

end IsLogged

section FillSlots

variable {handle : Handle} {rest : List Handle} {started : List (Query ω)} {latency : Duration}

theorem fillSlots_of_none (hfree : r.free ≠ 0)
    (h : (watch.receipt r.now handle r.world).1.latency = none) :
    fillSlots watch (handle :: rest) started r = fillSlots watch rest started
      { r with world := (watch.receipt r.now handle r.world).2, free := r.free - 1 } := by
  rw [fillSlots, if_neg hfree]
  dsimp only
  rw [h]

theorem fillSlots_of_zero (hfree : r.free ≠ 0)
    (h : (watch.receipt r.now handle r.world).1.latency = some 0) :
    fillSlots watch (handle :: rest) started r =
      let called := watch.receipt r.now handle r.world
      let answered := called.1.answer r.now called.2
      fillSlots watch rest started
        { r with world := answered.2, answers := (handle, answered.1) :: r.answers } := by
  rw [fillSlots, if_neg hfree]
  dsimp only
  rw [h]
  rfl

theorem fillSlots_of_some (hfree : r.free ≠ 0)
    (h : (watch.receipt r.now handle r.world).1.latency = some latency) (hlatency : latency ≠ 0) :
    fillSlots watch (handle :: rest) started r =
      let called := watch.receipt r.now handle r.world
      fillSlots watch rest (⟨handle, r.now + latency, called.1.answer⟩ :: started)
        { r with world := called.2, free := r.free - 1 } := by
  rw [fillSlots, if_neg hfree]
  dsimp only
  rw [h]
  exact if_neg hlatency

end FillSlots

theorem withLog_add (waiting : List Handle) (started : List (Query ω)) (r : Round ω) (log : QueryLog) :
    { r.withLog log with
      waiting
      queries := Queries.add (r.queries.map Query.logged) (started.map Query.logged).reverse } =
    withLog log { r with waiting, queries := Queries.add r.queries started.reverse } := by
  rw [← List.map_reverse, Queries.map_logged_add]
  rfl

theorem fillSlots_logged (watch : Watch ω) (handles : List Handle) (started : List (Query ω))
    (r : Round ω) : IsLogged
      (fun log => fillSlots watch.logged handles (started.map Query.logged) (r.withLog log))
      { r with waiting := handles } (fillSlots watch handles started r) := by
  induction handles generalizing started r with
  | nil => exact .of_nil (.nil (Nat.le_refl _) rfl rfl) fun log => withLog_add [] started r log
  | cons handle rest ih =>
    by_cases hfree : r.free = 0
    · rw [fillSlots, if_pos hfree]
      exact .of_nil (.nil (Nat.le_refl _) rfl rfl) fun log =>
        (if_pos hfree).trans (withLog_add (handle :: rest) started r log)
    · have hslot : r.free = r.free - 1 + 1 := by omega
      -- the handle takes a slot, which it leaves at once if it is answered at once
      let called : Round ω :=
        { r with
          world := (watch.receipt r.now handle r.world).2, free := r.free - 1, waiting := rest }
      have hask : Passes { r with waiting := handle :: rest } called [.asked r.now handle] := by
        apply Passes.ask
        · rfl
        · rfl
        · exact hslot
      cases hlatency : (watch.receipt r.now handle r.world).1.latency with
      | none =>
        rw [fillSlots_of_none hfree hlatency]
        exact .after hask (ih started _) fun log =>
          fillSlots_of_none (r := r.withLog log) hfree hlatency
      | some latency =>
        by_cases hzero : latency = 0
        · subst hzero
          rw [fillSlots_of_zero hfree hlatency]
          let answered := (watch.receipt r.now handle r.world).1.answer r.now called.world
          have hanswer : Passes called { r with
              world := answered.2, answers := (handle, answered.1) :: r.answers, waiting := rest }
              [.answered r.now handle] := by
            apply Passes.answer
            · rfl
            · rfl
            · exact hslot
          refine .after (hask.trans hanswer) (ih started _) fun log => ?_
          rw [← List.append_assoc]
          exact fillSlots_of_zero (r := r.withLog log) hfree hlatency
        · rw [fillSlots_of_some hfree hlatency hzero]
          exact .after hask (ih (_ :: started) _) fun log =>
            fillSlots_of_some (r := r.withLog log) hfree hlatency hzero

theorem takeAnswers_logged (queries : Queries ω) (r : Round ω) : IsLogged
    (fun log => takeAnswers (queries.map Query.logged) (r.withLog log)) r (takeAnswers queries r) := by
  induction queries generalizing r with
  | nil => exact .of_nil (.nil (Nat.le_refl _) rfl rfl) fun _ => rfl
  | cons q rest ih =>
    unfold takeAnswers
    by_cases hdue : q.answersAt ≤ r.now
    · rw [if_pos hdue]
      have hanswer : Passes r { r with
          world := (q.answer r.now r.world).2, free := r.free + 1,
          answers := (q.handle, (q.answer r.now r.world).1) :: r.answers }
          [.answered r.now q.handle] := by
        apply Passes.answer
        · rfl
        · rfl
        · rfl
      exact .after hanswer (ih _) fun log => if_pos hdue
    · rw [if_neg hdue]
      exact .of_nil (.nil (Nat.le_refl _) rfl rfl) fun log => if_neg hdue

theorem turn_logged (watch : Watch ω) {now : Instant} (hnow : r.now ≤ now) :
    IsLogged (fun log => (r.withLog log).turn watch.logged now) r (r.turn watch now) := by
  let advanced : Round ω := { r with now, world := watch.advance now r.world }
  have hadvance : Passes r advanced [] := .nil hnow rfl rfl
  have htakes := takeAnswers_logged r.queries advanced
  have hfills := fillSlots_logged watch (takeAnswers r.queries advanced).waiting []
    (takeAnswers r.queries advanced)
  refine .after hadvance (htakes.trans (fun r => fillSlots watch.logged r.waiting [] r) hfills)
    fun log => ?_
  rw [List.append_nil]
  rfl

theorem goOn_logged (deadline : Instant) (steps : Nat) (hr : r.Reached watch x₀) :
    IsLogged (fun log => goOn watch.logged deadline steps (r.withLog log)) r
      (goOn watch deadline steps r) := by
  induction steps generalizing r with
  | zero => exact .of_nil (.nil (Nat.le_refl _) rfl rfl) fun _ => rfl
  | succ steps ih =>
    rcases r.rests_or_due deadline with hrests | ⟨q, rest, hqueries, hdue⟩
    · have hlogged : ∀ log, (r.withLog log).Rests deadline := fun log q hq => by
        obtain ⟨p, hp, rfl⟩ := Option.map_eq_some_iff.mp (List.head?_map .. ▸ hq)
        exact hrests p hp
      rw [goOn_of_rests _ hrests]
      exact .of_nil (.nil (Nat.le_refl _) rfl rfl) fun log => goOn_of_rests _ (hlogged log)
    · rw [goOn_of_due steps hqueries hdue]
      have hlogged : ∀ log, (r.withLog log).queries = q.logged :: rest.map Query.logged := by
        intro log
        change r.queries.map Query.logged = _
        rw [hqueries]
        rfl
      have hturn := turn_logged watch (hr.now_le hqueries)
      obtain ⟨events, hevents, hpasses⟩ := hturn.trans (goOn watch.logged deadline steps)
        (ih (hr.turn hqueries))
      exact ⟨events, fun log => (goOn_of_due steps (hlogged log) hdue).trans (hevents log), hpasses⟩

end Round

end Throughput
