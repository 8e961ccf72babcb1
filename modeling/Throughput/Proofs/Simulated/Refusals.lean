import Throughput.Proofs.Simulated.Order

/-!
# Submissions that are refused for their number

A ledger that refuses every n-th submission decides when the latency of a submission is over, by the
number of submissions that have been started until then. Submissions that do not overlap are refused in
turn; of submissions that are all started before the first is decided, either all are refused or none.
-/

namespace Throughput.Simulated

/-- Is an answer the refusal for the number of submissions? -/
def isRefusal : Answer Handle → Bool
  | .error (.rejected reason) => reason == "simulated rejection"
  | _ => false

namespace Script

/-- How many submissions have been started when each submission is decided, from a number of earlier
ones on. -/
def startedFrom : Nat → Script → List Nat
  | _, [] => []
  | started, (_, .start _) :: rest => startedFrom (started + 1) rest
  | started, (_, .settle _) :: rest => started :: startedFrom started rest
  | started, (_, .ask _) :: rest => startedFrom started rest

/-- How many submissions have been started when each submission is decided. -/
def started (script : Script) : List Nat := startedFrom 0 script

end Script

variable {c : Config}

theorem Chain.isRefusal_judge (c : Config) (request : Request) (chain : Chain) :
    isRefusal (chain.judge c request).1 = false := by
  unfold judge
  dsimp only
  split
  · rfl
  · split
    · rfl
    · split
      · rfl
      · rfl

/-- A submission is refused for the number of submissions started so far and for nothing else. -/
theorem State.isRefusal_receive (c : Config) (now : Instant) (request : Request) (s : State) :
    isRefusal (s.receive c now request).1 = c.refuses s.submitted := by
  unfold receive
  dsimp only
  split
  · rename_i hrefuses
    rw [hrefuses]
    rfl
  · rename_i hrefuses
    rw [Bool.not_eq_true] at hrefuses
    rw [hrefuses]
    split
    · rfl
    · exact Chain.isRefusal_judge ..

theorem State.submitted_receive (c : Config) (now : Instant) (request : Request) (s : State) :
    (s.receive c now request).2.submitted = s.submitted := by
  unfold receive
  dsimp only
  split
  · rfl
  · split
    · rfl
    · rfl

theorem Query.verdict?_ask (c : Config) (now : Instant) (query : Query) (s : State) :
    (query.ask c now s).1.verdict? = none := by
  cases query <;> rfl

theorem Query.submitted_ask (c : Config) (now : Instant) (query : Query) (s : State) :
    (query.ask c now s).2.submitted = s.submitted := by
  rw [ask_eq_view]
  rfl

/-- Each verdict is given by the number of submissions started before it. -/
theorem refusals_play (c : Config) (script : Script) (started : Nat) (s : State)
    (h : s.submitted = started.toUInt64) :
    (play c script s).verdicts.map (fun x => isRefusal x.2) =
      (script.startedFrom started).map fun m => c.refuses m.toUInt64 := by
  induction script generalizing started s with
  | nil => rfl
  | cons e script ih =>
    obtain ⟨now, act⟩ := e
    rw [verdicts_cons]
    cases act with
    | start request =>
      refine ih (started + 1) _ ?_
      change s.submitted + 1 = _
      rw [h]
      exact (UInt64.ofNat_add ..).symm
    | settle request =>
      have hrest := ih started (s.receive c now request).2 ((s.submitted_receive ..).trans h)
      have hfirst := s.isRefusal_receive c now request
      rw [h] at hfirst
      exact congrArg₂ List.cons hfirst hrest
    | ask query =>
      have hrest := ih started (query.ask c now s).2 ((query.submitted_ask ..).trans h)
      rwa [Act.perform, query.verdict?_ask, Option.toList_none, List.nil_append]

/-- Verdicts are given on the submissions in the order in which their latencies are over. -/
theorem requests_verdicts (c : Config) (script : Script) (s : State) :
    (play c script s).verdicts.map Prod.fst = script.requests := by
  induction script generalizing s with
  | nil => rfl
  | cons e script ih =>
    obtain ⟨now, act⟩ := e
    rw [verdicts_cons]
    cases act with
    | start request => exact ih _
    | settle request => exact congrArg (request :: ·) (ih _)
    | ask query =>
      have hrest := ih (query.ask c now s).2
      rwa [Act.perform, query.verdict?_ask, Option.toList_none, List.nil_append]

/-- The number of submissions is kept in a word. -/
theorem Config.refuses_iff {n : UInt64} (hn : c.rejectEvery = some n) (hpos : 0 < n) (started : Nat) :
    c.refuses started.toUInt64 = decide (n.toNat ∣ started % 2 ^ 64) := by
  unfold refuses
  rw [hn, Bool.eq_iff_iff, Bool.and_eq_true, beq_iff_eq, decide_eq_true_iff, decide_eq_true_iff,
    ← UInt64.toNat_inj, UInt64.toNat_mod, Nat.dvd_iff_mod_eq_zero]
  exact and_iff_right hpos

/-- One in `n` of the numbers from one on is a multiple of `n`. -/
theorem countP_multiples (n k : Nat) : (List.range' 1 k).countP (fun i => decide (n ∣ i)) = k / n := by
  induction k with
  | zero => exact (Nat.zero_div n).symm
  | succ k ih =>
    rw [List.range'_1_concat, List.countP_append, ih, Nat.succ_div, Nat.add_comm 1 k]
    simp [List.countP_cons]

/-- On a ledger that refuses every `n`-th submission, whatever its latency and whatever clients do, a
submission is refused for its number just if `n` divides the number of submissions started until it is
decided. So of submissions each of which is decided before the next is started, the `n`-th, the one `n`
further on and so forth are refused, and no others. Of submissions that are all started before the first
is decided, all are refused or none. -/
theorem refused_by_started (c : Config) (accounts : List (Address × Account)) (script : Script)
    {n : UInt64} (hn : c.rejectEvery = some n) (hpos : 0 < n) :
    let verdicts := (play c script (.genesis c accounts)).verdicts
    let refused := verdicts.map fun x => isRefusal x.2
    let k := verdicts.length
    verdicts.map Prod.fst = script.requests ∧
    refused = script.started.map (fun started => decide (n.toNat ∣ started % 2 ^ 64)) ∧
    (k < 2 ^ 64 → script.started = List.range' 1 k →
      refused = (List.range' 1 k).map (fun i => decide (n.toNat ∣ i)) ∧
        refused.count true = k / n.toNat) ∧
    (k < 2 ^ 64 → script.started = List.replicate k k →
      refused = List.replicate k (decide (n.toNat ∣ k))) := by
  intro verdicts refused k
  have hrefused : refused =
      script.started.map fun started => decide (n.toNat ∣ started % 2 ^ 64) := by
    have hplay := refusals_play c script 0 (.genesis c accounts) rfl
    refine hplay.trans (List.map_congr_left fun started _ => ?_)
    exact Config.refuses_iff hn hpos started
  refine ⟨requests_verdicts c script _, hrefused, fun hk hturns => ?_, fun hk hburst => ?_⟩
  · have hinTurn : refused = (List.range' 1 k).map fun i => decide (n.toNat ∣ i) := by
      rw [hrefused, hturns]
      apply List.map_congr_left
      intro i hi
      have hi : i < 2 ^ 64 := by
        have hrange := List.mem_range'_1.mp hi
        omega
      rw [Nat.mod_eq_of_lt hi]
    refine ⟨hinTurn, ?_⟩
    rw [hinTurn, ← countP_multiples, List.count, List.countP_map]
    congr 1
    funext i
    simp
  · rw [hrefused, hburst, List.map_replicate, Nat.mod_eq_of_lt hk]

/-- Three submissions under way at once. -/
def Script.threeAtOnce : Script :=
  let transfer (nonce : UInt64) : Request := ⟨1, 2, 5, 21000, nonce, none⟩
  [(0, .start (transfer 0)), (0, .start (transfer 1)), (0, .start (transfer 2)),
    (5, .settle (transfer 0)), (5, .settle (transfer 1)), (5, .settle (transfer 2))]

/-- A ledger that is to refuse every third of them refuses them all. -/
theorem refused_by_started_threeAtOnce :
    let c : Config := { rejectEvery := some 3, submitLatency := 5 }
    let verdicts := (play c .threeAtOnce (.genesis c [])).verdicts
    c.rejectEvery = some 3 ∧ (0 : UInt64) < 3 ∧ Script.threeAtOnce.started = [3, 3, 3] ∧
      verdicts.map (fun x => isRefusal x.2) = [true, true, true] := by
  intro c verdicts
  have hpos : (0 : UInt64) < 3 := by decide
  have hstarted : Script.threeAtOnce.started = [3, 3, 3] := rfl
  obtain ⟨-, hrefused, -⟩ := refused_by_started c [] .threeAtOnce (n := 3) rfl hpos
  rw [hstarted] at hrefused
  exact ⟨rfl, hpos, hstarted, hrefused⟩

end Throughput.Simulated
