import Throughput.Proofs.Send.Unseen

/-!
# The order of the requests

However a phase sends and wherever it stops, what it has submitted is the beginning of one plan.
-/

namespace Throughput

variable {σ ε : Type}

namespace Job

variable {j : Job (σ × Journal) ε} {p p' : Phase (σ × Journal) ε} {first : Nat → UInt64}

/-- Is what has been submitted and queued the beginning of the plan, and do the counters stand
behind it? -/
def Follows (j : Job (σ × Journal) ε) (first : Nat → UInt64) (p : Phase (σ × Journal) ε) : Prop :=
  p.ledger.2.map Entry.request ++ p.queued = j.generator.plan first p.dispatched ∧
    j.generator.StandAt p.sequences (j.generator.numbersAfter first p.dispatched)

/-- Issued requests are the next of the plan. -/
theorem Issues.plan {j : Job σ ε} {p p' : Phase σ ε} {issued : List Request}
    (hd : j.generator.Distinct) (h : j.Issues p p' issued)
    (hs : j.generator.StandAt p.sequences (j.generator.numbersAfter first p.dispatched)) :
    j.generator.plan first p.dispatched ++ issued = j.generator.plan first p'.dispatched ∧
      j.generator.StandAt p'.sequences (j.generator.numbersAfter first p'.dispatched) := by
  rcases h with ⟨hcount, ⟨rfl, hsame⟩ | ⟨-, hzero, hall⟩ | ⟨-, count, hbuild⟩⟩
  · simp only [List.length_nil, Nat.add_zero] at hcount
    rw [hcount, hsame, List.append_nil]
    exact ⟨rfl, hs⟩
  · rw [hzero, Generator.numbersAfter_zero] at hs
    obtain ⟨hplan, hstand⟩ := Generator.buildAll_plan hd j.target hs
    have hlen := j.generator.length_buildAll j.target p.sequences
    rw [hall] at hplan hstand hlen
    rw [hcount, hzero, hlen, Nat.zero_add]
    exact ⟨by simpa [Generator.plan] using hplan, hstand⟩
  · obtain ⟨hplan, hstand⟩ := Generator.build_plan hd count p.dispatched hs
    have hlen := j.generator.length_build p.dispatched count p.sequences
    rw [hbuild] at hplan hstand hlen
    rw [hcount, hlen]
    refine ⟨?_, hstand⟩
    rw [← Generator.plan_append]
    exact congrArg _ hplan

theorem Move.follows (hj : j.IsJournaled) (hd : j.generator.Distinct) (hp : j.Shaped p)
    {before : Tracker} (hb : j.IsBalanced before p) (h : j.Follows first p) (m : Move j p p') :
    j.Follows first p' := by
  obtain ⟨hplan, hstand⟩ := h
  obtain ⟨-, issued, hissued, sent, hsent, hcalls⟩ := m.books hj hp hb
  obtain ⟨hplan', hstand'⟩ := hissued.plan hd hstand
  refine ⟨?_, hstand'⟩
  -- what moves from the queue to the journal keeps its place in the plan
  have hrequests := congrArg (List.map Prod.fst) hcalls
  rw [List.map_append, Journal.calls_map_fst, Journal.calls_map_fst, List.map_map,
    show Prod.fst ∘ (·, p'.now) = (id : Request → Request) from rfl, List.map_id] at hrequests
  rw [hrequests, List.append_assoc, ← hsent, ← List.append_assoc, hplan, hplan']

/-- Where a run ends, all that was issued has been submitted. -/
theorem follows_run (hs : j.IsSound) (hj : j.IsJournaled) (hd : j.generator.Distinct)
    {b : Bench σ} (hb : j.generator.StandAt b.sequences first) (memory : ε) :
    let p := j.run (start b.journaled memory)
    p.ledger.2.map Entry.request = j.generator.plan first p.dispatched ∧
      j.generator.StandAt p.sequences (j.generator.numbersAfter first p.dispatched) := by
  have hstart : j.Follows first (start b.journaled memory) := by
    refine ⟨rfl, ?_⟩
    rw [show (start b.journaled memory).dispatched = 0 from rfl, Generator.numbersAfter_zero]
    exact hb
  obtain ⟨-, hplan, hstand⟩ := run_keeps
    (P := fun p => j.IsBalanced b.tracker p ∧ j.Follows first p) (j.shaped_start _ _)
    ⟨j.balanced_start b memory, hstart⟩
    fun p p' hp h m => ⟨(m.books hj hp h.1).1, m.follows hj hd hp h.1 h.2⟩
  rw [(run_idle hs (j.shaped_start _ _)).2, List.append_nil] at hplan
  exact ⟨hplan, hstand⟩

end Job

namespace Generator

variable {g : Generator} {seeds : Sequences} {template : Template} {timeout : Duration}
  {sendTimeout : Option Duration} {b : Bench σ} {first : Nat → UInt64}

/-- A phase submits the first requests of the plan in their order, at most its target: request `i`
goes to the sender at place `i % n` and has the `i / n`-th number from where that sender's counter
stood. No number is used twice, none is left out, and the counters stand behind the last ones. -/
theorem sendWith_submits_plan
    (hg : ofSequences seeds template timeout sendTimeout = .ok g)
    (hb : g.StandAt b.sequences first) (ledger : Ledger σ) (estimator : Estimator σ ε)
    (strategy : Strategy) (target : Nat) (duration : Option Duration) (memory : ε)
    {summary : SendSummary} {after : Bench σ} {memory' : ε}
    (h : g.sendWith ledger estimator strategy target duration b memory =
      (.ok summary, after, memory'))
    (hfit : g.Fits first summary.dispatched) :
    ∃ journal : Journal,
    g.sendWith ledger.journaled estimator.journaled strategy target duration b.journaled memory =
      (.ok summary, after.withJournal journal, memory') ∧
    let requests := journal.map Entry.request
    let n := g.senders.size
    let k := summary.dispatched
    k ≤ target ∧ requests.length = k ∧ requests = g.plan first k ∧
    (∀ i < k, ∃ r, requests[i]? = some r ∧
      r.sender = g.senderAt (i % n) ∧ r.recipient = g.recipientAt (i % n) ∧
      r.nonce.toNat = (first (i % n)).toNat + i / n) ∧
    (requests.map fun r => (r.sender, r.nonce)).Nodup ∧
    (∀ place < n, (requests.filter (·.sender == g.senderAt place)).map (·.nonce.toNat) =
      List.range' (first place).toNat (Nat.count (· % n = place) k)) ∧
    ∀ place < n, ∃ start next, after.sequences[g.senderAt place]? = some ⟨start, next⟩ ∧
      next.toNat = (first place).toNat + Nat.count (· % n = place) k := by
  have hd := distinct_of_ofSequences hg
  obtain ⟨journal, j, hsame, hsound, hj, rfl, rfl, rfl, hjournal, -, hsequences⟩ :=
    journal_of_sendWith h
  refine ⟨journal, hsame, ?_⟩
  obtain ⟨hplan, hstand⟩ := Job.follows_run hsound hj hd hb memory
  have hle := (Job.shaped_run (j.shaped_start b.journaled memory)).1
  rw [hjournal] at hplan
  rw [hsequences] at hstand
  simp only [Job.summary] at hfit ⊢
  rw [hplan]
  refine ⟨hle, length_plan .., rfl, ?_, nodup_plan hd hfit, fun place hp => nonces_plan hd hfit hp,
    ?_⟩
  · intro i hi
    refine ⟨j.generator.planned first i, by simp [plan, hi], rfl, rfl, nonce_planned hfit hi.le⟩
  · intro place hp
    obtain ⟨start, hget⟩ := hstand place hp
    exact ⟨start, _, hget, toNat_add_of_fits hfit hp (Nat.count_le _)⟩

end Generator

/-- A ledger that accepts every submission after a fixed time, or answers none. -/
def Ledger.steady (latency : Option Duration) : Ledger Unit where
  submit _ _ s := (⟨latency, fun _ s => (.ok 0, s)⟩, s)
  sequenceNumber _ _ s := (.ok 0, s)
  balance _ _ s := (.ok 0, s)
  height _ s := (.ok 0, s)
  block _ _ s := (.ok none, s)
  receipt _ _ s := (.pure 0 (.ok none), s)

/-- A bench with two senders that have sent before. -/
def Bench.ofTwo (shutdown : Shutdown) : Bench Unit where
  now := 0
  shutdown
  ledger := ()
  tracker := {}
  sequences := .ofStarts [(1, 5), (2, 7)]

/-- A generator over the two senders. -/
def Generator.ofTwo (sendTimeout : Option Duration) : Generator :=
  { senders := #[1, 2], nonempty := by decide, template := {}, sendTimeout }

/-- Three requests in groups of two. -/
theorem Generator.sendWith_submits_plan_ofTwo :
    let r := (ofTwo none).sendWith (Ledger.steady (some 0))
      (estimatorOf .burst (Ledger.steady (some 0))) (.steadyBatch 2 none) 3 none
      (Bench.ofTwo .never) none
    ∃ journal : Journal,
    (ofTwo none).sendWith (Ledger.steady (some 0)).journaled
      (estimatorOf .burst (Ledger.steady (some 0))).journaled (.steadyBatch 2 none) 3 none
      (Bench.ofTwo .never).journaled none = (r.1, r.2.1.withJournal journal, r.2.2) ∧
    journal.map (fun e => (e.request.sender, e.request.nonce)) = [(1, 5), (2, 7), (1, 6)] := by
  intro r
  have hr : r = (.ok
      { strategy := "steady_batch", dispatched := 3, accepted := 3, failed := 0, groups := 2
        started := 0, finished := 0, stoppedEarly := false }, r.2.1, r.2.2) :=
    Prod.ext (by cbv) rfl
  have hstand : (ofTwo none).StandAt (Bench.ofTwo .never).sequences (fun i => if i = 0 then 5 else 7) := by
    intro place hp
    have hp : place = 0 ∨ place = 1 := by
      change place < 2 at hp
      omega
    rcases hp with rfl | rfl
    · exact ⟨5, by rfl⟩
    · exact ⟨7, by rfl⟩
  have hfit : (ofTwo none).Fits (fun i => if i = 0 then 5 else 7) 3 := by
    intro place _
    dsimp only
    split <;> decide
  have hseeded : ofSequences (Bench.ofTwo .never).sequences {} (seconds 10) none = .ok (ofTwo none) := by
    rfl
  obtain ⟨journal, hsame, -, -, hplan, -⟩ :=
    sendWith_submits_plan hseeded hstand (.steady (some 0)) _ _ _ _ _ hr hfit
  refine ⟨journal, by rw [hsame, hr], ?_⟩
  have hpairs := congrArg (List.map fun r => (r.sender, r.nonce)) hplan
  rw [List.map_map] at hpairs
  exact hpairs.trans (by cbv)

end Throughput
