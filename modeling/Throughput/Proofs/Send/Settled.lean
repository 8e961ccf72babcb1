import Throughput.Proofs.Send.Course
import Throughput.Proofs.Tracker

/-!
# When outcomes are recorded

A phase records an outcome at the instant at which the submission settles. What it has recorded when it
has been let go on up to an instant has settled by then, and what it records afterwards has not settled
before.
-/

namespace Throughput

variable {σ ε : Type}

/-- The instant at which a submission settled. -/
def Outcome.settledAt (o : Outcome) : Instant := o.submittedAt + o.latency

/-- Does nothing under way settle before it started? -/
def Flights.Forward (flights : Flights σ) : Prop := ∀ f ∈ flights, f.startedAt ≤ f.settlesAt

theorem Flight.startedAt_le_of_start (ledger : Ledger σ) (timeout : Duration) (now : Instant)
    (request : Request) (s : σ) :
    let f := (Flight.start ledger timeout now request s).1
    f.startedAt = now ∧ f.startedAt ≤ f.settlesAt := by
  unfold start
  dsimp only
  split
  · split <;> exact ⟨rfl, Nat.le_add_right ..⟩
  · exact ⟨rfl, Nat.le_add_right ..⟩

theorem Flight.settledAt_settle (timeout : Duration) {f : Flight σ} (h : f.startedAt ≤ f.settlesAt)
    (s : σ) : (f.settle timeout s).1.settledAt = f.settlesAt := by
  have hsum : f.startedAt + (f.settlesAt - f.startedAt) = f.settlesAt := Nat.add_sub_of_le h
  unfold settle Outcome.settledAt
  dsimp only
  split
  · exact hsum
  · split <;> exact hsum

/-- Submissions that settle as they start are recorded at that instant. -/
theorem Launch.all_records (ledger : Ledger σ) (timeout : Duration) (now : Instant)
    (requests : List Request) (s : σ) (tracker : Tracker) :
    let l := all ledger timeout now requests s tracker
    (∃ added, l.tracker = tracker.recordAll added ∧ ∀ o ∈ added, o.settledAt = now) ∧
      Flights.Forward l.started := by
  apply List.foldlRecOn (motive := fun l : Launch σ =>
    (∃ added, l.tracker = tracker.recordAll added ∧ ∀ o ∈ added, o.settledAt = now) ∧
      Flights.Forward l.started)
  · exact ⟨⟨[], rfl, nofun⟩, nofun⟩
  · rintro l ⟨⟨added, htracker, hadded⟩, hstarted⟩ request -
    obtain ⟨hnow, hforward⟩ := Flight.startedAt_le_of_start ledger timeout now request l.ledger
    unfold add
    dsimp only
    split
    · rename_i hsettles
      refine ⟨⟨added ++ [_], by rw [Tracker.recordAll_concat, htracker], ?_⟩, hstarted⟩
      intro o ho
      rcases List.mem_append.mp ho with ho | ho
      · exact hadded o ho
      · rw [List.mem_singleton.mp ho, Flight.settledAt_settle timeout hforward]
        rw [hnow] at hforward
        exact Nat.le_antisymm hsettles hforward
    · exact ⟨⟨added, htracker, hadded⟩, List.forall_mem_cons.mpr ⟨hforward, hstarted⟩⟩

namespace Job

variable {j : Job σ ε} {p p' : Phase σ ε} {before : Tracker} {t limit : Instant}

theorem launch_records (h : p.flights.Forward) (requests : List Request) :
    (∃ added, (j.launch requests p).tracker = p.tracker.recordAll added ∧
      ∀ o ∈ added, o.settledAt = p.now) ∧ (j.launch requests p).flights.Forward := by
  obtain ⟨hadded, hstarted⟩ := Launch.all_records j.ledger j.generator.submitTimeout p.now
    requests p.ledger p.tracker
  refine ⟨hadded, fun f hf => ?_⟩
  rcases List.mem_append.mp ((Flights.add_perm ..).mem_iff.mp hf) with hf | hf
  · exact h f hf
  · exact hstarted f (List.mem_reverse.mp hf)

theorem sendGroup_records (h : p.flights.Forward) (requests : List Request)
    (sequences : Sequences) :
    (∃ added, (j.sendGroup requests sequences p).tracker = p.tracker.recordAll added ∧
      ∀ o ∈ added, o.settledAt = p.now) ∧ (j.sendGroup requests sequences p).flights.Forward :=
  launch_records (p := { p with
    sequences, stage := .group, dispatched := p.dispatched + requests.length
    groups := p.groups + 1 }) h requests

/-- What a move records settles at the instant to which it leads. -/
theorem Move.records (h : p.flights.Forward) (m : Move j p p') :
    (∃ added, p'.tracker = p.tracker.recordAll added ∧ ∀ o ∈ added, o.settledAt = p'.now) ∧
      p'.flights.Forward := by
  cases m with
  | settle f rest hf =>
    rw [hf] at h
    obtain ⟨hfirst, hrest⟩ := List.forall_mem_cons.mp h
    rw [settleFirst_eq hf]
    refine ⟨⟨[_], rfl, fun o ho => ?_⟩, hrest⟩
    rw [List.mem_singleton.mp ho]
    exact Flight.settledAt_settle _ hfirst _
  | start hq => exact launch_records (p := { p with queued := [] }) h p.queued
  | burst => exact sendGroup_records h ..
  | group => exact sendGroup_records (p := j.wakeUp p) h ..
  | startRefills c due hs hstage =>
    rw [startRefills_eq]
    split <;> exact ⟨⟨[], rfl, nofun⟩, h⟩
  | _ => exact ⟨⟨[], rfl, nofun⟩, h⟩

/-- What a phase records while it is let go on settles at an instant at which an event was allowed, in
the order of time. -/
theorem advance_records (allowed : Instant → Bool → Bool) (steps : Nat) (hp : j.Shaped p)
    (h : p.flights.Forward) (hdue : ∀ t e, j.next? p = some (t, e) → limit ≤ t) :
    let q := j.advance allowed steps p
    p.now ≤ q.now ∧ q.flights.Forward ∧ ∃ added, q.tracker = p.tracker.recordAll added ∧
      ∀ o ∈ added, limit ≤ o.settledAt ∧ o.settledAt ≤ q.now ∧
        ∃ own, allowed o.settledAt own = true := by
  induction steps generalizing p with
  | zero => exact ⟨Nat.le_refl _, h, [], rfl, nofun⟩
  | succ steps ih =>
    unfold advance
    cases hnext : j.next? p with
    | none => exact ⟨Nat.le_refl _, h, [], rfl, nofun⟩
    | some next =>
      obtain ⟨t, e⟩ := next
      dsimp only
      split
      · rename_i hallowed
        have hevent := due_of_next? hp.2.1 hnext
        have hmove := step_move hp hevent
        have hshaped := hmove.shaped hp
        have hnow := step_now hevent
        have hlimit := hdue t e hnext
        obtain ⟨⟨first, htracker, hfirst⟩, hforward⟩ := hmove.records h
        have hlater : ∀ t' e', j.next? (j.step e p) = some (t', e') → limit ≤ t' := by
          intro t' e' hnext'
          have hle := now_le_of_enabled hshaped.2.1 (due_of_next? hshaped.2.1 hnext').1
          rw [hnow] at hle
          exact Nat.le_trans hlimit hle
        obtain ⟨hclock, hforward, added, htracker', hadded⟩ := ih hshaped hforward hlater
        rw [hnow] at hclock
        refine ⟨Nat.le_trans (now_le_of_enabled hp.2.1 hevent.1) hclock, hforward, first ++ added,
          ?_, fun o ho => ?_⟩
        · rw [htracker', htracker, Tracker.recordAll_append]
        · rcases List.mem_append.mp ho with ho | ho
          · rw [hfirst o ho, hnow]
            exact ⟨hlimit, hclock, _, hallowed⟩
          · exact hadded o ho
      · exact ⟨Nat.le_refl _, h, [], rfl, nofun⟩

/-- A phase that has been let go on up to an instant: what it has recorded since it began had settled
by then, and nothing that can happen to it is due before. -/
structure UpTo (j : Job σ ε) (before : Tracker) (t : Instant) (p : Phase σ ε) : Prop where
  shaped : j.Shaped p
  forward : p.flights.Forward
  recorded : ∃ outcomes, p.tracker = before.recordAll outcomes ∧ ∀ o ∈ outcomes, o.settledAt ≤ t
  due : ∀ t' e, j.next? p = some (t', e) → t ≤ t'

theorem upTo_start (b : Bench σ) (memory : ε) : j.UpTo b.tracker b.now (start b memory) := by
  have hshaped := j.shaped_start b memory
  refine ⟨hshaped, nofun, ⟨[], rfl, nofun⟩, fun t e hnext => ?_⟩
  exact now_le_of_enabled hshaped.2.1 (due_of_next? hshaped.2.1 hnext).1

namespace UpTo

theorem runUntil (hj : j.IsSound) (h : j.UpTo before t p) (hle : t ≤ limit) :
    j.UpTo before limit (j.runUntil limit p) := by
  obtain ⟨outcomes, htracker, houtcomes⟩ := h.recorded
  obtain ⟨-, hforward, added, htracker', hadded⟩ :=
    advance_records (fun instant own => instant < limit || (own && instant == limit))
      (j.stepsLeft p) h.shaped h.forward h.due
  refine ⟨shaped_advance h.shaped .., hforward, ⟨outcomes ++ added, ?_, fun o ho => ?_⟩, ?_⟩
  · unfold Job.runUntil
    rw [htracker', htracker, Tracker.recordAll_append]
  · rcases List.mem_append.mp ho with ho | ho
    · exact Nat.le_trans (houtcomes o ho) hle
    · obtain ⟨-, -, own, hallowed⟩ := hadded o ho
      simp only [Bool.or_eq_true, Bool.and_eq_true, decide_eq_true_eq, beq_iff_eq] at hallowed
      exact hallowed.elim Nat.le_of_lt fun heq => Nat.le_of_eq heq.2
  · intro t' e hnext
    have hstopped := advance_stops hj _ _ _ h.shaped (Nat.le_refl _) hnext
    simp only [Bool.or_eq_false_iff, decide_eq_false_iff_not] at hstopped
    exact Nat.le_of_not_lt hstopped.1

/-- What a phase records after an instant has not settled before. A phase that has ended records
nothing. -/
theorem run (h : j.UpTo before t p) :
    ∃ outcomes late, p.tracker = before.recordAll outcomes ∧
      (j.run p).tracker = before.recordAll (outcomes ++ late) ∧
      (∀ o ∈ outcomes, o.settledAt ≤ t) ∧ (∀ o ∈ late, t ≤ o.settledAt) ∧
      (j.next? p = none → late = []) := by
  obtain ⟨outcomes, htracker, houtcomes⟩ := h.recorded
  obtain ⟨-, -, late, hrun, hlate⟩ :=
    advance_records (fun _ _ => true) (j.stepsLeft p) h.shaped h.forward h.due
  refine ⟨outcomes, late, htracker, ?_, houtcomes, fun o ho => (hlate o ho).1, fun hended => ?_⟩
  · rw [Tracker.recordAll_append, ← htracker]
    exact hrun
  · rw [advance_of_next? hended] at hrun
    have houtcomes := p.tracker.outcomes_recordAll late
    rw [← hrun] at houtcomes
    exact List.self_eq_append_right.mp houtcomes

end UpTo

end Job

end Throughput
