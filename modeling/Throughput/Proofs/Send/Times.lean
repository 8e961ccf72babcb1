import Throughput.Proofs.Send.Outcomes
import Throughput.Proofs.Send.Settled

/-!
# The times of submissions

When a submission was made and how long it is under way stays as it is once the submission is in the
journal, so what a journal says of its times is settled group by group.
-/

namespace Throughput

variable {σ ε : Type}

/-! ## When submissions were made and how long they took -/

/-- When a submission is over. -/
def Entry.endsAt (timeout : Duration) (e : Entry) : Instant := e.startedAt + e.duration timeout

theorem Entry.settledAt_outcome (timeout : Duration) (e : Entry) :
    (e.outcome timeout).settledAt = e.endsAt timeout := by
  unfold outcome
  split <;> rfl

namespace Journal

variable {journal journal' : Journal} {size groups : Nat} {pause timeout : Duration} {i : Nat}
  {e : Entry} {t : Instant}

/-- When each submission was made and how long the ledger takes to answer it. -/
def times (journal : Journal) : List (Instant × Option Duration) :=
  journal.map fun e => (e.startedAt, e.latency)

/-- What stands in a journal keeps its times. -/
theorem exists_of_times (h : journal.times <+: journal'.times) (hi : i < journal.length)
    (he : journal'[i]? = some e) (timeout : Duration) :
    ∃ e', journal[i]? = some e' ∧ e'.startedAt = e.startedAt ∧
      e'.endsAt timeout = e.endsAt timeout := by
  obtain ⟨late, hlate⟩ := h
  have hlt : i < journal.times.length := by simpa [times] using hi
  have hsame : journal.times[i]? = journal'.times[i]? := by
    rw [← hlate, List.getElem?_append_left hlt]
  simp only [times, List.getElem?_map, he, List.getElem?_eq_getElem hi, Option.map_some,
    Option.some.injEq, Prod.mk.injEq] at hsame
  refine ⟨journal[i], List.getElem?_eq_getElem hi, hsame.1, ?_⟩
  rw [Entry.endsAt, Entry.duration, hsame.1, hsame.2]
  rfl

/-- What is added to the calls of one instant was made at that instant. -/
theorem startedAt_of_calls {sent : List Request}
    (h : journal'.calls = journal.calls ++ sent.map (·, t)) (hi : journal.length ≤ i)
    (he : journal'[i]? = some e) : e.startedAt = t := by
  have hcall : journal'.calls[i]? = some (e.request, e.startedAt) := by
    rw [calls, List.getElem?_map, he]
    rfl
  have hlate : journal.calls.length ≤ i := by simpa [calls] using hi
  rw [h, List.getElem?_append_right hlate, List.getElem?_map] at hcall
  obtain ⟨request, -, hsame⟩ := Option.map_eq_some_iff.mp hcall
  exact (Prod.mk.inj hsame).2.symm

theorem times_answered (journal : Journal) (place : Nat) (now : Instant) (answer : Answer Handle) :
    times (journal.modify place (Entry.answered now answer)) = journal.times := by
  apply List.ext_getElem?
  intro i
  simp only [times, List.getElem?_map, List.getElem?_modify]
  cases journal[i]? with
  | none => rfl
  | some e =>
    simp only [Option.map_eq_map, Option.map_some]
    split <;> rfl

/-- Are submissions made in groups of one size, each group a pause after the last submission of the
groups before it was over? -/
structure IsPaced (size : Nat) (pause timeout : Duration) (journal : Journal) : Prop where
  together : ∀ i i' e e', journal[i]? = some e → journal[i']? = some e' → i / size = i' / size →
    e.startedAt = e'.startedAt
  apart : ∀ i i' e e', journal[i]? = some e → journal[i']? = some e' → i / size < i' / size →
    e.endsAt timeout + pause ≤ e'.startedAt

namespace IsPaced

theorem nil (size : Nat) (pause timeout : Duration) : IsPaced size pause timeout [] :=
  ⟨fun i i' e e' he => by simp at he, fun i i' e e' he => by simp at he⟩

theorem congr (h : journal.IsPaced size pause timeout) (htimes : journal.times <+: journal'.times)
    (hlength : journal'.length = journal.length) : journal'.IsPaced size pause timeout := by
  have hback : ∀ {i : Nat} {e : Entry}, journal'[i]? = some e → ∃ e', journal[i]? = some e' ∧
      e'.startedAt = e.startedAt ∧ e'.endsAt timeout = e.endsAt timeout := by
    intro i e he
    obtain ⟨hlt, -⟩ := List.getElem?_eq_some_iff.mp he
    exact exists_of_times htimes (hlength ▸ hlt) he timeout
  refine ⟨fun i i' e e' he he' hsame => ?_, fun i i' e e' he he' hless => ?_⟩
  · obtain ⟨x, hx, hstart, -⟩ := hback he
    obtain ⟨x', hx', hstart', -⟩ := hback he'
    rw [← hstart, ← hstart']
    exact h.together i i' x x' hx hx' hsame
  · obtain ⟨x, hx, -, hend⟩ := hback he
    obtain ⟨x', hx', hstart', -⟩ := hback he'
    rw [← hend, ← hstart']
    exact h.apart i i' x x' hx hx' hless

/-- A group that begins late enough. -/
theorem next (h : journal.IsPaced size pause timeout) (htimes : journal.times <+: journal'.times)
    (hpos : 0 < size) (hfull : journal.length = groups * size)
    (hlength : journal'.length ≤ groups * size + size)
    (hstarts : ∀ i e, journal.length ≤ i → journal'[i]? = some e → e.startedAt = t)
    (hends : ∀ e ∈ journal, e.endsAt timeout + pause ≤ t) :
    journal'.IsPaced size pause timeout := by
  -- places before the group belong to groups before it, the others to the group
  have hbefore : ∀ {i : Nat}, i < journal.length → i / size < groups := by
    intro i hi
    rw [hfull] at hi
    exact (Nat.div_lt_iff_lt_mul hpos).mpr hi
  have hgroup : ∀ {i : Nat} {e : Entry}, journal'[i]? = some e → journal.length ≤ i →
      i / size = groups := by
    intro i e he hi
    obtain ⟨hlt, -⟩ := List.getElem?_eq_some_iff.mp he
    refine Nat.div_eq_of_lt_le (hfull ▸ hi) ?_
    rw [Nat.succ_mul]
    exact hlt.trans_le hlength
  refine ⟨fun i i' e e' he he' hsame => ?_, fun i i' e e' he he' hless => ?_⟩
  · rcases Nat.lt_or_ge i journal.length with hi | hi <;>
      rcases Nat.lt_or_ge i' journal.length with hi' | hi'
    · obtain ⟨x, hx, hstart, -⟩ := exists_of_times htimes hi he timeout
      obtain ⟨x', hx', hstart', -⟩ := exists_of_times htimes hi' he' timeout
      rw [← hstart, ← hstart']
      exact h.together i i' x x' hx hx' hsame
    · have hless := hbefore hi
      rw [hsame, hgroup he' hi'] at hless
      exact absurd hless (Nat.lt_irrefl _)
    · have hless := hbefore hi'
      rw [← hsame, hgroup he hi] at hless
      exact absurd hless (Nat.lt_irrefl _)
    · rw [hstarts i e hi he, hstarts i' e' hi' he']
  · rcases Nat.lt_or_ge i journal.length with hi | hi
    · obtain ⟨x, hx, -, hend⟩ := exists_of_times htimes hi he timeout
      rw [← hend]
      rcases Nat.lt_or_ge i' journal.length with hi' | hi'
      · obtain ⟨x', hx', hstart', -⟩ := exists_of_times htimes hi' he' timeout
        rw [← hstart']
        exact h.apart i i' x x' hx hx' hless
      · rw [hstarts i' e' hi' he']
        exact hends x (List.mem_of_getElem? hx)
    · rw [hgroup he hi] at hless
      rcases Nat.lt_or_ge i' journal.length with hi' | hi'
      · exact absurd hless (Nat.not_lt_of_lt (hbefore hi'))
      · exact absurd hless (Nat.not_lt_of_le (hgroup he' hi').le)

end IsPaced

end Journal

/-- A submission that settles leaves the times as they are. -/
theorem Flight.Awaits.times_settle {timeout : Duration} {f : Flight (σ × Journal)} {place : Nat}
    {e : Entry} (h : f.Awaits timeout place e) (s : σ) (journal : Journal) :
    (f.settle timeout (s, journal)).2.2.times = journal.times := by
  obtain ⟨-, -, -, -, h⟩ := h
  unfold Flight.settle
  cases hf : f.answer with
  | none => rfl
  | some answer =>
    rw [hf] at h
    obtain ⟨-, call, rfl⟩ := h
    simp only [Call.journaled_answer]
    generalize call.answer f.settlesAt s = result
    rcases result with ⟨error | handle, s⟩ <;> exact Journal.times_answered ..

theorem Launch.add_times (ledger : Ledger σ) (timeout : Duration) (now : Instant)
    (l : Launch (σ × Journal)) (request : Request) :
    l.ledger.2.times <+: (l.add ledger.journaled timeout now request).ledger.2.times := by
  obtain ⟨e, hjournal, -, hawaits⟩ :=
    Flight.start_journaled ledger timeout now request l.ledger.1 l.ledger.2
  have hgrows : l.ledger.2.times <+:
      (Flight.start ledger.journaled timeout now request l.ledger).2.2.times := by
    rw [show l.ledger = (l.ledger.1, l.ledger.2) from rfl, hjournal]
    simp [Journal.times]
  unfold Launch.add
  dsimp only
  split
  · have hsettle := hawaits.times_settle
      (Flight.start ledger.journaled timeout now request l.ledger).2.1
      (Flight.start ledger.journaled timeout now request l.ledger).2.2
    exact hsettle ▸ hgrows
  · exact hgrows

theorem Launch.all_times (ledger : Ledger σ) (timeout : Duration) (now : Instant)
    (requests : List Request) (s : σ × Journal) (tracker : Tracker) :
    s.2.times <+: (Launch.all ledger.journaled timeout now requests s tracker).ledger.2.times := by
  apply List.foldlRecOn (motive := fun l : Launch (σ × Journal) => s.2.times <+: l.ledger.2.times)
  · exact List.prefix_rfl
  · intro l h request _
    exact h.trans (add_times ledger timeout now l request)

namespace Job

variable {j : Job (σ × Journal) ε} {p p' q : Phase (σ × Journal) ε} {before : Tracker} {t : Instant}

theorem launch_times (hj : j.IsJournaled) (requests : List Request) (p : Phase (σ × Journal) ε) :
    p.ledger.2.times <+: (j.launch requests p).ledger.2.times := by
  obtain ⟨ledger, hl⟩ := hj.ledger
  unfold launch
  rw [hl]
  exact Launch.all_times ..

theorem sendGroup_times (hj : j.IsJournaled) (requests : List Request) (sequences : Sequences)
    (p : Phase (σ × Journal) ε) :
    p.ledger.2.times <+: (j.sendGroup requests sequences p).ledger.2.times :=
  launch_times hj requests { p with
    sequences, stage := .group, dispatched := p.dispatched + requests.length
    groups := p.groups + 1 }

/-- No move changes the times of submissions that have been made. -/
theorem Move.times (hj : j.IsJournaled) (hb : j.IsBalanced before p) (m : Move j p p') :
    p.ledger.2.times <+: p'.ledger.2.times := by
  cases m with
  | settle f rest hf =>
    rw [IsBalanced, hf] at hb
    obtain ⟨place, e, -, hawaits⟩ := hb.awaits (List.mem_cons_self ..)
    rw [settleFirst_eq hf]
    exact (hawaits.times_settle p.ledger.1 p.ledger.2).symm ▸ List.prefix_rfl
  | start => exact launch_times hj p.queued { p with queued := [] }
  | burst => exact sendGroup_times hj _ _ p
  | group => exact sendGroup_times hj _ _ (j.wakeUp p)
  | startRefills c due =>
    have hjournal := prime_journal hj (j.wakeUp p)
    rw [startRefills_eq]
    split <;> exact hjournal.symm ▸ List.prefix_rfl
  | refill c due next =>
    have hjournal := refilled_journal hj (j.wakeUp p) c
    exact hjournal.symm ▸ List.prefix_rfl
  | stop | complete | pause | prime | cut | expire | ask | drained => exact List.prefix_rfl

/-! ## What is over at an instant -/

/-- Has all that a phase has recorded settled by now? -/
def Current (before : Tracker) (p : Phase (σ × Journal) ε) : Prop :=
  (∃ added, p.tracker = before.recordAll added ∧ ∀ o ∈ added, o.settledAt ≤ p.now) ∧
    p.flights.Forward

theorem Move.current (h : Current before p) (m : Move j p p') (hnow : p.now ≤ p'.now) :
    Current before p' := by
  obtain ⟨⟨added, htracker, hadded⟩, hforward⟩ := h
  obtain ⟨⟨late, htracker', hlate⟩, hforward'⟩ := m.records hforward
  refine ⟨⟨added ++ late, ?_, fun o ho => ?_⟩, hforward'⟩
  · rw [htracker', htracker, Tracker.recordAll_append]
  · rcases List.mem_append.mp ho with ho | ho
    · exact (hadded o ho).trans hnow
    · exact (hlate o ho).le

/-- With nothing under way all submissions are over. -/
theorem Current.endsAt_le (h : Current before p) (hb : j.IsBalanced before p)
    (hidle : p.flights = []) : ∀ e ∈ p.ledger.2, e.endsAt j.generator.submitTimeout ≤ p.now := by
  obtain ⟨⟨added, htracker, hadded⟩, -⟩ := h
  rw [IsBalanced, hidle] at hb
  obtain ⟨-, recorded, hrecorded, hperm⟩ := hb.recorded
  have hsame : recorded = added := by
    have houtcomes := before.outcomes_recordAll recorded
    rw [← hrecorded, htracker, before.outcomes_recordAll added] at houtcomes
    exact (List.append_cancel_left houtcomes).symm
  intro e he
  rw [← e.settledAt_outcome]
  exact hadded _ (hsame ▸ hperm.mem_iff.mpr (List.mem_map_of_mem he))

/-- What a course keeps of the books. -/
theorem Course.books (hj : j.IsJournaled) {b : Bench σ} {memory : ε}
    (h : j.Course (start b.journaled memory) p) :
    j.IsBalanced b.tracker p ∧ IsCounted p ∧ Current b.tracker p :=
  (h.keeps (I := fun p => j.IsBalanced b.tracker p ∧ IsCounted p ∧ Current b.tracker p)
    (j.shaped_start _ _) ⟨j.balanced_start b memory, rfl, ⟨[], rfl, nofun⟩, nofun⟩
    (fun _ _ hq hI m hnow _ =>
      ⟨(m.books hj hq hI.1).1, m.counted hj hq hI.1 hI.2.1, m.current hI.2.2 hnow⟩)
    (fun q t _ hI hnow _ _ => by
      obtain ⟨hb, hc, ⟨added, htracker, hadded⟩, hforward⟩ := hI
      exact ⟨hb, hc, ⟨added, htracker, fun o ho => (hadded o ho).trans hnow⟩, hforward⟩)).2

end Job

end Throughput
