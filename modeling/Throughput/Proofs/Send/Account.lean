import Throughput.Proofs.Ledger.Keeps
import Throughput.Proofs.Send.Order

/-!
# A phase gives account of its ledger

What a phase has recorded as accepted is what its ledger has accepted, and the requests that are
recorded, under way or queued are those of the plan.
-/

namespace Throughput

variable {σ ε : Type} {ledger : Ledger σ} {I : List (Request × Handle) → σ → Prop}

/-- What an outcome says was accepted. -/
def Outcome.granted? (o : Outcome) : Option (Request × Handle) := o.handle.map (o.request, ·)

/-- What a record says was accepted. -/
def Tracker.granted (t : Tracker) : List (Request × Handle) :=
  t.outcomes.toList.filterMap Outcome.granted?

/-- The requests whose outcomes are recorded. -/
def Tracker.requests (t : Tracker) : List Request := t.outcomes.toList.map (·.request)

theorem Tracker.granted_record (t : Tracker) (o : Outcome) :
    (t.record o).granted = t.granted ++ o.granted?.toList := by
  unfold granted
  rw [outcomes_record, Array.toList_push, List.filterMap_append]
  cases ho : o.granted? <;> simp [ho]

theorem Tracker.requests_record (t : Tracker) (o : Outcome) :
    (t.record o).requests = t.requests ++ [o.request] := by
  simp [requests, outcomes_record]

/-- Is the answer of a submission under way that of a ledger to its request? -/
def Flight.IsOf (ledger : Ledger σ) (f : Flight σ) : Prop :=
  ∀ answer, f.answer = some answer →
    ∃ called before, answer = (ledger.submit called f.request before).1.answer

theorem Flight.isOf_start (ledger : Ledger σ) (timeout : Duration) (now : Instant)
    (request : Request) (s : σ) :
    (Flight.start ledger timeout now request s).1.IsOf ledger ∧
      (Flight.start ledger timeout now request s).1.request = request ∧
      (Flight.start ledger timeout now request s).2 = (ledger.submit now request s).2 := by
  unfold Flight.start
  dsimp only
  split
  · split
    · refine ⟨fun answer hanswer => ?_, rfl, rfl⟩
      exact ⟨now, s, (Option.some.inj hanswer).symm⟩
    · exact ⟨nofun, rfl, rfl⟩
  · exact ⟨nofun, rfl, rfl⟩

/-- A submission settles with what the ledger accepts; one that was given up accepts nothing. -/
theorem Flight.settle_keeps (hk : ledger.Keeps I) (timeout : Duration) {f : Flight σ} (hf : f.IsOf ledger)
    {accepted : List (Request × Handle)} {s : σ} (hs : I accepted s) :
    (f.settle timeout s).1.request = f.request ∧
      I (accepted ++ (f.settle timeout s).1.granted?.toList) (f.settle timeout s).2 := by
  unfold Flight.settle
  cases ha : f.answer with
  | none => exact ⟨rfl, by simpa [Outcome.granted?] using hs⟩
  | some answer =>
    obtain ⟨called, before, rfl⟩ := hf answer ha
    have hanswer := hk.submitAnswer hs called f.request before f.settlesAt
    dsimp only
    split
    · rename_i heq
      rw [heq] at hanswer
      exact ⟨rfl, hanswer⟩
    · rename_i heq
      rw [heq] at hanswer
      exact ⟨rfl, hanswer⟩

namespace Launch

variable (timeout : Duration) (now : Instant)

/-- A submission that starts is under way or recorded, and the record agrees with the ledger. -/
theorem add_keeps (hk : ledger.Keeps I) {l : Launch σ} (hl : I l.tracker.granted l.ledger)
    (hf : ∀ f ∈ l.started, f.IsOf ledger) (request : Request) :
    I (l.add ledger timeout now request).tracker.granted (l.add ledger timeout now request).ledger ∧
      (∀ f ∈ (l.add ledger timeout now request).started, f.IsOf ledger) ∧
      ((l.add ledger timeout now request).tracker.requests ++
        (l.add ledger timeout now request).started.map (·.request)).Perm
          (l.tracker.requests ++ l.started.map (·.request) ++ [request]) := by
  obtain ⟨hof, hrequest, hsubmit⟩ := Flight.isOf_start ledger timeout now request l.ledger
  have hsubmitted := hk.submit hl now request
  rw [← hsubmit] at hsubmitted
  unfold add
  dsimp only
  split
  · obtain ⟨hsame, hsettled⟩ := Flight.settle_keeps hk timeout hof hsubmitted
    refine ⟨?_, hf, ?_⟩
    · rw [Tracker.granted_record]
      exact hsettled
    · rw [Tracker.requests_record, hsame, hrequest, List.append_assoc, List.append_assoc]
      exact List.perm_append_comm.append_left _
  · refine ⟨hsubmitted, List.forall_mem_cons.mpr ⟨hof, hf⟩, ?_⟩
    rw [List.map_cons, hrequest, List.append_assoc]
    exact (List.perm_append_singleton ..).symm.append_left _

theorem all_keeps (hk : ledger.Keeps I) {s : σ} {tracker : Tracker} (hs : I tracker.granted s)
    (requests : List Request) :
    let l := all ledger timeout now requests s tracker
    I l.tracker.granted l.ledger ∧ (∀ f ∈ l.started, f.IsOf ledger) ∧
      (l.tracker.requests ++ l.started.map (·.request)).Perm (tracker.requests ++ requests) := by
  have hfold : ∀ l : Launch σ, I l.tracker.granted l.ledger → (∀ f ∈ l.started, f.IsOf ledger) →
      I (requests.foldl (add ledger timeout now) l).tracker.granted
          (requests.foldl (add ledger timeout now) l).ledger ∧
        (∀ f ∈ (requests.foldl (add ledger timeout now) l).started, f.IsOf ledger) ∧
        ((requests.foldl (add ledger timeout now) l).tracker.requests ++
          (requests.foldl (add ledger timeout now) l).started.map (·.request)).Perm
            (l.tracker.requests ++ l.started.map (·.request) ++ requests) := by
    induction requests with
    | nil => exact fun l hl hf => ⟨hl, hf, by simp⟩
    | cons request requests ih =>
      intro l hl hf
      obtain ⟨hl', hf', hperm⟩ := add_keeps timeout now hk hl hf request
      obtain ⟨hl'', hf'', hperm'⟩ := ih _ hl' hf'
      refine ⟨hl'', hf'', hperm'.trans ?_⟩
      have hrest := hperm.append_right requests
      rwa [List.append_assoc _ [request] requests] at hrest
  obtain ⟨hl, hf, hperm⟩ := hfold { ledger := s, tracker } hs (by simp)
  exact ⟨hl, hf, by simpa [all] using hperm⟩

end Launch

/-- The requests of a phase: recorded, under way, or queued. -/
def Phase.requests (p : Phase σ ε) : List Request :=
  p.tracker.requests ++ p.flights.map (·.request) ++ p.queued

namespace Job

variable {j : Job σ ε} {p p' : Phase σ ε}

/-- Does the record of a phase agree with its ledger, and is what is under way awaited from it? -/
structure Tracked (j : Job σ ε) (I : List (Request × Handle) → σ → Prop) (p : Phase σ ε) : Prop where
  ledger : I p.tracker.granted p.ledger
  flights : ∀ f ∈ p.flights, f.IsOf j.ledger

theorem tracked_launch (hk : j.ledger.Keeps I) (h : j.Tracked I p) (requests : List Request) :
    j.Tracked I (j.launch requests p) ∧
      (j.launch requests p).requests.Perm (p.requests ++ requests) := by
  obtain ⟨hledger, hstarted, hperm⟩ := Launch.all_keeps j.generator.submitTimeout p.now hk
    h.ledger requests
  have hadd := Flights.add_perm p.flights (Launch.all j.ledger j.generator.submitTimeout p.now
    requests p.ledger p.tracker).started.reverse
  refine ⟨⟨hledger, fun f hf => ?_⟩, ?_⟩
  · rcases List.mem_append.mp (hadd.mem_iff.mp hf) with hf | hf
    · exact h.flights f hf
    · exact hstarted f (List.mem_reverse.mp hf)
  · rw [List.perm_iff_count] at hperm ⊢
    intro r
    have hcount := hperm r
    have hflights := (hadd.map (·.request)).count_eq r
    simp only [launch, Phase.requests, List.count_append, List.map_append, List.map_reverse,
      List.count_reverse] at hcount hflights ⊢
    omega

theorem tracked_sendGroup (hk : j.ledger.Keeps I) (h : j.Tracked I p) (requests : List Request)
    (sequences : Sequences) :
    j.Tracked I (j.sendGroup requests sequences p) ∧
      (j.sendGroup requests sequences p).requests.Perm (p.requests ++ requests) :=
  tracked_launch hk (p := { p with
    sequences, stage := .group, dispatched := p.dispatched + requests.length
    groups := p.groups + 1 }) ⟨h.ledger, h.flights⟩ requests

/-- What a move issues is added to the requests of a phase, and the record goes on agreeing with the
ledger. -/
theorem Move.tracks (hk : j.ledger.Keeps I) (he : ∀ accepted, j.estimator.Keeps (I accepted))
    (hp : j.Shaped p) (h : j.Tracked I p) (m : Move j p p') :
    j.Tracked I p' ∧ ∃ issued, j.Issues p p' issued ∧ p'.requests.Perm (p.requests ++ issued) := by
  have hsame : p.requests.Perm (p.requests ++ []) := by rw [List.append_nil]
  obtain ⟨-, -, hp⟩ := hp
  cases m with
  | settle f rest hf =>
    have hof : f.IsOf j.ledger := h.flights f (by simp [hf])
    obtain ⟨hrequest, hledger⟩ := Flight.settle_keeps hk j.generator.submitTimeout hof h.ledger
    rw [settleFirst_eq hf]
    refine ⟨⟨?_, fun g hg => h.flights g (by simp [hf, hg])⟩, [], issues_nil rfl rfl, ?_⟩
    · rw [Tracker.granted_record]
      exact hledger
    · rw [List.append_nil]
      simp only [Phase.requests, Tracker.requests_record, hrequest, hf, List.map_cons,
        List.append_assoc, List.singleton_append]
      exact .refl _
  | start hq =>
    have hsent := tracked_launch hk (p := { p with queued := [] }) ⟨h.ledger, h.flights⟩ p.queued
    refine ⟨hsent.1, [], issues_nil rfl rfl, ?_⟩
    rw [List.append_nil]
    simpa [Phase.requests] using hsent.2
  | burst hs hstage hleft =>
    simp only [hstage] at hp
    obtain ⟨ht, hperm⟩ := tracked_sendGroup hk h (j.generator.buildAll j.target p.sequences).1
      (j.generator.buildAll j.target p.sequences).2
    exact ⟨ht, _, ⟨rfl, .inr (.inl ⟨hs, hp.2.2, rfl⟩)⟩, hperm⟩
  | group hs hd hgo hleft =>
    obtain ⟨ht, hperm⟩ := tracked_sendGroup hk (p := j.wakeUp p) ⟨h.ledger, h.flights⟩
      (j.generator.build p.dispatched (j.groupSize p.dispatched) p.sequences).1
      (j.generator.build p.dispatched (j.groupSize p.dispatched) p.sequences).2
    exact ⟨ht, _, ⟨rfl, .inr (.inr ⟨hs, _, rfl⟩)⟩, hperm⟩
  | stop hs hd hstop hleft => exact ⟨⟨h.ledger, h.flights⟩, [], issues_nil rfl rfl, hsame⟩
  | complete hs hd hdone => exact ⟨⟨h.ledger, h.flights⟩, [], issues_nil rfl rfl, hsame⟩
  | pause size pause hs hstage hidle hleft =>
    exact ⟨⟨h.ledger, h.flights⟩, [], issues_nil rfl rfl, hsame⟩
  | prime c hs hd hdone => exact ⟨⟨h.ledger, h.flights⟩, [], issues_nil rfl rfl, hsame⟩
  | startRefills c due hs hstage =>
    have hprimed := (he p.tracker.granted).prime h.ledger (j.wakeUp p).now p.estimator
    rw [startRefills_eq]
    split <;> exact ⟨⟨hprimed, h.flights⟩, [], issues_nil rfl rfl, hsame⟩
  | cut tick hstage hfirst hraised => exact ⟨⟨h.ledger, h.flights⟩, [], issues_nil rfl rfl, hsame⟩
  | expire tick hstage hfirst hraised hover =>
    exact ⟨⟨h.ledger, h.flights⟩, [], issues_nil rfl rfl, hsame⟩
  | ask c tick hs hstage hfirst hraised hover =>
    exact ⟨⟨h.ledger, h.flights⟩, [], issues_nil rfl rfl, hsame⟩
  | refill c due next hs hstage hfirst =>
    have hconsumed := (he p.tracker.granted).consumed h.ledger (j.wakeUp p).now p.estimator
    refine ⟨⟨hconsumed, h.flights⟩,
      (j.generator.build p.dispatched (j.refillNow (j.wakeUp p) c) p.sequences).1,
      ⟨?_, .inr (.inr ⟨by simp [hs], _, rfl⟩)⟩, ?_⟩
    · rw [Generator.length_build]
      rfl
    · rw [refill_eq]
      simp only [Phase.requests, List.append_assoc]
      exact .refl _
  | drained hstage hidle => exact ⟨⟨h.ledger, h.flights⟩, [], issues_nil rfl rfl, hsame⟩

end Job

/-! ## Where counters started -/

theorem Sequences.start?_reserve (m : Sequences) (sender a : Address) (count : UInt64) :
    (m.reserve sender count).2.start? a = m.start? a := by
  cases hm : m[sender]? with
  | none => simp [reserve, hm]
  | some counter =>
    rw [reserve_of_getElem? count hm]
    unfold start?
    dsimp only
    rw [Std.ExtTreeMap.getElem?_insert]
    by_cases ha : sender = a
    · subst ha
      simp [hm]
    · simp [ha]

/-- Steps that leave the starts leave them in any number. -/
theorem Sequences.start?_foldl {α ι : Type} {a : Address} {f : α × Sequences → ι → α × Sequences}
    (hf : ∀ x i, (f x i).2.start? a = x.2.start? a) (steps : List ι) (x : α × Sequences) :
    (steps.foldl f x).2.start? a = x.2.start? a := by
  induction steps generalizing x with
  | nil => rfl
  | cons i steps ih => rw [List.foldl_cons, ih, hf]

namespace Generator

variable (g : Generator) (m : Sequences) (a : Address)

theorem start?_build (position count : Nat) : (g.build position count m).2.start? a = m.start? a :=
  Sequences.start?_foldl (f := g.buildNext) (fun _ _ => Sequences.start?_reserve ..) _ ([], m)

theorem start?_buildAll (target : Nat) : (g.buildAll target m).2.start? a = m.start? a :=
  Sequences.start?_foldl (f := g.reserveShare target) (fun _ _ => Sequences.start?_reserve ..) _ (#[], m)

end Generator

namespace Job

variable {j : Job σ ε} {p p' : Phase σ ε} {first : Nat → UInt64} {seeds : Sequences}

theorem Issues.starts {issued : List Request} (h : j.Issues p p' issued) (a : Address) :
    p'.sequences.start? a = p.sequences.start? a := by
  rcases h with ⟨-, ⟨-, hsame⟩ | ⟨-, -, hall⟩ | ⟨-, count, hbuild⟩⟩
  · rw [hsame]
  · have hstart := j.generator.start?_buildAll p.sequences a j.target
    rwa [hall] at hstart
  · have hstart := j.generator.start?_build p.sequences a p.dispatched count
    rwa [hbuild] at hstart

/-- Does a phase give account of its ledger, its requests and its counters? -/
structure Accounted (j : Job σ ε) (I : List (Request × Handle) → σ → Prop) (first : Nat → UInt64)
    (seeds : Sequences) (p : Phase σ ε) : Prop where
  tracked : j.Tracked I p
  requests : p.requests.Perm (j.generator.plan first p.dispatched)
  stand : j.generator.StandAt p.sequences (j.generator.numbersAfter first p.dispatched)
  starts : ∀ a, p.sequences.start? a = seeds.start? a

theorem Move.accounted (hk : j.ledger.Keeps I) (he : ∀ accepted, j.estimator.Keeps (I accepted))
    (hd : j.generator.Distinct) (hp : j.Shaped p) (h : j.Accounted I first seeds p)
    (m : Move j p p') : j.Accounted I first seeds p' := by
  obtain ⟨htracked, issued, hissued, hperm⟩ := m.tracks hk he hp h.tracked
  obtain ⟨hplan, hstand⟩ := hissued.plan hd h.stand
  refine ⟨htracked, ?_, hstand, fun a => (hissued.starts a).trans (h.starts a)⟩
  rw [← hplan]
  exact hperm.trans (h.requests.append_right issued)

end Job

end Throughput
