import Throughput.Proofs.Poll.Later
import Throughput.Proofs.Send.Account
import Throughput.Proofs.Sequence

/-!
# A run gives account of its ledger

From the first read to the end of the load, polled or not, a run leaves a record of what its ledger has
accepted.
-/

namespace Throughput

variable {σ ε : Type} {ledger : Ledger σ} {I : List (Request × Handle) → σ → Prop}
  {g : Generator} {first : Nat → UInt64} {seeds : Sequences} {target : Nat}

/-- Does a bench with nothing under way give account of its ledger, its requests and its counters? -/
structure Bench.Accounted (g : Generator) (I : List (Request × Handle) → σ → Prop)
    (first : Nat → UInt64) (seeds : Sequences) (target : Nat) (b : Bench σ) : Prop where
  ledger : I b.tracker.granted b.ledger
  plan : ∃ dispatched ≤ target, b.tracker.requests.Perm (g.plan first dispatched) ∧
    g.StandAt b.sequences (g.numbersAfter first dispatched)
  starts : ∀ a, b.sequences.start? a = seeds.start? a

namespace Bench.Accounted

variable {b : Bench σ}

theorem fresh (hledger : I b.tracker.granted b.ledger) (hnone : b.tracker.requests = [])
    (hstand : g.StandAt b.sequences first) : b.Accounted g I first b.sequences target := by
  refine ⟨hledger, ⟨0, Nat.zero_le _, ?_, ?_⟩, fun _ => rfl⟩
  · rw [hnone]
    exact .nil
  · rwa [Generator.numbersAfter_zero]

theorem close (h : b.Accounted g I first seeds target) : b.close.Accounted g I first seeds target :=
  ⟨h.ledger, h.plan, h.starts⟩

end Bench.Accounted

namespace Job

variable {j : Job σ ε} {p : Phase σ ε}

/-- Is a phase well-shaped, and does it give account? -/
def Sound (j : Job σ ε) (I : List (Request × Handle) → σ → Prop) (first : Nat → UInt64)
    (seeds : Sequences) (p : Phase σ ε) : Prop :=
  j.Shaped p ∧ j.Accounted I first seeds p

theorem sound_start {b : Bench σ} (hledger : I b.tracker.granted b.ledger)
    (hnone : b.tracker.requests = []) (hstand : j.generator.StandAt b.sequences first) (memory : ε) :
    j.Sound I first b.sequences (start b memory) := by
  refine ⟨j.shaped_start b memory, ⟨hledger, nofun⟩, ?_, ?_, fun _ => rfl⟩
  · have hrequests : (start b memory).requests = [] := by
      unfold Phase.requests
      rw [show (start b memory).tracker.requests = [] from hnone]
      rfl
    rw [hrequests]
    exact .nil
  · change j.generator.StandAt b.sequences (j.generator.numbersAfter first 0)
    rwa [Generator.numbersAfter_zero]

variable (hk : j.ledger.Keeps I) (he : ∀ accepted, j.estimator.Keeps (I accepted))
  (hd : j.generator.Distinct)

include hk he hd

theorem sound_advance (h : j.Sound I first seeds p) (allowed : Instant → Bool → Bool) (steps : Nat) :
    j.Sound I first seeds (j.advance allowed steps p) :=
  advance_keeps (fun _ _ hp ha m => m.accounted hk he hd hp ha) allowed steps h.1 h.2

/-- Where a phase has come to its end, all its requests are recorded. -/
theorem accounted_run (hj : j.IsSound) (h : j.Sound I first seeds p) :
    (bench (j.run p)).Accounted j.generator I first seeds j.target := by
  obtain ⟨hshaped, haccounted⟩ := sound_advance hk he hd h (fun _ _ => true) (j.stepsLeft p)
  change j.Shaped (j.run p) at hshaped
  change j.Accounted I first seeds (j.run p) at haccounted
  obtain ⟨hflights, hqueued⟩ := run_idle hj h.1
  refine ⟨haccounted.tracked.ledger, ⟨_, hshaped.1, ?_, haccounted.stand⟩, haccounted.starts⟩
  have hrequests := haccounted.requests
  unfold Phase.requests at hrequests
  rw [hflights, hqueued, List.map_nil, List.append_nil, List.append_nil] at hrequests
  exact hrequests

/-- A poll beside a phase keeps its account. -/
theorem sending_keeps {chance : Chance} :
    (Watch.sending j chance).Keeps (j.Sound I first seeds) := by
  have hread : ∀ {p : Phase σ ε} {ledger : σ}, j.Sound I first seeds p →
      I p.tracker.granted ledger → j.Sound I first seeds { p with ledger } :=
    fun h hledger => ⟨h.1, ⟨hledger, h.2.tracked.flights⟩, h.2.requests, h.2.stand, h.2.starts⟩
  refine ⟨fun h limit => sound_advance hk he hd h _ _, fun h now handle => ?_,
    fun h asked handle before now => ?_⟩
  · exact hread h ((hk.reads _).receipt h.2.tracked.ledger now handle)
  · exact hread h ((hk.reads _).receiptAnswer h.2.tracked.ledger asked handle before.ledger now)

end Job

namespace RunConfig

variable {c : RunConfig}

/-- The poll of a run beside its send phase. -/
def pollBeside (c : RunConfig) (j : Job σ CountedHeight) (b : Bench σ) :
    PollReport × Poll (Phase σ CountedHeight) :=
  Poll.run { c.poll with timeout := c.poll.timeout + c.duration.getD 0 } (.sending j c.poll.chance)
    b.now b.shutdown ((Watch.sending j c.poll.chance).advance b.now (Job.start b none))

theorem sendWhilePolling_of_job {b : Bench σ} {s : Saturation} {j : Job σ CountedHeight}
    (hjob : g.job ledger (s.estimate.estimator ledger) c.strategy c.target c.duration b.now = .ok j) :
    let r := c.pollBeside j b
    let phase := j.run r.2.world
    c.sendWhilePolling ledger g s b =
      (if phase.stage = .zeroInterval then .error .zeroInterval
        else .ok (j.summary b phase, r.1),
        { Job.bench phase with now := max r.2.now phase.now }.close) := by
  unfold sendWhilePolling
  rw [hjob]
  dsimp only
  split
  · rename_i hzero
    exact congrArg (·, _) (if_pos hzero).symm
  · rename_i hstage
    exact congrArg (·, _) (if_neg hstage).symm

/-- A poll after a phase only reads. -/
theorem fixed_keeps {J : σ → Prop} (hreads : ledger.ReadsKeep J) (handles : Array Handle) :
    (Watch.fixed ledger handles).Keeps J :=
  ⟨fun h _ => h, fun h now handle => hreads.receipt h now handle,
    fun h asked handle before now => hreads.receiptAnswer h asked handle before now⟩

variable {b : Bench σ} (hk : ledger.Keeps I) (hd : g.Distinct)
  (hledger : I b.tracker.granted b.ledger) (hnone : b.tracker.requests = [])
  (hstand : g.StandAt b.sequences first)

include hk hd hledger hnone hstand

theorem send_accounted (strategy : Strategy) (target : Nat) (duration : Option Duration) :
    (g.send ledger strategy target duration b).2.Accounted g I first b.sequences target := by
  have he : ∀ accepted, (Generator.estimatorOf strategy ledger).Keeps (I accepted) := by
    intro accepted
    unfold Generator.estimatorOf
    split <;> exact (hk.reads accepted).estimator _
  unfold Generator.send Generator.sendWith
  cases hjob : g.job ledger (Generator.estimatorOf strategy ledger) strategy target duration b.now with
  | error e => exact .fresh hledger hnone hstand
  | ok j =>
    have hj := Job.isSound_of_job hjob
    obtain rfl := Job.job_eq hjob
    exact Job.accounted_run hk he hd hj (Job.sound_start hledger hnone hstand none)

/-- The load of a run gives account, whether it is polled beside or afterwards. -/
theorem load_accounted (c : RunConfig) :
    (c.load ledger g b).2.Accounted g I first b.sequences c.target := by
  unfold load
  split
  · rename_i s hs
    cases hjob : g.job ledger (s.estimate.estimator ledger) c.strategy c.target c.duration b.now with
    | error e =>
      unfold sendWhilePolling
      rw [hjob]
      exact (Bench.Accounted.fresh hledger hnone hstand).close
    | ok j =>
      have hfields := Job.job_eq hjob
      have hgenerator : j.generator = g := by rw [hfields]
      have htarget : j.target = c.target := by rw [hfields]
      have hledger' : j.ledger.Keeps I := by rwa [hfields]
      have he : ∀ accepted, j.estimator.Keeps (I accepted) := by
        rw [hfields]
        exact fun accepted => (hk.reads accepted).estimator _
      rw [← hgenerator] at hd hstand
      have hwatch : (Watch.sending j c.poll.chance).Keeps (j.Sound I first b.sequences) :=
        Job.sending_keeps hledger' he hd
      have hpolled : j.Sound I first b.sequences (c.pollBeside j b).2.world :=
        Poll.run_keeps hwatch _ _ _
          (hwatch.advance (Job.sound_start hledger hnone hstand none) b.now)
      have hended := Job.accounted_run hledger' he hd (Job.isSound_of_job hjob) hpolled
      rw [hgenerator, htarget] at hended
      rw [sendWhilePolling_of_job hjob]
      exact ⟨hended.ledger, hended.plan, hended.starts⟩
  · unfold sendThenPoll
    have hsent := send_accounted hk hd hledger hnone hstand c.strategy c.target c.duration
    split
    · rename_i e b' heq
      rw [heq] at hsent
      exact hsent.close
    · rename_i send b' heq
      rw [heq] at hsent
      have hclosed := hsent.close
      have hpolled := Poll.run_keeps
        (fixed_keeps (hk.reads b'.close.tracker.granted)
          (c.poll.chance.arrange b'.close.tracker.handles).toArray)
        c.poll b'.close.now b'.close.shutdown hclosed.ledger
      dsimp only
      generalize Poll.run c.poll _ _ _ b'.close.ledger = polled at hpolled ⊢
      obtain ⟨inclusion, poll⟩ := polled
      exact ⟨hpolled, hclosed.plan, hclosed.starts⟩

end RunConfig

/-! ## What a run stands on -/

/-- Every address that is given a start gets a counter there, and no other does. -/
theorem Sequences.getElem?_ofStarts (first : Address → UInt64) (addresses : List Address)
    (a : Address) :
    (ofStarts (addresses.map fun b => (b, first b)))[a]? =
      if a ∈ addresses then some ⟨first a, first a⟩ else none := by
  rw [getElem?_ofStarts_reverse, ← List.map_reverse]
  split
  · rename_i ha
    rw [List.lookup_graph first (List.mem_reverse.mpr ha)]
    rfl
  · rename_i ha
    have hnone : (addresses.reverse.map fun b => (b, first b)).lookup a = none := by
      rw [List.lookup_eq_none_iff]
      intro p hp
      obtain ⟨b, hb, rfl⟩ := List.mem_map.mp hp
      refine bne_iff_ne.mpr fun hsame => ha ?_
      rw [show a = b from hsame]
      exact List.mem_reverse.mp hb
    rw [hnone]
    rfl

theorem Generator.senders_ofSequences {template : Template} {timeout : Duration}
    {sendTimeout : Option Duration} (h : ofSequences seeds template timeout sendTimeout = .ok g) :
    g.senders = seeds.senders.toArray := by
  unfold ofSequences at h
  dsimp only at h
  split at h <;> cases h
  rfl

/-- The senders of a generator are those at its places. -/
theorem Generator.mem_senders (g : Generator) (a : Address) :
    a ∈ g.senders ↔ ∃ place < g.senders.size, g.senderAt place = a := by
  rw [Array.mem_iff_getElem]
  apply exists_congr
  intro place
  constructor
  · rintro ⟨hp, hsender⟩
    exact ⟨hp, by simpa [senderAt, Nat.mod_eq_of_lt hp] using hsender⟩
  · rintro ⟨hp, hsender⟩
    exact ⟨hp, by simpa [senderAt, Nat.mod_eq_of_lt hp] using hsender⟩

/-- The counters of a generator over seeded senders stand where they were seeded. -/
theorem Generator.standAt_ofSequences {template : Template} {timeout : Duration}
    {sendTimeout : Option Duration} {start : Address → UInt64} {addresses : List Address}
    (h : ofSequences (.ofStarts (addresses.map fun a => (a, start a))) template timeout sendTimeout =
      .ok g) :
    g.StandAt (.ofStarts (addresses.map fun a => (a, start a)))
        (fun place => start (g.senderAt place)) ∧
      ∀ a, a ∈ addresses ↔ ∃ place < g.senders.size, g.senderAt place = a := by
  have hmem : ∀ a, a ∈ addresses ↔ ∃ place < g.senders.size, g.senderAt place = a := by
    intro a
    rw [← g.mem_senders, senders_ofSequences h, List.mem_toArray, Sequences.senders,
      Std.ExtTreeMap.mem_keys, Std.ExtTreeMap.mem_iff_isSome_getElem?,
      Sequences.getElem?_ofStarts start addresses a]
    split <;> simp [*]
  refine ⟨fun place hp => ⟨start (g.senderAt place), ?_⟩, hmem⟩
  rw [Sequences.getElem?_ofStarts start, if_pos ((hmem _).mpr ⟨place, hp, rfl⟩)]

/-- A run stands on the sequence numbers that its ledger answers. -/
theorem RunConfig.prepare_spec {J : σ → Prop} (h : ledger.ReadsKeep J) {c : RunConfig}
    {now : Instant} {s s' : σ} {f : Footing} {start : Address → UInt64}
    (hstart : ∀ a ∈ c.senders, ∀ {s}, J s → (ledger.sequenceNumber now a s).1 = .ok (start a))
    (hs : J (ledger.height now s).2) (hprepared : c.prepare ledger now s = (.ok f, s')) :
    J s' ∧ f.sequences = .ofStarts (c.senders.map fun a => (a, start a)) ∧
      Generator.ofSequences f.sequences c.template c.submitTimeout c.sendTimeout =
        .ok f.generator := by
  unfold prepare at hprepared
  split at hprepared
  · cases hprepared
  · split at hprepared
    · cases hprepared
    · rename_i height s₁ hheight
      rw [hheight] at hs
      obtain ⟨hstarts, hread⟩ := h.readStarts now c.senders hstart hs
      have hseeds : Sequences.seed ledger now c.senders s₁ =
          (.ok (.ofStarts (c.senders.map fun a => (a, start a))),
            (Sequences.readStarts ledger now c.senders s₁).2) := by
        unfold Sequences.seed
        dsimp only
        rw [hstarts]
        rfl
      rw [hseeds] at hprepared
      dsimp only at hprepared
      have hbalances := h.readBalances now (checkedAccounts c.checks) hread
      split at hprepared
      · cases hprepared
      · rename_i heq
        rw [heq] at hbalances
        obtain ⟨hfooting, rfl⟩ := Prod.mk.inj hprepared
        refine ⟨hbalances, ?_⟩
        cases hg : Generator.ofSequences (.ofStarts (c.senders.map fun a => (a, start a))) c.template
          c.submitTimeout c.sendTimeout with
        | error e =>
          rw [hg] at hfooting
          cases hfooting
        | ok g =>
          rw [hg] at hfooting
          cases hfooting
          exact ⟨rfl, hg⟩

namespace RunConfig

variable {c : RunConfig} {now : Instant} {s s' : σ} {f : Footing} {b : Bench σ}

/-- The bench of a run that starts to send. -/
def bench (c : RunConfig) (f : Footing) (now : Instant) (shutdown : Shutdown) (s : σ) : Bench σ :=
  { now, shutdown, ledger := s, tracker := .withCap c.failureSampleCap, sequences := f.sequences }

/-- A run that has been prepared and loaded ends with what it concludes. -/
theorem run_of_loaded {shutdown : Shutdown} {send : SendSummary} {inclusion : PollReport}
    (hprepared : c.prepare ledger now s = (.ok f, s'))
    (hloaded : c.load ledger f.generator (c.bench f now shutdown s') = (.ok (send, inclusion), b)) :
    let concluded := c.conclude ledger f send inclusion b
    c.run ledger now shutdown s = (.ok concluded.1, concluded.2.now, concluded.2.ledger) := by
  unfold bench at hloaded
  unfold run
  rw [hprepared]
  dsimp only
  rw [hloaded]

theorem conclude_report (c : RunConfig) (ledger : Ledger σ) (f : Footing) (send : SendSummary)
    (inclusion : PollReport) (b : Bench σ) :
    (c.conclude ledger f send inclusion b).1.sequences = b.sequences.spans ∧
      (c.conclude ledger f send inclusion b).1.submissions = b.tracker.counts :=
  ⟨rfl, rfl⟩

/-- A run gives account at the end of its load, and what it reads afterwards changes nothing of it. -/
theorem run_accounted (shutdown : Shutdown) (hk : ledger.Keeps I) (hd : f.generator.Distinct)
    (hstand : f.generator.StandAt f.sequences first) (hs : I [] s')
    (hprepared : c.prepare ledger now s = (.ok f, s'))
    {result : Except RunError (SendSummary × PollReport)}
    (hloaded : c.load ledger f.generator (c.bench f now shutdown s') = (result, b)) :
    b.Accounted f.generator I first f.sequences c.target ∧
      I b.tracker.granted (c.run ledger now shutdown s).2.2 ∧
      ∀ report, (c.run ledger now shutdown s).1 = .ok report →
        report.sequences = b.sequences.spans ∧ report.submissions = b.tracker.counts := by
  have haccounted := load_accounted (b := c.bench f now shutdown s') hk hd hs rfl hstand c
  rw [hloaded] at haccounted
  unfold bench at hloaded
  unfold run
  rw [hprepared]
  dsimp only
  rw [hloaded]
  cases result with
  | error e =>
    dsimp only
    refine ⟨haccounted, haccounted.ledger, fun report hreport => ?_⟩
    cases hreport
  | ok loaded =>
    obtain ⟨send, inclusion⟩ := loaded
    have hconcluded := (hk.reads b.tracker.granted).conclude c f send inclusion b haccounted.ledger
    have hreport := conclude_report c ledger f send inclusion b
    dsimp only
    generalize c.conclude ledger f send inclusion b = concluded at hconcluded hreport ⊢
    obtain ⟨report, b'⟩ := concluded
    refine ⟨haccounted, hconcluded, fun report' hsame => ?_⟩
    rw [← Except.ok.inj hsame]
    exact hreport

end RunConfig

end Throughput
