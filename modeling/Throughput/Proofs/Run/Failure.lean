import Throughput.Proofs.Run.Bounds
import Throughput.Proofs.Run.Coverage

/-!
# When a run fails

A run fails before it submits anything. Once a valid configuration has been prepared, sending and polling
come to their ends, and everything that fails afterwards is part of the report, unless the run goes
beyond the bounds of its clock or of its lists.
-/

namespace Throughput

variable {σ ε : Type} {ledger : Ledger σ} {J : σ → Prop} {now : Instant} {s s' : σ}

/-! ## Sending comes to its end -/

namespace Job

variable {j : Job σ ε}

/-- A poll beside a phase does not stop its clocks. -/
theorem sending_ticks (hticks : j.Ticks) (chance : Chance) :
    (Watch.sending j chance).Keeps fun p => j.Shaped p ∧ p.stage ≠ .zeroInterval :=
  ⟨fun h _ => advance_keeps (P := fun p => p.stage ≠ .zeroInterval)
      (fun _ _ _ h m => m.stage_ne hticks h) _ _ h.1 h.2,
    fun h _ _ => h, fun h _ _ _ _ => h⟩

end Job

namespace RunConfig

variable {c : RunConfig} {g : Generator} {b : Bench σ}

/-- A valid configuration gives a job whose refills can be timed. -/
theorem job_of_isValid (h : c.IsValid) (ledger : Ledger σ) (estimator : Estimator σ ε)
    (now : Instant) : ∃ j : Job σ ε,
      g.job ledger estimator c.strategy c.target c.duration now = .ok j ∧ j.IsSound ∧ j.Ticks := by
  have hdeadline : ∀ config, c.strategy = .saturation config → g.deadline now c.duration ≠ none := by
    intro config hs
    obtain ⟨d, hd⟩ := h.duration config hs
    obtain ⟨deadline, -, hsome⟩ := g.deadline_le now (.inl hd)
    rw [hsome]
    nofun
  have hjob := Job.exists_job g ledger estimator c.strategy c.target c.duration now h.batch hdeadline
  obtain ⟨j, hjob⟩ := hjob
  refine ⟨j, hjob, Job.isSound_of_job hjob, fun config hs => h.refillInterval config ?_⟩
  rw [← hs, Job.job_eq hjob]

/-- The load of a valid configuration gives a summary and a report. -/
theorem load_of_isValid (h : c.IsValid) (ledger : Ledger σ) (g : Generator) (b : Bench σ) :
    ∃ send inclusion after, c.load ledger g b = (.ok (send, inclusion), after) := by
  unfold load
  split
  · rename_i config _
    obtain ⟨j, hjob, hj, hticks⟩ := job_of_isValid (g := g) h ledger
      (config.estimate.estimator ledger) b.now
    -- The poll comes first here: what it leaves of the phase can still be ended.
    have hkeeps := Job.sending_ticks hticks c.poll.chance
    have hstart := hkeeps.advance ⟨j.shaped_start b none, by nofun⟩ b.now
    obtain ⟨hshaped, hstage⟩ : j.Shaped (c.pollBeside j b).2.world ∧
        (c.pollBeside j b).2.world.stage ≠ .zeroInterval := Poll.run_keeps hkeeps _ _ _ hstart
    rw [sendWhilePolling_of_job hjob, Job.finished_run hj hticks hshaped hstage]
    exact ⟨_, _, _, rfl⟩
  · obtain ⟨j, hjob, -, hticks⟩ := job_of_isValid (g := g) h ledger
      (Generator.estimatorOf c.strategy ledger) b.now
    obtain ⟨-, hsent⟩ := Job.sendWith_of_job hjob hticks none
    unfold sendThenPoll Generator.send
    rw [hsent]
    exact ⟨_, _, _, rfl⟩

/-- The load of a valid configuration is stopped if the clock cannot tell when it ends. -/
theorem loadInBounds_of_not (h : c.IsValid) (ledger : Ledger σ) (g : Generator) (b : Bench σ)
    (hover : (∀ s, c.strategy = .saturation s → c.FitsBeside g b) →
      ¬ ((∀ s, c.strategy ≠ .saturation s) → c.FitsAfter ledger g b)) :
    ∃ what after, c.loadInBounds ledger g b = (.error (.overflow what), after) := by
  by_cases hgroups : ∀ s, c.strategy ≠ .saturation s
  · obtain ⟨j, hjob, -, hticks⟩ := job_of_isValid (g := g) h ledger
      (Generator.estimatorOf c.strategy ledger) b.now
    obtain ⟨-, hsent⟩ := Job.sendWith_of_job hjob hticks none
    rw [(load_of_groups hgroups).2]
    have hdone : g.send ledger c.strategy c.target c.duration b =
        (.ok (j.summary b (j.run (Job.start b none))), Job.bench (j.run (Job.start b none))) := by
      unfold Generator.send
      rw [hsent]
    refine sendThenPollInBounds_of_not hdone fun hafter => ?_
    exact hover (fun s hs => absurd hs (hgroups s)) fun _ => hafter
  · obtain ⟨s, hs⟩ := not_forall_not.mp hgroups
    obtain ⟨j, hjob, -⟩ := job_of_isValid (g := g) h ledger (s.estimate.estimator ledger) b.now
    rw [(load_of_saturation hs).2]
    refine sendWhilePollingInBounds_of_not ⟨j, hjob⟩ fun hbeside => ?_
    exact hover (fun _ _ => hbeside) fun hother => absurd hs (hother s)

end RunConfig

/-! ## What is called before sending -/

namespace Ledger.ReadsKeep

theorem seed (h : ledger.ReadsKeep J) (now : Instant) (addresses : List Address) (hs : J s) :
    J (Sequences.seed ledger now addresses s).2 := by
  change J (Sequences.readStarts ledger now addresses s).2
  induction addresses generalizing s with
  | nil => exact hs
  | cons a rest ih =>
    have hnumber := h.sequenceNumber hs now a
    unfold Sequences.readStarts
    split
    · rename_i heq
      rwa [heq] at hnumber
    · rename_i heq
      rw [heq] at hnumber
      exact ih hnumber

/-- What precedes the load of a run only reads. -/
theorem prepare (h : ledger.ReadsKeep J) (c : RunConfig) (now : Instant) (hs : J s) :
    J (c.prepare ledger now s).2 := by
  have hheight := h.height hs now
  unfold RunConfig.prepare
  split
  · exact hs
  · split
    · rename_i heq
      rwa [heq] at hheight
    · rename_i heq
      rw [heq] at hheight
      have hseed := h.seed now c.senders hheight
      split
      · rename_i heq
        rwa [heq] at hseed
      · rename_i heq
        rw [heq] at hseed
        have hbalances := h.readBalances now (checkedAccounts c.checks) hseed
        split
        · rename_i heq
          rwa [heq] at hbalances
        · rename_i heq
          rwa [heq] at hbalances

end Ledger.ReadsKeep

/-- Reads are not counted as submissions. -/
theorem Ledger.counted_reads (ledger : Ledger σ) (submitted : Nat) :
    ledger.counted.ReadsKeep fun x => x.2.submit = submitted :=
  ⟨fun h _ _ => h, fun h _ _ => h, fun h _ => h, fun h _ _ => h, fun h _ _ => h,
    fun h _ _ _ _ => h⟩

theorem Sequences.error_of_seed {addresses : List Address} {e : SetupError}
    (h : (seed ledger now addresses s).1 = .error e) : ∃ a cause, e = .sequenceSeed a cause := by
  change (readStarts ledger now addresses s).1.map ofStarts = .error e at h
  induction addresses generalizing s with
  | nil => nomatch h
  | cons a rest ih =>
    -- The error is that of the first read, or that of the rest.
    unfold readStarts at h
    split at h
    · exact ⟨a, _, (Except.error.inj h).symm⟩
    · rename_i start s₁ _
      dsimp only at h
      cases hothers : (readStarts ledger now rest s₁).1 with
      | error e' =>
        rw [hothers] at h
        obtain rfl : e' = e := Except.error.inj h
        exact ih (by rw [hothers]; rfl)
      | ok others =>
        rw [hothers] at h
        nomatch h

theorem error_of_readBalances {addresses : List Address} {e : SetupError}
    (h : (readBalances ledger now addresses s).1 = .error e) :
    ∃ a cause, e = .balanceSnapshot a cause := by
  induction addresses generalizing s with
  | nil => nomatch h
  | cons a rest ih =>
    unfold readBalances at h
    split at h
    · exact ⟨a, _, (Except.error.inj h).symm⟩
    · rename_i amount s₁ _
      dsimp only at h
      cases hothers : (readBalances ledger now rest s₁).1 with
      | error e' =>
        rw [hothers] at h
        obtain rfl : e' = e := Except.error.inj h
        exact ih hothers
      | ok others =>
        rw [hothers] at h
        nomatch h

namespace RunConfig

variable {c : RunConfig} {f : Footing} {e : SetupError}

/-- A generator can be had from the counters of any senders. -/
theorem generator_of_reads (h : c.IsValid) {height : UInt64} {sequences : Sequences}
    {balances : List Snapshot} (hreads : c.Reads ledger now s height sequences balances s') :
    ∃ g, Generator.ofSequences sequences c.template c.submitTimeout c.sendTimeout = .ok g := by
  obtain ⟨s₁, s₂, -, hseed, -⟩ := hreads
  obtain ⟨a, ha⟩ := List.exists_mem_of_ne_nil _ h.senders
  exact Generator.ofSequences_of_mem (((Sequences.seed_spec hseed).1 a).mpr ha) _ _ _

/-- A run that cannot be prepared has an invalid configuration and leaves its ledger alone, or else one
of its reads has failed. -/
theorem prepare_eq_error (h : c.prepare ledger now s = (.error e, s')) :
    c.validate = .error e ∧ s' = s ∨ c.validate = .ok () ∧ e.cause?.isSome := by
  unfold prepare at h
  split at h
  · rename_i hinvalid
    obtain ⟨he, rfl⟩ := Prod.mk.inj h
    rw [Except.error.inj he] at hinvalid
    exact .inl ⟨hinvalid, rfl⟩
  · rename_i hvalid
    refine .inr ⟨hvalid, ?_⟩
    split at h
    · obtain ⟨he, -⟩ := Prod.mk.inj h
      rw [← Except.error.inj he]
      rfl
    · rename_i height s₁ hheight
      split at h
      · rename_i hseed
        obtain ⟨he, -⟩ := Prod.mk.inj h
        obtain ⟨a, cause, hcause⟩ := Sequences.error_of_seed (congrArg Prod.fst hseed)
        rw [← Except.error.inj he, hcause]
        rfl
      · rename_i sequences s₂ hseed
        split at h
        · rename_i hbalances
          obtain ⟨he, -⟩ := Prod.mk.inj h
          obtain ⟨a, cause, hcause⟩ := error_of_readBalances (congrArg Prod.fst hbalances)
          rw [← Except.error.inj he, hcause]
          rfl
        · rename_i balances s₃ hbalances
          -- A valid configuration names a sender, so a generator cannot be refused.
          obtain ⟨g, hg⟩ := generator_of_reads (isValid_of_validate hvalid)
            ⟨s₁, s₂, hheight, hseed, hbalances⟩
          rw [hg] at h
          nomatch (Prod.mk.inj h).1

/-- A run of a valid configuration goes on as one without bounds if it stays within them, and is stopped
if it does not. -/
theorem proceedInBounds_cases (h : c.IsValid) (ledger : Ledger σ) (f : Footing) (now : Instant)
    (shutdown : Shutdown) (s : σ) :
    (c.Fits ledger f.generator (c.bench f now shutdown s) ∧ ∃ send inclusion after,
      c.load ledger f.generator (c.bench f now shutdown s) = (.ok (send, inclusion), after) ∧
      c.proceedInBounds ledger f now shutdown s =
        (.ok (c.conclude ledger f send inclusion after).1,
          (c.conclude ledger f send inclusion after).2.now,
          (c.conclude ledger f send inclusion after).2.ledger)) ∨
    ¬ c.Fits ledger f.generator (c.bench f now shutdown s) ∧ ∃ what ended after,
      c.proceedInBounds ledger f now shutdown s = (.error (.overflow what), ended, after) := by
  by_cases hfits : c.Fits ledger f.generator (c.bench f now shutdown s)
  · obtain ⟨send, inclusion, after, hloaded⟩ :=
      load_of_isValid h ledger f.generator (c.bench f now shutdown s)
    exact .inl ⟨hfits, send, inclusion, after, hloaded,
      proceedInBounds_of_fits h.interval hfits hloaded⟩
  · refine .inr ⟨hfits, ?_⟩
    unfold proceedInBounds Tracker.makeRoom
    by_cases hroom : c.failureSampleCap ≤ roomFor 24
    · obtain ⟨what, after, hstopped⟩ :=
        loadInBounds_of_not h ledger f.generator (c.bench f now shutdown s) fun hbeside hafter =>
          hfits ⟨hroom, hbeside, hafter⟩
      unfold bench at hstopped
      rw [if_pos hroom]
      dsimp only
      rw [hstopped]
      exact ⟨_, _, _, rfl⟩
    · rw [if_neg hroom]
      exact ⟨_, _, _, rfl⟩

/-- A run fails if and as it cannot be prepared. Otherwise it reports, or is stopped as it goes beyond
its bounds. -/
theorem runInBounds_cases (c : RunConfig) (ledger : Ledger σ) (now : Instant) (shutdown : Shutdown)
    (s : σ) :
    (∃ e s', c.prepare ledger now s = (.error e, s') ∧
      c.runInBounds ledger now shutdown s = (.error (.setup e), now, s')) ∨
    ∃ f s', c.prepare ledger now s = (.ok f, s') ∧
      (c.Fits ledger f.generator (c.bench f now shutdown s') ∧
        (∃ report, (c.runInBounds ledger now shutdown s).1 = .ok report) ∨
      ¬ c.Fits ledger f.generator (c.bench f now shutdown s') ∧
        ∃ what, (c.runInBounds ledger now shutdown s).1 = .error (.overflow what)) := by
  unfold runInBounds
  cases hprepared : c.prepare ledger now s with
  | mk result s' =>
    cases result with
    | error e => exact .inl ⟨e, s', rfl, rfl⟩
    | ok f =>
      have hvalid := isValid_of_validate (prepare_eq_ok.mp hprepared).1
      refine .inr ⟨f, s', rfl, ?_⟩
      rcases proceedInBounds_cases hvalid ledger f now shutdown s' with
        ⟨hfits, _, _, _, -, hproceeded⟩ | ⟨hover, what, _, _, hproceeded⟩
      · exact .inl ⟨hfits, _, congrArg Prod.fst hproceeded⟩
      · exact .inr ⟨hover, what, congrArg Prod.fst hproceeded⟩

/-- Without bounds every run that has been prepared reports. -/
theorem run_of_prepared {shutdown : Shutdown} (h : c.prepare ledger now s = (.ok f, s')) :
    ∃ report, (c.run ledger now shutdown s).1 = .ok report := by
  obtain ⟨send, inclusion, after, hloaded⟩ := load_of_isValid
    (isValid_of_validate (prepare_eq_ok.mp h).1) ledger f.generator (c.bench f now shutdown s')
  exact ⟨_, congrArg Prod.fst (run_of_loaded h hloaded)⟩

/-- A run that stays within its bounds is the run without them. -/
theorem runInBounds_eq {shutdown : Shutdown} (hprepared : c.prepare ledger now s = (.ok f, s'))
    (hfits : c.Fits ledger f.generator (c.bench f now shutdown s')) :
    c.runInBounds ledger now shutdown s = c.run ledger now shutdown s := by
  have hvalid := isValid_of_validate (prepare_eq_ok.mp hprepared).1
  obtain ⟨send, inclusion, after, hloaded⟩ :=
    load_of_isValid hvalid ledger f.generator (c.bench f now shutdown s')
  rw [run_of_loaded hprepared hloaded]
  unfold runInBounds
  rw [hprepared]
  exact proceedInBounds_of_fits hvalid.interval hfits hloaded

/-- How a run returns, if it does. A configuration is refused before anything is read. From then on the
answer to every read is awaited, and there may be one that the ledger owes for ever. -/
def returned (c : RunConfig) (ledger : Ledger σ) (waiting : σ → Bool) (now : Instant)
    (shutdown : Shutdown) (s : σ) : Option (Except RunError RunReport × Instant × σ) :=
  match c.runInBounds ledger now shutdown s with
  | (.error (.setup (.invalidConfig reason)), ended, s) =>
    some (.error (.setup (.invalidConfig reason)), ended, s)
  | (result, ended, s) => if waiting s then none else some (result, ended, s)

theorem returned_eq_ok {waiting : σ → Bool} {shutdown : Shutdown} {report : RunReport}
    {ended : Instant} {after : σ} :
    c.returned ledger waiting now shutdown s = some (.ok report, ended, after) ↔
      c.runInBounds ledger now shutdown s = (.ok report, ended, after) ∧ waiting after = false := by
  unfold returned
  split
  · rename_i hrun
    rw [hrun]
    exact ⟨nofun, nofun⟩
  · rename_i hrun
    rw [hrun]
    split
    · rename_i hwaiting
      refine ⟨nofun, fun ⟨hsame, hanswered⟩ => ?_⟩
      obtain ⟨-, rfl⟩ := Prod.mk.inj (Prod.mk.inj hsame).2
      nomatch hwaiting.symm.trans hanswered
    · rename_i hanswered
      refine ⟨fun hsome => ?_, fun ⟨hsame, _⟩ => congrArg some hsame⟩
      have hsame := Option.some.inj hsome
      obtain ⟨-, rfl⟩ := Prod.mk.inj (Prod.mk.inj hsame).2
      exact ⟨hsame, Bool.eq_false_iff.mpr hanswered⟩

/-- A run that fails has not submitted anything, and if it fails as its configuration is invalid it has
not called the ledger at all. If a list has room for the requests, each of sixteen words, a run returns a
report if and only if its configuration is valid, the height, the sequence numbers and the checked
balances have been read, the run stays within the bounds of its clock and of its lists, and the ledger
owes it no answer at its end. Where the bounds are exceeded the run is stopped, and nothing else stops it:
the interval of a clock is never zero. -/
theorem run_fails_before_sending (c : RunConfig) (ledger : Ledger σ) (waiting : σ → Bool)
    (now : Instant) (shutdown : Shutdown) (s : σ) (calls : CallCounts) :
    let counted := c.runInBounds ledger.counted now shutdown (s, calls)
    (∀ e, counted.1 = .error (.setup e) → counted.2.2.2.submit = calls.submit) ∧
    (∀ reason, counted.1 = .error (.setup (.invalidConfig reason)) → counted.2.2 = (s, calls)) ∧
    (∀ e, (c.runInBounds ledger now shutdown s).1 = .error e →
      (∃ cause, e = .setup cause) ∨ ∃ what, e = .overflow what) ∧
    (c.target ≤ roomFor 128 → ((∃ report ended after,
        c.returned ledger waiting now shutdown s = some (.ok report, ended, after)) ↔
      c.validate = .ok () ∧ ∃ f s',
        c.Reads ledger now s f.startHeight f.sequences f.balances s' ∧
        Generator.ofSequences f.sequences c.template c.submitTimeout c.sendTimeout =
          .ok f.generator ∧
        c.Fits ledger f.generator (c.bench f now shutdown s') ∧
        waiting (c.runInBounds ledger now shutdown s).2.2 = false)) ∧
    (c.validate = .ok () → ∀ height sequences balances s',
      c.Reads ledger now s height sequences balances s' → ∃ g,
        Generator.ofSequences sequences c.template c.submitTimeout c.sendTimeout = .ok g) := by
  intro counted
  refine ⟨fun e he => ?_, fun reason he => ?_, fun e he => ?_, fun _ => ⟨?_, ?_⟩,
    fun hvalid height sequences balances s' => generator_of_reads (isValid_of_validate hvalid)⟩
  · rcases c.runInBounds_cases ledger.counted now shutdown (s, calls) with
      ⟨e', s', hprepared, hrun⟩ | ⟨_, _, -, ⟨-, _, hrun⟩ | ⟨-, _, hrun⟩⟩
    · have hkept := (ledger.counted_reads calls.submit).prepare (s := (s, calls)) c now rfl
      rw [hprepared] at hkept
      have hstate : counted.2.2 = s' := congrArg (·.2.2) hrun
      rw [hstate]
      exact hkept
    · nomatch he.symm.trans hrun
    · nomatch he.symm.trans hrun
  · rcases c.runInBounds_cases ledger.counted now shutdown (s, calls) with
      ⟨e', s', hprepared, hrun⟩ | ⟨_, _, -, ⟨-, _, hrun⟩ | ⟨-, _, hrun⟩⟩
    · have herror : counted.1 = .error (.setup e') := congrArg Prod.fst hrun
      have hstate : counted.2.2 = s' := congrArg (·.2.2) hrun
      obtain rfl : e' = .invalidConfig reason :=
        RunError.setup.inj (Except.error.inj (herror.symm.trans he))
      rcases prepare_eq_error hprepared with ⟨-, hsame⟩ | ⟨-, hcause⟩
      · rw [hstate, hsame]
      · nomatch hcause
    · nomatch he.symm.trans hrun
    · nomatch he.symm.trans hrun
  · rcases c.runInBounds_cases ledger now shutdown s with
      ⟨e', _, -, hrun⟩ | ⟨_, _, -, ⟨-, _, hrun⟩ | ⟨-, what, hrun⟩⟩
    · rw [hrun] at he
      exact .inl ⟨e', (Except.error.inj he).symm⟩
    · nomatch he.symm.trans hrun
    · exact .inr ⟨what, (Except.error.inj (he.symm.trans hrun))⟩
  · rintro ⟨report, ended, after, hreturned⟩
    obtain ⟨hreport, hanswered⟩ := returned_eq_ok.mp hreturned
    rcases c.runInBounds_cases ledger now shutdown s with
      ⟨_, _, -, hrun⟩ | ⟨f, s', hprepared, ⟨hfits, -⟩ | ⟨-, _, hrun⟩⟩
    · nomatch congrArg Prod.fst (hreport.symm.trans hrun)
    · obtain ⟨hvalid, hreads, hg⟩ := prepare_eq_ok.mp hprepared
      rw [hreport]
      exact ⟨hvalid, f, s', hreads, hg, hfits, hanswered⟩
    · nomatch (congrArg Prod.fst hreport).symm.trans hrun
  · rintro ⟨hvalid, f, s', hreads, hg, hfits, hanswered⟩
    have hprepared := prepare_eq_ok.mpr ⟨hvalid, hreads, hg⟩
    rcases c.runInBounds_cases ledger now shutdown s with
      ⟨_, _, hfailed, -⟩ | ⟨_, _, hagain, ⟨-, report, hrun⟩ | ⟨hover, -⟩⟩
    · nomatch congrArg Prod.fst (hfailed.symm.trans hprepared)
    · exact ⟨report, _, _, returned_eq_ok.mpr ⟨Prod.ext hrun rfl, hanswered⟩⟩
    · obtain ⟨hsame, rfl⟩ := Prod.mk.inj (hagain.symm.trans hprepared)
      rw [Except.ok.inj hsame] at hover
      exact absurd hfits hover

end RunConfig

/-- A ledger that goes down with the first submission. -/
def Ledger.collapsing : Ledger Bool where
  submit _ _ _ := (.pure 0 (.error (.transport "down")), true)
  sequenceNumber _ _ down := (if down then .error (.transport "down") else .ok 0, down)
  balance _ _ down := (if down then .error (.transport "down") else .ok 0, down)
  height _ down := (if down then .error (.transport "down") else .ok 0, down)
  block _ _ down := (if down then .error (.transport "down") else .ok none, down)
  receipt _ _ down := (.pure 0 (.error (.transport "down")), down)

/-- One sender and one checked account. -/
def RunConfig.ofOneCheck (senders : List Address) : RunConfig :=
  { senders, strategy := .burst, target := 3, checks := [.positive "gain" 7] }

/-- What the run stands on. -/
def Footing.ofOneCheck : Footing :=
  ⟨0, .ofStarts [(1, 0)], [⟨7, 0⟩], { senders := #[1], nonempty := Nat.zero_lt_one, template := {} }⟩

/-- From the first submission on all calls fail, and the run reports, but not if it waits for the answer to
a read. Once the ledger is down a run fails at its first read, and without senders it does not even read.
A run that is to keep more reasons than a list has room for is stopped. -/
theorem RunConfig.run_fails_before_sending_collapsing :
    (∃ report ended after, (ofOneCheck [1]).returned .collapsing (fun _ => false) 0 .never false =
      some (.ok report, ended, after)) ∧
    (∀ report ended after, (ofOneCheck [1]).returned .collapsing (fun _ => true) 0 .never false ≠
      some (.ok report, ended, after)) ∧
    (∀ report ended after, (ofOneCheck [1]).returned .collapsing (fun _ => false) 0 .never true ≠
      some (.ok report, ended, after)) ∧
    ((ofOneCheck []).runInBounds Ledger.collapsing.counted 0 .never (false, {})).2.2 = (false, {}) ∧
    (∀ report ended after,
      { ofOneCheck [1] with failureSampleCap := 2 ^ 64 - 1 }.returned .collapsing (fun _ => false) 0
        .never false ≠ some (.ok report, ended, after)) := by
  have hreads : (ofOneCheck [1]).Reads .collapsing 0 false 0 (.ofStarts [(1, 0)]) [⟨7, 0⟩] false :=
    ⟨false, false, rfl, rfl, rfl⟩
  obtain ⟨-, -, -, hreports, -⟩ :=
    run_fails_before_sending (ofOneCheck [1]) .collapsing (fun _ => false) 0 .never false {}
  obtain ⟨-, -, -, hwaits, -⟩ :=
    run_fails_before_sending (ofOneCheck [1]) .collapsing (fun _ => true) 0 .never false {}
  obtain ⟨-, -, -, hfails, -⟩ :=
    run_fails_before_sending (ofOneCheck [1]) .collapsing (fun _ => false) 0 .never true {}
  obtain ⟨-, huncalled, -⟩ :=
    run_fails_before_sending (ofOneCheck []) .collapsing (fun _ => false) 0 .never false {}
  obtain ⟨-, -, -, hstopped, -⟩ := run_fails_before_sending
    { ofOneCheck [1] with failureSampleCap := 2 ^ 64 - 1 } .collapsing (fun _ => false) 0 .never false
    {}
  have hfits : (ofOneCheck [1]).Fits .collapsing Footing.ofOneCheck.generator
      ((ofOneCheck [1]).bench .ofOneCheck 0 .never false) :=
    ⟨by decide, nofun, fun _ => fitsAfter_of_limits (fun _ _ => rfl) rfl nofun nofun (by decide)⟩
  refine ⟨(hreports (by decide)).mpr ⟨rfl, .ofOneCheck, false, hreads, rfl, hfits, rfl⟩,
    fun report ended after hreturned => ?_, fun report ended after hreturned => ?_,
    huncalled "at least one sender is required" rfl, fun report ended after hreturned => ?_⟩
  · obtain ⟨-, _, _, _, _, _, hanswered⟩ := (hwaits (by decide)).mp ⟨report, ended, after, hreturned⟩
    nomatch hanswered
  · obtain ⟨-, _, _, ⟨_, _, hheight, -⟩, -⟩ := (hfails (by decide)).mp ⟨report, ended, after, hreturned⟩
    nomatch (Prod.mk.inj hheight).1
  · obtain ⟨-, _, _, _, _, hfits, -⟩ := (hstopped (by decide)).mp ⟨report, ended, after, hreturned⟩
    exact absurd hfits.room (by decide)

end Throughput
