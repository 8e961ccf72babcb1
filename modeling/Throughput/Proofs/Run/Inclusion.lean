import Throughput.Proofs.Run.Account
import Throughput.Proofs.Simulated.Conservation
import Throughput.Proofs.Simulated.Shared

/-!
# What a run has had included

The senders of a run number their submissions without a gap, and a ledger executes the numbers of a
sender in order. So what is included of a sender ends before the first submission that was not accepted.
-/

namespace Throughput

/-- The numbers from a start on, each a word. -/
def numbersFrom (start : UInt64) (count : Nat) : List UInt64 :=
  (List.range count).map fun i => start + i.toUInt64

theorem numbersFrom_inj {start : UInt64} {i k : Nat} (hi : i < 2 ^ 64) (hk : k < 2 ^ 64)
    (h : start + i.toUInt64 = start + k.toUInt64) : i = k := by
  have hi' : i.toUInt64.toNat = i := UInt64.toNat_ofNat_of_lt hi
  have hk' : k.toUInt64.toNat = k := UInt64.toNat_ofNat_of_lt hk
  have hwords := congrArg UInt64.toNat ((UInt64.add_right_inj start).mp h)
  rwa [hi', hk'] at hwords

theorem nodup_numbersFrom {start : UInt64} {count : Nat} (h : count < 2 ^ 64) :
    (numbersFrom start count).Nodup := by
  refine List.Nodup.map_on ?_ List.nodup_range
  intro i hi k hk he
  have hi := List.mem_range.mp hi
  have hk := List.mem_range.mp hk
  exact numbersFrom_inj (by omega) (by omega) he

/-- The planned numbers of a sender, without regard to the size of words. -/
theorem Generator.numbers_plan {g : Generator} (hd : g.Distinct) (first : Nat → UInt64) (count : Nat)
    {place : Nat} (hp : place < g.senders.size) :
    ((g.plan first count).filter (·.sender == g.senderAt place)).map (·.nonce) =
      numbersFrom (first place) (g.turns count place) := by
  induction count with
  | zero => simp [plan, turns, numbersFrom]
  | succ count ih =>
    rw [plan_succ, List.filter_append, List.map_append, ih, turns_succ]
    by_cases hturn : count % g.senders.size = place
    · have hself := g.turns_self count
      rw [hturn] at hself
      simp [planned, request, hturn, hself, numbersFrom, List.range_succ]
    · have hsender := mt (sender_planned_eq_iff hd first hp).mp hturn
      simp [hsender, hturn]

theorem Tracker.requests_outcomesOf (t : Tracker) (a : Address) :
    (t.outcomesOf a).map (·.request.nonce) = (t.requests.filter (·.sender == a)).map (·.nonce) := by
  simp [outcomesOf, requests, List.filter_map, Function.comp_def]

open Simulated in
/-- What a record says was accepted of a sender are its outcomes with handles. -/
theorem Tracker.acceptedBy_granted (t : Tracker) (a : Address) :
    (acceptedBy a t.granted).map (·.1.nonce) =
      ((t.outcomesOf a).filter (·.handle.isSome)).map (·.request.nonce) := by
  unfold acceptedBy granted outcomesOf
  induction t.outcomes.toList with
  | nil => rfl
  | cons o outcomes ih =>
    cases hh : o.handle with
    | none => by_cases ha : o.request.sender = a <;> simp [Outcome.granted?, hh, ha, ih]
    | some handle => by_cases ha : o.request.sender = a <;> simp [Outcome.granted?, hh, ha, ih]

section Prefix

variable {outcomes : List Outcome} {start : UInt64} {issued : Nat} {included : List UInt64}

/-- Accepted outcomes are found by their numbers, as no number is used twice. -/
theorem isSome_handle_iff (hsmall : issued < 2 ^ 64)
    (hnumbers : (outcomes.map (·.request.nonce)).Perm (numbersFrom start issued)) {o : Outcome}
    (ho : o ∈ outcomes) :
    o.handle.isSome ↔
      o.request.nonce ∈ (outcomes.filter (·.handle.isSome)).map (·.request.nonce) := by
  constructor
  · intro hsome
    exact List.mem_map_of_mem (List.mem_filter.mpr ⟨ho, hsome⟩)
  · intro hmem
    obtain ⟨o', ho', hnonce⟩ := List.mem_map.mp hmem
    obtain ⟨hmine, hsome⟩ := List.mem_filter.mp ho'
    have hnodup := hnumbers.nodup_iff.mpr (nodup_numbersFrom hsmall)
    have hinj := List.inj_on_of_nodup_map hnodup
    rwa [← hinj hmine ho hnonce]

/-- Numbers that are included from the start on and were accepted end before the first number that was
not. -/
theorem included_before (hsmall : issued < 2 ^ 64)
    (hnumbers : (outcomes.map (·.request.nonce)).Perm (numbersFrom start issued))
    (hincluded : included = numbersFrom start included.length)
    (haccepted : included.Subperm
      ((outcomes.filter (·.handle.isSome)).map (·.request.nonce))) :
    included.length ≤ issued ∧
      ∀ o ∈ outcomes, o.handle = none → ∀ i < issued, o.request.nonce = start + i.toUInt64 →
        included.length ≤ i := by
  constructor
  · have hlength := haccepted.length_le
    have hcount := hnumbers.length_eq
    have hfilter := List.length_filter_le (·.handle.isSome) outcomes
    rw [List.length_map] at hlength hcount
    simp only [numbersFrom, List.length_map, List.length_range] at hcount
    omega
  · intro o ho hnone i hi hnonce
    by_contra hlt
    have hmem : o.request.nonce ∈ included := by
      rw [hincluded, hnonce]
      exact List.mem_map.mpr ⟨i, List.mem_range.mpr (by omega), rfl⟩
    have hsome := (isSome_handle_iff hsmall hnumbers ho).mpr (haccepted.subset hmem)
    rw [hnone] at hsome
    nomatch hsome

end Prefix

namespace Sequences

theorem mem_spans {m : Sequences} {a : Address} {counter : Counter} (h : m[a]? = some counter) :
    ⟨a, counter.start, counter.issued⟩ ∈ m.spans :=
  List.mem_map.mpr ⟨(a, counter), Std.ExtTreeMap.mem_toList_iff_getElem?_eq_some.mpr h, rfl⟩

end Sequences

namespace Bench.Accounted

variable {σ : Type} {I : List (Request × Handle) → σ → Prop} {g : Generator} {target : Nat}
  {first : Nat → UInt64} {seeds : Sequences} {b : Bench σ}

/-- What was accepted is of the senders. -/
theorem sender_granted (h : b.Accounted g I first seeds target) :
    ∀ x ∈ b.tracker.granted, x.1.sender ∈ g.senders := by
  obtain ⟨dispatched, -, hplan, -⟩ := h.plan
  intro x hx
  obtain ⟨o, ho, hgranted⟩ := List.mem_filterMap.mp hx
  obtain ⟨handle, -, rfl⟩ := Option.map_eq_some_iff.mp hgranted
  have hrequest : o.request ∈ b.tracker.requests := List.mem_map_of_mem ho
  obtain ⟨position, -, hplanned⟩ := List.mem_map.mp (hplan.mem_iff.mp hrequest)
  rw [← hplanned, Generator.sender_planned, Generator.mem_senders]
  exact ⟨position % g.senders.size, Nat.mod_lt _ g.nonempty, g.senderAt_mod position⟩

/-- The recorded numbers of a sender fill its span. -/
theorem span (h : b.Accounted g I first seeds target) (hd : g.Distinct) (htarget : target < 2 ^ 64)
    {place : Nat} (hp : place < g.senders.size)
    (hstart : seeds.start? (g.senderAt place) = some (first place)) :
    ∃ issued, ⟨g.senderAt place, first place, issued⟩ ∈ b.sequences.spans ∧
      ((b.tracker.outcomesOf (g.senderAt place)).map (·.request.nonce)).Perm
        (numbersFrom (first place) issued.toNat) := by
  obtain ⟨dispatched, hle, hplan, hstand⟩ := h.plan
  obtain ⟨start, hcounter⟩ := hstand place hp
  have hfirst : start = first place := by
    have hsame := h.starts (g.senderAt place)
    rw [hstart] at hsame
    simpa [Sequences.start?, hcounter] using hsame
  subst hfirst
  refine ⟨(g.turns dispatched place).toUInt64, ?_, ?_⟩
  · have hissued : (⟨first place, g.numbersAfter first dispatched place⟩ : Counter).issued =
        (g.turns dispatched place).toUInt64 := by
      simp only [Counter.issued, Generator.numbersAfter]
      rw [UInt64.add_comm, UInt64.add_sub_cancel]
    rw [← hissued]
    exact Sequences.mem_spans hcounter
  · have hturns : g.turns dispatched place ≤ dispatched := Nat.count_le _
    have hsmall : (g.turns dispatched place).toUInt64.toNat = g.turns dispatched place :=
      UInt64.toNat_ofNat_of_lt (Nat.lt_of_le_of_lt (hturns.trans hle) htarget)
    rw [hsmall, ← Generator.numbers_plan hd first dispatched hp, Tracker.requests_outcomesOf]
    exact (hplan.filter _).map _

end Bench.Accounted

open Simulated

section Sender

variable {c : Simulated.Config} {base : State} {script : Script} {a : Address} {t : Tracker}
  {issued : Nat}

theorem mem_granted_of_outcome {o : Outcome} {handle : Handle} (ho : o ∈ t.outcomesOf a)
    (hh : o.handle = some handle) : (o.request, handle) ∈ acceptedBy a t.granted := by
  obtain ⟨ho, hsender⟩ := List.mem_filter.mp ho
  refine List.mem_filter.mpr ⟨List.mem_filterMap.mpr ⟨o, ho, ?_⟩, hsender⟩
  simp [Outcome.granted?, hh]

/-- The accepted outcomes of a sender are queued or executed by the ledger, and no others. -/
theorem outcome_queued_iff (hidle : ∀ nonce, base.chain.pool.find? a nonce = none)
    (hsame : acceptedBy a (play c script base).accepted = acceptedBy a t.granted)
    (hsmall : issued < 2 ^ 64)
    (hnumbers : ((t.outcomesOf a).map (·.request.nonce)).Perm
      (numbersFrom (base.chain.accounts.find a).nonce issued))
    {o : Outcome} (ho : o ∈ t.outcomesOf a) :
    o.handle.isSome ↔ (a, o.request.nonce) ∈ (play c script base).state.chain.pool.places ++
      (play c script base).executed.map Executed.place := by
  have hnonces := nonces_acceptedBy (c := c) hidle script
  rw [hsame, Tracker.acceptedBy_granted] at hnonces
  rw [isSome_handle_iff hsmall hnumbers ho, hnonces.mem_iff, List.mem_append, List.mem_append]
  have hpool : o.request.nonce ∈
      ((play c script base).state.chain.pool.places.filter (·.1 == a)).map (·.2) ↔
        (a, o.request.nonce) ∈ (play c script base).state.chain.pool.places := by
    simp
  have hexecuted : o.request.nonce ∈
      (executedBy a (play c script base).executed).map (·.nonce) ↔
        (a, o.request.nonce) ∈ (play c script base).executed.map Executed.place := by
    simp [executedBy, Executed.place, and_assoc]
  rw [hpool, hexecuted]

/-- An accepted outcome has a receipt as soon as its number has been executed. -/
theorem receipt_of_executed_outcome (hidle : ∀ nonce, base.chain.pool.find? a nonce = none)
    (hsame : acceptedBy a (play c script base).accepted = acceptedBy a t.granted) {o : Outcome}
    {handle : Handle} (ho : o ∈ t.outcomesOf a) (hh : o.handle = some handle) {moment : Script}
    (hexecuted : o.request.nonce ∈ (executedBy a (play c moment base).executed).map (·.nonce)) :
    handle ∈ (play c moment base).state.chain.receipts := by
  have hmine := mem_granted_of_outcome ho hh
  rw [← hsame] at hmine
  have hgranted : handle = handleOf o.request.sender o.request.nonce :=
    play_handles c _ base _ (List.mem_filter.mp hmine).1
  have hsender : o.request.sender = a := by simpa using (List.mem_filter.mp ho).2
  obtain ⟨x, hx, hxnonce⟩ := List.mem_map.mp hexecuted
  obtain ⟨hx, hxsender⟩ := List.mem_filter.mp hx
  have hhandled : base.chain.draft.Handled a := by
    intro nonce u hu
    rw [show base.chain.draft.pool.find? a nonce = none from hidle nonce] at hu
    nomatch hu
  have hlogged := play_logged (c := c) hhandled moment x hx (by simpa using hxsender)
  rw [hgranted, hsender, ← hxnonce, ← hlogged]
  exact mem_receipts_of_executed hx

/-- What is executed of a sender has its first numbers, all before the first that was not accepted. -/
theorem executed_first (hidle : ∀ nonce, base.chain.pool.find? a nonce = none)
    (hsame : acceptedBy a (play c script base).accepted = acceptedBy a t.granted)
    (hsmall : issued < 2 ^ 64)
    (hnumbers : ((t.outcomesOf a).map (·.request.nonce)).Perm
      (numbersFrom (base.chain.accounts.find a).nonce issued))
    {moment : Script} (hmoment : moment <+: script) :
    let start := (base.chain.accounts.find a).nonce
    let chain := (play c moment base).state.chain
    let included := (executedBy a (play c moment base).executed).map (·.nonce)
    included = numbersFrom start included.length ∧ included.length ≤ issued ∧
      (∀ o ∈ t.outcomesOf a, o.handle = none → ∀ i < issued,
        o.request.nonce = start + i.toUInt64 → included.length ≤ i) ∧
      (∀ o ∈ t.outcomesOf a, o.request.nonce ∈ included →
        ∃ handle, o.handle = some handle ∧ handle ∈ chain.receipts) ∧
      (chain.accounts.find a).nonce = start + included.length.toUInt64 ∧
      ((chain.accounts.find a).nonce = start + issued.toUInt64 ↔
        included.length = (t.outcomesOf a).length) := by
  intro start chain included
  obtain ⟨rest, rfl⟩ := hmoment
  obtain ⟨hnonce, hincluded⟩ := play_numbered c moment base a
  have hlength : included.length = (executedBy a (play c moment base).executed).length :=
    List.length_map ..
  rw [← hlength] at hnonce hincluded
  -- what is executed by now is executed in the end, and so it was accepted
  have haccepted : included.Subperm
      (((t.outcomesOf a).filter (·.handle.isSome)).map (·.request.nonce)) := by
    have hnonces := nonces_acceptedBy (c := c) hidle (moment ++ rest)
    rw [hsame, Tracker.acceptedBy_granted] at hnonces
    have hsublist : included.Sublist
        ((executedBy a (play c (moment ++ rest) base).executed).map (·.nonce)) :=
      ((prefix_executed c moment rest base).sublist.filter _).map _
    exact (hsublist.subperm.trans (List.sublist_append_right ..).subperm).trans
      hnonces.symm.subperm
  obtain ⟨hle, hbefore⟩ := included_before hsmall hnumbers hincluded haccepted
  refine ⟨hincluded, hle, hbefore, ?_, hnonce, ?_⟩
  · intro o ho hmem
    obtain ⟨handle, hhandle⟩ := Option.isSome_iff_exists.mp
      ((isSome_handle_iff hsmall hnumbers ho).mpr (haccepted.subset hmem))
    exact ⟨handle, hhandle, receipt_of_executed_outcome hidle hsame ho hhandle hmem⟩
  · have hcount : (t.outcomesOf a).length = issued := by
      have hcount := hnumbers.length_eq
      simpa [numbersFrom] using hcount
    rw [hnonce, hcount]
    constructor
    · exact numbersFrom_inj (Nat.lt_of_le_of_lt hle hsmall) hsmall
    · intro hall
      rw [hall]

end Sender

/-- In a run over a simulated ledger, what others submit being for other senders and nothing being
queued for its senders at first, a submission is recorded as accepted just if the ledger has queued it.
At every time from the seeding on, and however the ledger is used afterwards, the included submissions
of a sender have the first of its numbers, all before the first that was not accepted; its nonce stands
behind them, and it stands where the span of the sender ends just if all of them were included. -/
theorem RunConfig.run_includes_first (c : Simulated.Config) (cfg : RunConfig) (now : Instant)
    (shutdown : Shutdown) (s : Shared)
    (hothers : ∀ script ∈ s.others, script.IsForeign cfg.senders)
    (hidle : ∀ a ∈ cfg.senders, ∀ nonce,
      ((Ledger.shared c).height now s).2.state.chain.pool.find? a nonce = none)
    (htarget : cfg.target < 2 ^ 64)
    {f : Footing} {seeded : Shared} {b : Bench Shared}
    {result : Except RunError (SendSummary × PollReport)}
    (hprepared : cfg.prepare (.shared c) now s = (.ok f, seeded))
    (hloaded : cfg.load (.shared c) f.generator (cfg.bench f now shutdown seeded) = (result, b)) :
    let base := ((Ledger.shared c).height now s).2.state
    (∀ report, (cfg.run (.shared c) now shutdown s).1 = .ok report →
      report.sequences = b.sequences.spans ∧ report.submissions = b.tracker.counts) ∧
    ∃ script, (cfg.run (.shared c) now shutdown s).2.2.state = (play c script base).state ∧
      ofSenders cfg.senders (play c script base).accepted = b.tracker.granted ∧
      ∀ later : Script, later.IsForeign cfg.senders → ∀ a ∈ cfg.senders, ∃ start issued,
        ⟨a, start, issued⟩ ∈ b.sequences.spans ∧
        let mine := b.tracker.outcomesOf a
        let after := play c (script ++ later) base
        (mine.map (·.request.nonce)).Perm (numbersFrom start issued.toNat) ∧
        (∀ o ∈ mine, o.handle.isSome ↔ (a, o.request.nonce) ∈
          after.state.chain.pool.places ++ after.executed.map Executed.place) ∧
        ∀ moment, moment <+: script ++ later →
          let chain := (play c moment base).state.chain
          let included := (executedBy a (play c moment base).executed).map (·.nonce)
          included = numbersFrom start included.length ∧ included.length ≤ issued.toNat ∧
          (∀ o ∈ mine, o.handle = none → ∀ i < issued.toNat,
            o.request.nonce = start + i.toUInt64 → included.length ≤ i) ∧
          (∀ o ∈ mine, o.request.nonce ∈ included →
            ∃ handle, o.handle = some handle ∧ handle ∈ chain.receipts) ∧
          (chain.accounts.find a).nonce = start + included.length.toUInt64 ∧
          ((chain.accounts.find a).nonce = start + issued ↔ included.length = mine.length) := by
  intro base
  have hk := Shared.shared_keeps c cfg.senders base
  have hbase : Shared.Tracks c cfg.senders base [] ((Ledger.shared c).height now s).2 := by
    have hs : Shared.Tracks c cfg.senders s.state [] s := ⟨⟨[], rfl, rfl⟩, hothers⟩
    have hheight := ((Shared.shared_keeps c cfg.senders s.state).reads []).height hs now
    exact ⟨⟨[], rfl, rfl⟩, hheight.2⟩
  -- the senders are seeded where the ledger had their accounts at the first read
  let start := fun a => (base.chain.accounts.find a).nonce
  have hstart : ∀ a ∈ cfg.senders, ∀ {t}, Shared.Tracks c cfg.senders base [] t →
      ((Ledger.shared c).sequenceNumber now a t).1 = .ok (start a) := by
    intro a ha t ht
    rw [Shared.sequenceNumber_shared]
    rw [((hk.reads []).sequenceNumber ht now a).nonce ha (hidle a ha)]
  obtain ⟨hseeded, hsequences, hgenerator⟩ := prepare_spec (hk.reads []) hstart hbase hprepared
  have hd := Generator.distinct_of_ofSequences hgenerator
  rw [hsequences] at hgenerator
  obtain ⟨hstand, hmem⟩ := Generator.standAt_ofSequences hgenerator
  rw [← hsequences] at hstand
  obtain ⟨haccounted, ⟨⟨script, hstate, haccepted⟩, -⟩, hreport⟩ :=
    run_accounted shutdown hk hd hstand hseeded hprepared hloaded
  have hall : ofSenders cfg.senders b.tracker.granted = b.tracker.granted := by
    unfold ofSenders
    rw [List.filter_eq_self]
    intro x hx
    have hsender := haccounted.sender_granted x hx
    rw [Generator.mem_senders, ← hmem] at hsender
    simpa using hsender
  rw [hall] at haccepted
  refine ⟨hreport, script, hstate, haccepted, fun later hlater a ha => ?_⟩
  have hsame : acceptedBy a (play c (script ++ later) base).accepted =
      acceptedBy a b.tracker.granted := by
    rw [← haccepted, ← acceptedBy_ofSenders ha, accepted_append, ofSenders_append,
      hlater.ofSenders_eq_nil, List.append_nil]
  obtain ⟨place, hp, rfl⟩ := (hmem a).mp ha
  have hseed : f.sequences.start? (f.generator.senderAt place) =
      some (start (f.generator.senderAt place)) := by
    rw [hsequences, Sequences.start?, Sequences.getElem?_ofStarts, if_pos ha]
    rfl
  obtain ⟨issued, hspan, hnumbers⟩ := haccounted.span hd htarget hp hseed
  have hsmall : issued.toNat < 2 ^ 64 := issued.toNat_lt
  refine ⟨_, issued, hspan, hnumbers, ?_, ?_⟩
  · exact fun o ho => outcome_queued_iff (hidle _ ha) hsame hsmall hnumbers ho
  · intro moment hmoment
    have hfirst := executed_first (hidle _ ha) hsame hsmall hnumbers hmoment
    rw [Nat.toUInt64, UInt64.ofNat_toNat] at hfirst
    exact hfirst

/-! ## A burst that finds little room -/

theorem Job.flights_launch {σ ε : Type} {j : Job σ ε}
    (h : ∀ now request s, (j.ledger.submit now request s).1.latency = some 0)
    (requests : List Request) (p : Phase σ ε) : (j.launch requests p).flights = p.flights := by
  unfold launch
  dsimp only
  rw [Launch.started_all_eq_nil h]
  exact Flights.add_nil _

/-- Polling after a send phase leaves its counters and, but for the seal, its record. -/
theorem RunConfig.sendThenPoll_record {σ : Type} (c : RunConfig) (ledger : Ledger σ) (g : Generator)
    (b : Bench σ) :
    (c.sendThenPoll ledger g b).2.sequences =
        (g.send ledger c.strategy c.target c.duration b).2.sequences ∧
      (c.sendThenPoll ledger g b).2.tracker =
        (g.send ledger c.strategy c.target c.duration b).2.tracker.close := by
  unfold sendThenPoll
  split <;> rename_i heq <;> rw [heq] <;> exact ⟨rfl, rfl⟩

/-- One transfer of another sender. -/
def Simulated.Script.another : Script := [(0, .settle ⟨2, 1, 0, 21000, 0, none⟩)]

/-- A ledger with one account, which others use too. -/
def Simulated.Shared.ofOne (others : List Script) : Shared := ⟨.ofOne, others⟩

/-- A burst of three transfers of one sender. -/
def RunConfig.ofThree : RunConfig :=
  { senders := [1], strategy := .burst, target := 3, poll := { timeout := 0 } }

/-- What the burst stands on. -/
def Footing.ofThree : Footing :=
  ⟨0, .ofStarts [(1, 0)], [], { senders := #[1], nonempty := by decide, template := {} }⟩

/-- The bench of the burst; the other sender is about to send. -/
def Bench.ofThree : Bench Shared :=
  RunConfig.ofThree.bench .ofThree 0 .never (.ofOne [.another])

/-- What the burst is about. -/
def Job.ofThree : Job Shared CountedHeight :=
  { generator := Footing.ofThree.generator, ledger := .shared .ofTwo
    estimator := Generator.estimatorOf .burst (.shared .ofTwo), strategy := .burst, target := 3
    deadline := none }

/-- The burst is answered at once. -/
theorem Job.run_ofThree :
    ofThree.run (start .ofThree none) = ofThree.advance (fun _ _ => true) 16
      { ofThree.step .wake (start .ofThree none) with flights := [] } := by
  have hflights : (ofThree.step .wake (start .ofThree none)).flights = [] :=
    flights_launch (fun _ _ _ => rfl) ..
  rw [← hflights]
  rfl

/-- Another transfer comes first to a pool of two, and of the three transfers only the first is accepted.
However the ledger is used later, the others are never executed. -/
theorem RunConfig.run_includes_first_crowded :
    ∃ script, (ofThree.run (.shared .ofTwo) 0 .never (.ofOne [[], [], .another])).2.2.state =
        (play .ofTwo script .ofOne).state ∧
      ∀ later : Script, later.IsForeign [1] →
        (executedBy 1 (play .ofTwo (script ++ later) .ofOne).executed).length ≤ 1 := by
  have hothers : ∀ script ∈ ([[], [], .another] : List Script),
      script.IsForeign ofThree.senders := by
    unfold Script.IsForeign
    decide
  have hspans : (ofThree.load (.shared .ofTwo) Footing.ofThree.generator .ofThree).2.sequences.spans =
      [⟨1, 0, 3⟩] := by
    change (ofThree.sendThenPoll _ _ _).2.sequences.spans = _
    rw [(sendThenPoll_record ..).1]
    change (Job.ofThree.run (Job.start .ofThree none)).sequences.spans = _
    rw [Job.run_ofThree]
    decide +kernel
  have hmine : ((ofThree.load (.shared .ofTwo) Footing.ofThree.generator
      .ofThree).2.tracker.outcomesOf 1).map (fun o => (o.request.nonce, o.handle)) =
        [(0, some (handleOf 1 0)), (1, none), (2, none)] := by
    change ((ofThree.sendThenPoll _ _ _).2.tracker.outcomesOf 1).map _ = _
    rw [(sendThenPoll_record ..).2]
    change ((Job.ofThree.run (Job.start .ofThree none)).tracker.close.outcomesOf 1).map _ = _
    rw [Job.run_ofThree]
    decide +kernel
  obtain ⟨-, script, hstate, -, hfirst⟩ :=
    run_includes_first .ofTwo ofThree 0 .never (.ofOne [[], [], .another]) hothers
      (fun _ _ _ => rfl) (by decide) (f := .ofThree) (b := (ofThree.load _ _ .ofThree).2) rfl rfl
  refine ⟨script, hstate, fun later hlater => ?_⟩
  obtain ⟨start, issued, hspan, -, -, hmoments⟩ := hfirst later hlater 1 (by decide)
  rw [hspans] at hspan
  obtain ⟨rfl, rfl⟩ : start = 0 ∧ issued = 3 := by simpa using hspan
  obtain ⟨o, ho, hsecond⟩ : ∃ o ∈ (ofThree.load (.shared .ofTwo) Footing.ofThree.generator
      .ofThree).2.tracker.outcomesOf 1, (o.request.nonce, o.handle) = (1, none) := by
    rw [← List.mem_map, hmine]
    decide
  obtain ⟨hnonce, hnone⟩ := Prod.mk.inj hsecond
  obtain ⟨-, -, hbefore, -⟩ := hmoments _ List.prefix_rfl
  have hone := hbefore o ho hnone 1 (by decide) hnonce
  rwa [List.length_map] at hone

end Throughput
