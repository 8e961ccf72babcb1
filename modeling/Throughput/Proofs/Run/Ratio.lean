import Throughput.Proofs.Run.Failure
import Throughput.Proofs.Simulated.Reads
import Throughput.Proofs.Simulated.Shares

/-!
# The ratio of two shares

In a run over a simulated ledger a check on the gains of two accounts that gain nothing but their
shares of the fees has one verdict, however many transfers are included and whatever becomes of them.
-/

namespace Throughput

open Simulated

namespace RunConfig

variable {c : Simulated.Config} {cfg : RunConfig} {now : Instant} {s : State}

/-- All that a run reads before the load it reads at one instant. -/
theorem prepare_simulated (hvalid : cfg.validate = .ok ()) (now : Instant) (s : State) :
    ∃ f, cfg.prepare (.simulated c) now s = (.ok f, s.caughtUp c now) ∧
      f.balances = (s.chain.catchUp c now).snapshots (checkedAccounts cfg.checks) := by
  have hup : (s.caughtUp c now).caughtUp c now = s.caughtUp c now :=
    State.caughtUp_caughtUp (Nat.le_refl now)
  have hreads : cfg.Reads (.simulated c) now s ((s.chain.catchUp c now).blocks.size - 1).toUInt64
      (.ofStarts (cfg.senders.map fun a => (a, ((s.chain.catchUp c now).accounts.find a).nonce)))
      ((s.chain.catchUp c now).snapshots (checkedAccounts cfg.checks)) (s.caughtUp c now) := by
    refine ⟨s.caughtUp c now, s.caughtUp c now, rfl, ?_, readBalances_caughtUp hup _⟩
    unfold Sequences.seed
    rw [readStarts_caughtUp hup]
    rfl
  obtain ⟨g, hg⟩ := generator_of_reads (isValid_of_validate hvalid) hreads
  exact ⟨⟨_, _, _, g⟩, prepare_eq_ok.mpr ⟨hvalid, hreads, hg⟩, rfl⟩

/-- All that a run reads after the load it reads at one instant. -/
theorem conclude_simulated (cfg : RunConfig) (f : Footing) (send : SendSummary)
    (inclusion : PollReport) (b : Bench State) :
    let concluded := cfg.conclude (.simulated c) f send inclusion b
    concluded.2.ledger = b.ledger.caughtUp c b.now ∧
      concluded.1.checks = verify cfg.checks f.balances
        ((b.ledger.chain.catchUp c b.now).snapshots (checkedAccounts cfg.checks)) := by
  have hup : (b.ledger.caughtUp c b.now).caughtUp c b.now = b.ledger.caughtUp c b.now :=
    State.caughtUp_caughtUp (Nat.le_refl b.now)
  -- The reads of the blocks come in between, and they leave a ledger that is up to date as it is.
  have hread : ∀ window, readAvailableBalances (.simulated c) b.now (checkedAccounts cfg.checks)
      (cfg.analyzedBlocks (.simulated c) b.now window (b.ledger.caughtUp c b.now)).2 =
        ((b.ledger.chain.catchUp c b.now).snapshots (checkedAccounts cfg.checks),
          b.ledger.caughtUp c b.now) := fun window => by
    rw [analyzedBlocks_caughtUp hup]
    exact readAvailableBalances_caughtUp hup _
  intro concluded
  have hledger : concluded.2.ledger = (readAvailableBalances (.simulated c) b.now
      (checkedAccounts cfg.checks) (cfg.analyzedBlocks (.simulated c) b.now
        concluded.1.window (b.ledger.caughtUp c b.now)).2).2 := rfl
  have hchecks : concluded.1.checks = verify cfg.checks f.balances
      (readAvailableBalances (.simulated c) b.now (checkedAccounts cfg.checks)
        (cfg.analyzedBlocks (.simulated c) b.now concluded.1.window
          (b.ledger.caughtUp c b.now)).2).1 := rfl
  rw [hledger, hchecks, hread]
  exact ⟨rfl, rfl⟩

/-- A run over a simulated ledger with a valid configuration reports. It leaves the ledger as clients
might have left it, and its checks compare the first and the last balances. -/
theorem run_simulated (hvalid : cfg.validate = .ok ()) (now : Instant) (shutdown : Shutdown)
    (s : State) : ∃ report ended final,
      cfg.run (.simulated c) now shutdown s = (.ok report, ended, final) ∧
        (∃ script, final = (play c script (s.caughtUp c now)).state) ∧
        report.checks = verify cfg.checks
          ((s.caughtUp c now).chain.snapshots (checkedAccounts cfg.checks))
          (final.chain.snapshots (checkedAccounts cfg.checks)) := by
  obtain ⟨f, hprepared, hbalances⟩ := prepare_simulated (c := c) hvalid now s
  obtain ⟨-, ⟨s₁, s₂, -, hseed, -⟩, hgenerator⟩ := prepare_eq_ok.mp hprepared
  obtain ⟨-, hfresh⟩ := Sequences.seed_spec hseed
  obtain ⟨send, inclusion, b, hloaded⟩ := load_of_isValid (isValid_of_validate hvalid) (.simulated c)
    f.generator (cfg.bench f now shutdown (s.caughtUp c now))
  -- Every call of the load is an act of some script that starts from the opening.
  obtain ⟨-, hreached, -⟩ := run_accounted shutdown (simulated_keeps c (s.caughtUp c now))
    (Generator.distinct_of_ofSequences hgenerator) (Generator.standAt_firstOf hgenerator hfresh)
    ⟨[], rfl⟩ hprepared hloaded
  have hrun := run_of_loaded hprepared hloaded
  obtain ⟨hledger, hchecks⟩ := conclude_simulated (c := c) cfg f send inclusion b
  rw [hrun] at hreached
  refine ⟨_, _, _, hrun, hreached, ?_⟩
  rw [hchecks, hledger, hbalances]
  rfl

end RunConfig

namespace Simulated

/-- Does an account gain shares, and nothing else, with the transfers that are included, and has it room
for them? -/
structure Config.Accrues (c : Config) (opening : Chain) (included : List Executed) (a : Address) :
    Prop where
  bystander : c.IsBystander a included
  share : 0 < c.shareOf a
  room : (opening.accounts.find a).balance.toNat + included.length * c.shareOf a < 2 ^ 256

variable {c : Config} {script : Script} {opening : State}

/-- The gains of two accounts that gain shares are judged by these. -/
theorem evaluate_shares {check : Check} {a b : Address} {target tolerance : Float}
    (hratio : check.expectation = .ratio a b target tolerance) {addresses : List Address}
    (haddresses : ∀ x ∈ check.accounts, x ∈ addresses)
    (ha : c.Accrues opening.chain (play c script opening).executed a)
    (hb : c.Accrues opening.chain (play c script opening).executed b)
    (hincluded : 0 < (play c script opening).executed.length)
    (hscale : (play c script opening).executed.length * c.shareOf a * ratioScale < 2 ^ 256) :
    check.evaluate (opening.chain.snapshots addresses)
        ((play c script opening).state.chain.snapshots addresses) =
      judgeRatio check.label target tolerance (BitVec.ofNat 256 (c.shareOf a))
        (BitVec.ofNat 256 (c.shareOf b)) := by
  have haccounts : check.accounts = [a, b] := by
    unfold Check.accounts
    rw [hratio]
  have hamem : a ∈ addresses := haddresses a (by simp [haccounts])
  have hbmem : b ∈ addresses := haddresses b (by simp [haccounts])
  exact Check.evaluate_multiples hratio (delta_snapshots hamem ..) (delta_snapshots hbmem ..)
    hincluded ha.share hb.share hscale (toNat_balance_play ha.bystander ha.room)
    (toNat_balance_play hb.bystander hb.room)

/-- Between any two reads of its balance a bystander gains its shares of the fee once for each transfer
that has been included meanwhile, reverted or not. So a run over a simulated ledger judges the ratio of
two accounts that gain shares by these, whatever it sends, and however many transfers are included
between its first and its last balances. -/
theorem shares_per_transfer (c : Config) :
    (∀ (s : State) (first last : Instant) (script : Script) (a : Address),
      let opened := (Query.balance a).ask c first s
      let h := play c (script ++ [(last, .ask (.balance a))]) opened.2
      c.IsBystander a h.executed →
      ∃ before after : Amount, opened.1 = .amount (.ok before) ∧
        h.replies.getLast? = some (.amount (.ok after)) ∧
        after = before + BitVec.ofNat 256 (h.executed.length * c.shareOf a) ∧
        (before.toNat + h.executed.length * c.shareOf a < 2 ^ 256 →
          after.toNat = before.toNat + h.executed.length * c.shareOf a)) ∧
    ∀ (cfg : RunConfig) (now : Instant) (shutdown : Shutdown) (s : State), cfg.validate = .ok () →
      ∃ report ended final, cfg.run (.simulated c) now shutdown s = (.ok report, ended, final) ∧
        let opening := s.caughtUp c now
        (∃ script, final = (play c script opening).state) ∧
        ∀ script, final = (play c script opening).state →
          let included := (play c script opening).executed
          ∀ (i : Nat) (check : Check) (a b : Address) (target tolerance : Float),
            cfg.checks[i]? = some check → check.expectation = .ratio a b target tolerance →
            c.Accrues opening.chain included a → c.Accrues opening.chain included b →
            0 < included.length → included.length * c.shareOf a * ratioScale < 2 ^ 256 →
            report.checks[i]? = some (judgeRatio check.label target tolerance
              (BitVec.ofNat 256 (c.shareOf a)) (BitVec.ofNat 256 (c.shareOf b))) := by
  constructor
  · intro s first last script a opened h hbystander
    refine ⟨(opened.2.chain.accounts.find a).balance, (h.state.chain.accounts.find a).balance, rfl, ?_,
      balance_play hbystander, toNat_balance_play hbystander⟩
    simp only [h, play_append]
    exact List.getLast?_concat
  · intro cfg now shutdown s hvalid
    obtain ⟨report, ended, final, hrun, hreached, hchecks⟩ :=
      RunConfig.run_simulated (c := c) hvalid now shutdown s
    refine ⟨report, ended, final, hrun, hreached, ?_⟩
    rintro script rfl included i check a b target tolerance hcheck hratio ha hb hincluded hscale
    have hnamed : ∀ x ∈ check.accounts, x ∈ checkedAccounts cfg.checks := fun x hx =>
      mem_checkedAccounts.mpr ⟨check, List.mem_of_getElem? hcheck, hx⟩
    rw [hchecks, verify, List.getElem?_map, hcheck, Option.map_some,
      evaluate_shares hratio hnamed ha hb hincluded hscale]

deriving instance DecidableEq for Chain

deriving instance DecidableEq for State

end Simulated

/-! ## A run that only waits -/

/-- Two entries of a fee split go to one account, and one to another. -/
def Simulated.Config.ofShares : Simulated.Config :=
  { gasPrice := 1, producer := 3, feeSplit := [(5, 3333), (6, 2500), (5, 3333)] }

/-- Two transfers are queued, and the sender of the second has no money. -/
def Simulated.State.ofPair : State :=
  (play .ofShares [(0, .settle ⟨1, 2, 5, 21000, 0, none⟩), (0, .settle ⟨9, 2, 5, 21000, 0, none⟩)]
    (.genesis .ofShares [(1, ⟨0, 90000⟩)])).state

/-- A second later the balance of one of the accounts is asked for. -/
def Simulated.History.ofPair : History :=
  play .ofShares [(seconds 1, .ask (.balance 5))] (State.ofPair.caughtUp .ofShares 0)

/-- A run that sends nothing for a second and compares the two accounts. -/
def RunConfig.ofRatio : RunConfig :=
  { senders := [1], strategy := .saturation { initialFill := 0 }, target := 1
    duration := some (seconds 1), poll := { timeout := 0 }, checks := [.ratio "split" 5 6 2.6667] }

theorem RunConfig.run_ofRatio :
    (ofRatio.run (.simulated .ofShares) 0 .never .ofPair).2.2 = History.ofPair.state := by
  decide +kernel

theorem executed_ofPair : History.ofPair.executed.map
    (fun x => (x.sender, x.transfer.recipient, x.succeeded)) = [(1, 2, true), (9, 2, false)] := by
  decide +kernel

theorem length_ofPair : History.ofPair.executed.length = 2 := by
  rw [← List.length_map, executed_ofPair]
  rfl

theorem shareOf_ofShares : Simulated.Config.ofShares.shareOf 5 = 13998 ∧
    Simulated.Config.ofShares.shareOf 6 = 5250 := by
  decide +kernel

theorem balance_ofPair :
    ((State.ofPair.caughtUp .ofShares 0).chain.accounts.find 5).balance = 0 ∧
      ((State.ofPair.caughtUp .ofShares 0).chain.accounts.find 6).balance = 0 := by
  decide +kernel

/-- Neither of the two accounts is a party to the transfers. -/
theorem accrues_ofPair {a : Address} (ha : a = 5 ∨ a = 6) :
    Simulated.Config.ofShares.Accrues (State.ofPair.caughtUp .ofShares 0).chain
      History.ofPair.executed a := by
  have hparties : ∀ x ∈ History.ofPair.executed, x.sender ≠ a ∧ x.transfer.recipient ≠ a := by
    intro x hx
    have hmem := List.mem_map_of_mem (f := fun x : Executed =>
      (x.sender, x.transfer.recipient, x.succeeded)) hx
    rw [executed_ofPair] at hmem
    simp only [List.mem_cons, Prod.mk.injEq, List.not_mem_nil, or_false] at hmem
    rcases ha with rfl | rfl <;> rcases hmem with ⟨hs, hr, -⟩ | ⟨hs, hr, -⟩ <;> rw [hs, hr] <;> decide
  obtain ⟨hfive, hsix⟩ := shareOf_ofShares
  obtain ⟨hbalance, hbalance'⟩ := balance_ofPair
  rcases ha with rfl | rfl
  · refine ⟨⟨by decide, fun x hx => (hparties x hx).1, fun x hx => (hparties x hx).2⟩, ?_, ?_⟩
    · rw [hfive]
      decide
    · rw [hbalance, length_ofPair, hfive]
      decide
  · refine ⟨⟨by decide, fun x hx => (hparties x hx).1, fun x hx => (hparties x hx).2⟩, ?_, ?_⟩
    · rw [hsix]
      decide
    · rw [hbalance', length_ofPair, hsix]
      decide

/-- Both transfers are included while the run waits, and the second is reverted. Of a fee of 21000 one
account gets 13998 and the other 5250, for each of the two. -/
theorem Simulated.shares_per_transfer_reverted :
    History.ofPair.executed.map (·.succeeded) = [true, false] ∧
      (∃ after : Amount, History.ofPair.replies.getLast? = some (.amount (.ok after)) ∧
        after.toNat = 2 * 13998) ∧
      RunConfig.ofRatio.validate = .ok () ∧
      ∃ report ended final,
        RunConfig.ofRatio.run (.simulated .ofShares) 0 .never .ofPair = (.ok report, ended, final) ∧
          report.checks[0]? = some (judgeRatio "split" 2.6667 Check.defaultTolerance
            (BitVec.ofNat 256 13998) (BitVec.ofNat 256 5250)) := by
  obtain ⟨hreads, hruns⟩ := shares_per_transfer .ofShares
  have hvalid : RunConfig.ofRatio.validate = .ok () := rfl
  have houtcomes := congrArg (List.map (·.2.2)) executed_ofPair
  rw [List.map_map] at houtcomes
  obtain ⟨hfive, hsix⟩ := shareOf_ofShares
  have hfirst := accrues_ofPair (.inl rfl)
  have hsecond := accrues_ofPair (.inr rfl)
  refine ⟨houtcomes, ?_, hvalid, ?_⟩
  · obtain ⟨before, after, hbefore, hafter, -, hgain⟩ :=
      hreads .ofPair 0 (seconds 1) [] 5 hfirst.bystander
    have hzero : ((State.ofPair.caughtUp .ofShares 0).chain.accounts.find 5).balance = before :=
      Except.ok.inj (Reply.amount.inj hbefore)
    rw [balance_ofPair.1] at hzero
    have hroom := hfirst.room
    rw [balance_ofPair.1, hzero] at hroom
    have hafter' := hgain hroom
    change _ = _ + History.ofPair.executed.length * _ at hafter'
    rw [← hzero, length_ofPair, hfive] at hafter'
    exact ⟨after, hafter, hafter'⟩
  · obtain ⟨report, ended, final, hrun, -, hchecks⟩ := hruns .ofRatio 0 .never .ofPair hvalid
    have hfinal : final = History.ofPair.state := by
      rw [← RunConfig.run_ofRatio, hrun]
    have hresult := hchecks _ hfinal 0 (.ratio "split" 5 6 2.6667) 5 6 2.6667 Check.defaultTolerance
      rfl rfl hfirst hsecond
    change 0 < History.ofPair.executed.length →
      History.ofPair.executed.length * _ * ratioScale < _ → _ at hresult
    rw [length_ofPair, hfive, hsix] at hresult
    exact ⟨report, ended, final, hrun, hresult (by decide) (by decide)⟩

end Throughput
