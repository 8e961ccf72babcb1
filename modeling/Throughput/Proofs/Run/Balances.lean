import Throughput.Proofs.Balance.Isolation
import Throughput.Proofs.Run.Failure

/-!
# The balances of a run

A run reads the balance of every checked account twice, before it sends and at its very end. A first
read that fails ends the run, and a last one that fails is missing from the snapshots, so that the
checks of its account fail, and no others.
-/

namespace Throughput

variable {σ : Type} {ledger : Ledger σ} {now : Instant} {s s' : σ} {addresses : List Address}
  {a : Address}

/-! ## Reading balances -/

/-- A balance that has been asked for. -/
structure BalanceRead where
  account : Address
  answer : Answer Amount

namespace BalanceRead

/-- Has the read failed? -/
def Failed (r : BalanceRead) : Prop := ∃ e, r.answer = .error e

/-- What is known of the account, if the read has not failed. -/
def snapshot? (r : BalanceRead) : Option Snapshot :=
  match r.answer with
  | .ok amount => some ⟨r.account, amount⟩
  | .error _ => none

theorem snapshot?_eq_none {r : BalanceRead} : r.snapshot? = none ↔ r.Failed := by
  unfold snapshot? Failed
  cases r.answer <;> simp

theorem account_of_snapshot? {r : BalanceRead} {snapshot : Snapshot}
    (h : r.snapshot? = some snapshot) : snapshot.account = r.account := by
  unfold snapshot? at h
  split at h
  · rw [← Option.some.inj h]
  · nomatch h

end BalanceRead

/-- Asks for balances one after the other. -/
def balanceReads (ledger : Ledger σ) (now : Instant) : List Address → σ → List BalanceRead × σ
  | [], s => ([], s)
  | a :: rest, s =>
    let (answer, s) := ledger.balance now a s
    let (others, s) := balanceReads ledger now rest s
    (⟨a, answer⟩ :: others, s)

theorem accounts_balanceReads (ledger : Ledger σ) (now : Instant) (addresses : List Address) (s : σ) :
    (balanceReads ledger now addresses s).1.map (·.account) = addresses := by
  induction addresses generalizing s with
  | nil => rfl
  | cons a rest ih => exact congrArg (a :: ·) (ih _)

/-- The snapshots at the end are those of the reads that have not failed. -/
theorem readAvailableBalances_eq (ledger : Ledger σ) (now : Instant) (addresses : List Address)
    (s : σ) : readAvailableBalances ledger now addresses s =
      ((balanceReads ledger now addresses s).1.filterMap (·.snapshot?),
        (balanceReads ledger now addresses s).2) := by
  induction addresses generalizing s with
  | nil => rfl
  | cons a rest ih =>
    unfold readAvailableBalances balanceReads
    dsimp only
    rw [ih, List.filterMap_cons]
    unfold BalanceRead.snapshot?
    dsimp only
    cases (ledger.balance now a s).1 <;> rfl

/-- The snapshots at the beginning cover all accounts. -/
theorem accounts_of_readBalances {balances : List Snapshot}
    (h : readBalances ledger now addresses s = (.ok balances, s')) :
    balances.map (·.account) = addresses := by
  induction addresses generalizing s balances with
  | nil =>
    obtain ⟨hbalances, -⟩ := Prod.mk.inj h
    rw [← Except.ok.inj hbalances]
    rfl
  | cons a rest ih =>
    unfold readBalances at h
    split at h
    · nomatch (Prod.mk.inj h).1
    · rename_i amount s₁ _
      dsimp only at h
      obtain ⟨hbalances, rfl⟩ := Prod.mk.inj h
      cases hothers : (readBalances ledger now rest s₁).1 with
      | error e =>
        rw [hothers] at hbalances
        nomatch hbalances
      | ok others =>
        rw [hothers] at hbalances
        rw [← Except.ok.inj hbalances, List.map_cons, ih (Prod.ext hothers rfl)]

/-- Where every account is read once, an account has no snapshot exactly if its read has failed. -/
theorem balanceOf?_reads {reads : List BalanceRead} (hnodup : (reads.map (·.account)).Nodup)
    (ha : a ∈ reads.map (·.account)) :
    balanceOf? (reads.filterMap (·.snapshot?)) a = none ↔
      ∃ r ∈ reads, r.account = a ∧ r.Failed := by
  obtain ⟨r, hr, rfl⟩ := List.mem_map.mp ha
  have hsame : ∀ r' ∈ reads, r'.account = r.account → r' = r :=
    fun r' hr' haccount => List.inj_on_of_nodup_map hnodup hr' hr haccount
  rw [balanceOf?_eq_none]
  constructor
  · intro hmissing
    refine ⟨r, hr, rfl, BalanceRead.snapshot?_eq_none.mp ?_⟩
    rw [Option.eq_none_iff_forall_ne_some]
    intro snapshot hsnapshot
    have hmem := List.mem_map_of_mem (f := (·.account))
      (List.mem_filterMap.mpr ⟨r, hr, hsnapshot⟩)
    rw [BalanceRead.account_of_snapshot? hsnapshot] at hmem
    exact hmissing hmem
  · rintro ⟨r', hr', haccount, hfailed⟩ hmem
    obtain ⟨snapshot, hsnapshot, hsame'⟩ := List.mem_map.mp hmem
    obtain ⟨r'', hr'', hread⟩ := List.mem_filterMap.mp hsnapshot
    rw [BalanceRead.account_of_snapshot? hread] at hsame'
    rw [hsame r'' hr'' hsame', ← hsame r' hr' haccount,
      BalanceRead.snapshot?_eq_none.mpr hfailed] at hread
    nomatch hread

namespace RunConfig

variable {c : RunConfig} {shutdown : Shutdown} {report : RunReport}

/-- The reads of the balances with which a run ends, and what they leave of the ledger. -/
def closingReads (c : RunConfig) (ledger : Ledger σ) (now : Instant) (shutdown : Shutdown) (s : σ) :
    List BalanceRead × σ :=
  match c.prepare ledger now s with
  | (.error _, s) => ([], s)
  | (.ok f, s) =>
    let b := (c.load ledger f.generator (c.bench f now shutdown s)).2
    let (answer, s) := ledger.height b.now b.ledger
    let (_, s) := c.analyzedBlocks ledger b.now ⟨f.startHeight, answer.toOption⟩ s
    balanceReads ledger b.now (checkedAccounts c.checks) s

theorem closingReads_eq {f : Footing} {send : SendSummary} {inclusion : PollReport} {b : Bench σ}
    (hprepared : c.prepare ledger now s = (.ok f, s'))
    (hloaded : c.load ledger f.generator (c.bench f now shutdown s') = (.ok (send, inclusion), b)) :
    c.closingReads ledger now shutdown s = balanceReads ledger b.now (checkedAccounts c.checks)
      (c.analyzedBlocks ledger b.now (c.conclude ledger f send inclusion b).1.window
        (ledger.height b.now b.ledger).2).2 := by
  unfold closingReads
  rw [hprepared]
  dsimp only
  rw [hloaded]
  rfl

/-- A run compares the balances that it has read first with those that can be read at its end. -/
theorem run_balances {ended : Instant} {final : σ}
    (hrun : c.run ledger now shutdown s = (.ok report, ended, final)) :
    let closing := c.closingReads ledger now shutdown s
    report.balancesBefore.map (·.account) = checkedAccounts c.checks ∧
      closing.1.map (·.account) = checkedAccounts c.checks ∧
      report.balancesAfter = closing.1.filterMap (·.snapshot?) ∧ closing.2 = final ∧
      report.checks = verify c.checks report.balancesBefore report.balancesAfter := by
  obtain ⟨f, s', send, inclusion, b, hprepared, hloaded, hreport⟩ :=
    run_eq_ok.mp (congrArg Prod.fst hrun)
  obtain ⟨-, ⟨_, _, -, -, hbalances⟩, -⟩ := prepare_eq_ok.mp hprepared
  have hfinal := congrArg (·.2.2) hrun
  rw [run_of_loaded hprepared hloaded] at hfinal
  rw [closingReads_eq hprepared hloaded]
  generalize hs : (c.analyzedBlocks ledger b.now (c.conclude ledger f send inclusion b).1.window
    (ledger.height b.now b.ledger).2).2 = s₁
  have hafter : readAvailableBalances ledger b.now (checkedAccounts c.checks) s₁ =
      ((c.conclude ledger f send inclusion b).1.balancesAfter,
        (c.conclude ledger f send inclusion b).2.ledger) := by
    rw [← hs]
    rfl
  rw [readAvailableBalances_eq] at hafter
  obtain ⟨hread, hleft⟩ := Prod.mk.inj hafter
  rw [hreport]
  exact ⟨accounts_of_readBalances hbalances, accounts_balanceReads .., hread.symm, hleft.trans hfinal,
    rfl⟩

/-- A check fails for a missing balance in a run exactly if a last read of one of its accounts has
failed: all first reads have succeeded. -/
theorem lacksBalance_of_run {ended : Instant} {final : σ}
    (hrun : c.run ledger now shutdown s = (.ok report, ended, final)) {i : Nat} {check : Check}
    {result : CheckResult} (hcheck : c.checks[i]? = some check)
    (hresult : report.checks[i]? = some result) :
    result.LacksBalance ↔
      ∃ r ∈ (c.closingReads ledger now shutdown s).1, r.account ∈ check.accounts ∧ r.Failed := by
  obtain ⟨hbefore, hclosing, hafter, -, hchecks⟩ := run_balances hrun
  have hevaluated : result = check.evaluate report.balancesBefore report.balancesAfter := by
    rw [hchecks, verify, List.getElem?_map, hcheck, Option.map_some] at hresult
    exact (Option.some.inj hresult).symm
  have hnodup : ((c.closingReads ledger now shutdown s).1.map (·.account)).Nodup := by
    rw [hclosing]
    exact nodup_checkedAccounts c.checks
  have hlisted : ∀ a ∈ check.accounts, a ∈ checkedAccounts c.checks := fun a ha =>
    mem_checkedAccounts.mpr ⟨check, List.mem_of_getElem? hcheck, ha⟩
  have hfirst : ∀ a ∈ check.accounts, balanceOf? report.balancesBefore a ≠ none := by
    intro a ha hnone
    rw [balanceOf?_eq_none, hbefore] at hnone
    exact hnone (hlisted a ha)
  have hlast : ∀ a ∈ check.accounts, balanceOf? report.balancesAfter a = none ↔
      ∃ r ∈ (c.closingReads ledger now shutdown s).1, r.account = a ∧ r.Failed := by
    intro a ha
    rw [hafter]
    exact balanceOf?_reads hnodup (by rw [hclosing]; exact hlisted a ha)
  rw [hevaluated, Check.lacksBalance_evaluate]
  constructor
  · rintro ⟨a, ha, hnone | hnone⟩
    · exact absurd hnone (hfirst a ha)
    · obtain ⟨r, hr, haccount, hfailed⟩ := (hlast a ha).mp hnone
      exact ⟨r, hr, haccount ▸ ha, hfailed⟩
  · rintro ⟨r, hr, ha, hfailed⟩
    exact ⟨r.account, ha, .inr ((hlast r.account ha).mpr ⟨r, hr, rfl, hfailed⟩)⟩

/-- Each check gives one result, and it depends on nothing but the last snapshots of the accounts that
the check names: it stays the same among other checks, and snapshots of other accounts or followed by
one of the same account may come or go. A run reads every checked account once before it sends, without
fail, and once at its very end. A check of the run fails for a missing balance exactly if a last read of
one of its own accounts has failed. -/
theorem checks_isolated :
    (∀ (checks : List Check) (before after : List Snapshot),
      (verify checks before after).map (·.label) = checks.map (·.label)) ∧
    (∀ (checks checks' : List Check) (i j : Nat) (check : Check)
        (before before' after after' : List Snapshot),
      checks[i]? = some check → checks'[j]? = some check →
      (∀ a ∈ check.accounts, lastSnapshot? before a = lastSnapshot? before' a ∧
        lastSnapshot? after a = lastSnapshot? after' a) →
      ∃ result, (verify checks before after)[i]? = some result ∧
        (verify checks' before' after')[j]? = some result) ∧
    (∀ (a : Address) (snapshot : Snapshot) (earlier later : List Snapshot),
      (snapshot.account = a → a ∈ later.map (·.account)) →
      lastSnapshot? (earlier ++ snapshot :: later) a = lastSnapshot? (earlier ++ later) a) ∧
    ∀ {σ : Type} (c : RunConfig) (ledger : Ledger σ) (now : Instant) (shutdown : Shutdown) (s : σ)
        (report : RunReport) (ended : Instant) (final : σ),
      c.run ledger now shutdown s = (.ok report, ended, final) →
      let closing := c.closingReads ledger now shutdown s
      (checkedAccounts c.checks).Nodup ∧
        report.balancesBefore.map (·.account) = checkedAccounts c.checks ∧
        closing.1.map (·.account) = checkedAccounts c.checks ∧
        report.balancesAfter = closing.1.filterMap (·.snapshot?) ∧ closing.2 = final ∧
        report.checks = verify c.checks report.balancesBefore report.balancesAfter ∧
        ∀ (i : Nat) (check : Check) (result : CheckResult),
          c.checks[i]? = some check → report.checks[i]? = some result →
          (result.LacksBalance ↔ ∃ r ∈ closing.1, r.account ∈ check.accounts ∧ r.Failed) := by
  refine ⟨fun checks before after => ?_, ?_, fun a snapshot earlier later h => ?_, ?_⟩
  · unfold verify
    rw [List.map_map]
    exact List.map_congr_left fun check _ => check.label_evaluate before after
  · intro checks checks' i j check before before' after after' hi hj hsame
    refine ⟨check.evaluate before after, ?_, ?_⟩
    · rw [verify, List.getElem?_map, hi, Option.map_some]
    · rw [verify, List.getElem?_map, hj, Option.map_some, Check.evaluate_of_lastSnapshot? hsame]
  · exact lastSnapshot?_insert h earlier
  · intro σ c ledger now shutdown s report ended final hrun closing
    obtain ⟨hbefore, hclosing, hafter, hfinal, hchecks⟩ := run_balances hrun
    exact ⟨nodup_checkedAccounts c.checks, hbefore, hclosing, hafter, hfinal, hchecks,
      fun i check result => lacksBalance_of_run hrun⟩

end RunConfig

/-! ## A run that loses sight of an account -/

/-- A ledger that gives the balances of all accounts, but that of one of them only once. -/
def Ledger.losing : Ledger Bool where
  submit _ _ lost := (.pure 0 (.error (.transport "refused")), lost)
  sequenceNumber _ _ lost := (.ok 0, lost)
  balance _ a lost :=
    if a = 7 then (if lost then .error (.transport "unknown account") else .ok 0, true)
    else (.ok 0, lost)
  height _ lost := (.ok 0, lost)
  block _ _ lost := (.ok none, lost)
  receipt _ _ lost := (.pure 0 (.ok none), lost)

/-- A run that waits for a second and then checks one account, and two others. -/
def RunConfig.ofTwoChecks : RunConfig :=
  { senders := [1], strategy := .saturation { initialFill := 0 }, target := 1
    duration := some (seconds 1), poll := { timeout := 0 }
    checks := [.positive "gain" 7, .ratio "split" 8 9 2.0] }

theorem RunConfig.closingReads_losing :
    (ofTwoChecks.closingReads .losing 0 .never false).1.map (fun r => (r.account, r.snapshot?)) =
      [(7, none), (8, some ⟨8, 0⟩), (9, some ⟨9, 0⟩)] := by
  decide +kernel

theorem RunConfig.run_losing : ∃ report, (ofTwoChecks.run .losing 0 .never false).1 = .ok report := by
  have hready : (ofTwoChecks.prepare .losing 0 false).1.isOk = true := by decide +kernel
  cases hprepared : ofTwoChecks.prepare .losing 0 false with
  | mk result s' =>
    rw [hprepared] at hready
    cases result with
    | error e => nomatch hready
    | ok f => exact run_of_prepared hprepared

/-- The second check gives the same result by itself, and whatever else is known of the balances. In the
run the first account is lost, and only the first check fails for it. -/
theorem RunConfig.checks_isolated_losing :
    (∃ result, (verify ofTwoChecks.checks [⟨8, 5⟩, ⟨7, 1⟩, ⟨8, 0⟩, ⟨9, 0⟩] [⟨9, 1⟩, ⟨8, 2⟩])[1]? =
        some result ∧
      (verify [.ratio "split" 8 9 2.0] [⟨9, 0⟩, ⟨8, 0⟩] [⟨8, 2⟩, ⟨9, 1⟩])[0]? = some result) ∧
    lastSnapshot? [⟨8, 5⟩, ⟨7, 1⟩, ⟨8, 0⟩, ⟨9, 0⟩] 8 = lastSnapshot? [⟨7, 1⟩, ⟨8, 0⟩, ⟨9, 0⟩] 8 ∧
    ∃ report first second, (ofTwoChecks.run .losing 0 .never false).1 = .ok report ∧
      report.checks = [first, second] ∧ first.LacksBalance ∧ ¬second.LacksBalance := by
  obtain ⟨-, hsame, hinsert, hrun⟩ := checks_isolated
  refine ⟨hsame ofTwoChecks.checks [.ratio "split" 8 9 2.0] 1 0 (.ratio "split" 8 9 2.0) _ _ _ _ rfl rfl
    fun a ha => ?_, hinsert 8 ⟨8, 5⟩ [] [⟨7, 1⟩, ⟨8, 0⟩, ⟨9, 0⟩] (fun _ => by decide), ?_⟩
  · have hnamed : a = 8 ∨ a = 9 := by simpa [Check.accounts, Check.ratio] using ha
    rcases hnamed with rfl | rfl <;> decide
  obtain ⟨report, hreport⟩ := run_losing
  obtain ⟨-, -, -, -, -, hchecks, hlacks⟩ := hrun ofTwoChecks .losing 0 .never false report _ _
    (Prod.ext hreport rfl)
  have hresults : report.checks =
      [(Check.positive "gain" 7).evaluate report.balancesBefore report.balancesAfter,
        (Check.ratio "split" 8 9 2.0).evaluate report.balancesBefore report.balancesAfter] := hchecks
  have hfirst := hlacks 0 (.positive "gain" 7) _ rfl (by rw [hresults, List.getElem?_cons_zero])
  have hsecond := hlacks 1 (.ratio "split" 8 9 2.0) _ rfl
    (by rw [hresults, List.getElem?_cons_succ, List.getElem?_cons_zero])
  refine ⟨report, _, _, hreport, hresults, hfirst.mpr ?_, mt hsecond.mp ?_⟩
  · have hlost : ((7 : Address), (none : Option Snapshot)) ∈
        (ofTwoChecks.closingReads .losing 0 .never false).1.map fun r => (r.account, r.snapshot?) := by
      rw [closingReads_losing]
      exact List.mem_cons_self
    obtain ⟨r, hr, hread⟩ := List.mem_map.mp hlost
    obtain ⟨haccount, hnone⟩ := Prod.mk.inj hread
    exact ⟨r, hr, by rw [haccount]; exact List.mem_cons_self, BalanceRead.snapshot?_eq_none.mp hnone⟩
  · rintro ⟨r, hr, hnamed, hfailed⟩
    have hread := List.mem_map_of_mem (f := fun r : BalanceRead => (r.account, r.snapshot?)) hr
    rw [closingReads_losing, BalanceRead.snapshot?_eq_none.mpr hfailed] at hread
    have hlost : r.account = 7 := by simpa using hread
    rw [hlost] at hnamed
    simp [Check.accounts, Check.ratio] at hnamed

end Throughput
