import Throughput.Proofs.Estimate.Calls

/-!
# Counting the content of blocks

An estimator that reads the new blocks counts each of them once, whatever fails meanwhile. A call that
fails after some of its blocks have been read counts none of them, and the next one reads them again.
-/

namespace Throughput

variable {σ : Type}

namespace Follows

variable {memory : CountedHeight} {vs : List Visited}

/-- Between heights that do not fall the blocks are counted once each, in their order. -/
theorem contents_eq (h : Follows .blockContent memory vs) {baseline last : UInt64}
    (hsorted : (memory.toList ++ heightsOf vs).Pairwise (· ≤ ·))
    (hbaseline : (memory.toList ++ heightsOf vs).head? = some baseline)
    (hlast : (memory.toList ++ heightsOf vs).getLast? = some last) :
    (contentsOf vs).map (·.1.toNat) =
      List.range' (baseline.toNat + 1) (last.toNat - baseline.toNat) := by
  induction h generalizing baseline with
  | @nil memory =>
    cases memory with
    | none => nomatch hbaseline
    | some l =>
      obtain rfl : l = baseline := Option.some.inj hbaseline
      obtain rfl : l = last := Option.some.inj hlast
      rw [Nat.sub_self]
      rfl
  | fails hanswer hbefore hafter rest ih =>
    obtain ⟨hheights, hcontents, -⟩ := lists_of_error hanswer _
    rw [hheights] at hsorted hbaseline hlast
    rw [hcontents]
    exact ih hsorted hbaseline hlast
  | @counts memory v height count vs hanswer hheight hbefore hafter hcounts rest ih =>
    obtain ⟨hheights, hcontents, -⟩ := lists_of_ok hanswer hheight vs
    rw [hheights] at hsorted hbaseline hlast
    rw [hcontents, List.map_append, hcounts.1]
    cases memory with
    | none =>
      obtain rfl := Option.some.inj hbaseline
      exact ih hsorted rfl hlast
    | some l =>
      obtain rfl : l = baseline := Option.some.inj hbaseline
      obtain ⟨hleast, hlater⟩ := List.pairwise_cons.mp hsorted
      have hfrom := UInt64.le_iff_toNat_le.mp (hleast height List.mem_cons_self)
      have hup : height.toNat ≤ last.toNat := by
        have hmem : last ∈ height :: heightsOf vs := List.mem_of_getLast? hlast
        rcases List.mem_cons.mp hmem with rfl | hmem
        · exact Nat.le_refl _
        · exact UInt64.le_iff_toNat_le.mp ((List.pairwise_cons.mp hlater).1 last hmem)
      have hnext : height.toNat + 1 = l.toNat + 1 + (height.toNat - l.toNat) := by omega
      have hall : last.toNat - l.toNat =
          (height.toNat - l.toNat) + (last.toNat - height.toNat) := by omega
      rw [ih hlater rfl hlast, hnext, hall]
      exact List.range'_append_1

/-- Sums that do not overflow are exact. -/
theorem sum_results (h : Follows .blockContent memory vs)
    (hsmall : ((contentsOf vs).map (·.2)).sum < 2 ^ 64) :
    (resultsOf vs).sum = ((contentsOf vs).map (·.2)).sum := by
  induction h with
  | nil => rfl
  | fails hanswer hbefore hafter rest ih =>
    obtain ⟨-, hcontents, hresults⟩ := lists_of_error hanswer _
    rw [hcontents] at hsmall ⊢
    rw [hresults]
    exact ih hsmall
  | counts hanswer hheight hbefore hafter hcounts rest ih =>
    obtain ⟨-, hcontents, hresults⟩ := lists_of_ok hanswer hheight _
    rw [hcontents, List.map_append, List.sum_append] at hsmall ⊢
    rw [hresults, List.sum_cons, hcounts.2, ih (by omega), Nat.mod_eq_of_lt (by omega)]

end Follows

/-- However calls of an estimator by content fail, each block after the first height that is read, up to
the last one, is counted by one successful call and not by another, where the heights do not fall. So
their answers add up to the transactions of these blocks. A call that fails changes nothing, and the
first one that succeeds answers nothing and sets the height to count from. Unless a height is the last
that a word can tell, the first block that is asked for is the one after the height counted up to. -/
theorem RefillEstimate.content_counts_once (ledger : Ledger σ) (first : Visit σ)
    (later : List (Visit σ)) (s : σ) :
    let vs := blockContent.calls ledger first later s
    (∀ v ∈ vs, ∀ e, v.answer = .error e → v.after = v.before) ∧
    (∀ v, vs.find? (·.answer.isOk) = some v → v.answer = .ok 0 ∧ ∃ baseline,
      v.after = some baseline ∧ (heightsOf vs).head? = some baseline) ∧
    ((heightsOf vs).Pairwise (· ≤ ·) → ∀ baseline last, (heightsOf vs).head? = some baseline →
      (heightsOf vs).getLast? = some last →
      (contentsOf vs).map (·.1.toNat) =
        List.range' (baseline.toNat + 1) (last.toNat - baseline.toNat) ∧
      (((contentsOf vs).map (·.2)).sum < 2 ^ 64 →
        (resultsOf vs).sum = ((contentsOf vs).map (·.2)).sum)) ∧
    ((∀ height ∈ heightsOf vs, height.toNat + 1 < 2 ^ 64) →
      ∀ v ∈ vs, ∀ counted, v.before = some counted → (counted + 1).toNat = counted.toNat + 1) := by
  intro vs
  have hvs : Follows .blockContent none vs := follows_calls ..
  refine ⟨hvs.after_of_error, fun v => hvs.first_of_none,
    fun hsorted baseline last hbaseline hlast =>
      ⟨hvs.contents_eq hsorted hbaseline hlast, hvs.sum_results⟩,
    fun hbelow v hv counted hcounted => ?_⟩
  have hnext := hbelow counted (hvs.mem_of_before v hv counted hcounted)
  rw [UInt64.toNat_add, UInt64.toNat_one, Nat.mod_eq_of_lt hnext]

/-- A ledger that answers from a list of heights and a list of blocks. -/
def Ledger.ofLists : Ledger (List UInt64 × List (Answer (Option Block))) where
  submit _ _ s := (.pure 0 (.error (.transport "closed")), s)
  sequenceNumber _ _ s := (.ok 0, s)
  balance _ _ s := (.ok 0, s)
  height _ s := (.ok (s.1.headD 0), (s.1.tail, s.2))
  block _ _ s := (s.2.headD (.ok none), (s.1, s.2.tail))
  receipt _ _ s := (.pure 0 (.ok none), s)

/-- A block with a number of transactions. -/
def Block.ofTransactions (transactions : UInt64) : Block := ⟨0, 0, transactions, 0, 0⟩

/-- An estimator is primed at height 3. The second of three new blocks fails at first, and is missing
when it is asked for again, so the call after the failure counts all three of them. -/
theorem RefillEstimate.content_counts_once_again :
    let vs := blockContent.calls Ledger.ofLists ⟨0, id⟩ [⟨1, id⟩, ⟨2, id⟩, ⟨3, id⟩]
      ([3, 6, 6, 7], [.ok (some (.ofTransactions 100)), .error (.transport "reset"),
        .ok (some (.ofTransactions 100)), .ok none, .ok (some (.ofTransactions 11)),
        .ok (some (.ofTransactions 1))])
    (contentsOf vs).map (·.1.toNat) = [4, 5, 6, 7] ∧ (resultsOf vs).sum = 100 + 0 + 11 + 1 := by
  intro vs
  obtain ⟨-, -, honce, -⟩ := content_counts_once Ledger.ofLists ⟨0, id⟩ [⟨1, id⟩, ⟨2, id⟩, ⟨3, id⟩]
    ([3, 6, 6, 7], [.ok (some (.ofTransactions 100)), .error (.transport "reset"),
      .ok (some (.ofTransactions 100)), .ok none, .ok (some (.ofTransactions 11)),
      .ok (some (.ofTransactions 1))])
  obtain ⟨hblocks, hsum⟩ := honce (by decide) 3 7 rfl rfl
  exact ⟨hblocks, hsum (by decide)⟩

end Throughput
