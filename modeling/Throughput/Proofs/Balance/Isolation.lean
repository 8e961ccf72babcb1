import Throughput.Proofs.Balance.Checks

/-!
# What a check depends on

A check looks at the last snapshots of its own accounts and at nothing else. If one of them is missing
the check fails and says so, and it says so in no other case.
-/

namespace Throughput

/-! ## What a result says -/

/-- The verdict on a ratio has its label, and says that the ratio is out of range or what it is. -/
theorem judgeRatio_cases (label : String) (target tolerance : Float) (x y : Amount) :
    ∃ passed observed, ∃ first ∈ ["delta ", "ratio "], ∃ rest,
      judgeRatio label target tolerance x y = ⟨label, passed, observed, first ++ rest⟩ := by
  cases h : scaledRatio x y with
  | none => exact ⟨false, none, "delta ", by simp, "ratio out of range", judgeRatio_none h ..⟩
  | some scaled =>
    obtain ⟨rest, hjudged⟩ := judgeRatio_some h label target tolerance
    exact ⟨_, _, "ratio ", by simp, rest, hjudged⟩

/-- A result has the name of its check. -/
theorem Check.label_evaluate (check : Check) (before after : List Snapshot) :
    (check.evaluate before after).label = check.label := by
  unfold evaluate
  dsimp only
  split
  · split <;> rfl
  · split
    · rfl
    · rfl
    · split
      · rfl
      · rfl
      · rename_i n d _ _
        obtain ⟨_, _, _, -, _, hverdict⟩ := judgeRatio_cases check.label _ _ n d
        rw [hverdict]

/-! ## The last snapshot of an account -/

/-- The last of the snapshots of an account. -/
def lastSnapshot? (snapshots : List Snapshot) (a : Address) : Option Snapshot :=
  (snapshots.filter (·.account == a)).getLast?

variable {before after before' after' : List Snapshot} {check : Check} {a : Address}

theorem balanceOf?_eq (snapshots : List Snapshot) (a : Address) :
    balanceOf? snapshots a = (lastSnapshot? snapshots a).map (·.amount) := by
  unfold balanceOf? lastSnapshot?
  rw [List.getLast?_filter]

/-- A balance is missing if there is no snapshot of its account. -/
theorem balanceOf?_eq_none {snapshots : List Snapshot} :
    balanceOf? snapshots a = none ↔ a ∉ snapshots.map (·.account) := by
  unfold balanceOf?
  rw [Option.map_eq_none_iff, List.find?_eq_none]
  simp

/-- Snapshots of other accounts, and those that are followed by one of the same account, may be left
out. -/
theorem lastSnapshot?_insert {snapshot : Snapshot} {later : List Snapshot}
    (h : snapshot.account = a → a ∈ later.map (·.account)) (earlier : List Snapshot) :
    lastSnapshot? (earlier ++ snapshot :: later) a = lastSnapshot? (earlier ++ later) a := by
  unfold lastSnapshot?
  by_cases hsame : snapshot.account = a
  · obtain ⟨last, hlast, haccount⟩ := List.mem_map.mp (h hsame)
    have hkept : last ∈ later.filter (·.account == a) :=
      List.mem_filter.mpr ⟨hlast, beq_iff_eq.mpr haccount⟩
    rw [List.filter_append, List.filter_append, List.filter_cons_of_pos (by simpa using hsame),
      List.getLast?_append, List.getLast?_append,
      List.getLast?_cons_of_ne_nil (List.ne_nil_of_mem hkept)]
  · rw [List.filter_append, List.filter_append, List.filter_cons_of_neg (by simpa using hsame)]

/-! ## Checks that see the same -/

theorem delta_congr (hbefore : balanceOf? before a = balanceOf? before' a)
    (hafter : balanceOf? after a = balanceOf? after' a) :
    delta before after a = delta before' after' a := by
  unfold delta
  rw [hbefore, hafter]

/-- A check gives the same result where its accounts have the same balances. -/
theorem Check.evaluate_congr
    (h : ∀ a ∈ check.accounts, balanceOf? before a = balanceOf? before' a ∧
      balanceOf? after a = balanceOf? after' a) :
    check.evaluate before after = check.evaluate before' after' := by
  have hdelta : ∀ a ∈ check.accounts, delta before after a = delta before' after' a :=
    fun a ha => delta_congr (h a ha).1 (h a ha).2
  unfold accounts at hdelta
  unfold evaluate
  cases hexpectation : check.expectation with
  | positive account =>
    rw [hexpectation] at hdelta
    dsimp only
    rw [hdelta account (by simp)]
  | ratio numerator denominator target tolerance =>
    rw [hexpectation] at hdelta
    dsimp only
    rw [hdelta numerator (by simp), hdelta denominator (by simp)]

/-- A check gives the same result where its accounts have the same last snapshots. -/
theorem Check.evaluate_of_lastSnapshot?
    (h : ∀ a ∈ check.accounts, lastSnapshot? before a = lastSnapshot? before' a ∧
      lastSnapshot? after a = lastSnapshot? after' a) :
    check.evaluate before after = check.evaluate before' after' := by
  refine evaluate_congr fun a ha => ?_
  obtain ⟨hbefore, hafter⟩ := h a ha
  simp only [balanceOf?_eq, hbefore, hafter, and_self]

/-! ## Missing balances -/

/-- Has a check failed as a balance is missing? -/
def CheckResult.LacksBalance (r : CheckResult) : Prop :=
  r.passed = false ∧ ∃ a : Address, r.detail = "no starting balance for " ++ a.checksummed ∨
    r.detail = "no final balance for " ++ a.checksummed

/-- All texts on missing balances begin alike, so a text that begins otherwise is on something else. -/
theorem CheckResult.not_lacksBalance {r : CheckResult} (first : String)
    (hdetail : ∃ rest, r.detail = first ++ rest)
    (hfirst : 2 ≤ first.toList.length ∧ first.toList.take 2 ≠ ['n', 'o']) : ¬r.LacksBalance := by
  have hbegin : ∀ {text : String}, 2 ≤ text.toList.length → ∀ more : String,
      (text ++ more).toList.take 2 = text.toList.take 2 := fun h more => by
    rw [String.toList_append, List.take_append_of_le_length h]
  obtain ⟨rest, hdetail⟩ := hdetail
  have hother : r.detail.toList.take 2 ≠ ['n', 'o'] := by
    rw [hdetail, hbegin hfirst.1]
    exact hfirst.2
  rintro ⟨-, a, hmissing | hmissing⟩ <;>
  · rw [hmissing, hbegin (by decide)] at hother
    exact hother rfl

/-- An account whose change is not known lacks one of its balances. -/
theorem delta_error {reason : String} (h : delta before after a = .error reason) (label : String) :
    (balanceOf? before a = none ∨ balanceOf? after a = none) ∧
      CheckResult.LacksBalance ⟨label, false, none, reason⟩ := by
  unfold delta at h
  split at h
  · rename_i hbefore
    exact ⟨.inl hbefore, rfl, a, .inl (Except.error.inj h).symm⟩
  · rename_i hafter
    exact ⟨.inr hafter, rfl, a, .inr (Except.error.inj h).symm⟩
  · nomatch h

/-- An account whose change is known lacks none of its balances. -/
theorem delta_ok {d : BalanceDelta} (h : delta before after a = .ok d) :
    ¬(balanceOf? before a = none ∨ balanceOf? after a = none) := by
  unfold delta at h
  split at h
  · nomatch h
  · nomatch h
  · rename_i hbefore hafter
    rw [hbefore, hafter]
    rintro (hnone | hnone) <;> nomatch hnone

/-- A check fails for a missing balance exactly if one of its own accounts lacks one. -/
theorem Check.lacksBalance_evaluate : (check.evaluate before after).LacksBalance ↔
    ∃ a ∈ check.accounts, balanceOf? before a = none ∨ balanceOf? after a = none := by
  unfold accounts evaluate
  cases check.expectation with
  | positive account =>
    simp only [List.mem_singleton, exists_eq_left]
    cases hdelta : delta before after account with
    | error reason =>
      obtain ⟨hnone, hlacks⟩ := delta_error hdelta check.label
      exact iff_of_true hlacks hnone
    | ok d =>
      exact iff_of_false (CheckResult.not_lacksBalance "delta " ⟨_, rfl⟩ (by decide))
        (delta_ok hdelta)
  | ratio numerator denominator target tolerance =>
    simp only [List.mem_cons, List.not_mem_nil, or_false, exists_eq_or_imp, exists_eq_left]
    cases hnumerator : delta before after numerator with
    | error reason =>
      obtain ⟨hnone, hlacks⟩ := delta_error hnumerator check.label
      exact iff_of_true hlacks (.inl hnone)
    | ok n =>
      cases hdenominator : delta before after denominator with
      | error reason =>
        obtain ⟨hnone, hlacks⟩ := delta_error hdenominator check.label
        exact iff_of_true hlacks (.inr hnone)
      | ok d =>
        refine iff_of_false ?_ (not_or.mpr ⟨delta_ok hnumerator, delta_ok hdenominator⟩)
        dsimp only
        -- a gain of the denominator is asked for first
        cases d.gain with
        | none =>
          exact CheckResult.not_lacksBalance "denominator delta " ⟨_, String.append_assoc ..⟩
            (by decide)
        | some y =>
          cases n.gain with
          | none =>
            exact CheckResult.not_lacksBalance "numerator delta " ⟨_, String.append_assoc ..⟩
              (by decide)
          | some x =>
            obtain ⟨_, _, first, hfirst, rest, hverdict⟩ :=
              judgeRatio_cases check.label target tolerance x y
            dsimp only
            rw [hverdict]
            refine CheckResult.not_lacksBalance first ⟨rest, rfl⟩ ?_
            clear hverdict
            revert first
            decide

end Throughput
