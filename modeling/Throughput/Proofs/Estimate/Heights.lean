import Mathlib.Data.List.Chain
import Throughput.Ledger.Scripted
import Throughput.Proofs.Estimate.Calls

/-!
# Paying for heights

An estimator by progress pays for each rise of the height since its last successful call. A height that
has fallen is paid for again when it rises again, so what is paid in all goes with the rises, and these
exceed the way from the first height to the last one by what the height has fallen meanwhile.
-/

namespace Throughput

variable {σ : Type}

/-- Adds up what two heights in succession give. -/
def sumOfSteps (f : Nat → Nat → Nat) : List UInt64 → Nat
  | [] | [_] => 0
  | a :: b :: rest => f a.toNat b.toNat + sumOfSteps f (b :: rest)

/-- How far heights rise in all. -/
def rises (heights : List UInt64) : Nat := sumOfSteps (fun a b => b - a) heights

/-- How far heights fall in all. -/
def falls (heights : List UInt64) : Nat := sumOfSteps (fun a b => a - b) heights

section Steps

variable {heights : List UInt64}

/-- The way up less the way down is the way. -/
theorem add_rises {first last : UInt64} (hfirst : heights.head? = some first)
    (hlast : heights.getLast? = some last) :
    first.toNat + rises heights = last.toNat + falls heights := by
  induction heights generalizing first with
  | nil => nomatch hfirst
  | cons a rest ih =>
    obtain rfl : a = first := Option.some.inj hfirst
    cases rest with
    | nil =>
      obtain rfl : a = last := Option.some.inj hlast
      rfl
    | cons b rest =>
      have hrest := ih rfl hlast
      have hrises : rises (a :: b :: rest) = b.toNat - a.toNat + rises (b :: rest) := rfl
      have hfalls : falls (a :: b :: rest) = a.toNat - b.toNat + falls (b :: rest) := rfl
      omega

theorem falls_of_sorted (h : heights.Pairwise (· ≤ ·)) : falls heights = 0 := by
  induction heights with
  | nil => rfl
  | cons a rest ih =>
    obtain ⟨hleast, hrest⟩ := List.pairwise_cons.mp h
    cases rest with
    | nil => rfl
    | cons b rest =>
      have hle := UInt64.le_iff_toNat_le.mp (hleast b List.mem_cons_self)
      have hfalls : falls (a :: b :: rest) = a.toNat - b.toNat + falls (b :: rest) := rfl
      have hnone := ih hrest
      omega

end Steps

/-- Do no two heights in succession have so many blocks between them that the count is cut? -/
def Uncut (perBlock : UInt64) (heights : List UInt64) : Prop :=
  heights.IsChain fun a b => (b.toNat - a.toNat) * perBlock.toNat ≤ maxCount

namespace Follows

variable {perBlock : UInt64} {memory : CountedHeight} {vs : List Visited}

/-- Each rise is paid for at most once, and just once where no count is cut. -/
theorem sum_results_rises (h : Follows (.blockProgress perBlock) memory vs) :
    (resultsOf vs).sum ≤ perBlock.toNat * rises (memory.toList ++ heightsOf vs) ∧
      (Uncut perBlock (memory.toList ++ heightsOf vs) →
        (resultsOf vs).sum = perBlock.toNat * rises (memory.toList ++ heightsOf vs)) := by
  induction h with
  | @nil memory => cases memory <;> exact ⟨Nat.le_refl _, fun _ => rfl⟩
  | fails hanswer hbefore hafter rest ih =>
    obtain ⟨hheights, -, hresults⟩ := lists_of_error hanswer _
    rw [hheights, hresults]
    exact ih
  | @counts memory v height count vs hanswer hheight hbefore hafter hcounts rest ih =>
    obtain ⟨hheights, -, hresults⟩ := lists_of_ok hanswer hheight vs
    rw [hheights, hresults, List.sum_cons]
    cases memory with
    | none =>
      rw [hcounts.eq_zero, Nat.zero_add]
      exact ih
    | some l =>
      have hrises : rises ((some l).toList ++ height :: heightsOf vs) =
          height.toNat - l.toNat + rises ((some height).toList ++ heightsOf vs) := rfl
      have hcount : count = min ((height.toNat - l.toNat) * perBlock.toNat) maxCount := hcounts
      rw [hrises, Nat.mul_add, Nat.mul_comm perBlock.toNat (height.toNat - l.toNat)]
      refine ⟨Nat.add_le_add (hcount ▸ Nat.min_le_left ..) ih.1, fun huncut => ?_⟩
      obtain ⟨hfirst, hrest⟩ := List.isChain_cons_cons.mp huncut
      rw [ih.2 hrest, hcount, Nat.min_eq_left hfirst]

end Follows

/-- An estimator by progress pays at most for the rises of the heights that it reads, and just for them
where no count is cut. So what it pays in all exceeds the number of blocks from the first height to the
highest one at most by what the height has fallen meanwhile: not at all if it never falls, and, where no
count is cut, just if it falls by no more than the highest one is above the last one. -/
theorem RefillEstimate.progress_pays_rises (perBlock : UInt64) (ledger : Ledger σ) (first : Visit σ)
    (later : List (Visit σ)) (s : σ) :
    let vs := (blockProgress perBlock).calls ledger first later s
    let heights := heightsOf vs
    let paid := (resultsOf vs).sum
    paid ≤ perBlock.toNat * rises heights ∧
    (Uncut perBlock heights → paid = perBlock.toNat * rises heights) ∧
    ∀ baseline last top : UInt64, heights.head? = some baseline → heights.getLast? = some last →
      (∀ height ∈ heights, height ≤ top) →
      baseline.toNat + rises heights = last.toNat + falls heights ∧
      paid ≤ perBlock.toNat * (top.toNat - baseline.toNat + falls heights) ∧
      (heights.Pairwise (· ≤ ·) → paid ≤ perBlock.toNat * (top.toNat - baseline.toNat)) ∧
      (Uncut perBlock heights → 0 < perBlock →
        (paid ≤ perBlock.toNat * (top.toNat - baseline.toNat) ↔
          falls heights ≤ top.toNat - last.toNat)) := by
  intro vs heights paid
  obtain ⟨hpaid, hall⟩ : paid ≤ perBlock.toNat * rises heights ∧
      (Uncut perBlock heights → paid = perBlock.toNat * rises heights) :=
    (follows_calls (blockProgress perBlock) ledger first later s).sum_results_rises
  refine ⟨hpaid, hall, fun baseline last top hbaseline hlast htop => ?_⟩
  have hway := add_rises hbaseline hlast
  have hfirst := UInt64.le_iff_toNat_le.mp (htop baseline (List.mem_of_head? hbaseline))
  have hend := UInt64.le_iff_toNat_le.mp (htop last (List.mem_of_getLast? hlast))
  refine ⟨hway, ?_, fun hsorted => ?_, fun huncut hperBlock => ?_⟩
  · exact hpaid.trans (Nat.mul_le_mul_left _ (by omega))
  · have hnone := falls_of_sorted hsorted
    exact hpaid.trans (Nat.mul_le_mul_left _ (by omega))
  · have hpositive : 0 < perBlock.toNat := UInt64.lt_iff_toNat_lt.mp hperBlock
    rw [hall huncut, Nat.mul_le_mul_left_iff hpositive]
    omega

/-- A ledger whose height falls and rises again. -/
def Scripted.Script.ofFall : Script := { heights := #[.ok 10, .ok 5, .ok 10] }

/-- The five blocks from height 5 to height 10 are paid for, though they are no newer than the first
height. -/
theorem RefillEstimate.progress_pays_rises_again :
    let vs := (blockProgress 1000).calls (.scripted .ofFall) ⟨0, id⟩ [⟨1, id⟩, ⟨2, id⟩] {}
    heightsOf vs = [10, 5, 10] ∧ (resultsOf vs).sum = 1000 * 5 ∧
      ¬ (resultsOf vs).sum ≤ 1000 * (10 - 10) := by
  intro vs
  have hheights : heightsOf vs = [10, 5, 10] := by decide
  have huncut : Uncut 1000 (heightsOf vs) := by
    rw [hheights]
    unfold Uncut
    decide
  have htop : ∀ height ∈ heightsOf vs, height ≤ 10 := by simp [hheights]
  obtain ⟨-, hpaid, hbounds⟩ :=
    progress_pays_rises 1000 (.scripted .ofFall) ⟨0, id⟩ [⟨1, id⟩, ⟨2, id⟩] {}
  obtain ⟨-, -, -, hexact⟩ := hbounds 10 10 10 (congrArg List.head? hheights)
    (congrArg List.getLast? hheights) htop
  refine ⟨hheights, ?_, fun hle => ?_⟩
  · rw [hpaid huncut, hheights]
    rfl
  · have hfalls := (hexact huncut (by decide)).mp hle
    rw [hheights] at hfalls
    exact absurd hfalls (by decide)

end Throughput
