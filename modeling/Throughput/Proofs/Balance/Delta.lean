import Mathlib.Algebra.Group.Int.Defs
import Mathlib.Tactic.ByContra
import Mathlib.Tactic.SplitIfs
import Throughput.Proofs.Balance.Checks

/-!
# Two views of a change

The gain of an account is a difference of unsigned words, and its change is printed as a signed word.
The two say the same just if a signed word has room for the change. Where it has none the printed
change has the opposite sign, and so a check can pass on a loss that it prints, and fail on a gain.
-/

namespace Throughput

namespace BalanceDelta

variable {d : BalanceDelta}

/-- The change as an integer of any size. -/
def change (d : BalanceDelta) : Int := d.after.toNat - d.before.toNat

/-- Has a signed word room for the change? -/
def Fits (d : BalanceDelta) : Prop := -2 ^ 255 ≤ d.change ∧ d.change < 2 ^ 255

theorem abs_change_lt (d : BalanceDelta) : -2 ^ 256 < d.change ∧ d.change < 2 ^ 256 := by
  have hbefore := d.before.isLt
  have hafter := d.after.isLt
  unfold change
  omega

/-! ## The signed view -/

/-- The change goes round the signed words. -/
theorem signed_eq_bmod (d : BalanceDelta) : d.signed = d.change.bmod (2 ^ 256) := by
  unfold signed change
  rw [BitVec.toInt_sub, BitVec.toInt_eq_toNat_bmod, BitVec.toInt_eq_toNat_bmod, Int.bmod_sub_bmod,
    Int.sub_bmod_bmod]

theorem signed_of_fits (h : d.Fits) : d.signed = d.change := by
  obtain ⟨hlow, hhigh⟩ := h
  rw [signed_eq_bmod]
  exact Int.bmod_eq_of_le (by omega) (by omega)

/-- Past the signed words the change comes back at their other end. -/
theorem signed_of_not_fits (h : ¬d.Fits) :
    2 ^ 255 ≤ d.change ∧ d.signed = d.change - 2 ^ 256 ∨
      d.change < -2 ^ 255 ∧ d.signed = d.change + 2 ^ 256 := by
  obtain ⟨hlow, hhigh⟩ := d.abs_change_lt
  have hout : 2 ^ 255 ≤ d.change ∨ d.change < -2 ^ 255 := by
    unfold Fits at h
    omega
  rw [signed_eq_bmod]
  rcases hout with hout | hout
  · refine .inl ⟨hout, (Int.bmod_eq_iff (by decide)).mpr ⟨by omega, by omega, -1, by omega⟩⟩
  · refine .inr ⟨hout, (Int.bmod_eq_iff (by decide)).mpr ⟨by omega, by omega, 1, by omega⟩⟩

theorem signed_eq_change_iff : d.signed = d.change ↔ d.Fits := by
  refine ⟨fun h => ?_, signed_of_fits⟩
  by_contra hout
  rcases signed_of_not_fits hout with ⟨-, hsigned⟩ | ⟨-, hsigned⟩ <;> omega

/-- The sign of the printed change is right just if there is room for it. -/
theorem signed_pos_iff : (0 < d.signed ↔ 0 < d.change) ↔ d.Fits := by
  obtain ⟨hlow, hhigh⟩ := d.abs_change_lt
  refine ⟨fun h => ?_, fun h => by rw [signed_of_fits h]⟩
  by_contra hout
  rcases signed_of_not_fits hout with ⟨hpast, hsigned⟩ | ⟨hpast, hsigned⟩ <;> omega

/-! ## The unsigned view -/

theorem gain_eq_some_iff {g : Amount} :
    d.gain = some g ↔ 0 < d.change ∧ (g.toNat : Int) = d.change := by
  have hword := g.isLt
  have hafter := d.after.isLt
  unfold gain change
  split_ifs with hless
  · have hdifference := BitVec.toNat_sub_of_le (BitVec.le_of_lt hless)
    rw [BitVec.lt_def] at hless
    rw [Option.some_inj, ← BitVec.toNat_inj, hdifference]
    omega
  · rw [BitVec.lt_def] at hless
    exact iff_of_false nofun (by omega)

theorem gain_eq_none_iff : d.gain = none ↔ d.change ≤ 0 := by
  unfold gain change
  split_ifs with hless <;> rw [BitVec.lt_def] at hless
  · exact iff_of_false nofun (by omega)
  · exact iff_of_true rfl (by omega)

theorem isSome_gain_iff : d.gain.isSome ↔ 0 < d.change := by
  rw [Option.isSome_iff_ne_none, ne_eq, gain_eq_none_iff]
  exact Int.not_le

/-- The gain is the printed change where this is positive, just if there is room for the change. -/
theorem gain_iff_signed :
    ((∀ g, d.gain = some g ↔ 0 < d.signed ∧ (g.toNat : Int) = d.signed) ∧
      (d.gain = none ↔ d.signed ≤ 0)) ↔ d.Fits := by
  constructor
  · rintro ⟨-, hnone⟩
    rw [gain_eq_none_iff] at hnone
    exact signed_pos_iff.mp (by omega)
  · intro h
    rw [signed_of_fits h]
    exact ⟨fun g => gain_eq_some_iff, gain_eq_none_iff⟩

end BalanceDelta

/-! ## What a check prints -/

section Printed

variable {check : Check} {before after : List Snapshot} {a b : Address} {target tolerance : Float}
  {d e : BalanceDelta}

theorem Check.evaluate_positive (hpositive : check.expectation = .positive a)
    (ha : delta before after a = .ok d) : check.evaluate before after =
      ⟨check.label, d.gain.isSome, observedChange d.signed, "delta " ++ toString d.signed⟩ := by
  unfold evaluate
  rw [hpositive]
  dsimp only
  rw [ha]

theorem Check.evaluate_denominator (hratio : check.expectation = .ratio a b target tolerance)
    (ha : delta before after a = .ok e) (hb : delta before after b = .ok d) (hgain : d.gain = none) :
    check.evaluate before after = ⟨check.label, false, none,
      "denominator delta " ++ toString d.signed ++ " is not positive"⟩ := by
  unfold evaluate
  rw [hratio]
  dsimp only
  rw [ha, hb]
  dsimp only
  rw [hgain]

theorem Check.evaluate_numerator (hratio : check.expectation = .ratio a b target tolerance)
    (ha : delta before after a = .ok d) (hb : delta before after b = .ok e) {y : Amount}
    (hgain : d.gain = none) (hy : e.gain = some y) :
    check.evaluate before after = ⟨check.label, false, some 0,
      "numerator delta " ++ toString d.signed ++ " is not positive"⟩ := by
  unfold evaluate
  rw [hratio]
  dsimp only
  rw [ha, hb]
  dsimp only
  rw [hgain, hy]

end Printed

/-- The gain is always right: it is there just if the balance has grown, and then it is the difference.
The signed change is the difference just if a signed word has room for it, and only then do the two
agree on whether the account has gained. A check on a gain goes by the first and prints the second, and
a check on a ratio calls the second not positive where the first is not there: what they print agrees
with their verdicts just if there is room. -/
theorem BalanceDelta.views_agree_iff (d : BalanceDelta) :
    (∀ g, d.gain = some g ↔ 0 < d.change ∧ (g.toNat : Int) = d.change) ∧
    (d.gain = none ↔ d.change ≤ 0) ∧
    (d.signed = d.change ↔ d.Fits) ∧
    (((∀ g, d.gain = some g ↔ 0 < d.signed ∧ (g.toNat : Int) = d.signed) ∧
      (d.gain = none ↔ d.signed ≤ 0)) ↔ d.Fits) ∧
    ∀ (check : Check) (before after : List Snapshot) (a : Address),
      delta before after a = .ok d →
      let result := check.evaluate before after
      (check.expectation = .positive a →
        result.detail = "delta " ++ toString d.signed ∧ (result.passed ↔ 0 < d.change) ∧
          ((result.passed ↔ 0 < d.signed) ↔ d.Fits)) ∧
      ∀ (b : Address) (target tolerance : Float) (e : BalanceDelta),
        delta before after b = .ok e → d.change ≤ 0 →
        (check.expectation = .ratio b a target tolerance →
          result.passed = false ∧
            result.detail = "denominator delta " ++ toString d.signed ++ " is not positive" ∧
            (d.signed ≤ 0 ↔ d.Fits)) ∧
        (check.expectation = .ratio a b target tolerance → 0 < e.change →
          result.passed = false ∧
            result.detail = "numerator delta " ++ toString d.signed ++ " is not positive" ∧
            (d.signed ≤ 0 ↔ d.Fits)) := by
  refine ⟨fun g => gain_eq_some_iff, gain_eq_none_iff, signed_eq_change_iff, gain_iff_signed, ?_⟩
  intro check before after a ha result
  constructor
  · intro hpositive
    have hresult : result = _ := Check.evaluate_positive hpositive ha
    have hpassed : result.passed ↔ 0 < d.change := by
      rw [hresult]
      exact isSome_gain_iff
    refine ⟨by rw [hresult], hpassed, ?_⟩
    rw [hpassed, ← signed_pos_iff]
    exact Iff.comm
  · intro b target tolerance e hb hloss
    have hgain : d.gain = none := gain_eq_none_iff.mpr hloss
    have hroom : d.signed ≤ 0 ↔ d.Fits := by
      rw [← signed_pos_iff]
      omega
    constructor
    · intro hratio
      have hresult : result = _ := Check.evaluate_denominator hratio hb ha hgain
      rw [hresult]
      exact ⟨rfl, rfl, hroom⟩
    · intro hratio hother
      obtain ⟨y, hy⟩ := Option.isSome_iff_exists.mp (isSome_gain_iff.mpr hother)
      have hresult : result = _ := Check.evaluate_numerator hratio ha hb hgain hy
      rw [hresult]
      exact ⟨rfl, rfl, hroom⟩

/-- An account that had nothing has all that a word can hold. The check that it gains passes, and what it
prints is a loss of one. -/
theorem BalanceDelta.views_agree_iff_largest :
    let d : BalanceDelta := ⟨0, -1⟩
    let result := (Check.positive "gains" 1).evaluate [⟨1, 0⟩] [⟨1, -1⟩]
    d.gain = some (-1) ∧ d.change = 2 ^ 256 - 1 ∧ d.signed = -1 ∧
      result.passed = true ∧ result.detail = "delta -1" ∧ ¬(result.passed ↔ 0 < d.signed) := by
  intro d result
  obtain ⟨-, -, -, -, hchecks⟩ := views_agree_iff d
  have hsigned : d.signed = -1 := by decide
  have hchange : d.change = 2 ^ 256 - 1 := by decide
  obtain ⟨hpositive, -⟩ := hchecks (.positive "gains" 1) [⟨1, 0⟩] [⟨1, -1⟩] 1 rfl
  obtain ⟨hdetail, hpassed, hagree⟩ := hpositive rfl
  have hroom : ¬d.Fits := fun h => absurd h.2 (by rw [hchange]; decide)
  refine ⟨by decide, hchange, hsigned, hpassed.mpr (by rw [hchange]; decide), ?_, ?_⟩
  · rw [hdetail, hsigned]
    rfl
  · exact fun h => hroom (hagree.mp h)

end Throughput
