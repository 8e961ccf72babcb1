import Throughput.Proofs.Number.Quotient

/-!
# Numbers written in decimal

A whole number times a power of ten is rounded once. Small powers of ten are taken from a table and are
exact; larger ones are whole numbers with as many digits as they need.
-/

namespace Throughput

open Float.Model Float.Model.UnpackedFloat

/-- What is read off the bits of a number is what it shows. -/
theorem shows_of_ofFloat {x : Float} {m : Nat} {e : Int}
    (h : Binary64.ofFloat x = .finite false m e) : Shows x (magnitudeOf m e) := by
  have hstorable := storable_unpacked x
  have hread : Binary64.ofUnpacked (unpacked x) = .finite false m e :=
    (Binary64.ofFloat_eq x).symm.trans h
  match hx : unpacked x with
  | .notANumber | .infinity _ | .zero .negative | .finite .negative .. =>
    rw [hx] at hread
    nomatch hread
  | .zero .positive =>
    rw [hx] at hread
    obtain ⟨-, rfl, -⟩ := Binary64.finite.inj hread
    rw [magnitudeOf_zero]
    exact shows_zero hx
  | .finite .positive n k hn =>
    rw [hx] at hread hstorable
    obtain ⟨-, rfl, rfl⟩ := Binary64.finite.inj hread
    exact ⟨n, k, hstorable.1, by rw [hx, signed_of_pos hn], rfl⟩

/-! ## Powers of ten -/

/-- Is the exact value this whole number? -/
def Binary64.isWhole (n : Nat) : Binary64 → Bool
  | .finite false m e => (magnitude m e).1 == n * (magnitude m e).2
  | _ => false

theorem shows_of_isWhole {x : Float} {n : Nat} (h : (Binary64.ofFloat x).isWhole n) : Shows x n := by
  match hx : Binary64.ofFloat x with
  | .notANumber | .infinite _ | .finite true .. =>
    rw [hx] at h
    nomatch h
  | .finite false m e =>
    rw [hx] at h
    have hproduct : (Binary64.magnitude m e).1 = n * (Binary64.magnitude m e).2 := eq_of_beq h
    obtain ⟨hden, hvalue⟩ := magnitude_eq m e
    have hden : ((Binary64.magnitude m e).2 : ℚ) ≠ 0 := by exact_mod_cast hden.ne'
    rw [hproduct, Nat.cast_mul, mul_div_cancel_right₀ _ hden] at hvalue
    rw [hvalue]
    exact shows_of_ofFloat hx

/-- The powers in the table are exact. -/
theorem isWhole_powerOfTen : ∀ i : Fin Float.exactlyRepresentablePowersOfTen.size,
    (Binary64.ofFloat Float.exactlyRepresentablePowersOfTen[i]).isWhole (10 ^ i.val) := by
  decide +kernel

theorem shows_powerOfTen {n : Nat} (h : n < Float.exactlyRepresentablePowersOfTen.size) :
    Shows Float.exactlyRepresentablePowersOfTen[n] (10 ^ n) := by
  have hpower := shows_of_isWhole (isWhole_powerOfTen ⟨n, h⟩)
  push_cast at hpower
  exact hpower

/-- A whole number times a power of ten, without the table. -/
theorem ofScientific_rounds_slow {m : Nat} {k : Int} (hm : 0 < m) (hk : |k| ≤ 2048) :
    ∃ m' e', Rounded (m * (10 : ℚ) ^ k) m' e' ∧
      UnpackedFloat.ofScientific Format.binary64 m k = signed .positive m' e' := by
  have htop : ¬k > 2 ^ Format.binary64.exponentBits := by
    change ¬k > 2048
    have := le_abs_self k
    omega
  have hbottom : ¬k < -((2 ^ Format.binary64.exponentBits : Int) + m.log2) := by
    change ¬k < -((2048 : Int) + m.log2)
    have := neg_le_abs k
    omega
  unfold UnpackedFloat.ofScientific
  rw [dif_neg hm.ne', if_neg htop, if_neg hbottom]
  by_cases hsign : 0 ≤ k
  · rw [if_pos hsign]
    obtain ⟨n, rfl⟩ := Int.eq_ofNat_of_zero_le hsign
    have hpower : 0 < 10 ^ n := Nat.pow_pos (by decide)
    have hshift : 0 < m <<< Format.binary64.mantissaBits := by
      rw [Nat.shiftLeft_eq]
      positivity
    have hfull : 2 ^ 52 ≤ m <<< Format.binary64.mantissaBits := by
      change 2 ^ 52 ≤ m <<< 53
      rw [Nat.shiftLeft_eq]
      omega
    have hvalue : magnitudeOf (m <<< Format.binary64.mantissaBits) (-(Format.binary64.mantissaBits : Nat)) *
        magnitudeOf (10 ^ n) 0 = m * (10 : ℚ) ^ (n : Int) := by
      have hsame := magnitudeOf_mul_two_pow m 0 Format.binary64.mantissaBits
      rw [zero_sub, ← Nat.shiftLeft_eq, magnitudeOf_whole] at hsame
      rw [hsame, magnitudeOf_whole, zpow_natCast]
      push_cast
      rfl
    rw [← hvalue]
    exact mul_rounded .positive .positive hshift hpower (.inl hfull)
  · rw [if_neg hsign]
    obtain ⟨n, hn⟩ := Int.eq_ofNat_of_zero_le (show 0 ≤ -k by omega)
    have hpower : 0 < 10 ^ (-k).toNat := Nat.pow_pos (by decide)
    have hvalue : magnitudeOf m 0 / magnitudeOf (10 ^ (-k).toNat) 0 = m * (10 : ℚ) ^ k := by
      rw [magnitudeOf_whole, magnitudeOf_whole, hn, Int.toNat_natCast, show k = -(n : Int) by omega,
        zpow_neg, zpow_natCast, div_eq_mul_inv]
      push_cast
      rfl
    rw [← hvalue]
    exact div_rounded .positive .positive hm hpower

/-- A decimal number is rounded once. -/
theorem ofScientific_rounds (m : Nat) (negative : Bool) {n : Nat} (hn : n ≤ 2048) :
    Rounds .positive (Float.ofScientific m negative n)
      (m * (10 : ℚ) ^ (if negative then -(n : Int) else n)) := by
  unfold Float.ofScientific
  split_ifs with hfast hnegative hnegative
  · rw [zpow_neg, zpow_natCast, ← div_eq_mul_inv]
    exact (shows_toFloat hfast.1).div_rounds (shows_powerOfTen (Nat.lt_succ_of_le hfast.2)) (by positivity)
  · rw [zpow_natCast]
    have hone : (1 : ℚ) ≤ 10 ^ n := one_le_pow₀ (by norm_num)
    exact (shows_toFloat hfast.1).mul_rounds (shows_powerOfTen (Nat.lt_succ_of_le hfast.2)) (.inr (by linarith))
  all_goals
    rcases Nat.eq_zero_or_pos m with rfl | hm
    · refine ⟨0, -1074, ?_, rfl⟩
      rw [Nat.cast_zero, zero_mul]
      exact .zero
  · obtain ⟨m', e', hrounded, hread⟩ := ofScientific_rounds_slow (k := -(n : Int)) hm (by
      rw [abs_neg, Nat.abs_cast]
      omega)
    refine ⟨m', e', hrounded, ?_⟩
    rw [← hread, show -(n : Int) = Int.negOfNat n from (Int.negOfNat_eq ..).symm]
    rfl
  · obtain ⟨m', e', hrounded, hread⟩ := ofScientific_rounds_slow (k := (n : Int)) hm (by
      rw [Nat.abs_cast]
      omega)
    refine ⟨m', e', hrounded, ?_⟩
    rw [← hread]
    rfl

/-- A whole number is rounded once. -/
theorem ofNat_rounds (n : Nat) : Rounds .positive (Float.ofNat n) n := by
  have hdecimal := ofScientific_rounds n false (Nat.zero_le 2048)
  rw [if_neg Bool.false_ne_true, Nat.cast_zero, zpow_zero, mul_one] at hdecimal
  exact hdecimal

end Throughput
