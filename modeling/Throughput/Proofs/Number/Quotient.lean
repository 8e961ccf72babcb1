import Throughput.Proofs.Number.Order

/-!
# Quotients and sums of binary64 numbers

A quotient is cut off after digits enough, and what is missing is compared with a half unit. So it is
rounded as the exact quotient is, and a sum as the exact sum.
-/

namespace Throughput

open Float.Model Float.Model.UnpackedFloat

/-! ## Quotients -/

/-- A quotient that is cut off, and how its remainder compares with half the divisor. -/
theorem tells_div (a : Nat) {b : Nat} (hb : 0 < b) : Tells
    (ExtendedMantissa.ofMantissaAndAccuracy (a / b) (accuracyOfFraction (a % b) b)) (a / b : ℚ) := by
  have hpos : (0 : ℚ) < b := by exact_mod_cast hb
  have hsplit : (a : ℚ) = b * (a / b : Nat) + (a % b : Nat) := by
    exact_mod_cast (Nat.div_add_mod a b).symm
  have hless : ((a % b : Nat) : ℚ) < b := by exact_mod_cast Nat.mod_lt a hb
  have hquotient : (a / b : ℚ) = (a / b : Nat) + (a % b : Nat) / b := by
    rw [eq_comm, ← mul_right_inj' hpos.ne', mul_add, mul_div_cancel₀ _ hpos.ne',
      mul_div_cancel₀ _ hpos.ne', ← hsplit]
  rw [hquotient]
  generalize a % b = rest at hless
  unfold accuracyOfFraction
  split_ifs with hnone
  · subst hnone
    simp [Tells, ExtendedMantissa.ofMantissaAndAccuracy]
  · have hrest : (0 : ℚ) < rest := by exact_mod_cast Nat.pos_of_ne_zero hnone
    have hfraction : (0 : ℚ) < rest / b := div_pos hrest hpos
    have hone : (rest / b : ℚ) < 1 := (div_lt_one hpos).mpr hless
    rcases lt_trichotomy (2 * rest) b with hlt | heq | hgt
    · have hhalf : (rest / b : ℚ) < 1 / 2 := by
        rw [div_lt_iff₀ hpos]
        have : (2 * rest : ℚ) < b := by exact_mod_cast hlt
        linarith
      rw [compare_lt_iff_lt.mpr hlt]
      exact ⟨by linarith, by linarith⟩
    · have hhalf : (rest / b : ℚ) = 1 / 2 := by
        rw [div_eq_iff hpos.ne']
        have : (2 * rest : ℚ) = b := by exact_mod_cast heq
        linarith
      rw [compare_eq_iff_eq.mpr heq, hhalf]
      exact rfl
    · have hhalf : (1 / 2 : ℚ) < rest / b := by
        rw [lt_div_iff₀ hpos]
        have : (b : ℚ) < 2 * rest := by exact_mod_cast hgt
        linarith
      rw [compare_gt_iff_gt.mpr hgt]
      exact ⟨by linarith, by linarith⟩

/-- A quotient is rounded once. -/
theorem div_rounded (s s' : Sign) {m n : Nat} {e k : Int} (hm : 0 < m) (hn : 0 < n) :
    ∃ m' e', Rounded (magnitudeOf m e / magnitudeOf n k) m' e' ∧
      UnpackedFloat.div Format.binary64 (.finite s m e hm) (.finite s' n k hn) =
        signed (s / s') m' e' := by
  obtain ⟨t, ht⟩ : ∃ t, t = min (e - k)
      (Format.binary64.targetExponent (totalExponent m e - totalExponent n k)) := ⟨_, rfl⟩
  obtain ⟨shift, hshift⟩ : ∃ shift, shift = (e - k - t).toNat := ⟨_, rfl⟩
  have hunit : e - k = t + shift := by omega
  have hdiv : UnpackedFloat.div Format.binary64 (.finite s m e hm) (.finite s' n k hn) =
      roundWithAccuracy Format.binary64 (s / s') (m <<< shift / n) t
        (accuracyOfFraction (m <<< shift % n) n) := by
    rw [hshift, ht]
    rfl
  have hvalue : magnitudeOf m e / magnitudeOf n k = ((m <<< shift : Nat) / n : ℚ) * 2 ^ t := by
    have hsplit : (2 : ℚ) ^ e = 2 ^ k * (2 ^ t * 2 ^ shift) := by
      rw [← zpow_natCast (2 : ℚ) shift, ← zpow_add₀ two_ne_zero, ← zpow_add₀ two_ne_zero]
      congr 1
      omega
    have hscale : (2 : ℚ) ^ k ≠ 0 := (zpow_pos two_pos k).ne'
    unfold magnitudeOf
    rw [hsplit, Nat.shiftLeft_eq]
    push_cast
    field_simp
  rw [hdiv, hvalue]
  refine roundWithAccuracy_rounded _ (tells_div _ hn) ?_
  -- the quotient has digits enough, unless the unit is the least one
  rcases le_or_gt t (-1074) with hleast | hmore
  · exact le_max_of_le_right hleast
  · have htarget : Format.binary64.targetExponent (totalExponent m e - totalExponent n k) =
        max ((m.log2 : Int) + e - n.log2 - k - 53) (-1074) := by
      change max (totalExponent m e - totalExponent n k - 53) (-1074) = _
      unfold totalExponent
      congr 1
      ring
    rw [htarget] at ht
    have hlog : n.log2 + 53 ≤ m.log2 + shift := by omega
    have hdividend : 2 ^ (n.log2 + 53) ≤ m <<< shift := by
      rw [Nat.shiftLeft_eq]
      calc 2 ^ (n.log2 + 53) ≤ 2 ^ (m.log2 + shift) := Nat.pow_le_pow_right two_pos hlog
        _ = 2 ^ m.log2 * 2 ^ shift := Nat.pow_add ..
        _ ≤ m * 2 ^ shift := Nat.mul_le_mul_right _ (Nat.log2_self_le hm.ne')
    have hfull : 2 ^ 52 ≤ m <<< shift / n := by
      rw [Nat.le_div_iff_mul_le hn]
      calc 2 ^ 52 * n ≤ 2 ^ 52 * 2 ^ (n.log2 + 1) :=
            Nat.mul_le_mul_left _ (Nat.lt_log2_self).le
        _ = 2 ^ (n.log2 + 53) := by rw [← Nat.pow_add]; congr 1; omega
        _ ≤ m <<< shift := hdividend
    have hdigits : 52 ≤ (m <<< shift / n).log2 := (Nat.le_log2 (by omega)).mpr hfull
    exact le_max_of_le_left (by omega)

theorem Shows.div_rounds {x y : Float} {v w : ℚ} (hx : Shows x v) (hy : Shows y w) (hw : 0 < w) :
    Rounds .positive (x / y) (v / w) := by
  obtain ⟨n, k, hn, -, hread', rfl⟩ := hy.unpacked_of_pos hw
  obtain ⟨m, e, -, hread, rfl⟩ := hx
  rcases Nat.eq_zero_or_pos m with rfl | hm
  · rw [magnitudeOf_zero, zero_div]
    refine ⟨0, -1074, .zero, ?_⟩
    rw [unpacked_div, hread, hread', signed_zero]
    rfl
  · rw [signed_of_pos hm] at hread
    obtain ⟨m', e', hrounded, hdiv⟩ := div_rounded .positive .positive (e := e) (k := k) hm hn
    refine ⟨m', e', hrounded, ?_⟩
    rw [unpacked_div, hread, hread', hdiv]
    rfl

/-! ## Sums -/

/-- A sum is exact in the smaller unit of the two numbers, and then rounded. -/
theorem Shows.add_rounds {x y : Float} {v w : ℚ} (hx : Shows x v) (hy : Shows y w) (hv : 0 < v)
    (hw : 0 < w) : Rounds .positive (x + y) (v + w) := by
  obtain ⟨m, e, hm, -, hread, rfl⟩ := hx.unpacked_of_pos hv
  obtain ⟨n, k, hn, -, hread', rfl⟩ := hy.unpacked_of_pos hw
  obtain ⟨a, ha⟩ : ∃ a, a = m <<< (e - min e k).toNat := ⟨_, rfl⟩
  obtain ⟨b, hb⟩ : ∃ b, b = n <<< (k - min e k).toNat := ⟨_, rfl⟩
  have hsum : UnpackedFloat.add Format.binary64 (.finite .positive m e hm) (.finite .positive n k hn) =
      UnpackedFloat.normalize Format.binary64 ((a + b : Nat) : Int) (min e k) .positive := by
    rw [ha, hb]
    rfl
  have hpos : 0 < a + b := by
    rw [ha, Nat.shiftLeft_eq]
    positivity
  have hvalue : magnitudeOf (a + b) (min e k) = magnitudeOf m e + magnitudeOf n k := by
    rw [← magnitudeOf_decrease m (min_le_left e k), ← magnitudeOf_decrease n (min_le_right e k),
      ← ha, ← hb]
    unfold magnitudeOf
    push_cast
    ring
  obtain ⟨m', e', hrounded, hround⟩ := round_rounded .positive (min e k) hpos
  rw [hvalue] at hrounded
  refine ⟨m', e', hrounded, ?_⟩
  rw [unpacked_add, hread, hread', hsum, normalize_of_pos hpos, hround]

/-! ## Comparing results -/

section Compare

variable {x y : Float} {v w g : ℚ}

theorem Shows.lt_infinity (hx : Shows x v) (hy : unpacked y = .infinity .positive) : x < y := by
  obtain ⟨n, k, -, hread, -⟩ := hx
  rw [lt_iff_unpacked, hread, hy]
  rcases signed_cases .positive n k with ⟨-, hsigned⟩ | ⟨_, hsigned⟩ <;> rw [hsigned] <;> rfl

/-- A result is a nearest number, unless the format has no room for that. -/
theorem Rounds.shows_or_infinity (h : Rounds .positive x v) :
    (∃ r, Nearest v r ∧ Shows x r) ∨ unpacked x = .infinity .positive := by
  obtain ⟨m, e, hrounded, hread⟩ := h
  rcases le_or_gt e 971 with hroom | hnone
  · rw [stored_of_storable (storable_signed hrounded.canonical hroom)] at hread
    exact .inl ⟨_, hrounded.nearest, m, e, hrounded.canonical, hread, rfl⟩
  · have hm : 0 < m := by
      have := hrounded.canonical.normal
      omega
    rw [signed_of_pos hm, stored_finite _ _ hrounded.canonical, if_neg (by omega)] at hread
    exact .inr hread

/-- A result is more than a number, if something of the grid is between them. -/
theorem Rounds.lt_of_between (h : Rounds .positive x v) (hy : Shows y w) (hg : OnGrid g) (hlt : w < g)
    (hle : g ≤ v) : y < x := by
  rcases h.shows_or_infinity with ⟨r, hnearest, hshows⟩ | hinfinity
  · exact (hy.lt_iff hshows).mpr (hlt.trans_le (hnearest.le_of_ge hg hle))
  · exact hy.lt_infinity hinfinity

/-- A result that is negative is less than all that is not. -/
theorem Rounds.negative_lt (h : Rounds .negative x v) (hy : Shows y w) (hw : 0 < w) : x < y := by
  obtain ⟨n, k, hn, -, hread', -⟩ := hy.unpacked_of_pos hw
  obtain ⟨m, e, hrounded, hread⟩ := h
  rw [lt_iff_unpacked, hread, hread']
  rcases signed_cases .negative m e with ⟨-, hsigned⟩ | ⟨hm, hsigned⟩
  · rw [hsigned]
    rfl
  · rw [hsigned, stored_finite _ _ hrounded.canonical]
    by_cases hroom : e ≤ 971
    · rw [if_pos hroom]
      rfl
    · rw [if_neg hroom]
      rfl

/-- So is a product with a negative result, also where the result is a zero. -/
theorem Shows.mul_negative_lt {z : Float} (hx : Shows x v) (hhalf : 1 / 2 ≤ v)
    (hy : Rounds .negative y w) (hle : w ≤ largest) (hz : Shows z g) (hg : 0 < g) : x * y < z := by
  obtain ⟨m, e, hm, hcanonical, hread, rfl⟩ := hx.unpacked_of_pos (by linarith)
  obtain ⟨n, k, -, hread'⟩ := hy.exists_signed hle
  rcases Nat.eq_zero_or_pos n with rfl | hn
  · obtain ⟨_, _, _, -, hread'', -⟩ := hz.unpacked_of_pos hg
    have hnothing : UnpackedFloat.mul Format.binary64 (.finite .positive m e hm)
        (signed .negative 0 k) = .zero .negative := by
      rw [signed_zero]
      rfl
    rw [lt_iff_unpacked, unpacked_mul, hread, hread', hread'', hnothing, stored_zero]
    rfl
  · rw [signed_of_pos hn] at hread'
    obtain ⟨m', e', hrounded, hmul⟩ :=
      mul_rounded .positive .negative hm hn (.inl (hcanonical.full_of_half_le hhalf))
    refine Rounds.negative_lt ⟨m', e', hrounded, ?_⟩ hz hg
    rw [unpacked_mul, hread, hread', hmul]
    rfl

theorem Shows.finite (h : Shows x v) : x.isFinite ∧ value x = v := by
  obtain ⟨m, e, -, hread, rfl⟩ := h
  change (unpacked x).isFinite = true ∧ valueOf (unpacked x) = _
  rw [hread]
  rcases signed_cases .positive m e with ⟨rfl, -⟩ | ⟨hm, hsigned⟩
  · rw [signed_zero, magnitudeOf_zero]
    exact ⟨rfl, rfl⟩
  · rw [hsigned]
    exact ⟨rfl, rfl⟩

theorem Shows.le_iff (hx : Shows x v) (hy : Shows y w) : x ≤ y ↔ v ≤ w := by
  obtain ⟨hfinite, rfl⟩ := hx.finite
  obtain ⟨hfinite', rfl⟩ := hy.finite
  exact le_iff_value hfinite hfinite'

/-- Rounding keeps the order, also where a tie goes up in one place and down in another. -/
theorem Rounds.mono (hx : Rounds .positive x v) (hy : Rounds .positive y w) (hle : v ≤ w)
    (hlargest : w ≤ largest) : ∃ r q, r ≤ q ∧ Shows x r ∧ Shows y q := by
  obtain ⟨r, hnearest, hshows⟩ := hx.shows (hle.trans hlargest)
  obtain ⟨q, hnearest', hshows'⟩ := hy.shows hlargest
  rcases hle.eq_or_lt with rfl | hlt
  · obtain ⟨m, e, hcanonical, hread, rfl⟩ := hshows'
    exact ⟨_, _, le_rfl, ⟨m, e, hcanonical, (hx.unpacked_eq hy).trans hread, rfl⟩,
      m, e, hcanonical, hread, rfl⟩
  · exact ⟨r, q, hnearest.mono hnearest' hlt, hshows, hshows'⟩

/-- A finite number that is not negative is a zero, of either sign, or it shows its value. -/
theorem zero_or_shows (hfinite : x.isFinite) (hnonneg : 0 ≤ value x) :
    (value x = 0 ∧ ∃ sign, unpacked x = .zero sign) ∨ 0 < value x ∧ Shows x (value x) := by
  change (unpacked x).isFinite = true at hfinite
  have hstorable := storable_unpacked x
  change 0 ≤ valueOf (unpacked x) at hnonneg
  change (valueOf (unpacked x) = 0 ∧ _) ∨ 0 < valueOf (unpacked x) ∧ Shows x (valueOf (unpacked x))
  match hread : unpacked x with
  | .notANumber | .infinity _ =>
    rw [hread] at hfinite
    nomatch hfinite
  | .zero sign => exact .inl ⟨rfl, sign, rfl⟩
  | .finite .negative m e hm =>
    rw [hread] at hnonneg
    exact absurd (neg_neg_of_pos (magnitudeOf_pos hm e)) (not_lt.mpr hnonneg)
  | .finite .positive m e hm =>
    rw [hread] at hstorable
    refine .inr ⟨magnitudeOf_pos hm e, m, e, hstorable.1, ?_, rfl⟩
    rw [hread, signed_of_pos hm]

theorem shows_value (hfinite : x.isFinite) (hpos : 0 < value x) : Shows x (value x) :=
  ((zero_or_shows hfinite hpos.le).resolve_left fun h => hpos.ne' h.1).2

end Compare

end Throughput
