import Throughput.Proofs.Number.Grid

/-!
# Rounding to binary64

The arithmetic of binary64 works with a mantissa and two bits, which compare what is missing with half a
unit. That is enough to round the exact result as it should be, whether the mantissa is exact or a
quotient that was cut off.
-/

namespace Throughput

open Float.Model Float.Model.UnpackedFloat

/-! ## Rounding a mantissa -/

/-- Is this the number that a mantissa and the two bits beside it tell of? The round bit is a half, and
the sticky bit something less. -/
def Tells (em : ExtendedMantissa) (x : ℚ) : Prop :=
  match em with
  | ⟨m, false, false⟩ => x = m
  | ⟨m, false, true⟩ => m < x ∧ x < m + 1 / 2
  | ⟨m, true, false⟩ => x = m + 1 / 2
  | ⟨m, true, true⟩ => m + 1 / 2 < x ∧ x < m + 1

namespace Tells

variable {em : ExtendedMantissa} {x : ℚ}

theorem exact (m : Nat) : Tells (ExtendedMantissa.ofMantissaAndAccuracy m .exact) m := rfl

/-- The mantissa is what is left of the number without its fraction. -/
theorem floor (h : Tells em x) : em.mantissa ≤ x ∧ x < em.mantissa + 1 := by
  obtain ⟨m, round, sticky⟩ := em
  cases round <;> cases sticky <;> simp only [Tells] at h ⊢ <;> constructor <;> linarith

/-- The bit that goes out of the mantissa is the new round bit, and the sticky bit keeps the others. -/
theorem shiftRightOne (h : Tells em x) : Tells em.shiftRightOne (x / 2) := by
  obtain ⟨m, round, sticky⟩ := em
  have hsplit : (m : ℚ) = 2 * (m / 2 : Nat) + (m % 2 : Nat) := by
    exact_mod_cast (Nat.div_add_mod m 2).symm
  rcases Nat.mod_two_eq_zero_or_one m with hbit | hbit <;> rw [hbit] at hsplit <;>
    cases round <;> cases sticky <;>
    simp only [Tells, ExtendedMantissa.shiftRightOne, hbit, bne_self_eq_false, Nat.reduceBNe,
      Bool.or_false, Bool.or_true] at h ⊢ <;>
    push_cast at hsplit
  all_goals first | linarith | constructor <;> linarith

theorem shift (h : Tells em x) (n : Nat) : Tells (em >>> n) (x / 2 ^ n) := by
  induction n with
  | zero =>
    rw [pow_zero, div_one]
    exact h
  | succ n ih =>
    rw [pow_succ, ← div_div]
    exact ih.shiftRightOne

/-- Rounding moves a number by half a unit at most. -/
theorem half (h : Tells em x) : |x - em.roundedMantissa| ≤ 1 / 2 := by
  obtain ⟨m, round, sticky⟩ := em
  rw [abs_le]
  cases round <;> cases sticky <;>
    simp only [Tells, ExtendedMantissa.roundedMantissa, ExtendedMantissa.accuracy,
      Accuracy.roundToNearestEven] at h ⊢
  · constructor <;> linarith
  · constructor <;> linarith
  · rcases Nat.mod_two_eq_zero_or_one m with hbit | hbit <;> rw [hbit] <;> push_cast <;>
      constructor <;> linarith
  · push_cast
    constructor <;> linarith

/-- Where it moves it by half a unit it makes it even. -/
theorem even (h : Tells em x) (hhalf : |x - em.roundedMantissa| = 1 / 2) :
    em.roundedMantissa % 2 = 0 := by
  obtain ⟨m, round, sticky⟩ := em
  cases round <;> cases sticky <;>
    simp only [Tells, ExtendedMantissa.roundedMantissa, ExtendedMantissa.accuracy,
      Accuracy.roundToNearestEven] at h hhalf ⊢
  · rw [h, sub_self, abs_zero] at hhalf
    norm_num at hhalf
  · rw [abs_of_pos (by linarith)] at hhalf
    linarith
  · omega
  · push_cast at hhalf
    rw [abs_of_neg (by linarith)] at hhalf
    linarith

end Tells

@[simp]
theorem mantissa_ofMantissaAndAccuracy (m : Nat) (accuracy : Accuracy) :
    (ExtendedMantissa.ofMantissaAndAccuracy m accuracy).mantissa = m := by
  match accuracy with
  | .exact | .inexact .lt | .inexact .eq | .inexact .gt => rfl

theorem mantissa_shift (em : ExtendedMantissa) (shift : Nat) :
    (em >>> shift).mantissa = em.mantissa / 2 ^ shift := by
  induction shift with
  | zero => exact (Nat.div_one _).symm
  | succ shift ih =>
    have hstep : (em >>> (shift + 1)).mantissa = (em >>> shift).mantissa / 2 := rfl
    rw [hstep, ih, Nat.div_div_eq_div_mul, ← Nat.pow_succ]

/-- Rounding takes no digit away, and adds one only by reaching a power of two. -/
theorem roundedMantissa_bounds (em : ExtendedMantissa) :
    em.mantissa ≤ em.roundedMantissa ∧ em.roundedMantissa ≤ em.mantissa + 1 := by
  obtain ⟨m, round, sticky⟩ := em
  cases round <;> cases sticky <;>
    simp only [ExtendedMantissa.roundedMantissa, ExtendedMantissa.accuracy,
      Accuracy.roundToNearestEven] <;> omega

/-! ## Rounding a number -/

/-- A number with a sign and a magnitude. -/
def signed (sign : Sign) (mantissa : Nat) (exponent : Int) : UnpackedFloat :=
  if h : mantissa = 0 then .zero sign
  else .finite sign mantissa exponent (Nat.pos_of_ne_zero h)

theorem signed_zero (sign : Sign) (e : Int) : signed sign 0 e = .zero sign := rfl

theorem signed_of_pos {sign : Sign} {m : Nat} {e : Int} (h : 0 < m) :
    signed sign m e = .finite sign m e h := dif_neg h.ne'

theorem signed_cases (sign : Sign) (m : Nat) (e : Int) :
    m = 0 ∧ signed sign m e = .zero sign ∨ ∃ h, signed sign m e = .finite sign m e h := by
  rcases Nat.eq_zero_or_pos m with rfl | hm
  · exact .inl ⟨rfl, rfl⟩
  · exact .inr ⟨hm, signed_of_pos hm⟩

/-- The exponent of the unit in which a magnitude is rounded. -/
theorem targetExponent_totalExponent (m : Nat) (e : Int) :
    Format.binary64.targetExponent (totalExponent m e) = max (m.log2 + e - 52) (-1074) := by
  change max (totalExponent m e - 53) (-1074) = _
  rw [totalExponent]
  congr 1
  ring

/-- The first shift brings a mantissa to the unit in which it is rounded. -/
theorem shiftToTargetExponent_first {m shift : Nat} {e : Int} (accuracy : Accuracy)
    (h : max ((m.log2 : Int) + e - 52) (-1074) - e = shift) :
    shiftToTargetExponent Format.binary64 m e accuracy =
      (ExtendedMantissa.ofMantissaAndAccuracy m accuracy >>> shift, e + shift) := by
  unfold shiftToTargetExponent shiftToExponent
  rw [targetExponent_totalExponent]
  dsimp only
  rw [h]
  rfl

/-- A mantissa that fits needs no second shift, and one that has grown to a power of two fits after
one. -/
theorem shiftToTargetExponent_fits {r : Nat} {t : Int} (hr : r ≤ 2 ^ 53) (ht : -1074 ≤ t)
    (hnormal : t = -1074 ∨ 2 ^ 52 ≤ r) :
    let shifted := shiftToTargetExponent Format.binary64 r t .exact
    Canonical shifted.1.mantissa shifted.2 ∧
      magnitudeOf shifted.1.mantissa shifted.2 = magnitudeOf r t ∧
      (r % 2 = 0 → shifted.1.mantissa % 2 = 0) := by
  unfold shiftToTargetExponent
  rw [targetExponent_totalExponent]
  unfold shiftToExponent
  dsimp only
  rw [mantissa_shift, mantissa_ofMantissaAndAccuracy]
  rcases Nat.lt_or_eq_of_le hr with hlt | rfl
  · have hlog : r.log2 ≤ 52 := by
      rcases Nat.eq_zero_or_pos r with rfl | hpos
      · decide
      · exact Nat.lt_succ_iff.mp ((Nat.log2_lt hpos.ne').mpr hlt)
    have hnone : (max ((r.log2 : Int) + t - 52) (-1074) - t).toNat = 0 := by omega
    rw [hnone]
    simp only [Nat.pow_zero, Nat.div_one, Int.natCast_zero, Int.add_zero]
    exact ⟨⟨ht, hlt, hnormal⟩, trivial, id⟩
  · have hone : (max (((2 ^ 53 : Nat).log2 : Int) + t - 52) (-1074) - t).toNat = 1 := by
      rw [Nat.log2_two_pow]
      omega
    rw [hone]
    refine ⟨⟨by omega, by norm_num, .inr (by norm_num)⟩, ?_, fun _ => by norm_num⟩
    rw [← magnitudeOf_mul_two_pow (2 ^ 53 / 2 ^ 1) (t + (1 : Nat)) 1, add_sub_cancel_right]
    rfl

/-- Rounding without more digits gives the number that a magnitude is rounded to, if the mantissa has
digits enough, or all that the format has room for. -/
theorem roundWithAccuracy_rounded (sign : Sign) {m : Nat} {e : Int} {accuracy : Accuracy} {x : ℚ}
    (htells : Tells (ExtendedMantissa.ofMantissaAndAccuracy m accuracy) x)
    (he : e ≤ max ((m.log2 : Int) + e - 52) (-1074)) : ∃ m' e', Rounded (x * 2 ^ e) m' e' ∧
      roundWithAccuracy Format.binary64 sign m e accuracy = signed sign m' e' := by
  obtain ⟨shift, hshift⟩ := Int.eq_ofNat_of_zero_le (sub_nonneg.mpr he)
  have hpos : (0 : ℚ) < 2 ^ shift := by positivity
  have ht : -1074 ≤ e + shift := by omega
  have hdigits : e + shift = -1074 ∨ 2 ^ 52 * 2 ^ shift ≤ m := by
    rcases eq_or_ne (e + shift) (-1074) with hleast | hmore
    · exact .inl hleast
    · right
      have hlog : m.log2 = 52 + shift := by omega
      have hm : m ≠ 0 := by
        rintro rfl
        have : (0 : Nat).log2 = 0 := by decide
        omega
      rw [← Nat.pow_add, ← hlog]
      exact Nat.log2_self_le hm
  have htells' := htells.shift shift
  obtain ⟨hlow, hhigh⟩ := roundedMantissa_bounds
    (ExtendedMantissa.ofMantissaAndAccuracy m accuracy >>> shift)
  rw [mantissa_shift, mantissa_ofMantissaAndAccuracy] at hlow hhigh
  have hr : (ExtendedMantissa.ofMantissaAndAccuracy m accuracy >>> shift).roundedMantissa ≤ 2 ^ 53 := by
    have hless : m / 2 ^ shift < 2 ^ 53 := by
      rw [Nat.div_lt_iff_lt_mul (Nat.two_pow_pos shift), ← Nat.pow_add]
      rcases Nat.eq_zero_or_pos m with rfl | hm
      · exact Nat.two_pow_pos _
      · exact (Nat.log2_lt hm.ne').mp (by omega)
    omega
  have hfull := hdigits.imp id fun hle => (Nat.le_div_iff_mul_le (Nat.two_pow_pos shift)).mpr hle
  have hscale : x * 2 ^ e = x / 2 ^ shift * 2 ^ (e + shift) := by
    rw [zpow_add₀ two_ne_zero, zpow_natCast, div_mul_eq_mul_div, eq_div_iff hpos.ne']
    ring
  have hx : e + shift = -1074 ∨ 2 ^ 52 ≤ x / 2 ^ shift := hfull.imp id fun hle => by
    have hfloor := htells'.floor.1
    rw [mantissa_shift, mantissa_ofMantissaAndAccuracy] at hfloor
    exact le_trans (by exact_mod_cast hle) hfloor
  have hnearest := nearest_of_half htells'.half hr ht hx
  obtain ⟨hcanonical, hsame, heven⟩ :=
    shiftToTargetExponent_fits hr ht (hfull.imp id fun hle => hle.trans hlow)
  rw [← hscale, ← hsame] at hnearest
  refine ⟨_, _, ⟨hcanonical, hnearest, fun g hg hne => heven (htells'.even ?_)⟩, ?_⟩
  · rw [hscale] at hg
    rw [hsame] at hne
    exact half_of_nearest htells'.half hr ht hx hg hne
  · unfold roundWithAccuracy
    rw [shiftToTargetExponent_first accuracy hshift]
    rfl

theorem log2_shiftLeft {m : Nat} (hm : 0 < m) (shift : Nat) :
    (m <<< shift).log2 = m.log2 + shift := by
  induction shift with
  | zero => rfl
  | succ shift ih =>
    have hpos : m <<< shift ≠ 0 := by
      rw [Nat.shiftLeft_eq]
      positivity
    rw [Nat.shiftLeft_succ, Nat.log2_two_mul hpos, ih, Nat.add_assoc]

/-- Rounding gives the number that a magnitude is rounded to. -/
theorem round_rounded (sign : Sign) {m : Nat} (e : Int) (hm : 0 < m) : ∃ m' e',
    Rounded (magnitudeOf m e) m' e' ∧
      UnpackedFloat.round Format.binary64 sign m e = signed sign m' e' := by
  unfold UnpackedFloat.round decreaseExponent
  rw [targetExponent_totalExponent]
  dsimp only
  generalize hshift : (e - max ((m.log2 : Int) + e - 52) (-1074)).toNat = shift
  have hpos : 0 < m <<< shift := by
    rw [Nat.shiftLeft_eq]
    positivity
  rw [← magnitudeOf_mul_two_pow m e shift, ← Nat.shiftLeft_eq]
  refine roundWithAccuracy_rounded sign (.exact (m <<< shift)) ?_
  rw [log2_shiftLeft hm]
  omega

end Throughput
