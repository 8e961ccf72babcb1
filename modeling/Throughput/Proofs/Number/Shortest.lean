import Throughput.Number.Decimal
import Throughput.Proofs.Number.Arithmetic

/-!
# The fewest digits of a number

The search for digits takes ever finer grids and stops at the first that has a point within half a gap of
the number. A grid of seventeen digits is finer than those gaps, so the search never fails, and what it
finds is rounded to the number.
-/

namespace Throughput.Decimal

variable {m : Nat} {e k : Int}

/-- What digits and an exponent stand for. -/
def Scaled.value (s : Scaled) : ℚ := s.digits * 10 ^ s.exponent

theorem timesPowerOfTen_spec (num : Nat) {den : Nat} (hden : 0 < den) (k : Int) :
    0 < (timesPowerOfTen num den k).2 ∧
      ((timesPowerOfTen num den k).1 / (timesPowerOfTen num den k).2 : ℚ) = num / den * 10 ^ k := by
  unfold timesPowerOfTen
  split_ifs with hsign
  · obtain ⟨n, rfl⟩ := Int.eq_ofNat_of_zero_le hsign
    refine ⟨hden, ?_⟩
    rw [Int.toNat_natCast, zpow_natCast, ← mul_div_right_comm, Nat.pow_eq]
    push_cast
    rfl
  · obtain ⟨n, hn⟩ := Int.eq_ofNat_of_zero_le (show 0 ≤ -k by omega)
    refine ⟨Nat.mul_pos hden (Nat.pow_pos (by decide)), ?_⟩
    rw [hn, Int.toNat_natCast, show k = -(n : Int) by omega, zpow_neg, zpow_natCast, ← div_eq_mul_inv,
      div_div, Nat.pow_eq]
    push_cast
    rfl

/-! ## What reads back as a number -/

/-- Does a number lie within half a gap of another, or at the ends if those belong to it? -/
def ReadsBack (m : Nat) (e : Int) (v : ℚ) : Prop :=
  let low := magnitudeOf m e - Canonical.gapBelow m e / 2
  let high := magnitudeOf m e + 2 ^ e / 2
  (low ≤ v ∧ v ≤ high) ∧ (m % 2 = 0 ∨ low < v ∧ v < high)

namespace ReadsBack

variable {v : ℚ}

theorem rounded (h : ReadsBack m e v) (hcanonical : Canonical m e) : Rounded v m e :=
  .of_between hcanonical h.1.1 h.1.2 h.2

/-- What reads back is off by a half of the number at most. -/
theorem bounds (h : ReadsBack m e v) (hm : 0 < m) :
    magnitudeOf m e / 2 ≤ v ∧ v ≤ 2 * magnitudeOf m e := by
  have hgap := Canonical.gapBelow_le m e
  have hunit : (2 : ℚ) ^ e ≤ magnitudeOf m e := by
    have hone := magnitudeOf_le_iff (e := e).mpr (Nat.succ_le_of_lt hm)
    rwa [Nat.succ_eq_add_one, zero_add, magnitudeOf, Nat.cast_one, one_mul] at hone
  have hpos : (0 : ℚ) < 2 ^ e := zpow_pos two_pos e
  obtain ⟨⟨hlow, hhigh⟩, -⟩ := h
  constructor <;> linarith

theorem of_strict (hlow : magnitudeOf m e - Canonical.gapBelow m e / 2 < v)
    (hhigh : v < magnitudeOf m e + 2 ^ e / 2) : ReadsBack m e v :=
  ⟨⟨hlow.le, hhigh.le⟩, .inr ⟨hlow, hhigh⟩⟩

end ReadsBack

/-- The interval around a number, as fractions. -/
theorem around_spec (m : Nat) (e : Int) :
    let i := Interval.around m e
    0 < i.den ∧ (i.num / i.den : ℚ) = magnitudeOf m e ∧
      (i.below / i.den : ℚ) = Canonical.gapBelow m e / 2 ∧ (i.above / i.den : ℚ) = 2 ^ e / 2 ∧
      (0 < m → i.below ≤ i.num) ∧ (i.closed ↔ m % 2 = 0) := by
  obtain ⟨hden, hunit⟩ := magnitude_eq 1 (e - 2)
  have hquarter : (2 : ℚ) ^ (e - 2) = 2 ^ e / 4 := by
    rw [zpow_sub₀ two_ne_zero]
    norm_num
  rw [magnitudeOf, Nat.cast_one, one_mul, hquarter] at hunit
  have hnarrow : (2 : ℚ) ^ (e - 1) = 2 ^ e / 2 := by
    rw [two_zpow_eq e]
    ring
  unfold Interval.around Canonical.gapBelow
  generalize Binary64.magnitude 1 (e - 2) = unit at hden hunit
  obtain ⟨unit, den⟩ := unit
  dsimp only at hden hunit ⊢
  have hscale : ∀ n : Nat, ((n * unit : Nat) / den : ℚ) = n * (2 ^ e / 4) := fun n => by
    rw [Nat.cast_mul, mul_div_assoc, hunit]
  refine ⟨hden, ?_, ?_, ?_, fun hm => ?_, decide_eq_true_iff⟩
  · rw [hscale, magnitudeOf]
    push_cast
    ring
  · change ((if m = 2 ^ 52 ∧ -1074 < e then unit else 2 * unit : Nat) / den : ℚ) = _
    split_ifs
    · rw [hunit, hnarrow]
      ring
    · rw [hscale]
      push_cast
      ring
  · rw [hscale]
    push_cast
    ring
  · split_ifs <;> nlinarith

/-- A point is taken if it reads back as the number. -/
theorem contains_around (hm : 0 < m) (point : Nat) :
    (Interval.around m e).contains k point ↔ ReadsBack m e (point * 10 ^ k) := by
  obtain ⟨hden, hnum, hbelow, habove, hle, hclosed⟩ := around_spec m e
  have hbelow_le := hle hm
  obtain ⟨hone, hvalue⟩ := timesPowerOfTen_spec point Nat.one_pos k
  unfold Interval.contains ReadsBack
  generalize Interval.around m e = i at *
  generalize timesPowerOfTen point 1 k = p at *
  obtain ⟨p, one⟩ := p
  dsimp only at *
  have hdenq : (0 : ℚ) < i.den := by exact_mod_cast hden
  have honeq : (0 : ℚ) < one := by exact_mod_cast hone
  rw [Nat.cast_one, div_one] at hvalue
  have hlow : (((i.num - i.below : Nat) : ℚ) / i.den) =
      magnitudeOf m e - Canonical.gapBelow m e / 2 := by
    rw [Nat.cast_sub hbelow_le, sub_div, hnum, hbelow]
  have hhigh : (((i.num + i.above : Nat) : ℚ) / i.den) = magnitudeOf m e + 2 ^ e / 2 := by
    rw [Nat.cast_add, add_div, hnum, habove]
  rw [← hlow, ← hhigh, ← hvalue, div_le_div_iff₀ hdenq honeq, div_le_div_iff₀ honeq hdenq,
    div_lt_div_iff₀ hdenq honeq, div_lt_div_iff₀ honeq hdenq]
  norm_cast
  by_cases hend : m % 2 = 0
  · rw [if_pos (hclosed.mpr hend)]
    simp only [hend, true_or, and_true, decide_eq_true_eq]
  · rw [if_neg (hclosed.not.mpr hend)]
    simp only [hend, false_or, decide_eq_true_eq]
    exact ⟨fun h => ⟨⟨h.1.le, h.2.le⟩, h⟩, And.right⟩

/-! ## Points of a grid -/

theorem contains_of_nearestOn? {i : Interval} {tie : Tie} {point : Nat}
    (h : i.nearestOn? tie k = some point) : i.contains k point := by
  unfold Interval.nearestOn? at h
  generalize timesPowerOfTen i.num i.den (-k) = scaled at h
  obtain ⟨n, d⟩ := scaled
  dsimp only at h
  split at h
  · nomatch h
  · rename_i hlow _
    exact Option.some_inj.mp h ▸ hlow
  · rename_i _ hhigh
    exact Option.some_inj.mp h ▸ hhigh
  · rename_i hlow hhigh
    split_ifs at h
    · exact Option.some_inj.mp h ▸ hlow
    · exact Option.some_inj.mp h ▸ hhigh
    · cases tie with
      | up => exact Option.some_inj.mp h ▸ hhigh
      | even =>
        have heven := Option.some_inj.mp h
        rcases Nat.mod_two_eq_zero_or_one (n / d) with hbit | hbit <;> rw [hbit] at heven
        · exact heven ▸ hlow
        · exact heven ▸ hhigh

/-- A point is found if one of the two next to the number reads back as it. -/
theorem exists_nearestOn? {i : Interval} (tie : Tie) {low : Nat}
    (hlow : low = (timesPowerOfTen i.num i.den (-k)).1 / (timesPowerOfTen i.num i.den (-k)).2)
    (h : i.contains k low ∨ i.contains k (low + 1)) : ∃ point, i.nearestOn? tie k = some point := by
  subst hlow
  unfold Interval.nearestOn?
  generalize timesPowerOfTen i.num i.den (-k) = scaled at h
  obtain ⟨n, d⟩ := scaled
  dsimp only at h ⊢
  split
  · rename_i hlow hhigh
    rw [hlow, hhigh] at h
    simp at h
  · exact ⟨_, rfl⟩
  · exact ⟨_, rfl⟩
  · split_ifs
    · exact ⟨_, rfl⟩
    · exact ⟨_, rfl⟩
    · cases tie <;> exact ⟨_, rfl⟩

/-- The interval around a number is wider than a step of seventeen digits. -/
theorem step_lt_width (hcanonical : Canonical m e) (hfine : 10 ^ 16 * 10 ^ k ≤ magnitudeOf m e) :
    (10 : ℚ) ^ k < Canonical.gapBelow m e / 2 + 2 ^ e / 2 := by
  have hunit : (0 : ℚ) < 2 ^ e := zpow_pos two_pos e
  unfold magnitudeOf at hfine
  unfold Canonical.gapBelow
  split_ifs with hnarrow
  · have hhalf := two_zpow_eq e
    rw [hnarrow.1] at hfine
    push_cast at hfine
    linarith
  · have hm : (m : ℚ) < 2 ^ 53 := by exact_mod_cast hcanonical.digits
    have hproduct := mul_lt_mul_of_pos_right hm hunit
    linarith

/-- A grid of seventeen digits has a point that reads back as the number. -/
theorem nearestOn?_around (tie : Tie) (hm : 0 < m) (hcanonical : Canonical m e)
    (hfine : 10 ^ 16 * 10 ^ k ≤ magnitudeOf m e) :
    ∃ point, (Interval.around m e).nearestOn? tie k = some point := by
  obtain ⟨hden, hnum, -⟩ := around_spec m e
  refine exists_nearestOn? tie rfl ?_
  rw [contains_around hm, contains_around hm]
  obtain ⟨hd, hscaled⟩ := timesPowerOfTen_spec (Interval.around m e).num hden (-k)
  rw [hnum] at hscaled
  generalize timesPowerOfTen (Interval.around m e).num (Interval.around m e).den (-k) = scaled at *
  obtain ⟨n, d⟩ := scaled
  dsimp only at *
  have hstep : (0 : ℚ) < 10 ^ k := zpow_pos (by norm_num) k
  -- the number lies between the two points
  have hback : magnitudeOf m e = n / d * 10 ^ k := by
    rw [hscaled, zpow_neg, inv_mul_cancel_right₀ hstep.ne']
  have hfloor := Nat.floor_div_eq_div (K := ℚ) n d
  have hbelow : ((n / d : Nat) : ℚ) * 10 ^ k ≤ magnitudeOf m e := by
    rw [hback, ← hfloor]
    exact mul_le_mul_of_nonneg_right (Nat.floor_le (by positivity)) hstep.le
  have habove : magnitudeOf m e < ((n / d + 1 : Nat) : ℚ) * 10 ^ k := by
    rw [hback, ← hfloor, Nat.cast_add, Nat.cast_one]
    exact mul_lt_mul_of_pos_right (Nat.lt_floor_add_one _) hstep
  have hwidth := step_lt_width hcanonical hfine
  push_cast at habove ⊢
  rcases lt_or_ge (magnitudeOf m e - Canonical.gapBelow m e / 2) ((n / d : Nat) * 10 ^ k)
    with hnear | hfar
  · have hunit : (0 : ℚ) < 2 ^ e := zpow_pos two_pos e
    exact .inl (.of_strict hnear (by linarith))
  · have hgap := Canonical.gapBelow_pos m e
    exact .inr (.of_strict (by linarith) (by linarith))

/-! ## The search -/

/-- The search ends with a point that reads back, not later than on the grid of seventeen digits. -/
theorem shortest_around (tie : Tie) {place : Int} (hm : 0 < m) (hcanonical : Canonical m e)
    (hplace : (10 : ℚ) ^ place ≤ magnitudeOf m e) {fuel : Nat} (hfuel : fuel < 17) :
    let s := (Interval.around m e).shortest tie place (fuel + 1)
    ReadsBack m e s.value ∧ place - 16 ≤ s.exponent := by
  have hfound : ∀ {k point}, (Interval.around m e).nearestOn? tie k = some point →
      ReadsBack m e (Scaled.value ⟨point, k⟩) := fun h =>
    (contains_around hm _).mp (contains_of_nearestOn? h)
  induction fuel with
  | zero =>
    have hfine : (10 : ℚ) ^ 16 * 10 ^ (place - (17 - (0 + 1 : Nat))) ≤ magnitudeOf m e := by
      rw [← zpow_natCast, ← zpow_add₀ (by norm_num)]
      exact le_of_eq_of_le (congrArg ((10 : ℚ) ^ ·) (by omega)) hplace
    obtain ⟨point, hpoint⟩ := nearestOn?_around tie hm hcanonical hfine
    unfold Interval.shortest
    dsimp only
    rw [hpoint]
    exact ⟨hfound hpoint, by dsimp only; omega⟩
  | succ fuel ih =>
    unfold Interval.shortest
    dsimp only
    split
    · rename_i point hpoint
      exact ⟨hfound hpoint, by dsimp only; omega⟩
    · exact ih (by omega)

/-- The place of the first digit is never put too high. -/
theorem leadingPlace_spec {num den : Nat} (hden : 0 < den) {guess : Int}
    (hguess : (10 : ℚ) ^ guess ≤ num / den) (fuel : Nat) :
    (10 : ℚ) ^ leadingPlace num den guess fuel ≤ num / den ∧
      guess ≤ leadingPlace num den guess fuel := by
  induction fuel generalizing guess with
  | zero => exact ⟨hguess, le_rfl⟩
  | succ fuel ih =>
    unfold leadingPlace
    obtain ⟨hd, hscaled⟩ := timesPowerOfTen_spec num hden (-(guess + 1))
    generalize timesPowerOfTen num den (-(guess + 1)) = scaled at hd hscaled
    obtain ⟨n, d⟩ := scaled
    dsimp only at hd hscaled ⊢
    split_ifs with hnext
    · have hpower : (0 : ℚ) < 10 ^ (guess + 1) := zpow_pos (by norm_num) _
      have hone : (1 : ℚ) ≤ n / d := by
        rw [le_div_iff₀ (by exact_mod_cast hd), one_mul]
        exact_mod_cast hnext
      rw [hscaled, zpow_neg, ← div_eq_mul_inv, le_div_iff₀ hpower, one_mul] at hone
      obtain ⟨hle, hmore⟩ := ih hone
      exact ⟨hle, by omega⟩
    · exact ⟨hguess, le_rfl⟩

/-- The first guess is never too high: 0.30103 is near to the logarithm of two, and two are taken off. -/
theorem ten_zpow_guess_le (binary : Int) (hlow : -1074 ≤ binary) (hhigh : binary ≤ 1023) :
    (10 : ℚ) ^ (binary * 30103 / 100000 - 2) ≤ 2 ^ binary := by
  generalize hguess : binary * 30103 / 100000 - 2 = guess
  have hpowers : ∀ {p q : Nat}, p ≠ 0 → ((10 : ℚ) ^ p) ^ guess ≤ (2 ^ q) ^ guess →
      q * guess ≤ p * binary → (10 : ℚ) ^ guess ≤ 2 ^ binary := by
    intro p q hp hle hexponent
    refine le_of_pow_le_pow_left₀ hp (zpow_nonneg zero_le_two _) ?_
    calc ((10 : ℚ) ^ guess) ^ p = (10 ^ p) ^ guess := by
          rw [← zpow_natCast, ← zpow_natCast, ← zpow_mul, ← zpow_mul, mul_comm]
      _ ≤ (2 ^ q) ^ guess := hle
      _ = 2 ^ (q * guess) := by rw [← zpow_natCast, ← zpow_mul]
      _ ≤ 2 ^ (p * binary) := zpow_le_zpow_right₀ one_le_two hexponent
      _ = (2 ^ binary) ^ p := by rw [← zpow_natCast, ← zpow_mul, mul_comm]
  -- a power of ten from above and one from below, near enough for all exponents of the format
  rcases le_or_gt 0 guess with hsign | hsign
  · exact hpowers (p := 3) (q := 10) (by decide)
      (zpow_le_zpow_left₀ hsign (by norm_num) (by norm_num)) (by omega)
  · obtain ⟨n, hn⟩ := Int.eq_ofNat_of_zero_le (show 0 ≤ -guess by omega)
    refine hpowers (p := 19) (q := 63) (by decide) ?_ (by omega)
    rw [show guess = -(n : Int) by omega, zpow_neg, zpow_neg, zpow_natCast, zpow_natCast]
    exact inv_anti₀ (by positivity) (pow_le_pow_left₀ (by norm_num) (by norm_num) n)

/-- Zeros at the end of the digits are an exponent. -/
theorem Scaled.trim_spec (s : Scaled) (fuel : Nat) :
    (s.trim fuel).value = s.value ∧ s.exponent ≤ (s.trim fuel).exponent := by
  induction fuel generalizing s with
  | zero => exact ⟨rfl, le_rfl⟩
  | succ fuel ih =>
    unfold Scaled.trim
    split_ifs with hzero
    · obtain ⟨hvalue, hexponent⟩ := ih ⟨s.digits / 10, s.exponent + 1⟩
      refine ⟨hvalue.trans ?_, by dsimp only at hexponent; omega⟩
      have hdigits : (s.digits : ℚ) = (s.digits / 10 : Nat) * 10 := by
        exact_mod_cast (Nat.div_mul_cancel (Nat.dvd_of_mod_eq_zero hzero.1)).symm
      rw [Scaled.value, Scaled.value, hdigits, zpow_add_one₀ (by norm_num)]
      ring
    · exact ⟨rfl, le_rfl⟩

/-- The digits of a number read back as it. -/
theorem shortest_spec (tie : Tie) (hm : 0 < m) (hcanonical : Canonical m e) (he : e ≤ 971) :
    ReadsBack m e (shortest tie m e).value ∧ -400 ≤ (shortest tie m e).exponent := by
  obtain ⟨hden, hvalue⟩ := magnitude_eq m e
  have hlog : m.log2 ≤ 52 := Nat.lt_succ_iff.mp ((Nat.log2_lt hm.ne').mpr hcanonical.digits)
  have hleast := hcanonical.least
  have hbinary : (2 : ℚ) ^ (m.log2 + e) ≤ magnitudeOf m e := by
    have hle : (2 : ℚ) ^ (m.log2 : Int) ≤ m := by
      rw [zpow_natCast]
      exact_mod_cast Nat.log2_self_le hm.ne'
    rw [zpow_add₀ two_ne_zero]
    exact mul_le_mul_of_nonneg_right hle (zpow_nonneg zero_le_two e)
  have hguess := (ten_zpow_guess_le (m.log2 + e) (by omega) (by omega)).trans hbinary
  unfold shortest
  rw [if_neg hm.ne']
  generalize Binary64.magnitude m e = fraction at hden hvalue
  obtain ⟨num, den⟩ := fraction
  dsimp only at hden hvalue ⊢
  rw [← hvalue] at hguess
  obtain ⟨hplace, hleading⟩ := leadingPlace_spec hden hguess 5
  generalize leadingPlace num den _ 5 = place at hplace hleading ⊢
  rw [hvalue] at hplace
  have hsearch : ReadsBack m e ((Interval.around m e).shortest tie place 17).value ∧
      place - 16 ≤ ((Interval.around m e).shortest tie place 17).exponent :=
    shortest_around tie hm hcanonical hplace (by decide : 16 < 17)
  generalize (Interval.around m e).shortest tie place 17 = s at hsearch ⊢
  obtain ⟨hsame, hmore⟩ := s.trim_spec 20
  exact ⟨hsame ▸ hsearch.1, by omega⟩

end Throughput.Decimal
