import Mathlib.Algebra.Order.Field.Power
import Mathlib.Data.Nat.Log
import Mathlib.Tactic.Linarith
import Mathlib.Tactic.Ring

/-!
# The grid of binary64

The magnitudes of binary64 form a grid, if exponents may be of any size. A number is rounded to a nearest
one of the grid, and where there are two, to the one with the even mantissa. So it is determined where a
number is rounded to, rounding keeps the order, and what is on the grid stays as it is.
-/

namespace Throughput

/-- The magnitude of a number with a mantissa and an exponent. -/
def magnitudeOf (mantissa : Nat) (exponent : Int) : ℚ := mantissa * 2 ^ exponent

@[simp]
theorem magnitudeOf_zero (exponent : Int) : magnitudeOf 0 exponent = 0 := by
  unfold magnitudeOf
  rw [Nat.cast_zero, zero_mul]

theorem magnitudeOf_pos {mantissa : Nat} (h : 0 < mantissa) (exponent : Int) :
    0 < magnitudeOf mantissa exponent :=
  mul_pos (by exact_mod_cast h) (zpow_pos two_pos exponent)

@[simp]
theorem magnitudeOf_whole (n : Nat) : magnitudeOf n 0 = n := by
  unfold magnitudeOf
  rw [zpow_zero, mul_one]

/-- Zeros at the end of a mantissa are an exponent. -/
theorem magnitudeOf_mul_two_pow (m : Nat) (e : Int) (shift : Nat) :
    magnitudeOf (m * 2 ^ shift) (e - shift) = magnitudeOf m e := by
  have hpos : (0 : ℚ) < 2 ^ shift := by positivity
  unfold magnitudeOf
  rw [zpow_sub₀ two_ne_zero, zpow_natCast]
  push_cast
  rw [mul_assoc, mul_div_cancel₀ _ hpos.ne']

/-- Is this the magnitude of a binary64 number, if exponents may be of any size? -/
def OnGrid (v : ℚ) : Prop :=
  ∃ (mantissa : Nat) (exponent : Int),
    mantissa < 2 ^ 53 ∧ -1074 ≤ exponent ∧ v = magnitudeOf mantissa exponent

/-- A mantissa may also have grown to a power of two. -/
theorem onGrid_magnitudeOf {m : Nat} {e : Int} (hm : m ≤ 2 ^ 53) (he : -1074 ≤ e) :
    OnGrid (magnitudeOf m e) := by
  rcases Nat.lt_or_eq_of_le hm with hlt | rfl
  · exact ⟨m, e, hlt, he, rfl⟩
  · refine ⟨2 ^ 52, e + 1, by norm_num, by omega, ?_⟩
    rw [← magnitudeOf_mul_two_pow (2 ^ 52) (e + 1) 1, Nat.cast_one, add_sub_cancel_right]
    rfl

theorem onGrid_natCast {n : Nat} (h : n < 2 ^ 53) : OnGrid n :=
  ⟨n, 0, h, by decide, (magnitudeOf_whole n).symm⟩

/-! ## Nearest numbers -/

/-- Is a number of the grid nearest to another number? -/
structure Nearest (v r : ℚ) : Prop where
  onGrid : OnGrid r
  nearest : ∀ g, OnGrid g → |v - r| ≤ |v - g|

namespace Nearest

variable {v w r q g : ℚ}

theorem self (h : OnGrid v) : Nearest v v :=
  ⟨h, fun g _ => by rw [sub_self, abs_zero]; exact abs_nonneg _⟩

theorem le_of_le (h : Nearest v r) (hg : OnGrid g) (hle : v ≤ g) : r ≤ g := by
  have hnear := h.nearest g hg
  by_contra hlt
  rw [abs_of_nonpos (by linarith), abs_of_nonpos (by linarith)] at hnear
  linarith

theorem le_of_ge (h : Nearest v r) (hg : OnGrid g) (hle : g ≤ v) : g ≤ r := by
  have hnear := h.nearest g hg
  by_contra hlt
  rw [abs_of_nonneg (by linarith), abs_of_nonneg (by linarith)] at hnear
  linarith

theorem eq_of_onGrid (h : Nearest v r) (hv : OnGrid v) : r = v := by
  have hnear := h.nearest v hv
  rw [sub_self, abs_zero] at hnear
  exact (sub_eq_zero.mp (abs_nonpos_iff.mp hnear)).symm

/-- What is nearest keeps the order, whichever way a tie goes. -/
theorem mono (h : Nearest v r) (h' : Nearest w q) (hlt : v < w) : r ≤ q := by
  have hnear := sq_le_sq.mpr (h.nearest q h'.onGrid)
  have hnear' := sq_le_sq.mpr (h'.nearest r h.onGrid)
  by_contra hgt
  have hgap : 0 < r - q := by linarith
  nlinarith [mul_pos hgap (sub_pos.mpr hlt)]

/-- Of two nearest numbers one is below and one above, equally far, and nothing of the grid is between
them. -/
theorem midway (h : Nearest v r) (h' : Nearest v q) (hlt : r < q) :
    v - r = q - v ∧ ∀ g, OnGrid g → g ≤ r ∨ q ≤ g := by
  have hsame : |v - r| = |v - q| :=
    le_antisymm (h.nearest q h'.onGrid) (h'.nearest r h.onGrid)
  have hmiddle : v - r = q - v := by
    rcases abs_eq_abs.mp hsame with heq | heq <;> linarith
  refine ⟨hmiddle, fun g hg => ?_⟩
  have hnear := h.nearest g hg
  rw [abs_of_nonneg (by linarith : 0 ≤ v - r)] at hnear
  by_contra! hbetween
  rcases abs_cases (v - g) with ⟨heq, -⟩ | ⟨heq, -⟩ <;> linarith

end Nearest

/-! ## Units -/

theorem magnitudeOf_le_iff {m n : Nat} {e : Int} : magnitudeOf m e ≤ magnitudeOf n e ↔ m ≤ n := by
  unfold magnitudeOf
  rw [mul_le_mul_iff_of_pos_right (zpow_pos two_pos e), Nat.cast_le]

theorem magnitudeOf_succ (m : Nat) (e : Int) : magnitudeOf (m + 1) e = magnitudeOf m e + 2 ^ e := by
  unfold magnitudeOf
  push_cast
  ring

/-- The least mantissa with all its digits is a power of two. -/
theorem magnitudeOf_full (e : Int) : magnitudeOf (2 ^ 52) e = 2 ^ (e + 52) := by
  rw [magnitudeOf, Nat.cast_pow, Nat.cast_ofNat, ← zpow_natCast, ← zpow_add₀ two_ne_zero, add_comm]
  rfl

theorem two_zpow_eq (e : Int) : (2 : ℚ) ^ e = 2 * 2 ^ (e - 1) := by
  rw [zpow_sub_one₀ two_ne_zero]
  ring

theorem abs_sub_magnitudeOf (x : ℚ) (r : Nat) (t : Int) :
    |x * 2 ^ t - magnitudeOf r t| = |x - r| * 2 ^ t := by
  unfold magnitudeOf
  have hscale : (0 : ℚ) < 2 ^ t := zpow_pos two_pos t
  rw [← sub_mul, abs_mul, abs_of_pos hscale]

/-- A number with a unit, or a larger one, is a multiple of the unit. -/
theorem exists_multiple {k : Nat} {e j : Int} (hle : e ≤ j) :
    ∃ n : Nat, magnitudeOf k j = magnitudeOf n e := by
  obtain ⟨shift, hshift⟩ := Int.eq_ofNat_of_zero_le (sub_nonneg.mpr hle)
  refine ⟨k * 2 ^ shift, ?_⟩
  rw [← magnitudeOf_mul_two_pow k j shift, show j - shift = e by omega]

/-- A number of the grid with a smaller unit is below all that have all their digits, by half a unit at
least. -/
theorem add_le_of_lt {k : Nat} {e j : Int} (hk : k < 2 ^ 53) (hlt : j < e) :
    magnitudeOf k j + 2 ^ (e - 1) ≤ magnitudeOf (2 ^ 52) e := by
  have hscale : (0 : ℚ) ≤ 2 ^ (e - 1) := zpow_nonneg zero_le_two _
  have hstep : (2 : ℚ) ^ j ≤ 2 ^ (e - 1) := zpow_le_zpow_right₀ one_le_two (by omega)
  have hk : (k + 1 : ℚ) ≤ 2 ^ 53 := by exact_mod_cast hk
  calc magnitudeOf k j + 2 ^ (e - 1) ≤ k * 2 ^ (e - 1) + 2 ^ (e - 1) := by
        unfold magnitudeOf
        gcongr
    _ = (k + 1) * 2 ^ (e - 1) := by ring
    _ ≤ 2 ^ 53 * 2 ^ (e - 1) := mul_le_mul_of_nonneg_right hk hscale
    _ = magnitudeOf (2 ^ 52) e := by
      rw [← magnitudeOf_mul_two_pow (2 ^ 52) e 1]
      unfold magnitudeOf
      push_cast
      ring

/-- An integer within a half of a number is nearest to it among the integers. -/
theorem abs_sub_le_of_half {x : ℚ} {r q : ℤ} (hr : |x - r| ≤ 1 / 2) : |x - r| ≤ |x - q| := by
  rcases eq_or_ne r q with rfl | hne
  · exact le_refl _
  · have hone : (1 : ℚ) ≤ |(r : ℚ) - q| := by
      exact_mod_cast Int.one_le_abs (sub_ne_zero.mpr hne)
    have htri := abs_sub_le (r : ℚ) x q
    rw [abs_sub_comm (r : ℚ) x] at htri
    linarith

section Half

variable {x g : ℚ} {t : Int} {r : Nat} (hhalf : |x - r| ≤ 1 / 2) (hr : r ≤ 2 ^ 53) (ht : -1074 ≤ t)
  (hdigits : t = -1074 ∨ 2 ^ 52 ≤ x)

include hdigits

/-- What is on the grid is a multiple of the unit, or half a unit away. -/
theorem multiple_or_far (hg : OnGrid g) : (∃ n : Nat, g = magnitudeOf n t) ∨
    2 ^ t / 2 ≤ |x * 2 ^ t - g| := by
  obtain ⟨k, j, hk, hj, rfl⟩ := hg
  rcases le_or_gt t j with hle | hlt
  · exact .inl (exists_multiple hle)
  · right
    have hx : (2 : ℚ) ^ 52 * 2 ^ t ≤ x * 2 ^ t :=
      mul_le_mul_of_nonneg_right (hdigits.resolve_left (by omega)) (zpow_nonneg zero_le_two _)
    have hbelow := add_le_of_lt hk hlt
    have hunit := two_zpow_eq t
    have hpower : magnitudeOf (2 ^ 52) t = 2 ^ 52 * 2 ^ t := by
      unfold magnitudeOf
      push_cast
      rfl
    rw [hpower] at hbelow
    have habs := le_abs_self (x * 2 ^ t - magnitudeOf k j)
    linarith

include hhalf hr ht

/-- A mantissa within a half of a scaled number gives a nearest number of the grid, if the scale is the
least of the format or leaves all digits of the mantissa. -/
theorem nearest_of_half : Nearest (x * 2 ^ t) (magnitudeOf r t) := by
  have hscale : (0 : ℚ) < 2 ^ t := zpow_pos two_pos t
  refine ⟨onGrid_magnitudeOf hr ht, fun g hg => ?_⟩
  rcases multiple_or_far hdigits hg with ⟨n, rfl⟩ | hfar
  · rw [abs_sub_magnitudeOf, abs_sub_magnitudeOf]
    have hinteger : |x - r| ≤ |x - n| := by
      exact_mod_cast abs_sub_le_of_half (r := r) (q := n) (by exact_mod_cast hhalf)
    exact mul_le_mul_of_nonneg_right hinteger hscale.le
  · refine le_trans ?_ hfar
    rw [abs_sub_magnitudeOf, div_eq_inv_mul]
    exact mul_le_mul_of_nonneg_right (by linarith) hscale.le

/-- If another number of the grid is as near, then the mantissa is a half away. -/
theorem half_of_nearest (hg : Nearest (x * 2 ^ t) g) (hne : g ≠ magnitudeOf r t) :
    |x - r| = 1 / 2 := by
  have hscale : (0 : ℚ) < 2 ^ t := zpow_pos two_pos t
  have hnear := hg.nearest _ (onGrid_magnitudeOf hr ht)
  rw [abs_sub_magnitudeOf] at hnear
  refine le_antisymm hhalf ?_
  rcases multiple_or_far hdigits hg.onGrid with ⟨n, rfl⟩ | hfar
  · rw [abs_sub_magnitudeOf, mul_le_mul_iff_of_pos_right hscale] at hnear
    have hother : (n : Int) ≠ r := fun h => hne (by rw [show n = r by omega])
    have hone : (1 : ℚ) ≤ |(n : ℚ) - r| := by
      exact_mod_cast Int.one_le_abs (sub_ne_zero.mpr hother)
    have htri := abs_sub_le (n : ℚ) x r
    rw [abs_sub_comm (n : ℚ) x] at htri
    linarith
  · refine le_of_mul_le_mul_right ?_ hscale
    linarith

end Half

/-! ## Canonical numbers -/

/-- Is this how binary64 writes a magnitude? The exponent is as low as the mantissa allows. -/
structure Canonical (mantissa : Nat) (exponent : Int) : Prop where
  least : -1074 ≤ exponent
  digits : mantissa < 2 ^ 53
  normal : exponent = -1074 ∨ 2 ^ 52 ≤ mantissa

theorem canonical_zero : Canonical 0 (-1074) := ⟨le_rfl, by decide, .inl rfl⟩

namespace Canonical

variable {m n : Nat} {e k : Int} {g : ℚ}

theorem onGrid (h : Canonical m e) : OnGrid (magnitudeOf m e) :=
  ⟨m, e, h.digits, h.least, rfl⟩

/-- The exponents decide which of two magnitudes is less, and the mantissas where they are equal. -/
theorem magnitudeOf_lt (h : Canonical m e) (h' : Canonical n k) (hlt : e < k ∨ e = k ∧ m < n) :
    magnitudeOf m e < magnitudeOf n k := by
  unfold magnitudeOf
  rcases hlt with hlt | ⟨rfl, hlt⟩
  · have hnormal : 2 ^ 52 ≤ n := h'.normal.resolve_left (by have := h.least; omega)
    have hm : (m : ℚ) < 2 ^ 53 := by exact_mod_cast h.digits
    have hn : (2 ^ 52 : ℚ) ≤ n := by exact_mod_cast hnormal
    have hstep : (2 : ℚ) ^ (e + 1) ≤ 2 ^ k := zpow_le_zpow_right₀ one_le_two (by omega)
    calc (m * 2 ^ e : ℚ) < 2 ^ 53 * 2 ^ e := mul_lt_mul_of_pos_right hm (zpow_pos two_pos e)
      _ = 2 ^ 52 * 2 ^ (e + 1) := by
        rw [zpow_add_one₀ two_ne_zero]
        ring
      _ ≤ n * 2 ^ k := mul_le_mul hn hstep (zpow_nonneg zero_le_two _) (by positivity)
  · exact mul_lt_mul_of_pos_right (by exact_mod_cast hlt) (zpow_pos two_pos e)

theorem lt_iff (h : Canonical m e) (h' : Canonical n k) :
    magnitudeOf m e < magnitudeOf n k ↔ e < k ∨ e = k ∧ m < n := by
  refine ⟨fun hlt => ?_, h.magnitudeOf_lt h'⟩
  by_contra hnot
  have hback : (k < e ∨ k = e ∧ n < m) ∨ (e = k ∧ m = n) := by omega
  rcases hback with hback | ⟨rfl, rfl⟩
  · exact lt_asymm hlt (h'.magnitudeOf_lt h hback)
  · exact lt_irrefl _ hlt

/-- A magnitude is written in one way only. -/
theorem eq_of_magnitudeOf (h : Canonical m e) (h' : Canonical n k)
    (heq : magnitudeOf m e = magnitudeOf n k) : m = n ∧ e = k := by
  have hless := (h.lt_iff h').not.mp heq.not_lt
  have hmore := (h'.lt_iff h).not.mp heq.symm.not_lt
  omega

/-! ### Neighbours -/

/-- The next number of the grid is a unit above. -/
theorem succ_le_of_lt (h : Canonical m e) (hg : OnGrid g) (hlt : magnitudeOf m e < g) :
    magnitudeOf (m + 1) e ≤ g := by
  obtain ⟨k, j, hk, hj, rfl⟩ := hg
  rcases le_or_gt e j with hle | hsmall
  · obtain ⟨n, hn⟩ := exists_multiple (k := k) hle
    rw [hn] at hlt ⊢
    rw [magnitudeOf_le_iff]
    rw [← not_le, magnitudeOf_le_iff] at hlt
    omega
  · have hbelow := add_le_of_lt hk hsmall
    have hfull : magnitudeOf (2 ^ 52) e ≤ magnitudeOf m e :=
      magnitudeOf_le_iff.mpr (h.normal.resolve_left (by omega))
    have hscale : (0 : ℚ) < 2 ^ (e - 1) := zpow_pos two_pos _
    linarith

/-- How far below a number the one before it is. Below a power of two the grid is finer. -/
def gapBelow (m : Nat) (e : Int) : ℚ := if m = 2 ^ 52 ∧ -1074 < e then 2 ^ (e - 1) else 2 ^ e

theorem gapBelow_pos (m : Nat) (e : Int) : 0 < gapBelow m e := by
  unfold gapBelow
  split <;> exact zpow_pos two_pos _

theorem gapBelow_le (m : Nat) (e : Int) : gapBelow m e ≤ 2 ^ e := by
  have hscale : (0 : ℚ) < 2 ^ (e - 1) := zpow_pos two_pos _
  unfold gapBelow
  split
  · rw [two_zpow_eq e]
    linarith
  · exact le_rfl

/-- The number before is the gap below. -/
theorem le_sub_of_lt (h : Canonical m e) (hg : OnGrid g) (hlt : g < magnitudeOf m e) :
    g ≤ magnitudeOf m e - gapBelow m e := by
  have hgap := gapBelow_le m e
  obtain ⟨k, j, hk, hj, rfl⟩ := hg
  rcases le_or_gt e j with hle | hsmall
  · obtain ⟨n, hn⟩ := exists_multiple (k := k) hle
    rw [hn] at hlt ⊢
    rw [← not_le, magnitudeOf_le_iff] at hlt
    have hnext := magnitudeOf_le_iff (e := e).mpr (show n + 1 ≤ m by omega)
    rw [magnitudeOf_succ] at hnext
    linarith
  · have hbelow := add_le_of_lt hk hsmall
    have hfull : 2 ^ 52 ≤ m := h.normal.resolve_left (by omega)
    rcases hfull.eq_or_lt with rfl | hmore
    · rw [gapBelow, if_pos ⟨rfl, by omega⟩]
      linarith
    · have hnext := magnitudeOf_le_iff (e := e).mpr (show 2 ^ 52 + 1 ≤ m by omega)
      have hscale : (0 : ℚ) < 2 ^ (e - 1) := zpow_pos two_pos _
      rw [magnitudeOf_succ] at hnext
      linarith

/-- The number before is on the grid. -/
theorem onGrid_sub (h : Canonical m e) (hm : 0 < m) : OnGrid (magnitudeOf m e - gapBelow m e) := by
  have hleast := h.least
  unfold gapBelow
  split_ifs with hnarrow
  · obtain ⟨rfl, he⟩ := hnarrow
    refine ⟨2 ^ 53 - 1, e - 1, by norm_num, by omega, ?_⟩
    rw [sub_eq_iff_eq_add, ← magnitudeOf_succ, ← magnitudeOf_mul_two_pow (2 ^ 52) e 1]
    rfl
  · refine ⟨m - 1, e, by have := h.digits; omega, hleast, ?_⟩
    rw [sub_eq_iff_eq_add, ← magnitudeOf_succ, Nat.sub_add_cancel hm]

/-- What is nearer to the number before than to a number is not rounded to it. -/
theorem lt_of_nearest (h : Canonical m e) (hm : 0 < m) {v : ℚ} (hg : Nearest v g)
    (hlt : v < magnitudeOf m e - gapBelow m e / 2) : g < magnitudeOf m e := by
  have hgap := gapBelow_pos m e
  refine lt_of_le_of_ne (hg.le_of_le h.onGrid (by linarith)) ?_
  rintro rfl
  have hnear := hg.nearest _ (h.onGrid_sub hm)
  rw [abs_of_neg (by linarith : v - magnitudeOf m e < 0)] at hnear
  rcases abs_cases (v - (magnitudeOf m e - gapBelow m e)) with ⟨heq, -⟩ | ⟨heq, -⟩ <;> linarith

/-- What is nearer to the number after than to a number is rounded to that at least. -/
theorem succ_le_of_nearest (h : Canonical m e) {v : ℚ} (hg : Nearest v g)
    (hlt : magnitudeOf m e + 2 ^ e / 2 < v) : magnitudeOf (m + 1) e ≤ g := by
  have hunit : (0 : ℚ) < 2 ^ e := zpow_pos two_pos e
  refine h.succ_le_of_lt hg.onGrid (lt_of_le_of_ne (hg.le_of_ge h.onGrid (by linarith)) ?_)
  rintro rfl
  have hnear := hg.nearest _ (onGrid_magnitudeOf (m := m + 1) h.digits h.least)
  rw [magnitudeOf_succ, abs_of_pos (by linarith : 0 < v - magnitudeOf m e)] at hnear
  rcases abs_cases (v - (magnitudeOf m e + 2 ^ e)) with ⟨heq, -⟩ | ⟨heq, -⟩ <;> linarith

/-- A share of 2⁻⁵³ of a number is no more than the gap below it. -/
theorem mul_le_gapBelow (h : Canonical m e) : magnitudeOf m e * 2 ^ (-53 : Int) ≤ gapBelow m e := by
  unfold gapBelow
  split_ifs with hnarrow
  · obtain ⟨rfl, -⟩ := hnarrow
    rw [magnitudeOf_full, ← zpow_add₀ two_ne_zero]
    exact (congrArg ((2 : ℚ) ^ ·) (by ring)).le
  · have hm : (m : ℚ) ≤ 2 ^ (53 : Int) := by exact_mod_cast h.digits.le
    calc magnitudeOf m e * 2 ^ (-53 : Int) = m * 2 ^ (e + -53) := by
          rw [magnitudeOf, mul_assoc, ← zpow_add₀ two_ne_zero]
      _ ≤ 2 ^ (53 : Int) * 2 ^ (e + -53) :=
          mul_le_mul_of_nonneg_right hm (zpow_nonneg zero_le_two _)
      _ = 2 ^ e := by
        rw [← zpow_add₀ two_ne_zero]
        congr 1
        ring

/-- It is more than half the gap, unless the number is among the least ones. -/
theorem half_gapBelow_lt (h : Canonical m e) (he : -1074 < e) :
    gapBelow m e / 2 < magnitudeOf m e * 2 ^ (-53 : Int) := by
  have hfull : 2 ^ 52 ≤ m := h.normal.resolve_left he.ne'
  have hunit : magnitudeOf (2 ^ 52) e * 2 ^ (-53 : Int) = 2 ^ (e - 1) := by
    rw [magnitudeOf_full, ← zpow_add₀ two_ne_zero]
    congr 1
    ring
  have hscale : (0 : ℚ) < 2 ^ (e - 1) := zpow_pos two_pos _
  rcases hfull.eq_or_lt with rfl | hmore
  · rw [hunit, gapBelow, if_pos ⟨rfl, he⟩]
    linarith
  · have hstep : magnitudeOf (2 ^ 52) e < magnitudeOf m e :=
      lt_of_not_ge (magnitudeOf_le_iff.not.mpr (by omega))
    rw [gapBelow, if_neg (fun hnarrow => hmore.ne' hnarrow.1), two_zpow_eq e,
      mul_div_cancel_left₀ _ two_ne_zero, ← hunit]
    exact mul_lt_mul_of_pos_right hstep (zpow_pos two_pos _)

end Canonical

/-! ## Where a magnitude is rounded to -/

/-- Is this the number that a magnitude is rounded to? It is a nearest one of the grid, and of two
nearest ones that with the even mantissa. -/
structure Rounded (v : ℚ) (m : Nat) (e : Int) : Prop where
  canonical : Canonical m e
  nearest : Nearest v (magnitudeOf m e)
  even : ∀ g, Nearest v g → g ≠ magnitudeOf m e → m % 2 = 0

namespace Rounded

variable {v : ℚ} {m n : Nat} {e k : Int}

theorem self (h : Canonical m e) : Rounded (magnitudeOf m e) m e :=
  ⟨h, .self h.onGrid, fun _ hg hne => absurd (hg.eq_of_onGrid h.onGrid) hne⟩

theorem zero : Rounded 0 0 (-1074) :=
  magnitudeOf_zero (-1074) ▸ .self canonical_zero

/-- Two neighbours cannot both be even. -/
theorem le (h : Rounded v m e) (h' : Rounded v n k) : magnitudeOf n k ≤ magnitudeOf m e := by
  by_contra! hlt
  have hm := h.even _ h'.nearest hlt.ne'
  have hn := h'.even _ h.nearest hlt.ne
  have hdigits := h.canonical.digits
  obtain ⟨-, hnone⟩ := h.nearest.midway h'.nearest hlt
  -- the number after the lower one is on the grid, and below the upper one
  have hnext : Canonical (m + 1) e :=
    ⟨h.canonical.least, by omega, h.canonical.normal.imp id fun hfull => by omega⟩
  rcases hnone _ hnext.onGrid with hle | hle
  · rw [magnitudeOf_le_iff] at hle
    omega
  · have hless := (h.canonical.lt_iff h'.canonical).mp hlt
    have hmore := (hnext.lt_iff h'.canonical).not.mp hle.not_gt
    omega

/-- A magnitude is rounded to one number only. -/
theorem unique (h : Rounded v m e) (h' : Rounded v n k) : m = n ∧ e = k :=
  h.canonical.eq_of_magnitudeOf h'.canonical
    (le_antisymm (h'.le h) (h.le h'))

/-- A number is rounded to all that lies within half a gap of it, and to the ends if it is even. -/
theorem of_between (h : Canonical m e) (hbelow : magnitudeOf m e - Canonical.gapBelow m e / 2 ≤ v)
    (habove : v ≤ magnitudeOf m e + 2 ^ e / 2)
    (hends : m % 2 = 0 ∨
      magnitudeOf m e - Canonical.gapBelow m e / 2 < v ∧ v < magnitudeOf m e + 2 ^ e / 2) :
    Rounded v m e := by
  have hgap := Canonical.gapBelow_pos m e
  have hunit : (0 : ℚ) < 2 ^ e := zpow_pos two_pos e
  -- any other number is at least a gap away, on its side
  have hother : ∀ g, OnGrid g → g ≠ magnitudeOf m e →
      g ≤ magnitudeOf m e - Canonical.gapBelow m e ∨ magnitudeOf m e + 2 ^ e ≤ g := by
    intro g hg hne
    rcases lt_or_gt_of_ne hne with hlt | hgt
    · exact .inl (h.le_sub_of_lt hg hlt)
    · right
      rw [← magnitudeOf_succ]
      exact h.succ_le_of_lt hg hgt
  have hnear : ∀ g, OnGrid g → |v - magnitudeOf m e| ≤ |v - g| := by
    intro g hg
    rcases eq_or_ne g (magnitudeOf m e) with rfl | hne
    · exact le_rfl
    · rw [abs_le]
      rcases hother g hg hne with hlow | hhigh
      · have habs := le_abs_self (v - g)
        constructor <;> linarith
      · have habs := neg_le_abs (v - g)
        constructor <;> linarith
  refine ⟨h, ⟨h.onGrid, hnear⟩, fun g hg hne => ?_⟩
  refine hends.resolve_right fun ⟨hlow, hhigh⟩ => ?_
  have hsame := hg.nearest _ h.onGrid
  rcases hother g hg.onGrid hne with hless | hmore
  · have habs := le_abs_self (v - g)
    rcases abs_cases (v - magnitudeOf m e) with ⟨heq, -⟩ | ⟨heq, -⟩ <;> linarith
  · have habs := neg_le_abs (v - g)
    rcases abs_cases (v - magnitudeOf m e) with ⟨heq, -⟩ | ⟨heq, -⟩ <;> linarith

end Rounded

end Throughput
