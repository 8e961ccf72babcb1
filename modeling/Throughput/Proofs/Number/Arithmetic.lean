import Mathlib.Algebra.Order.Floor.Semifield
import Mathlib.Data.Rat.Floor
import Throughput.Proofs.Number.Packing

/-!
# Arithmetic on binary64 numbers

What an operation gives is told of the unpacked numbers: the exact result, rounded to the grid, and
stored. A product with a whole number and a difference are what a share of a count is made of.
-/

namespace Throughput

open Float.Model Float.Model.UnpackedFloat

/-! ## The operations -/

/-- A number as the arithmetic unpacks it. -/
def unpacked (x : Float) : UnpackedFloat := x.toModel.unpack

theorem storable_unpacked (x : Float) : Storable (unpacked x) := storable_unpack x.toModel

theorem unpacked_add (x y : Float) :
    unpacked (x + y) = stored (UnpackedFloat.add Format.binary64 (unpacked x) (unpacked y)) := rfl

theorem unpacked_sub (x y : Float) :
    unpacked (x - y) = stored (UnpackedFloat.sub Format.binary64 (unpacked x) (unpacked y)) := rfl

theorem unpacked_mul (x y : Float) :
    unpacked (x * y) = stored (UnpackedFloat.mul Format.binary64 (unpacked x) (unpacked y)) := rfl

theorem unpacked_div (x y : Float) :
    unpacked (x / y) = stored (UnpackedFloat.div Format.binary64 (unpacked x) (unpacked y)) := rfl

theorem unpacked_sqrt (x : Float) :
    unpacked x.sqrt = stored (UnpackedFloat.sqrt Format.binary64 (unpacked x)) := rfl

theorem lt_iff_unpacked (x y : Float) : x < y ↔ (unpacked x).lt (unpacked y) = true := by
  change decide (x.toModel < y.toModel) = true ↔ _
  exact decide_eq_true_iff

/-! ## Magnitudes -/

/-- Is a number written with a positive sign and this magnitude? -/
def Shows (x : Float) (v : ℚ) : Prop :=
  ∃ m e, Canonical m e ∧ unpacked x = signed .positive m e ∧ magnitudeOf m e = v

theorem Shows.onGrid {x : Float} {v : ℚ} (h : Shows x v) : OnGrid v := by
  obtain ⟨m, e, hcanonical, -, rfl⟩ := h
  exact hcanonical.onGrid

theorem Shows.nonneg {x : Float} {v : ℚ} (h : Shows x v) : 0 ≤ v := by
  obtain ⟨m, e, -, -, rfl⟩ := h
  exact mul_nonneg (Nat.cast_nonneg m) (zpow_nonneg zero_le_two e)

theorem Shows.unpacked_eq {x y : Float} {v : ℚ} (hx : Shows x v) (hy : Shows y v) :
    unpacked x = unpacked y := by
  obtain ⟨m, e, hm, hx, rfl⟩ := hx
  obtain ⟨n, k, hn, hy, heq⟩ := hy
  obtain ⟨rfl, rfl⟩ := hn.eq_of_magnitudeOf hm heq
  rw [hx, hy]

theorem Shows.unpacked_of_pos {x : Float} {v : ℚ} (h : Shows x v) (hv : 0 < v) :
    ∃ m e, ∃ hm : 0 < m, Canonical m e ∧ unpacked x = .finite .positive m e hm ∧
      magnitudeOf m e = v := by
  obtain ⟨m, e, hcanonical, hx, rfl⟩ := h
  have hm : m ≠ 0 := by
    rintro rfl
    exact hv.ne' (magnitudeOf_zero e)
  exact ⟨m, e, Nat.pos_of_ne_zero hm, hcanonical, hx.trans (dif_neg hm), rfl⟩

theorem shows_zero {x : Float} (h : unpacked x = .zero .positive) : Shows x 0 :=
  ⟨0, -1074, canonical_zero, h, magnitudeOf_zero _⟩

theorem canonical_one : Canonical (2 ^ 52) (-52) := ⟨by decide, by decide, .inr le_rfl⟩

theorem magnitudeOf_one : magnitudeOf (2 ^ 52) (-52) = 1 := by
  unfold magnitudeOf
  norm_num

theorem shows_one : Shows 1 1 := ⟨2 ^ 52, -52, canonical_one, rfl, magnitudeOf_one⟩

/-- The largest number that the format has room for. -/
def largest : ℚ := magnitudeOf (2 ^ 53 - 1) 971

theorem canonical_largest : Canonical (2 ^ 53 - 1) 971 :=
  ⟨by decide, by norm_num, .inr (by norm_num)⟩

/-- No number is larger. -/
theorem Shows.le_largest {x : Float} {v : ℚ} (h : Shows x v) : v ≤ largest := by
  have hstorable := storable_unpacked x
  obtain ⟨m, e, hcanonical, hread, rfl⟩ := h
  rcases Nat.eq_zero_or_pos m with rfl | hm
  · rw [magnitudeOf_zero]
    exact (magnitudeOf_pos (by norm_num) 971).le
  · rw [hread, signed_of_pos hm] at hstorable
    obtain ⟨-, hroom⟩ := hstorable
    have hdigits := hcanonical.digits
    exact not_lt.mp ((canonical_largest.lt_iff hcanonical).not.mpr (by omega))

/-- All smaller powers of two are in the format. -/
theorem two_pow_le_largest {n : Nat} (h : n ≤ 1023) : 2 ^ n ≤ largest := by
  calc (2 : ℚ) ^ n ≤ 2 ^ 1023 := pow_le_pow_right₀ one_le_two h
    _ = magnitudeOf (2 ^ 52) 971 := by
      rw [magnitudeOf, Nat.cast_pow, Nat.cast_ofNat, ← zpow_natCast, ← zpow_natCast,
        ← zpow_add₀ two_ne_zero]
      congr 1
    _ ≤ largest := magnitudeOf_le_iff.mpr (by norm_num)

namespace Canonical

variable {m : Nat} {e : Int}

theorem exponent_le (h : Canonical m e) (hle : magnitudeOf m e ≤ largest) : e ≤ 971 := by
  have hnot := (canonical_largest.lt_iff h).not.mp hle.not_gt
  omega

/-- From a half on a mantissa has all its digits. -/
theorem full_of_half_le (h : Canonical m e) (hhalf : 1 / 2 ≤ magnitudeOf m e) : 2 ^ 52 ≤ m := by
  have hcanonical : Canonical (2 ^ 52) (-53) := ⟨by decide, by decide, .inr le_rfl⟩
  have hpower : magnitudeOf (2 ^ 52) (-53) = 1 / 2 := by
    unfold magnitudeOf
    norm_num
  have hnot := (h.lt_iff hcanonical).not.mp (by rw [hpower]; exact not_lt.mpr hhalf)
  exact h.normal.resolve_left (by omega)

end Canonical

/-! ## Order -/

/-- The test of two numbers compares their magnitudes. -/
theorem Shows.lt_iff {x y : Float} {v w : ℚ} (hx : Shows x v) (hy : Shows y w) :
    x < y ↔ v < w := by
  obtain ⟨m, e, hm, hx, rfl⟩ := hx
  obtain ⟨n, k, hn, hy, rfl⟩ := hy
  rw [lt_iff_unpacked, hx, hy, hm.lt_iff hn]
  have hleast := hm.least
  have hleast' := hn.least
  have hnormal := hm.normal
  have hnormal' := hn.normal
  rcases signed_cases .positive m e with ⟨hzero, hsigned⟩ | ⟨hpos, hsigned⟩ <;>
    rcases signed_cases .positive n k with ⟨hzero', hsigned'⟩ | ⟨hpos', hsigned'⟩ <;>
    rw [hsigned, hsigned']
  · exact iff_of_false Bool.false_ne_true (by omega)
  · exact iff_of_true rfl (by omega)
  · exact iff_of_false Bool.false_ne_true (by omega)
  · change ((some ((compare e k).then (compare m n)) == some .lt) = true) ↔ _
    rw [beq_iff_eq, Option.some_inj, Ordering.then_eq_lt, compare_lt_iff_lt, compare_eq_iff_eq,
      compare_lt_iff_lt]

/-! ## Results -/

/-- Is a number, with this sign, what a magnitude is rounded to? Where the format has no room for that it
is an infinity. -/
def Rounds (sign : Sign) (x : Float) (v : ℚ) : Prop :=
  ∃ m e, Rounded v m e ∧ unpacked x = stored (signed sign m e)

namespace Rounds

variable {sign : Sign} {x y : Float} {v w : ℚ}

/-- Rounding gives the same number every time. -/
theorem unpacked_eq (h : Rounds sign x v) (h' : Rounds sign y v) : unpacked x = unpacked y := by
  obtain ⟨m, e, hrounded, hx⟩ := h
  obtain ⟨n, k, hrounded', hy⟩ := h'
  obtain ⟨rfl, rfl⟩ := hrounded.unique hrounded'
  rw [hx, hy]

theorem exists_signed (h : Rounds sign x v) (hle : v ≤ largest) :
    ∃ m e, Rounded v m e ∧ unpacked x = signed sign m e := by
  obtain ⟨m, e, hrounded, hx⟩ := h
  have hroom := hrounded.canonical.exponent_le
    (hrounded.nearest.le_of_le canonical_largest.onGrid hle)
  exact ⟨m, e, hrounded, hx.trans (stored_of_storable (storable_signed hrounded.canonical hroom))⟩

theorem shows (h : Rounds .positive x v) (hle : v ≤ largest) : ∃ r, Nearest v r ∧ Shows x r := by
  obtain ⟨m, e, hrounded, hx⟩ := h.exists_signed hle
  exact ⟨_, hrounded.nearest, m, e, hrounded.canonical, hx, rfl⟩

/-- What is on the grid stays as it is. -/
theorem shows_self (h : Rounds .positive x v) (hv : OnGrid v) (hle : v ≤ largest) : Shows x v := by
  obtain ⟨r, hnearest, hshows⟩ := h.shows hle
  rwa [hnearest.eq_of_onGrid hv] at hshows

end Rounds

/-! ## Products -/

/-- If a factor has all its digits the product is rounded once. -/
theorem mul_rounded (s s' : Sign) {m n : Nat} {e k : Int} (hm : 0 < m) (hn : 0 < n)
    (hfull : 2 ^ 52 ≤ m ∨ 2 ^ 52 ≤ n) :
    ∃ m' e', Rounded (magnitudeOf m e * magnitudeOf n k) m' e' ∧
      UnpackedFloat.mul Format.binary64 (.finite s m e hm) (.finite s' n k hn) =
        signed (s * s') m' e' := by
  have hexact : magnitudeOf m e * magnitudeOf n k = ((m * n : Nat) : ℚ) * 2 ^ (e + k) := by
    unfold magnitudeOf
    rw [zpow_add₀ two_ne_zero]
    push_cast
    ring
  have hlog : 52 ≤ (m * n).log2 := by
    rw [Nat.le_log2 (Nat.mul_pos hm hn).ne']
    rcases hfull with hfull | hfull
    · exact hfull.trans (Nat.le_mul_of_pos_right m hn)
    · exact hfull.trans (Nat.le_mul_of_pos_left n hm)
  rw [hexact]
  exact roundWithAccuracy_rounded _ (.exact (m * n)) (by omega)

/-- A product with a number from a half on is rounded once. -/
theorem Shows.mul_rounds {x y : Float} {v w : ℚ} (hx : Shows x v) (hy : Shows y w)
    (hhalf : 1 / 2 ≤ v ∨ 1 / 2 ≤ w) : Rounds .positive (x * y) (v * w) := by
  obtain ⟨m, e, hcanonical, hread, rfl⟩ := hx
  obtain ⟨n, k, hcanonical', hread', rfl⟩ := hy
  have hfull := hhalf.imp hcanonical.full_of_half_le hcanonical'.full_of_half_le
  rcases Nat.eq_zero_or_pos m with rfl | hm
  · rw [magnitudeOf_zero, zero_mul]
    refine ⟨0, -1074, .zero, ?_⟩
    rw [unpacked_mul, hread, hread']
    rcases Nat.eq_zero_or_pos n with rfl | hn
    · rfl
    · rw [signed_zero, signed_of_pos hn]
      rfl
  rcases Nat.eq_zero_or_pos n with rfl | hn
  · rw [magnitudeOf_zero, mul_zero]
    refine ⟨0, -1074, .zero, ?_⟩
    rw [unpacked_mul, hread, hread', signed_of_pos hm, signed_zero]
    rfl
  rw [signed_of_pos hm] at hread
  rw [signed_of_pos hn] at hread'
  obtain ⟨m', e', hrounded, hmul⟩ := mul_rounded .positive .positive (e := e) (k := k) hm hn hfull
  refine ⟨m', e', hrounded, ?_⟩
  rw [unpacked_mul, hread, hread', hmul]
  rfl

/-- A product with a number from one on is a nearest number, if it is small enough. -/
theorem Shows.mul {x y : Float} {v w : ℚ} (hx : Shows x v) (hy : Shows y w) (hw : 1 ≤ w)
    (hle : v * w ≤ 2 ^ 53) : ∃ r, Nearest (v * w) r ∧ Shows (x * y) r :=
  (hx.mul_rounds hy (.inr (by linarith))).shows (hle.trans (two_pow_le_largest (by decide)))

/-! ## Whole numbers -/

theorem ofNat_eq_mul_one {n : Nat} (h : n < 2 ^ 53) : Float.ofNat n = n.toUInt64.toFloat * 1 := by
  change Float.ofScientific n false 0 = _
  unfold Float.ofScientific
  rw [dif_pos ⟨h, by decide⟩]
  rfl

theorem normalize_of_pos {n : Nat} (h : 0 < n) (e : Int) :
    UnpackedFloat.normalize Format.binary64 n e .positive =
      UnpackedFloat.round Format.binary64 .positive n e := by
  have hpos : compare (n : Int) 0 = .gt := compare_gt_iff_gt.mpr (by omega)
  unfold UnpackedFloat.normalize
  rw [hpos]
  rfl

theorem unpacked_toFloat {n : Nat} (h : n < 2 ^ 64) :
    unpacked n.toUInt64.toFloat = stored (UnpackedFloat.normalize Format.binary64 n 0 .positive) := by
  change stored (UnpackedFloat.normalize Format.binary64 (n.toUInt64.toNat) 0 .positive) = _
  rw [show n.toUInt64.toNat = n from Nat.mod_eq_of_lt h]

theorem shows_toFloat {n : Nat} (h : n < 2 ^ 53) : Shows n.toUInt64.toFloat n := by
  rcases Nat.eq_zero_or_pos n with rfl | hpos
  · exact shows_zero rfl
  · have hle : (n : ℚ) ≤ 2 ^ 53 := by exact_mod_cast h.le
    obtain ⟨m, e, hrounded, hround⟩ := round_rounded .positive 0 hpos
    rw [magnitudeOf_whole] at hrounded
    refine Rounds.shows_self ⟨m, e, hrounded, ?_⟩ (onGrid_natCast h)
      (hle.trans (two_pow_le_largest (by decide)))
    rw [unpacked_toFloat (by omega), normalize_of_pos hpos, hround]

/-- A whole number of at most 53 digits is exact. -/
theorem shows_ofNat {n : Nat} (h : n < 2 ^ 53) : Shows (Float.ofNat n) n := by
  have hle : (n : ℚ) ≤ 2 ^ 53 := by exact_mod_cast h.le
  obtain ⟨r, hnearest, hshows⟩ := (shows_toFloat h).mul shows_one le_rfl (by rwa [mul_one])
  rw [mul_one] at hnearest
  rw [ofNat_eq_mul_one h, ← hnearest.eq_of_onGrid (onGrid_natCast h)]
  exact hshows

/-! ## Signs -/

/-- Is a number not of this sign? Zeros and what is no number are of neither. -/
def Without (sign : Sign) : UnpackedFloat → Prop
  | .finite s .. | .infinity s => s ≠ sign
  | _ => True

theorem positive_ne_negative : Sign.positive ≠ Sign.negative := nofun

theorem lt_zero_iff (x : Float) : x < 0 ↔ ¬Without .negative (unpacked x) := by
  rw [lt_iff_unpacked]
  match unpacked x with
  | .notANumber | .zero _ => exact iff_of_false Bool.false_ne_true (not_not.mpr trivial)
  | .infinity .positive | .finite .positive .. =>
    exact iff_of_false Bool.false_ne_true (not_not.mpr positive_ne_negative)
  | .infinity .negative | .finite .negative .. => exact iff_of_true rfl (not_not.mpr rfl)

/-- No magnitude is less than what is not positive. -/
theorem Shows.not_lt_without {x y : Float} {v : ℚ} (hx : Shows x v)
    (hy : Without .positive (unpacked y)) : ¬x < y := by
  obtain ⟨m, e, -, hread, -⟩ := hx
  rw [lt_iff_unpacked, hread]
  generalize unpacked y = w at hy
  rcases signed_cases .positive m e with ⟨-, hsigned⟩ | ⟨hm, hsigned⟩ <;> rw [hsigned]
  all_goals
    cases w with
    | notANumber => exact Bool.false_ne_true
    | zero sign => exact Bool.false_ne_true
    | infinity sign =>
      cases sign with
      | positive => exact absurd rfl hy
      | negative => exact Bool.false_ne_true
    | finite sign m e hm =>
      cases sign with
      | positive => exact absurd rfl hy
      | negative => exact Bool.false_ne_true

/-- A number is not positive, or an infinity, or it has a magnitude. -/
theorem unpacked_cases (x : Float) : Without .positive (unpacked x) ∨
    unpacked x = .infinity .positive ∨ ∃ v, 0 < v ∧ Shows x v := by
  have hstorable := storable_unpacked x
  match hread : unpacked x with
  | .notANumber | .zero _ => exact .inl trivial
  | .infinity .negative | .finite .negative .. => exact .inl nofun
  | .infinity .positive => exact .inr (.inl rfl)
  | .finite .positive m e hm =>
    rw [hread] at hstorable
    refine .inr (.inr ⟨magnitudeOf m e, magnitudeOf_pos hm e, m, e, hstorable.1, ?_, rfl⟩)
    rw [hread, signed_of_pos hm]

namespace Without

variable {sign s : Sign}

theorem signed (h : s ≠ sign) (m : Nat) (e : Int) : Without sign (signed s m e) := by
  rcases signed_cases s m e with ⟨-, hsigned⟩ | ⟨hm, hsigned⟩
  · rw [hsigned]
    trivial
  · rw [hsigned]
    exact h

theorem stored {u : UnpackedFloat} (h : Without sign u) : Without sign (stored u) := by
  match u with
  | .notANumber => trivial
  | .infinity s =>
    rw [stored_infinity]
    exact h
  | .zero s =>
    rw [stored_zero]
    trivial
  | .finite s m e hm =>
    obtain ⟨biased, fraction, hfields⟩ := stored_finite_fields s e hm
    rw [hfields]
    unfold ofFields
    split_ifs
    · exact h
    · trivial
    · exact signed h ..
    · exact signed h ..

theorem mul {x y : Float} (hx : Without .negative (unpacked x))
    (hy : Without .negative (unpacked y)) : Without .negative (unpacked (x * y)) := by
  have hsign : ∀ {s t : Sign}, s ≠ .negative → t ≠ .negative → s * t ≠ .negative := by
    rintro (_ | _) (_ | _) hs ht <;> first | exact absurd rfl hs | exact absurd rfl ht | exact hs
  rw [unpacked_mul]
  apply stored
  generalize unpacked x = u at hx
  generalize unpacked y = w at hy
  fun_cases UnpackedFloat.mul Format.binary64 u w
  all_goals first | trivial | exact hsign hx hy | exact signed (hsign hx hy) ..

/-- Zero times a number is zero, or no number. -/
theorem mul_of_both {x : Float} (h : ∀ s, Without s (unpacked x)) (y : Float) :
    Without sign (unpacked (x * y)) := by
  rw [unpacked_mul]
  apply stored
  generalize unpacked x = u at h
  match u with
  | .notANumber => trivial
  | .infinity s | .finite s .. => exact absurd rfl (h s)
  | .zero s =>
    match unpacked y with
    | .notANumber | .infinity _ | .zero _ | .finite .. => trivial

theorem div {x y : Float} {v : ℚ} (hx : Without .negative (unpacked x)) (hy : Shows y v)
    (hv : 0 < v) : Without .negative (unpacked (x / y)) := by
  have hsign : ∀ {s : Sign}, s ≠ .negative → s / .positive ≠ .negative := by
    rintro (_ | _) hs
    · exact absurd rfl hs
    · exact hs
  obtain ⟨n, k, hn, -, hy, -⟩ := hy.unpacked_of_pos hv
  rw [unpacked_div, hy]
  apply stored
  generalize unpacked x = u at hx
  match u with
  | .notANumber | .zero _ => trivial
  | .infinity _ => exact hsign hx
  | .finite .. => exact signed (hsign hx) ..

/-- A root is never negative. -/
theorem sqrt (x : Float) : Without .negative (unpacked x.sqrt) := by
  rw [unpacked_sqrt]
  apply stored
  fun_cases UnpackedFloat.sqrt Format.binary64 (unpacked x)
  all_goals first | trivial | exact positive_ne_negative | exact signed positive_ne_negative ..

end Without

/-! ## Differences -/

theorem normalize_of_neg {n : Nat} (h : 0 < n) (e : Int) :
    UnpackedFloat.normalize Format.binary64 (-(n : Int)) e .positive =
      UnpackedFloat.round Format.binary64 .negative n e := by
  have hneg : compare (-(n : Int)) 0 = .lt := compare_lt_iff_lt.mpr (by omega)
  unfold UnpackedFloat.normalize
  rw [hneg]
  dsimp only
  rw [neg_neg]
  rfl

/-- A mantissa brought to a smaller unit is the same number. -/
theorem magnitudeOf_decrease (m : Nat) {e t : Int} (h : t ≤ e) :
    magnitudeOf (m <<< (e - t).toNat) t = magnitudeOf m e := by
  have hunit : e - ((e - t).toNat : Int) = t := by omega
  have hsame := magnitudeOf_mul_two_pow m e (e - t).toNat
  rwa [hunit, ← Nat.shiftLeft_eq] at hsame

/-- A difference is exact in the smaller unit of the two numbers, and then rounded. -/
theorem sub_finite {m n : Nat} {e k : Int} (hm : 0 < m) (hn : 0 < n) : ∃ (a b : Nat) (t : Int),
    magnitudeOf a t = magnitudeOf m e ∧ magnitudeOf b t = magnitudeOf n k ∧
      UnpackedFloat.sub Format.binary64 (.finite .positive m e hm) (.finite .positive n k hn) =
        UnpackedFloat.normalize Format.binary64 ((a : Int) - b) t .positive :=
  ⟨_, _, min e k, magnitudeOf_decrease m (min_le_left e k), magnitudeOf_decrease n (min_le_right e k),
    rfl⟩

theorem magnitudeOf_sub {a b : Nat} (h : b ≤ a) (t : Int) :
    magnitudeOf (a - b) t = magnitudeOf a t - magnitudeOf b t := by
  unfold magnitudeOf
  rw [Nat.cast_sub h, sub_mul]

/-- A difference of two magnitudes is rounded, and it is negative if the second is the larger. -/
theorem Shows.sub_rounds {x y : Float} {v w : ℚ} (hx : Shows x v) (hy : Shows y w) (hv : 0 < v)
    (hw : 0 < w) : w ≤ v ∧ Rounds .positive (x - y) (v - w) ∨
      v < w ∧ Rounds .negative (x - y) (w - v) := by
  obtain ⟨m, e, hm, -, hread, rfl⟩ := hx.unpacked_of_pos hv
  obtain ⟨n, k, hn, -, hread', rfl⟩ := hy.unpacked_of_pos hw
  obtain ⟨a, b, t, ha, hb, hsub⟩ := sub_finite (e := e) (k := k) hm hn
  rw [← ha, ← hb, ← not_le, magnitudeOf_le_iff, not_le]
  rcases lt_trichotomy a b with hlt | rfl | hgt
  · right
    have hpos : 0 < b - a := Nat.sub_pos_of_lt hlt
    obtain ⟨m', e', hrounded, hround⟩ := round_rounded .negative t hpos
    rw [magnitudeOf_sub hlt.le] at hrounded
    refine ⟨hlt, m', e', hrounded, ?_⟩
    rw [unpacked_sub, hread, hread', hsub, show (a : Int) - b = -((b - a : Nat) : Int) by omega,
      normalize_of_neg hpos, hround]
  · left
    have hnone : UnpackedFloat.normalize Format.binary64 0 t .positive = .zero .positive := rfl
    rw [sub_self (magnitudeOf a t)]
    refine ⟨le_rfl, 0, -1074, .zero, ?_⟩
    rw [unpacked_sub, hread, hread', hsub, sub_self, hnone]
    rfl
  · left
    have hpos : 0 < a - b := Nat.sub_pos_of_lt hgt
    obtain ⟨m', e', hrounded, hround⟩ := round_rounded .positive t hpos
    rw [magnitudeOf_sub hgt.le] at hrounded
    refine ⟨hgt.le, m', e', hrounded, ?_⟩
    rw [unpacked_sub, hread, hread', hsub, show (a : Int) - b = ((a - b : Nat) : Int) by omega,
      normalize_of_pos hpos, hround]

/-- What is left of a magnitude is no more than there was, also where it is rounded. -/
theorem Shows.sub_shows {x y : Float} {v w : ℚ} (hx : Shows x v) (hy : Shows y w) (hv : 0 < v)
    (hw : 0 < w) : Without .positive (unpacked (x - y)) ∨ ∃ r ≤ v, Shows (x - y) r := by
  rcases hx.sub_rounds hy hv hw with ⟨-, hrounds⟩ | ⟨-, m, e, -, hread⟩
  · right
    have hless : v - w ≤ v := by linarith
    obtain ⟨r, hnearest, hshows⟩ := hrounds.shows (hless.trans hx.le_largest)
    exact ⟨r, hnearest.le_of_le hx.onGrid hless, hshows⟩
  · left
    rw [hread]
    exact (Without.signed positive_ne_negative.symm ..).stored

/-- Of a magnitude no more is left than there was, whatever is taken away that is not negative. -/
theorem Shows.sub {x y : Float} {v : ℚ} (hx : Shows x v) (hv : 0 < v)
    (hy : Without .negative (unpacked y)) :
    Without .positive (unpacked (x - y)) ∨ ∃ r ≤ v, Shows (x - y) r := by
  obtain ⟨m, e, hm, -, hread, -⟩ := hx.unpacked_of_pos hv
  rcases unpacked_cases y with hnone | hinfinite | ⟨w, hw, hshows⟩
  · match hread' : unpacked y with
    | .notANumber =>
      left
      rw [unpacked_sub, hread, hread']
      apply Without.stored
      trivial
    | .zero _ =>
      have hsame : unpacked (x - y) = unpacked x := by
        rw [unpacked_sub, hread']
        conv_rhs => rw [← stored_of_storable (storable_unpacked x)]
        rw [hread]
        rfl
      obtain ⟨m, e, hcanonical, hread, heq⟩ := hx
      exact .inr ⟨v, le_rfl, m, e, hcanonical, hsame.trans hread, heq⟩
    | .infinity .negative | .finite .negative .. =>
      rw [hread'] at hy
      exact absurd rfl hy
    | .infinity .positive | .finite .positive .. =>
      rw [hread'] at hnone
      exact absurd rfl hnone
  · left
    rw [unpacked_sub, hread, hinfinite]
    exact Without.stored positive_ne_negative.symm
  · exact hx.sub_shows hshows hv hw

/-- Of nothing no more is left than nothing. -/
theorem Without.sub {x y : Float} (hx : ∀ s, Without s (unpacked x))
    (hy : Without .negative (unpacked y)) : Without .positive (unpacked (x - y)) := by
  rw [unpacked_sub]
  apply Without.stored
  generalize unpacked x = u at hx
  generalize unpacked y = w at hy
  match u with
  | .notANumber => trivial
  | .infinity s | .finite s .. => exact absurd rfl (hx s)
  | .zero s =>
    match w with
    | .notANumber => trivial
    | .zero t => cases s <;> cases t <;> trivial
    | .infinity .positive | .finite .positive .. => exact positive_ne_negative.symm
    | .infinity .negative | .finite .negative .. => exact absurd rfl hy

/-! ## Counts -/

theorem divHalfUp_eq_floor (num : Nat) {den : Nat} (hden : 0 < den) :
    Binary64.divHalfUp num den = ⌊(num / den : ℚ) + 1 / 2⌋₊ := by
  have hhalf : (num / den : ℚ) + 1 / 2 = ((2 * num + den : ℕ) : ℚ) / ((2 * den : ℕ) : ℚ) := by
    have hden : (den : ℚ) ≠ 0 := by exact_mod_cast hden.ne'
    push_cast
    field_simp
  rw [hhalf, Nat.floor_div_eq_div]
  rfl

theorem magnitude_eq (m : Nat) (e : Int) : 0 < (Binary64.magnitude m e).2 ∧
    ((Binary64.magnitude m e).1 / (Binary64.magnitude m e).2 : ℚ) = magnitudeOf m e := by
  unfold Binary64.magnitude magnitudeOf
  split
  · obtain ⟨k, rfl⟩ := Int.eq_ofNat_of_zero_le ‹0 ≤ e›
    refine ⟨Nat.one_pos, ?_⟩
    simp
  · obtain ⟨k, hk⟩ := Int.eq_ofNat_of_zero_le (show 0 ≤ -e by omega)
    refine ⟨Nat.two_pow_pos _, ?_⟩
    rw [show e = -(k : Int) by omega, zpow_neg, zpow_natCast, div_eq_mul_inv]
    simp

/-- The count of a magnitude is its nearest whole number, as far as a count goes. -/
theorem nearestCount_of_finite {x : Float} {m : Nat} {e : Int}
    (h : Binary64.ofFloat x = .finite false m e) :
    nearestCount x = min ⌊magnitudeOf m e + 1 / 2⌋₊ maxCount := by
  obtain ⟨hden, hvalue⟩ := magnitude_eq m e
  rw [nearestCount, h, ← hvalue, ← divHalfUp_eq_floor _ hden]

theorem Shows.nearestCount_eq {x : Float} {v : ℚ} (h : Shows x v) :
    nearestCount x = min ⌊v + 1 / 2⌋₊ maxCount := by
  obtain ⟨m, e, hcanonical, hx, rfl⟩ := h
  refine nearestCount_of_finite ?_
  rw [Binary64.ofFloat_eq]
  exact (congrArg Binary64.ofUnpacked hx).trans (Binary64.ofUnpacked_signed hcanonical)

theorem nearestCount_congr {x y : Float} (h : unpacked x = unpacked y) :
    nearestCount x = nearestCount y := by
  have hx : Binary64.ofFloat x = Binary64.ofUnpacked (unpacked x) := Binary64.ofFloat_eq x
  have hy : Binary64.ofFloat y = Binary64.ofUnpacked (unpacked y) := Binary64.ofFloat_eq y
  rw [nearestCount, nearestCount, hx, hy, h]

/-- What is no more than zero, or no number, counts for nothing. -/
theorem nearestCount_of_without {x : Float} (h : Without .positive (unpacked x)) :
    nearestCount x = 0 := by
  have hread : Binary64.ofFloat x = Binary64.ofUnpacked (unpacked x) := Binary64.ofFloat_eq x
  generalize unpacked x = u at h hread
  match u with
  | .infinity .positive | .finite .positive .. => exact absurd rfl h
  | .zero .positive =>
    rw [nearestCount_of_finite hread, magnitudeOf_zero]
    norm_num
  | .notANumber | .infinity .negative | .finite .negative .. | .zero .negative =>
    rw [nearestCount, hread]
    rfl

end Throughput
