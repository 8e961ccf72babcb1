import Throughput.Proofs.Number.Arithmetic

/-!
# The order of binary64 numbers

Finite numbers are compared by the values that they stand for. So on them the order is total, which it
is not where a number may be none.
-/

namespace Throughput

open Float.Model Float.Model.UnpackedFloat

/-- Canonical numbers are compared by their exponents, and by their mantissas where these are equal. -/
theorem Canonical.compare_magnitudeOf {m n : Nat} {e k : Int} (h : Canonical m e)
    (h' : Canonical n k) :
    compare (magnitudeOf m e) (magnitudeOf n k) = (compare e k).then (compare m n) := by
  rcases lt_trichotomy (magnitudeOf m e) (magnitudeOf n k) with hlt | heq | hgt
  · rw [compare_lt_iff_lt.mpr hlt, eq_comm, Ordering.then_eq_lt, compare_lt_iff_lt,
      compare_eq_iff_eq, compare_lt_iff_lt]
    exact (h.lt_iff h').mp hlt
  · obtain ⟨rfl, rfl⟩ := h.eq_of_magnitudeOf h' heq
    rw [compare_eq_iff_eq.mpr heq, compare_eq_iff_eq.mpr rfl, compare_eq_iff_eq.mpr rfl]
    rfl
  · rw [compare_gt_iff_gt.mpr hgt, eq_comm, Ordering.then_eq_gt, compare_gt_iff_gt,
      compare_eq_iff_eq, compare_gt_iff_gt]
    exact ((h'.lt_iff h).mp hgt).imp id fun heq => ⟨heq.1.symm, heq.2⟩

theorem compare_neg_neg (p q : ℚ) : compare (-p) (-q) = (compare p q).swap := by
  rcases lt_trichotomy p q with hlt | rfl | hgt
  · rw [compare_lt_iff_lt.mpr hlt, compare_gt_iff_gt.mpr (neg_lt_neg hlt)]
    rfl
  · rw [compare_eq_iff_eq.mpr rfl, compare_eq_iff_eq.mpr rfl]
    rfl
  · rw [compare_gt_iff_gt.mpr hgt, compare_lt_iff_lt.mpr (neg_lt_neg hgt)]
    rfl

/-- The value of an unpacked number, if it is finite. -/
def valueOf : UnpackedFloat → ℚ
  | .finite .positive m e _ => magnitudeOf m e
  | .finite .negative m e _ => -magnitudeOf m e
  | _ => 0

/-- Finite numbers are compared by their values. -/
theorem compare_of_isFinite {u w : UnpackedFloat} (hu : Storable u) (hw : Storable w)
    (hu' : u.isFinite) (hw' : w.isFinite) :
    u.compare w = some (compare (valueOf u) (valueOf w)) := by
  match u, w with
  | .notANumber, _ | .infinity _, _ => nomatch hu'
  | _, .notANumber | _, .infinity _ => nomatch hw'
  | .zero _, .zero _ =>
    exact congrArg some (compare_eq_iff_eq.mpr rfl).symm
  | .zero _, .finite .positive n k hn =>
    exact congrArg some (compare_lt_iff_lt.mpr (magnitudeOf_pos hn k)).symm
  | .zero _, .finite .negative n k hn =>
    exact congrArg some (compare_gt_iff_gt.mpr (neg_neg_of_pos (magnitudeOf_pos hn k))).symm
  | .finite .positive m e hm, .zero _ =>
    exact congrArg some (compare_gt_iff_gt.mpr (magnitudeOf_pos hm e)).symm
  | .finite .negative m e hm, .zero _ =>
    exact congrArg some (compare_lt_iff_lt.mpr (neg_neg_of_pos (magnitudeOf_pos hm e))).symm
  | .finite .positive m e hm, .finite .negative n k hn =>
    have hlt := (neg_neg_of_pos (magnitudeOf_pos hn k)).trans (magnitudeOf_pos hm e)
    exact congrArg some (compare_gt_iff_gt.mpr hlt).symm
  | .finite .negative m e hm, .finite .positive n k hn =>
    have hlt := (neg_neg_of_pos (magnitudeOf_pos hm e)).trans (magnitudeOf_pos hn k)
    exact congrArg some (compare_lt_iff_lt.mpr hlt).symm
  | .finite .positive m e hm, .finite .positive n k hn =>
    exact congrArg some (hu.1.compare_magnitudeOf hw.1).symm
  | .finite .negative m e hm, .finite .negative n k hn =>
    have hcompare : compare (-magnitudeOf m e) (-magnitudeOf n k) =
        ((compare e k).then (compare m n)).swap := by
      rw [compare_neg_neg, hu.1.compare_magnitudeOf hw.1]
    exact congrArg some hcompare.symm

/-- The value of a number, if it is finite. -/
def value (x : Float) : ℚ := valueOf (unpacked x)

section Finite

variable {x y : Float} (hx : x.isFinite) (hy : y.isFinite)

include hx hy

theorem compare_value : (unpacked x).compare (unpacked y) = some (compare (value x) (value y)) :=
  compare_of_isFinite (storable_unpacked x) (storable_unpacked y) hx hy

theorem lt_iff_value : x < y ↔ value x < value y := by
  rw [lt_iff_unpacked, UnpackedFloat.lt, compare_value hx hy]
  simp [compare_lt_iff_lt]

theorem le_iff_value : x ≤ y ↔ value x ≤ value y := by
  have hle : x ≤ y ↔ (unpacked x).le (unpacked y) = true := by
    change decide (x.toModel ≤ y.toModel) = true ↔ _
    exact decide_eq_true_iff
  rw [hle, UnpackedFloat.le, compare_value hx hy]
  simp [Ordering.isLE_iff_ne_gt, compare_gt_iff_gt]

end Finite

/-- A finite number is a number, and no infinity. -/
theorem isNaN_isInf_of_isFinite {x : Float} (h : x.isFinite) : x.isNaN = false ∧ x.isInf = false := by
  change (unpacked x).isFinite = true at h
  change (unpacked x).isNaN = false ∧ (unpacked x).isInf = false
  match hread : unpacked x with
  | .notANumber | .infinity _ =>
    rw [hread] at h
    nomatch h
  | .zero _ | .finite .. => exact ⟨rfl, rfl⟩

end Throughput
