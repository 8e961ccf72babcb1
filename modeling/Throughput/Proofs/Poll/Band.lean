import Throughput.Poll.Estimate
import Throughput.Proofs.Number.Arithmetic

/-!
# The band around an estimate

A share is clamped, multiplied by the tracked count and rounded, and each of these steps keeps the
order. So the lower bound stays below the estimate and all three stay below the tracked count, however
the arithmetic rounds on the way.
-/

namespace Throughput

open Float.Model Float.Model.UnpackedFloat

/-! ## Shares -/

/-- The share between zero and one that a number stands for. -/
def shareOf : UnpackedFloat → ℚ
  | .finite .positive m e _ => min 1 (magnitudeOf m e)
  | .infinity .positive => 1
  | _ => 0

theorem shareOf_le_one (u : UnpackedFloat) : shareOf u ≤ 1 := by
  unfold shareOf
  split
  · exact min_le_left ..
  · exact le_rfl
  · exact zero_le_one

theorem shareOf_nonneg (u : UnpackedFloat) : 0 ≤ shareOf u := by
  unfold shareOf
  split
  · rename_i m e hm
    exact le_min zero_le_one (magnitudeOf_pos hm e).le
  · exact zero_le_one
  · exact le_rfl

theorem shareOf_of_without {u : UnpackedFloat} (h : Without .positive u) : shareOf u = 0 := by
  match u with
  | .notANumber | .zero _ | .infinity .negative | .finite .negative .. => rfl
  | .infinity .positive | .finite .positive .. => exact absurd rfl h

theorem Shows.shareOf_eq {x : Float} {v : ℚ} (h : Shows x v) : shareOf (unpacked x) = min 1 v := by
  obtain ⟨m, e, -, hread, rfl⟩ := h
  rw [hread]
  rcases signed_cases .positive m e with ⟨rfl, -⟩ | ⟨hm, hsigned⟩
  · rw [magnitudeOf_zero, min_eq_right zero_le_one]
    rfl
  · rw [hsigned]
    rfl

/-- A number without a sign is zero or none at all. -/
theorem without_both {u : UnpackedFloat} (h : Without .negative u) (h' : Without .positive u) :
    ∀ sign, Without sign u
  | .negative => h
  | .positive => h'

/-- What is taken away from a share leaves no more of it. -/
theorem shareOf_sub_le {x y : Float} (hx : Without .negative (unpacked x))
    (hy : Without .negative (unpacked y)) : shareOf (unpacked (x - y)) ≤ shareOf (unpacked x) := by
  rcases unpacked_cases x with hnone | hinfinite | ⟨v, hv, hshows⟩
  · rw [shareOf_of_without (Without.sub (without_both hx hnone) hy)]
    exact shareOf_nonneg _
  · rw [hinfinite]
    exact shareOf_le_one _
  · rcases hshows.sub hv hy with hnone | ⟨r, hle, hrest⟩
    · rw [shareOf_of_without hnone]
      exact shareOf_nonneg _
    · rw [hrest.shareOf_eq, hshows.shareOf_eq]
      exact min_le_min_left 1 hle

/-- A clamped share is zero or no number where there is no share, and otherwise exactly the share. -/
theorem clampShare_cases (x : Float) :
    (shareOf (unpacked x) = 0 ∧ ∀ sign, Without sign (unpacked (Estimate.clampShare x))) ∨
    0 < shareOf (unpacked x) ∧ Shows (Estimate.clampShare x) (shareOf (unpacked x)) := by
  unfold Estimate.clampShare
  rcases unpacked_cases x with hnone | hinfinite | ⟨v, hv, hshows⟩
  · refine .inl ⟨shareOf_of_without hnone, ?_⟩
    rw [if_neg (shows_one.not_lt_without hnone)]
    split
    · intro sign
      trivial
    · rename_i hless
      rw [lt_zero_iff, not_not] at hless
      exact without_both hless hnone
  · right
    have hless : ¬x < 0 := by
      rw [lt_zero_iff, hinfinite, not_not]
      exact positive_ne_negative
    have hmore : 1 < x := by
      rw [lt_iff_unpacked, hinfinite]
      rfl
    rw [if_neg hless, if_pos hmore, hinfinite]
    exact ⟨zero_lt_one, shows_one⟩
  · have hless : ¬x < 0 := by
      rw [hshows.lt_iff (shows_zero rfl)]
      exact not_lt.mpr hv.le
    rw [hshows.shareOf_eq, if_neg hless]
    refine .inr ⟨lt_min zero_lt_one hv, ?_⟩
    split
    · rename_i hmore
      rw [min_eq_left ((shows_one.lt_iff hshows).mp hmore).le]
      exact shows_one
    · rename_i hmore
      rw [min_eq_right (not_lt.mp ((shows_one.lt_iff hshows).not.mp hmore))]
      exact hshows

/-! ## Counts of shares -/

section Counts

variable {x y : Float} {tracked : Nat}

theorem nearestCount_of_none (tracked : Nat) (h : shareOf (unpacked x) = 0) :
    nearestCount (Estimate.clampShare x * Float.ofNat tracked) = 0 := by
  have hboth := ((clampShare_cases x).resolve_right fun hshare => hshare.1.ne' h).2
  exact nearestCount_of_without (Without.mul_of_both hboth _)

theorem shows_clampShare (h : 0 < shareOf (unpacked x)) :
    Shows (Estimate.clampShare x) (shareOf (unpacked x)) :=
  ((clampShare_cases x).resolve_left fun hnone => h.ne' hnone.1).2

/-- A share is multiplied and rounded twice, to the grid and to a whole number. -/
theorem nearestCount_share (hpos : 0 < tracked) (ht : tracked < 2 ^ 53)
    (h : 0 < shareOf (unpacked x)) : ∃ r, Nearest (shareOf (unpacked x) * tracked) r ∧
      nearestCount (Estimate.clampShare x * Float.ofNat tracked) = min ⌊r + 1 / 2⌋₊ maxCount := by
  have hone : (1 : ℚ) ≤ tracked := by exact_mod_cast hpos
  have hle : shareOf (unpacked x) * tracked ≤ 2 ^ 53 :=
    calc shareOf (unpacked x) * tracked ≤ 1 * tracked :=
          mul_le_mul_of_nonneg_right (shareOf_le_one _) (zero_le_one.trans hone)
      _ ≤ 2 ^ 53 := by
        rw [one_mul]
        exact_mod_cast ht.le
  obtain ⟨r, hnearest, hproduct⟩ := (shows_clampShare h).mul (shows_ofNat ht) hone hle
  exact ⟨r, hnearest, hproduct.nearestCount_eq⟩

/-- The count of a share grows with the share. -/
theorem nearestCount_mono (hpos : 0 < tracked) (ht : tracked < 2 ^ 53)
    (hle : shareOf (unpacked x) ≤ shareOf (unpacked y)) :
    nearestCount (Estimate.clampShare x * Float.ofNat tracked) ≤
      nearestCount (Estimate.clampShare y * Float.ofNat tracked) := by
  rcases (shareOf_nonneg (unpacked x)).eq_or_lt with hnone | hx
  · rw [nearestCount_of_none tracked hnone.symm]
    exact Nat.zero_le _
  have hy := hx.trans_le hle
  rcases hle.lt_or_eq with hlt | heq
  · obtain ⟨r, hr, hcount⟩ := nearestCount_share hpos ht hx
    obtain ⟨q, hq, hcount'⟩ := nearestCount_share hpos ht hy
    have hless := mul_lt_mul_of_pos_right hlt (show (0 : ℚ) < tracked by exact_mod_cast hpos)
    have horder : r ≤ q := hr.mono hq hless
    rw [hcount, hcount']
    exact min_le_min_right _ (Nat.floor_mono (by linarith))
  · -- a tie between two nearest numbers would tell nothing: equal shares are one number
    have hsame := (shows_clampShare hx).unpacked_eq (heq ▸ shows_clampShare hy)
    have hread : unpacked (Estimate.clampShare x * Float.ofNat tracked) =
        unpacked (Estimate.clampShare y * Float.ofNat tracked) := by
      rw [unpacked_mul, unpacked_mul, hsame]
    exact (nearestCount_congr hread).le

/-- No share counts for more than all. -/
theorem nearestCount_le (x : Float) (hpos : 0 < tracked) (ht : tracked < 2 ^ 53) :
    nearestCount (Estimate.clampShare x * Float.ofNat tracked) ≤ tracked := by
  rcases (shareOf_nonneg (unpacked x)).eq_or_lt with hnone | hshare
  · rw [nearestCount_of_none tracked hnone.symm]
    exact Nat.zero_le _
  · obtain ⟨r, hnearest, hcount⟩ := nearestCount_share hpos ht hshare
    have hall : shareOf (unpacked x) * tracked ≤ tracked :=
      mul_le_of_le_one_left tracked.cast_nonneg (shareOf_le_one _)
    have hle : r ≤ tracked := hnearest.le_of_le (onGrid_natCast ht) hall
    have hfloor : ⌊r + 1 / 2⌋₊ < tracked + 1 := by
      rw [Nat.floor_lt' (by omega)]
      push_cast
      linarith
    rw [hcount]
    omega

end Counts

/-! ## The estimate -/

namespace Estimate

/-- What an estimate has to be: between what is known to be included and what is tracked. -/
structure Brackets (e : Estimate) (known : Nat) : Prop where
  known_le : known ≤ e.lower
  lower_le : e.lower ≤ e.included
  le_upper : e.included ≤ e.upper
  upper_le : e.upper ≤ e.tracked

theorem counted_brackets {tracked known : Nat} (h : known ≤ tracked) :
    (counted tracked known).Brackets known :=
  ⟨le_rfl, le_rfl, le_rfl, h⟩

theorem margin_without (tracked sampleSize : Nat) (share : Float) :
    Without .negative (unpacked (margin tracked sampleSize share)) :=
  Without.mul (by exact positive_ne_negative) (Without.sqrt _)

theorem ratio_without {hits sampleSize : Nat} (hpos : 0 < sampleSize) (hs : sampleSize < 2 ^ 53)
    (hh : hits < 2 ^ 53) :
    Without .negative (unpacked (Float.ofNat hits / Float.ofNat sampleSize)) := by
  obtain ⟨m, e, -, hread, -⟩ := shows_ofNat hh
  refine Without.div ?_ (shows_ofNat hs) (by exact_mod_cast hpos)
  rw [hread]
  exact Without.signed positive_ne_negative m e

/-- Whatever the arithmetic gives, no bound falls below what is known. -/
theorem known_le_sampled (tracked sampleSize hits known : Nat) :
    let e := sampled tracked sampleSize hits known
    known ≤ e.lower ∧ known ≤ e.included ∧ e.included ≤ e.upper := by
  unfold sampled
  split
  · exact ⟨le_rfl, le_rfl, le_rfl⟩
  · exact ⟨le_max_right .., le_max_right .., le_max_right ..⟩

/-- The band of a sampled estimate holds what is known, and stays within what is tracked. -/
theorem sampled_brackets {tracked sampleSize hits known : Nat} (ht : tracked < 2 ^ 53)
    (hs : sampleSize ≤ tracked) (hh : hits ≤ sampleSize) (hk : known ≤ tracked) :
    (sampled tracked sampleSize hits known).Brackets known := by
  unfold sampled
  split
  · exact ⟨le_rfl, le_rfl, le_rfl, hk⟩
  · have hpos : 0 < tracked := by omega
    have hle : ∀ share, project tracked known share ≤ tracked := fun share =>
      max_le (nearestCount_le share hpos ht) hk
    have hshare : Without .negative (unpacked (Float.ofNat hits / Float.ofNat sampleSize)) :=
      ratio_without (by omega) (by omega) (by omega)
    refine ⟨le_max_right .., max_le_max_right _ ?_, le_max_right .., max_le (hle _) (hle _)⟩
    exact nearestCount_mono hpos ht (shareOf_sub_le hshare (margin_without ..))

example : sampled 10 4 2 3 =
    { tracked := 10, included := 5, lower := 3, upper := 9, sampleSize := 4 } := by decide +kernel

end Estimate

end Throughput
