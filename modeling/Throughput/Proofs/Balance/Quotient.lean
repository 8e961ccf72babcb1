import Throughput.Proofs.Balance.Delta
import Throughput.Proofs.Number.Scientific

/-!
# The quotient of two gains

A check on a ratio sees nothing of two gains but their quotient in millionths, rounded down. It has one
result for all gains in one ratio, wherever the balances start, and what it observes does not go down
where the numerator gains more.
-/

namespace Throughput

variable {before after before' after' : List Snapshot} {a b : Address} {n d n' d' : Nat}

/-- Is an account in both lists of snapshots, and has its balance grown by a number? -/
def Gains (before after : List Snapshot) (a : Address) (n : Nat) : Prop :=
  0 < n ∧ ∃ change, delta before after a = .ok change ∧ change.change = n

/-- A balance that has grown gains the number as a word. -/
theorem Gains.gain (h : Gains before after a n) : ∃ change gained,
    delta before after a = .ok change ∧ change.gain = some gained ∧ gained.toNat = n := by
  obtain ⟨hn, change, hdelta, hchange⟩ := h
  obtain ⟨gained, hgained⟩ := Option.isSome_iff_exists.mp
    (BalanceDelta.isSome_gain_iff.mpr (by omega : 0 < change.change))
  have hsize := (BalanceDelta.gain_eq_some_iff.mp hgained).2
  exact ⟨change, gained, hdelta, hgained, by omega⟩

/-- Two accounts that have gained are judged. -/
theorem Check.evaluate_gains {check : Check} {target tolerance : Float}
    (hratio : check.expectation = .ratio a b target tolerance) (ha : Gains before after a n)
    (hb : Gains before after b d) : ∃ x y : Amount, x.toNat = n ∧ y.toNat = d ∧
      check.evaluate before after = judgeRatio check.label target tolerance x y := by
  obtain ⟨_, x, hdelta, hgain, hx⟩ := ha.gain
  obtain ⟨_, y, hdelta', hgain', hy⟩ := hb.gain
  exact ⟨x, y, hx, hy, evaluate_ratio hratio hdelta hdelta' hgain hgain'⟩

theorem judgeRatio_observed (label : String) (target tolerance : Float) (x y : Amount) :
    (judgeRatio label target tolerance x y).observed = (scaledRatio x y).map observedRatio := by
  cases h : scaledRatio x y with
  | none =>
    rw [judgeRatio_none h]
    rfl
  | some scaled =>
    obtain ⟨rest, hjudged⟩ := judgeRatio_some h label target tolerance
    rw [hjudged]
    rfl

/-! ## Larger gains -/

/-- The quotient in millionths does not go down as the numerator grows, and it comes into range where it
was out of it only as the numerator goes down. -/
theorem scaledRatio_mono {x x' y : Amount} (hle : x.toNat ≤ x'.toNat) {q' : Nat}
    (hq' : scaledRatio x' y = some q') : ∃ q ≤ q', scaledRatio x y = some q := by
  have hscaled : x.toNat * ratioScale ≤ x'.toNat * ratioScale := Nat.mul_le_mul_right _ hle
  have hquotient := Nat.div_le_div_right (c := y.toNat) hscaled
  unfold scaledRatio at hq' ⊢
  dsimp only at hq' ⊢
  rw [Option.ite_none_right_eq_some] at hq'
  obtain ⟨⟨hfits, hroom⟩, hsame⟩ := hq'
  refine ⟨_, hquotient.trans_eq (Option.some_inj.mp hsame), ?_⟩
  rw [if_pos ⟨hscaled.trans_lt hfits, hquotient.trans_lt hroom⟩]

theorem scaledRatio_lt {x y : Amount} {q : Nat} (h : scaledRatio x y = some q) : q < 2 ^ 128 := by
  unfold scaledRatio at h
  dsimp only at h
  rw [Option.ite_none_right_eq_some] at h
  obtain ⟨⟨-, hroom⟩, hsame⟩ := h
  rw [← Option.some_inj.mp hsame]
  exact hroom

/-- What is reported is rounded twice, and keeps the order. -/
theorem observedRatio_mono {q q' : Nat} (hle : q ≤ q') (hroom : q' < 2 ^ 128) :
    ∃ p p', p ≤ p' ∧ Shows (observedRatio q) p ∧ Shows (observedRatio q') p' := by
  have hscale : Shows (Float.ofNat ratioScale) ratioScale := shows_ofNat (by decide)
  have hone : (1 : ℚ) ≤ ratioScale := by exact_mod_cast (by decide : 1 ≤ ratioScale)
  have hlargest : (q' : ℚ) ≤ largest :=
    le_trans (by exact_mod_cast hroom.le) (two_pow_le_largest (by decide : 128 ≤ 1023))
  obtain ⟨r, r', hr, hshows, hshows'⟩ :=
    (ofNat_rounds q).mono (ofNat_rounds q') (by exact_mod_cast hle) hlargest
  exact (hshows.div_rounds hscale (by linarith)).mono (hshows'.div_rounds hscale (by linarith))
    (div_le_div_of_nonneg_right hr (by linarith))
    ((div_le_self hshows'.nonneg hone).trans hshows'.le_largest)

/-- Pairs of gains in one ratio have one result, wherever the balances start. For one gain of the
denominator, what is observed does not go down as the numerator gains more: neither the quotient in
millionths nor the number that it is reported as. -/
theorem Check.ratio_of_quotient {check : Check} {a b : Address} {target tolerance : Float}
    (hratio : check.expectation = .ratio a b target tolerance) :
    (∀ (before after before' after' : List Snapshot) (n d n' d' : Nat),
      Gains before after a n → Gains before after b d →
      Gains before' after' a n' → Gains before' after' b d' →
      n * d' = n' * d → n * ratioScale < 2 ^ 256 → n' * ratioScale < 2 ^ 256 →
      check.evaluate before after = check.evaluate before' after') ∧
    (∀ (x x' y : Amount) (q' : Nat), x.toNat ≤ x'.toNat → scaledRatio x' y = some q' →
      ∃ q ≤ q', scaledRatio x y = some q) ∧
    ∀ (before after before' after' : List Snapshot) (n n' d : Nat),
      Gains before after a n → Gains before after b d →
      Gains before' after' a n' → Gains before' after' b d →
      n ≤ n' → ∀ r', (check.evaluate before' after').observed = some r' →
      ∃ r ≤ r', (check.evaluate before after).observed = some r := by
  refine ⟨?_, fun x x' y q' hle => scaledRatio_mono hle, ?_⟩
  · intro before after before' after' n d n' d' ha hb ha' hb' hsame hfits hfits'
    obtain ⟨x, y, rfl, rfl, hresult⟩ := evaluate_gains hratio ha hb
    obtain ⟨x', y', rfl, rfl, hresult'⟩ := evaluate_gains hratio ha' hb'
    rw [hresult, hresult']
    exact judgeRatio_congr (scaledRatio_congr hb.1 hb'.1 hsame hfits hfits') ..
  · intro before after before' after' n n' d ha hb ha' hb' hle r' hr'
    obtain ⟨x, y, rfl, hy, hresult⟩ := evaluate_gains hratio ha hb
    obtain ⟨x', y', rfl, hy', hresult'⟩ := evaluate_gains hratio ha' hb'
    obtain rfl : y = y' := BitVec.eq_of_toNat_eq (hy.trans hy'.symm)
    rw [hresult', judgeRatio_observed, Option.map_eq_some_iff] at hr'
    obtain ⟨q', hq', rfl⟩ := hr'
    obtain ⟨q, hqle, hq⟩ := scaledRatio_mono hle hq'
    obtain ⟨p, p', hp, hshows, hshows'⟩ := observedRatio_mono hqle (scaledRatio_lt hq')
    refine ⟨_, (hshows.le_iff hshows').mpr hp, ?_⟩
    rw [hresult, judgeRatio_observed, hq, Option.map_some]

/-- Gains of 200 and 100 are judged as gains of 2 and 1 are, and a gain of 3 to 1 is not observed as
less. -/
theorem Check.ratio_of_quotient_two :
    let check : Check := .ratio "fee split" 1 2 2
    let result := check.evaluate [⟨1, 1000⟩, ⟨2, 500⟩] [⟨1, 1200⟩, ⟨2, 600⟩]
    result = check.evaluate [⟨1, 0⟩, ⟨2, 0⟩] [⟨1, 2⟩, ⟨2, 1⟩] ∧
      scaledRatio 200 100 = some 2_000_000 ∧
      ∃ r ≤ observedRatio 3_000_000, result.observed = some r := by
  intro check result
  have hgains : ∀ {before after : List Snapshot} {a : Address} {change : BalanceDelta} (n : Nat),
      0 < n → delta before after a = .ok change → change.change = n → Gains before after a n :=
    fun n hn hdelta hchange => ⟨hn, _, hdelta, hchange⟩
  have hlarge : Gains [⟨1, 1000⟩, ⟨2, 500⟩] [⟨1, 1200⟩, ⟨2, 600⟩] 1 200 :=
    hgains 200 (by decide) rfl (by decide)
  have hlarge' : Gains [⟨1, 1000⟩, ⟨2, 500⟩] [⟨1, 1200⟩, ⟨2, 600⟩] 2 100 :=
    hgains 100 (by decide) rfl (by decide)
  have hless : Gains [⟨1, 0⟩, ⟨2, 0⟩] [⟨1, 2⟩, ⟨2, 1⟩] 1 2 := hgains 2 (by decide) rfl (by decide)
  have hless' : Gains [⟨1, 0⟩, ⟨2, 0⟩] [⟨1, 2⟩, ⟨2, 1⟩] 2 1 := hgains 1 (by decide) rfl (by decide)
  have hmore : Gains [⟨1, 0⟩, ⟨2, 0⟩] [⟨1, 300⟩, ⟨2, 100⟩] 1 300 :=
    hgains 300 (by decide) rfl (by decide)
  have hmore' : Gains [⟨1, 0⟩, ⟨2, 0⟩] [⟨1, 300⟩, ⟨2, 100⟩] 2 100 :=
    hgains 100 (by decide) rfl (by decide)
  have hratio : check.expectation = .ratio 1 2 2 Check.defaultTolerance := rfl
  obtain ⟨hsame, hmono, hobserved⟩ := ratio_of_quotient hratio
  obtain ⟨q, -, hq⟩ := hmono 200 300 100 3_000_000 (by decide) (by decide +kernel)
  refine ⟨hsame _ _ _ _ _ _ _ _ hlarge hlarge' hless hless' (by decide) (by decide) (by decide),
    by decide +kernel, hobserved _ _ _ _ _ _ _ hlarge hlarge' hmore hmore' (by decide) _ ?_⟩
  obtain ⟨x, y, hx, hy, hjudged⟩ := evaluate_gains hratio hmore hmore'
  obtain rfl : x = 300 := BitVec.eq_of_toNat_eq hx
  obtain rfl : y = 100 := BitVec.eq_of_toNat_eq hy
  rw [hjudged, judgeRatio_observed]
  exact congrArg (Option.map observedRatio) (by decide +kernel : scaledRatio 300 100 = some 3_000_000)

end Throughput
