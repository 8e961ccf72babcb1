import Throughput.Proofs.Balance.Quotient
import Throughput.Proofs.Run.Footing

/-!
# The band around a target

A ratio must lie strictly inside a band whose ends are the target times one less and one more than the
tolerance. A tolerance of 2⁻⁵³ or less, zero among them, is lost where it is added to one. Then the upper
end is the target itself, no number of binary64 lies between the ends, and no balances meet the check.
Each larger tolerance has the target inside its band.
-/

namespace Throughput

open Float.Model Float.Model.UnpackedFloat

variable {x y target tolerance : Float} {v w t : ℚ}

/-! ## One more and one less than a tolerance -/

/-- The number before one. -/
theorem gapBelow_one : Canonical.gapBelow (2 ^ 52) (-52) = 2 ^ (-53 : Int) :=
  if_pos ⟨rfl, by decide⟩

theorem onGrid_before_one : OnGrid (1 - 2 ^ (-53 : Int)) := by
  have h := canonical_one.onGrid_sub (Nat.two_pow_pos 52)
  rwa [magnitudeOf_one, gapBelow_one] at h

section Factors

variable (hfinite : tolerance.isFinite) (hnonneg : 0 ≤ value tolerance)

include hfinite hnonneg

theorem one_add_rounds : Rounds .positive (1 + tolerance) (1 + value tolerance) := by
  rcases zero_or_shows hfinite hnonneg with ⟨hzero, sign, hread⟩ | ⟨hpos, hshows⟩
  · rw [hzero, add_zero, ← magnitudeOf_one]
    refine ⟨_, _, .self canonical_one, ?_⟩
    rw [unpacked_add, hread]
    rfl
  · exact shows_one.add_rounds hshows one_pos hpos

theorem one_sub_rounds : value tolerance ≤ 1 ∧ Rounds .positive (1 - tolerance) (1 - value tolerance) ∨
    1 < value tolerance ∧ Rounds .negative (1 - tolerance) (value tolerance - 1) := by
  rcases zero_or_shows hfinite hnonneg with ⟨hzero, sign, hread⟩ | ⟨hpos, hshows⟩
  · left
    rw [hzero, sub_zero, ← magnitudeOf_one]
    refine ⟨(magnitudeOf_pos (Nat.two_pow_pos 52) (-52)).le, _, _, .self canonical_one, ?_⟩
    rw [unpacked_sub, hread]
    rfl
  · exact shows_one.sub_rounds hshows one_pos hpos

/-- A small tolerance is lost: half way to the next number the sum goes back to one, which is even. -/
theorem one_add_shows (hsmall : value tolerance ≤ 2 ^ (-53 : Int)) : Shows (1 + tolerance) 1 := by
  obtain ⟨m, e, hrounded, hread⟩ := one_add_rounds hfinite hnonneg
  have hhalf : (2 : ℚ) ^ (-52 : Int) / 2 = 2 ^ (-53 : Int) := by norm_num
  have hone : Rounded (1 + value tolerance) (2 ^ 52) (-52) := by
    have hgap : (0 : ℚ) < 2 ^ (-53 : Int) := zpow_pos two_pos _
    refine .of_between canonical_one ?_ ?_ (.inl (by norm_num)) <;> rw [magnitudeOf_one]
    · rw [gapBelow_one]
      linarith
    · rw [hhalf]
      linarith
  obtain ⟨rfl, rfl⟩ := hrounded.unique hone
  rw [stored_of_storable (storable_signed canonical_one (by decide))] at hread
  exact ⟨_, _, canonical_one, hread, magnitudeOf_one⟩

/-- What a small tolerance takes away from one is no more than the gap below it. -/
theorem one_sub_shows (hsmall : value tolerance ≤ 2 ^ (-53 : Int)) :
    ∃ r, 1 - 2 ^ (-53 : Int) ≤ r ∧ r ≤ 1 ∧ Shows (1 - tolerance) r := by
  have hless : (2 : ℚ) ^ (-53 : Int) < 1 := by norm_num
  rcases one_sub_rounds hfinite hnonneg with ⟨hle, hrounds⟩ | ⟨hgt, -⟩
  · have hone : 1 - value tolerance ≤ 1 := by linarith
    obtain ⟨r, hnearest, hshows⟩ := hrounds.shows (hone.trans shows_one.le_largest)
    exact ⟨r, hnearest.le_of_ge onGrid_before_one (by linarith),
      hnearest.le_of_le shows_one.onGrid hone, hshows⟩
  · linarith

end Factors

/-! ## The ends of the band -/

/-- With a small tolerance there is nothing in the band. -/
theorem not_in_band (htarget : Shows target t) (ht : 0 < t) (hfinite : tolerance.isFinite)
    (hnonneg : 0 ≤ value tolerance) (hsmall : value tolerance ≤ 2 ^ (-53 : Int)) (hx : Shows x v) :
    ¬(target * (1 - tolerance) < x ∧ x < target * (1 + tolerance)) := by
  rintro ⟨hlower, hupper⟩
  have hend := (htarget.mul_rounds (one_add_shows hfinite hnonneg hsmall)
    (.inr (by norm_num))).shows_self (by rw [mul_one]; exact htarget.onGrid)
      (by rw [mul_one]; exact htarget.le_largest)
  rw [mul_one] at hend
  have hless : v < t := (hx.lt_iff hend).mp hupper
  obtain ⟨r, hr, hone, hshows⟩ := one_sub_shows hfinite hnonneg hsmall
  have hhalf : 1 / 2 ≤ r := le_trans (by norm_num) hr
  obtain ⟨q, hnearest, hq⟩ := (htarget.mul_rounds hshows (.inr hhalf)).shows
    ((mul_le_of_le_one_right ht.le hone).trans htarget.le_largest)
  have habove : q < v := (hq.lt_iff hx).mp hlower
  -- the lower end is not below the number before the target
  obtain ⟨m, e, hm, hcanonical, -, rfl⟩ := htarget.unpacked_of_pos ht
  have hproduct : magnitudeOf m e - Canonical.gapBelow m e ≤ magnitudeOf m e * r := by
    have hshare := hcanonical.mul_le_gapBelow
    have hscaled := mul_le_mul_of_nonneg_left hr ht.le
    linarith
  have hend := hnearest.le_of_ge (hcanonical.onGrid_sub hm) hproduct
  have hbefore := hcanonical.le_sub_of_lt hx.onGrid hless
  linarith

section Large

variable (htarget : Shows target t) (ht : 1 ≤ t) (hfinite : tolerance.isFinite)
  (hlarge : 2 ^ (-53 : Int) < value tolerance) (hx : Shows x t)

include htarget ht hfinite hlarge hx

/-- With a larger tolerance the upper end is above the target. -/
theorem lt_upper : x < target * (1 + tolerance) := by
  have hnonneg : 0 ≤ value tolerance := (zpow_pos two_pos _).le.trans hlarge.le
  obtain ⟨m, e, hm, hcanonical, hread, rfl⟩ := htarget.unpacked_of_pos (by linarith)
  rcases (one_add_rounds hfinite hnonneg).shows_or_infinity with ⟨r, hnearest, hshows⟩ | hinfinity
  · have hhalf : (2 : ℚ) ^ (-52 : Int) / 2 = 2 ^ (-53 : Int) := by norm_num
    have hr := canonical_one.succ_le_of_nearest hnearest
      (by rw [magnitudeOf_one, hhalf]; linarith)
    rw [magnitudeOf_succ, magnitudeOf_one] at hr
    -- the number after the target is not above the product
    have hunit : (2 : ℚ) ^ e ≤ magnitudeOf m e * 2 ^ (-52 : Int) := by
      have hfull : magnitudeOf (2 ^ 52) e ≤ magnitudeOf m e :=
        magnitudeOf_le_iff.mpr (hcanonical.full_of_half_le (by linarith))
      calc (2 : ℚ) ^ e = magnitudeOf (2 ^ 52) e * 2 ^ (-52 : Int) := by
            rw [magnitudeOf_full, ← zpow_add₀ two_ne_zero, add_neg_cancel_right]
        _ ≤ magnitudeOf m e * 2 ^ (-52 : Int) :=
          mul_le_mul_of_nonneg_right hfull (zpow_nonneg zero_le_two _)
    have hproduct := mul_le_mul_of_nonneg_left hr (zero_le_one.trans ht)
    have hpos : (0 : ℚ) < 2 ^ e := zpow_pos two_pos e
    refine (htarget.mul_rounds hshows (.inl (by linarith))).lt_of_between hx
      (onGrid_magnitudeOf (m := m + 1) hcanonical.digits hcanonical.least) ?_ ?_ <;>
      rw [magnitudeOf_succ] <;> linarith
  · refine hx.lt_infinity ?_
    rw [unpacked_mul, hread, hinfinity]
    exact stored_infinity .positive

/-- With a larger tolerance the lower end is below the target. -/
theorem lower_lt : target * (1 - tolerance) < x := by
  have hnonneg : 0 ≤ value tolerance := (zpow_pos two_pos _).le.trans hlarge.le
  obtain ⟨m, e, hm, hcanonical, -, rfl⟩ := htarget.unpacked_of_pos (by linarith)
  rcases one_sub_rounds hfinite hnonneg with ⟨hle, hrounds⟩ | ⟨hgt, hrounds⟩
  · have hone : 1 - value tolerance ≤ 1 := by linarith
    obtain ⟨r, hnearest, hshows⟩ := hrounds.shows (hone.trans shows_one.le_largest)
    have hr := hnearest.le_of_le onGrid_before_one (by linarith)
    have hgap : (0 : ℚ) < 2 ^ (-53 : Int) := zpow_pos two_pos _
    obtain ⟨q, hnearest', hq⟩ := (htarget.mul_rounds hshows (.inl (by linarith))).shows
      ((mul_le_of_le_one_right (by linarith) (by linarith)).trans htarget.le_largest)
    -- what is taken away is more than half the gap below the target
    have hleast : -1074 < e := by
      have hnot := (hcanonical.lt_iff canonical_one).not.mp (by rw [magnitudeOf_one]; exact ht.not_gt)
      omega
    have hproduct := calc
      magnitudeOf m e * r ≤ magnitudeOf m e * (1 - 2 ^ (-53 : Int)) :=
        mul_le_mul_of_nonneg_left hr (zero_le_one.trans ht)
      _ = magnitudeOf m e - magnitudeOf m e * 2 ^ (-53 : Int) := by ring
      _ < magnitudeOf m e - Canonical.gapBelow m e / 2 :=
        sub_lt_sub_left (hcanonical.half_gapBelow_lt hleast) _
    exact (hq.lt_iff hx).mpr (hcanonical.lt_of_nearest hm hnearest' hproduct)
  · -- a tolerance of more than one takes the lower end below zero
    have hless := (shows_value hfinite (by linarith)).le_largest
    exact htarget.mul_negative_lt (by linarith) hrounds (by linarith) hx (by linarith)

end Large

/-! ## Checks of a valid configuration -/

/-- A whole ratio is observed exactly. -/
theorem observedRatio_whole {n : Nat} (h : n * ratioScale < 2 ^ 53) :
    Shows (observedRatio (n * ratioScale)) n := by
  have hpos : (0 : ℚ) < ratioScale := by exact_mod_cast (by decide : 0 < ratioScale)
  have hn : n < 2 ^ 53 := (Nat.le_mul_of_pos_right n (by decide)).trans_lt h
  have hquotient := (shows_ofNat h).div_rounds (shows_ofNat (by decide : ratioScale < 2 ^ 53)) hpos
  rw [Nat.cast_mul, mul_div_cancel_right₀ _ hpos.ne'] at hquotient
  exact hquotient.shows_self (onGrid_natCast hn)
    (le_trans (by exact_mod_cast hn.le) (two_pow_le_largest (by decide : 53 ≤ 1023)))

/-- What a valid configuration asks of the target and the tolerance of a ratio. -/
theorem RunConfig.ratio_of_validate {cfg : RunConfig} (hvalid : cfg.validate = .ok ()) {check : Check}
    (hcheck : check ∈ cfg.checks) {a b : Address}
    (hratio : check.expectation = .ratio a b target tolerance) :
    (0 < value target ∧ Shows target (value target)) ∧
      tolerance.isFinite ∧ 0 ≤ value tolerance := by
  have hfault := fault?_of_validate hvalid
  unfold fault? at hfault
  split at hfault
  · nomatch hfault
  · obtain ⟨-, hchecks⟩ := Option.or_eq_none_iff.mp hfault
    have hnone := List.findSome?_eq_none_iff.mp hchecks check hcheck
    unfold checkFault? at hnone
    rw [hratio] at hnone
    dsimp only at hnone
    split_ifs at hnone with htarget htolerance
    rw [Bool.not_eq_true', Bool.not_eq_false, Bool.and_eq_true, decide_eq_true_iff] at htarget htolerance
    have hzero : (0 : Float).isFinite = true ∧ value 0 = 0 := ⟨rfl, rfl⟩
    have hpos := (lt_iff_value hzero.1 htarget.2).mp htarget.1
    have hnonneg := (le_iff_value hzero.1 htolerance.2).mp htolerance.1
    rw [hzero.2] at hpos hnonneg
    exact ⟨⟨hpos, shows_value htarget.2 hpos⟩, htolerance.2, hnonneg⟩

/-- A check on a ratio passes only by what it observes. -/
theorem Check.judged_of_passed {check : Check} {a b : Address}
    (hratio : check.expectation = .ratio a b target tolerance) {before after : List Snapshot}
    (hpassed : (check.evaluate before after).passed) :
    ∃ x y : Amount, check.evaluate before after = judgeRatio check.label target tolerance x y := by
  generalize hresult : check.evaluate before after = result at hpassed ⊢
  unfold evaluate at hresult
  rw [hratio] at hresult
  dsimp only at hresult
  have hmissing : ∀ observed detail, ⟨check.label, false, observed, detail⟩ ≠ result := by
    rintro observed detail rfl
    nomatch hpassed
  split at hresult
  · exact (hmissing _ _ hresult).elim
  · exact (hmissing _ _ hresult).elim
  · split at hresult
    · exact (hmissing _ _ hresult).elim
    · exact (hmissing _ _ hresult).elim
    · exact ⟨_, _, hresult.symm⟩

/-- What is observed must be inside the band. -/
theorem judgeRatio_passed_iff {x y : Amount} {scaled : Nat} (h : scaledRatio x y = some scaled)
    (label : String) : (judgeRatio label target tolerance x y).passed ↔
      target * (1 - tolerance) < observedRatio scaled ∧
        observedRatio scaled < target * (1 + tolerance) := by
  obtain ⟨rest, hjudged⟩ := judgeRatio_some h label target tolerance
  rw [hjudged, Bool.and_eq_true, decide_eq_true_iff, decide_eq_true_iff]

/-- A gain that is a multiple of another has the multiple as its quotient. -/
theorem scaledRatio_multiple {x y : Amount} {n : Nat} (hx : x.toNat = n * y.toNat) (hy : 0 < y.toNat)
    (hfits : x.toNat * ratioScale < 2 ^ 256) (hroom : n * ratioScale < 2 ^ 128) :
    scaledRatio x y = some (n * ratioScale) := by
  have hquotient : x.toNat * ratioScale / y.toNat = n * ratioScale := by
    rw [hx, Nat.mul_right_comm, Nat.mul_div_cancel _ hy]
  unfold scaledRatio
  dsimp only
  rw [hquotient, if_pos ⟨hfits, hroom⟩]

/-- A check of a valid configuration on a whole ratio, and gains that stand in this very ratio: the check
passes just if its tolerance is more than 2⁻⁵³. With any other tolerance that a valid configuration may
have, and zero is one, a check on a ratio passes for no balances at all. -/
theorem RunConfig.ratio_met_iff {cfg : RunConfig} (hvalid : cfg.validate = .ok ()) {i : Nat}
    {check : Check} (hcheck : cfg.checks[i]? = some check) {a b : Address}
    (hratio : check.expectation = .ratio a b target tolerance) :
    (∀ (before after : List Snapshot) (n d : Nat), value target = n → n * ratioScale < 2 ^ 53 →
      Gains before after a (n * d) → Gains before after b d → n * d * ratioScale < 2 ^ 256 →
      ∃ result, (verify cfg.checks before after)[i]? = some result ∧
        (result.passed ↔ 2 ^ (-53 : Int) < value tolerance)) ∧
    (value tolerance ≤ 2 ^ (-53 : Int) → ∀ before after : List Snapshot,
      ∃ result, (verify cfg.checks before after)[i]? = some result ∧ ¬result.passed) := by
  obtain ⟨⟨hpos, htarget⟩, hfinite, hnonneg⟩ :=
    ratio_of_validate hvalid (List.mem_of_getElem? hcheck) hratio
  have hresult : ∀ before after, (verify cfg.checks before after)[i]? =
      some (check.evaluate before after) := fun before after => by
    rw [verify, List.getElem?_map, hcheck, Option.map_some]
  have hnever : value tolerance ≤ 2 ^ (-53 : Int) → ∀ before after,
      ¬(check.evaluate before after).passed := by
    intro hsmall before after hpassed
    obtain ⟨x, y, hjudged⟩ := Check.judged_of_passed hratio hpassed
    rw [hjudged] at hpassed
    cases hscaled : scaledRatio x y with
    | none =>
      rw [judgeRatio_none hscaled] at hpassed
      nomatch hpassed
    | some scaled =>
      obtain ⟨_, _, -, hshows, -⟩ := observedRatio_mono le_rfl (scaledRatio_lt hscaled)
      exact not_in_band htarget hpos hfinite hnonneg hsmall hshows
        ((judgeRatio_passed_iff hscaled check.label).mp hpassed)
  refine ⟨?_, fun hsmall before after => ⟨_, hresult before after, hnever hsmall before after⟩⟩
  intro before after n d hvalue hroom ha hb hfits
  refine ⟨_, hresult before after, fun hpassed => ?_, fun hlarge => ?_⟩
  · exact lt_of_not_ge fun hsmall => hnever hsmall before after hpassed
  · obtain ⟨x, y, hx, hy, hjudged⟩ := Check.evaluate_gains hratio ha hb
    have hscaled := scaledRatio_multiple (hx.trans (by rw [hy])) (hy ▸ hb.1) (hx ▸ hfits)
      (hroom.trans (by decide : 2 ^ 53 < 2 ^ 128))
    have hn : (1 : ℚ) ≤ n := by
      rw [hvalue] at hpos
      exact_mod_cast hpos
    rw [hvalue] at htarget
    rw [hjudged, judgeRatio_passed_iff hscaled]
    have hobserved := observedRatio_whole hroom
    exact ⟨lower_lt htarget hn hfinite hlarge hobserved, lt_upper htarget hn hfinite hlarge hobserved⟩

/-- A run with two checks that a gain is twice another, one with no tolerance and one with a tolerance of
one. -/
def RunConfig.ofTwice : RunConfig where
  senders := [1]
  checks := [(Check.ratio "exactly" 1 2 2).withTolerance 0, (Check.ratio "about" 1 2 2).withTolerance 1]

/-- The gains are 200 and 100. The check with no tolerance fails, as it does whatever the balances are, and
the other one passes. -/
theorem RunConfig.ratio_met_iff_twice : RunConfig.ofTwice.validate = .ok () ∧
    (∀ before after : List Snapshot, ∃ result,
      (verify RunConfig.ofTwice.checks before after)[0]? = some result ∧ ¬result.passed) ∧
    ∃ exact about, verify RunConfig.ofTwice.checks [⟨1, 0⟩, ⟨2, 0⟩] [⟨1, 200⟩, ⟨2, 100⟩] =
      [exact, about] ∧ exact.passed = false ∧ about.passed = true := by
  have hvalid : RunConfig.ofTwice.validate = .ok () := rfl
  obtain ⟨hexact, hnever⟩ := ratio_met_iff hvalid (i := 0) rfl rfl
  obtain ⟨habout, -⟩ := ratio_met_iff hvalid (i := 1) rfl rfl
  have htwo : value 2 = (2 : Nat) := (shows_ofNat (by decide : 2 < 2 ^ 53)).finite.2
  have hone : value 1 = 1 := shows_one.finite.2
  have hnumerator : Gains [⟨1, 0⟩, ⟨2, 0⟩] [⟨1, 200⟩, ⟨2, 100⟩] 1 (2 * 100) :=
    ⟨by decide, _, rfl, by decide⟩
  have hdenominator : Gains [⟨1, 0⟩, ⟨2, 0⟩] [⟨1, 200⟩, ⟨2, 100⟩] 2 100 :=
    ⟨by decide, _, rfl, by decide⟩
  obtain ⟨_, hfirst, hfails⟩ := hexact _ _ 2 100 htwo (by decide) hnumerator hdenominator (by decide)
  obtain ⟨_, hsecond, hpasses⟩ := habout _ _ 2 100 htwo (by decide) hnumerator hdenominator (by decide)
  refine ⟨hvalid, hnever (zpow_nonneg zero_le_two _), _, _, rfl, ?_, ?_⟩
  · rw [← Bool.not_eq_true, Option.some_inj.mp hfirst, hfails]
    exact not_lt.mpr (zpow_nonneg zero_le_two _)
  · rw [Option.some_inj.mp hsecond, hpasses, hone]
    norm_num

end Throughput
