import Mathlib.Algebra.GroupWithZero.Nat
import Throughput.Balance.Check

/-!
# Checks on gains

A check looks up the accounts that it names in the snapshots before and after. The verdict on two gains
depends on their quotient only, so it is the same for all multiples of them by one number.
-/

namespace Throughput

/-- The checked accounts are those that some check names. -/
theorem mem_checkedAccounts {checks : List Check} {a : Address} :
    a ∈ checkedAccounts checks ↔ ∃ check ∈ checks, a ∈ check.accounts := by
  have hfold : ∀ (named seen : List Address),
      a ∈ named.foldl (fun seen b => if seen.contains b then seen else seen ++ [b]) seen ↔
        a ∈ seen ∨ a ∈ named := by
    intro named
    induction named with
    | nil => simp
    | cons b named ih =>
      intro seen
      rw [List.foldl_cons, ih, List.mem_cons]
      by_cases hb : seen.contains b
      · have hseen : b ∈ seen := by simpa using hb
        rw [if_pos hb]
        constructor
        · exact fun h => h.imp_right .inr
        · rintro (h | rfl | h)
          · exact .inl h
          · exact .inl hseen
          · exact .inr h
      · rw [if_neg hb, List.mem_append, List.mem_singleton, or_assoc]
  unfold checkedAccounts
  rw [hfold, List.mem_flatMap]
  simp

/-- No account is listed twice. -/
theorem nodup_checkedAccounts (checks : List Check) : (checkedAccounts checks).Nodup := by
  unfold checkedAccounts
  generalize checks.flatMap Check.accounts = named
  suffices h : ∀ seen : List Address, seen.Nodup →
      (named.foldl (fun seen a => if seen.contains a then seen else seen ++ [a]) seen).Nodup from
    h [] List.nodup_nil
  induction named with
  | nil => exact fun _ h => h
  | cons a named ih =>
    intro seen hseen
    rw [List.foldl_cons]
    apply ih
    split
    · exact hseen
    · rename_i hfresh
      have ha : a ∉ seen := by simpa using hfresh
      refine List.nodup_append.mpr ⟨hseen, List.pairwise_singleton _ a, fun b hb a' ha' => ?_⟩
      rw [List.mem_singleton.mp ha']
      exact ne_of_mem_of_not_mem hb ha

/-- Snapshots of several accounts give the balance of each of them. -/
theorem balanceOf?_map {addresses : List Address} {a : Address} (h : a ∈ addresses)
    (balance : Address → Amount) :
    balanceOf? (addresses.map fun a => ⟨a, balance a⟩) a = some (balance a) := by
  unfold balanceOf?
  cases hfound : (addresses.map fun a => (⟨a, balance a⟩ : Snapshot)).reverse.find?
      (·.account == a) with
  | none =>
    rw [List.find?_eq_none] at hfound
    have hother := hfound ⟨a, balance a⟩ (List.mem_reverse.mpr (List.mem_map_of_mem h))
    exact absurd (beq_self_eq_true a) hother
  | some snapshot =>
    have hmem := List.mem_reverse.mp (List.mem_of_find?_eq_some hfound)
    obtain ⟨b, -, rfl⟩ := List.mem_map.mp hmem
    have hsame : b = a := by simpa using List.find?_some hfound
    rw [← hsame]
    rfl

/-- A balance that grows without outgrowing its word gains what is added. -/
theorem BalanceDelta.gain_of_add {before after : Amount} {n : Nat} (hn : 0 < n)
    (h : after.toNat = before.toNat + n) : gain ⟨before, after⟩ = some (BitVec.ofNat 256 n) := by
  have hlt : before < after := by
    rw [BitVec.lt_def]
    omega
  have hafter := after.isLt
  have hdifference : after - before = BitVec.ofNat 256 n := by
    apply BitVec.eq_of_toNat_eq
    rw [BitVec.toNat_sub_of_le (BitVec.le_of_lt hlt), BitVec.toNat_ofNat, Nat.mod_eq_of_lt (by omega)]
    omega
  unfold gain
  rw [if_pos hlt, hdifference]

/-- Gains that stand in one ratio have one quotient. -/
theorem scaledRatio_congr {x y x' y' : Amount} (hy : 0 < y.toNat) (hy' : 0 < y'.toNat)
    (hsame : x.toNat * y'.toNat = x'.toNat * y.toNat) (hx : x.toNat * ratioScale < 2 ^ 256)
    (hx' : x'.toNat * ratioScale < 2 ^ 256) : scaledRatio x y = scaledRatio x' y' := by
  have hquotient : x.toNat * ratioScale / y.toNat = x'.toNat * ratioScale / y'.toNat := by
    rw [← Nat.mul_div_mul_right _ _ hy', Nat.mul_right_comm, hsame, Nat.mul_right_comm,
      Nat.mul_comm y.toNat, Nat.mul_div_mul_right _ _ hy]
  have hfits : x.toNat * ratioScale < Nat.pow 2 256 ↔ x'.toNat * ratioScale < Nat.pow 2 256 :=
    iff_of_true hx hx'
  unfold scaledRatio
  simp only [hquotient, hfits]

/-- The number that a quotient in millionths is reported as. -/
def observedRatio (scaled : Nat) : Float := Float.ofNat scaled / Float.ofNat ratioScale

/-- A quotient that is out of range is not judged. -/
theorem judgeRatio_none {x y : Amount} (h : scaledRatio x y = none) (label : String)
    (target tolerance : Float) :
    judgeRatio label target tolerance x y = ⟨label, false, none, "delta ratio out of range"⟩ := by
  -- opened in the goal, the definition would have the kernel count to a million, the scale, in unary
  generalize hjudge : judgeRatio = judge
  delta judgeRatio at hjudge
  subst hjudge
  simp -zeta only [h]

/-- A quotient in range must be strictly inside the band. -/
theorem judgeRatio_some {x y : Amount} {scaled : Nat} (h : scaledRatio x y = some scaled)
    (label : String) (target tolerance : Float) : ∃ rest, judgeRatio label target tolerance x y =
      ⟨label, target * (1 - tolerance) < observedRatio scaled &&
        observedRatio scaled < target * (1 + tolerance), some (observedRatio scaled),
        "ratio " ++ rest⟩ := by
  generalize hjudge : judgeRatio = judge
  delta judgeRatio at hjudge
  subst hjudge
  simp -zeta only [h, String.append_assoc]
  exact ⟨_, rfl⟩

/-- The verdict on two gains depends on their quotient only. -/
theorem judgeRatio_congr {x y x' y' : Amount} (h : scaledRatio x y = scaledRatio x' y')
    (label : String) (target tolerance : Float) :
    judgeRatio label target tolerance x y = judgeRatio label target tolerance x' y' := by
  generalize hjudge : judgeRatio = judge
  delta judgeRatio at hjudge
  subst hjudge
  simp -zeta only [h]

/-- A ratio of two gains is judged if both accounts have been read and have gained. -/
theorem Check.evaluate_ratio {check : Check} {a b : Address} {target tolerance : Float}
    (hratio : check.expectation = .ratio a b target tolerance) {before after : List Snapshot}
    {d e : BalanceDelta} (ha : delta before after a = .ok d) (hb : delta before after b = .ok e)
    {x y : Amount} (hx : d.gain = some x) (hy : e.gain = some y) :
    check.evaluate before after = judgeRatio check.label target tolerance x y := by
  unfold evaluate
  rw [hratio]
  dsimp only
  rw [ha, hb]
  dsimp only
  rw [hx, hy]

/-- Two gains that consist of the same number of parts are judged by their parts. -/
theorem Check.evaluate_multiples {check : Check} {a b : Address} {target tolerance : Float}
    (hratio : check.expectation = .ratio a b target tolerance) {before after : List Snapshot}
    {d e : BalanceDelta} (ha : delta before after a = .ok d) (hb : delta before after b = .ok e)
    {n x y : Nat} (hn : 0 < n) (hx : 0 < x) (hy : 0 < y)
    (hfit : n * x * ratioScale < 2 ^ 256)
    (hxs : d.after.toNat = d.before.toNat + n * x) (hys : e.after.toNat = e.before.toNat + n * y) :
    check.evaluate before after =
      judgeRatio check.label target tolerance (BitVec.ofNat 256 x) (BitVec.ofNat 256 y) := by
  have hle : ∀ m, m ≤ n * m := fun m => Nat.le_mul_of_pos_left m hn
  have hnumerator : n * x < 2 ^ 256 :=
    Nat.lt_of_le_of_lt (Nat.le_mul_of_pos_right _ (by decide)) hfit
  have hdenominator : n * y < 2 ^ 256 := by
    have hword := e.after.isLt
    omega
  have hword : ∀ {m}, m < 2 ^ 256 → (BitVec.ofNat 256 m).toNat = m := Nat.mod_eq_of_lt
  have hparts := hword hnumerator
  have hparts' := hword hdenominator
  have hpart := hword (Nat.lt_of_le_of_lt (hle x) hnumerator)
  have hpart' := hword (Nat.lt_of_le_of_lt (hle y) hdenominator)
  rw [evaluate_ratio hratio ha hb (BalanceDelta.gain_of_add (Nat.mul_pos hn hx) hxs)
    (BalanceDelta.gain_of_add (Nat.mul_pos hn hy) hys)]
  refine judgeRatio_congr (scaledRatio_congr ?_ ?_ ?_ ?_ ?_) ..
  · rw [hparts']
    exact Nat.mul_pos hn hy
  · rwa [hpart']
  · rw [hparts, hparts', hpart, hpart', Nat.mul_assoc, Nat.mul_left_comm x]
  · rwa [hparts]
  · rw [hpart]
    exact Nat.lt_of_le_of_lt (Nat.mul_le_mul_right _ (hle x)) hfit

end Throughput
