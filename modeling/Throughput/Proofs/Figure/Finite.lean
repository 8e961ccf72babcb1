import Throughput.Figure.Metrics
import Throughput.Proofs.Number.Order

/-!
# Figures are finite

A figure that is defined is a finite number, whatever a run has recorded: each is a quotient that was
tested, or comes from such quotients. So figures can be compared, and the highest rate of a block is no
less than any other.
-/

namespace Throughput

namespace Measurement

/-- Is a figure a finite number if it is defined? -/
def IsFinite (m : Measurement) : Prop := ∀ x, m = .defined x → x.isFinite

theorem isFinite_undefined (reason : String) : (undefined reason).IsFinite := nofun

theorem isFinite_finite (value : Float) (reason : String) : (finite value reason).IsFinite := by
  intro x hx
  unfold finite at hx
  split at hx
  · rename_i hvalue
    rwa [← Measurement.defined.inj hx]
  · nomatch hx

theorem isFinite_ratio (numerator denominator : Float) (reason : String) :
    (ratio numerator denominator reason).IsFinite := by
  unfold ratio
  split
  · exact isFinite_undefined reason
  · exact isFinite_finite _ _

theorem isFinite_andThen (m : Measurement) {f : Float → Measurement} (h : ∀ x, (f x).IsFinite) :
    (m.andThen f).IsFinite := by
  cases m with
  | defined value => exact h value
  | undefined reason => exact isFinite_undefined reason

theorem mem_filterMap_value? {α : Type} {figures : List α} {f : α → Measurement} {x : Float} :
    x ∈ figures.filterMap (fun a => (f a).value?) ↔ ∃ a ∈ figures, f a = .defined x := by
  rw [List.mem_filterMap]
  refine exists_congr fun a => and_congr_right fun _ => ?_
  cases f a <;> simp [value?]

end Measurement

theorem isFinite_theoreticalCapacity (cadence : Option Cadence) (gasLimit : Option UInt64)
    (gasPerTransaction : UInt64) :
    (theoreticalCapacity cadence gasLimit gasPerTransaction).IsFinite := by
  unfold theoreticalCapacity
  split
  · exact Measurement.isFinite_undefined _
  · split
    · exact Measurement.isFinite_ratio _ _ _
    · exact Measurement.isFinite_undefined _

theorem LatencyStats.isFinite_mean (samples : List Duration) : (ofSamples samples).mean.IsFinite := by
  unfold ofSamples
  dsimp only
  split
  · exact Measurement.isFinite_undefined _
  · exact Measurement.isFinite_ratio _ _ _

theorem isFinite_rate {baseline : Option Block} {blocks : List Block} {r : BlockRate}
    (h : r ∈ blockRates baseline blocks) : r.rate.IsFinite := by
  obtain ⟨step, -, rfl⟩ := List.mem_map.mp h
  exact Measurement.isFinite_ratio _ _ _

/-! ## The highest rate -/

/-- The number that is kept of two. -/
def larger (m x : Float) : Float := if m < x then x else m

/-- Of two finite numbers one is kept that is no less than either. -/
theorem larger_spec {m x : Float} (hm : m.isFinite) (hx : x.isFinite) :
    (larger m x = m ∨ larger m x = x) ∧ value m ≤ value (larger m x) ∧
      value x ≤ value (larger m x) := by
  have hlt := lt_iff_value hm hx
  unfold larger
  split
  · rename_i hless
    exact ⟨.inr rfl, (hlt.mp hless).le, le_rfl⟩
  · rename_i hnot
    exact ⟨.inl rfl, le_rfl, not_lt.mp (hlt.not.mp hnot)⟩

/-- What is kept of finite numbers is one of them, and no less than any. -/
theorem foldl_larger_spec {first : Float} {rest : List Float} (hfirst : first.isFinite)
    (hrest : ∀ x ∈ rest, x.isFinite) :
    rest.foldl larger first ∈ first :: rest ∧
      ∀ x ∈ first :: rest, value x ≤ value (rest.foldl larger first) := by
  induction rest generalizing first with
  | nil =>
    refine ⟨List.mem_singleton_self first, fun x hx => ?_⟩
    rw [List.mem_singleton.mp hx]
    exact le_rfl
  | cons next rest ih =>
    obtain ⟨hnext, hrest⟩ := List.forall_mem_cons.mp hrest
    obtain ⟨hone, hleft, hright⟩ := larger_spec hfirst hnext
    have hkept : (larger first next).isFinite := by
      rcases hone with heq | heq <;> rw [heq] <;> assumption
    obtain ⟨hmem, hmost⟩ := ih hkept hrest
    obtain ⟨hkeptMost, hrestMost⟩ := List.forall_mem_cons.mp hmost
    rw [List.foldl_cons]
    refine ⟨?_, List.forall_mem_cons.mpr
      ⟨hleft.trans hkeptMost, List.forall_mem_cons.mpr ⟨hright.trans hkeptMost, hrestMost⟩⟩⟩
    rcases List.mem_cons.mp hmem with heq | hmem
    · rw [heq]
      rcases hone with heq | heq <;> rw [heq] <;> simp
    · exact List.mem_cons_of_mem _ (List.mem_cons_of_mem _ hmem)

/-- Of finite numbers the largest is one of them, and no less than any. -/
theorem largest?_spec {values : List Float} (h : ∀ x ∈ values, x.isFinite) :
    (largest? values = none ↔ values = []) ∧
      ∀ m, largest? values = some m → m ∈ values ∧ ∀ x ∈ values, x ≤ m := by
  cases values with
  | nil => exact ⟨iff_of_true rfl rfl, nofun⟩
  | cons first rest =>
    refine ⟨iff_of_false nofun nofun, fun m hm => ?_⟩
    obtain ⟨hfirst, hrest⟩ := List.forall_mem_cons.mp h
    obtain ⟨hmem, hmost⟩ := foldl_larger_spec hfirst hrest
    have hkept : rest.foldl larger first = m := Option.some.inj hm
    rw [hkept] at hmem hmost
    exact ⟨hmem, fun x hx => (le_iff_value (h x hx) (h m hmem)).mpr (hmost x hx)⟩

/-- The highest rate is defined just if some rate is, and is then one of them and no less than any. -/
theorem peakRate_spec {rates : List BlockRate} (h : ∀ r ∈ rates, r.rate.IsFinite) :
    ((∃ x, peakRate rates = .defined x) ↔ ∃ r ∈ rates, ∃ x, r.rate = .defined x) ∧
      ∀ peak, peakRate rates = .defined peak →
        (∃ r ∈ rates, r.rate = .defined peak) ∧
          ∀ r ∈ rates, ∀ x, r.rate = .defined x → x ≤ peak := by
  have hmem : ∀ x, x ∈ rates.filterMap (·.rate.value?) ↔ ∃ r ∈ rates, r.rate = .defined x := fun x =>
    Measurement.mem_filterMap_value?
  have hfinite : ∀ x ∈ rates.filterMap (·.rate.value?), x.isFinite := by
    intro x hx
    obtain ⟨r, hr, hrate⟩ := (hmem x).mp hx
    exact h r hr x hrate
  obtain ⟨hnone, hsome⟩ := largest?_spec hfinite
  unfold peakRate
  cases hlargest : largest? (rates.filterMap (·.rate.value?)) with
  | none =>
    refine ⟨iff_of_false nofun ?_, nofun⟩
    rintro ⟨r, hr, x, hrate⟩
    have hx := (hmem x).mpr ⟨r, hr, hrate⟩
    rw [hnone.mp hlargest] at hx
    nomatch hx
  | some m =>
    obtain ⟨hm, hmost⟩ := hsome m hlargest
    obtain ⟨r, hr, hrate⟩ := (hmem m).mp hm
    refine ⟨iff_of_true ⟨m, rfl⟩ ⟨r, hr, m, hrate⟩, fun peak hpeak => ?_⟩
    rw [← Measurement.defined.inj hpeak]
    exact ⟨⟨r, hr, hrate⟩, fun r' hr' x hx => hmost x ((hmem x).mpr ⟨r', hr', hx⟩)⟩

/-! ## All figures -/

/-- The figures that are quotients. Those of latencies that are not means are samples. -/
def Metrics.quotients (m : Metrics) : List Measurement :=
  [m.sendRate, m.inclusionRate, m.successRate, m.theoreticalCapacity, m.utilization,
    m.transactionsPerBlock, m.gasUtilization, m.peakRate, m.submitLatency.mean,
    m.inclusionLatency.mean] ++ m.blockRates.map (·.rate)

namespace Observations

theorem isFinite_inclusionRate (o : Observations) : o.inclusionRate.IsFinite := by
  unfold inclusionRate
  split
  · exact Measurement.isFinite_undefined _
  · exact Measurement.isFinite_ratio _ _ _

theorem isFinite_metrics (o : Observations) : ∀ figure ∈ o.metrics.quotients, figure.IsFinite := by
  have hrates : ∀ r ∈ o.metrics.blockRates, r.rate.IsFinite := fun r hr => isFinite_rate hr
  simp only [Metrics.quotients, List.cons_append, List.nil_append, List.forall_mem_cons,
    List.forall_mem_map]
  refine ⟨Measurement.isFinite_ratio _ _ _, o.isFinite_inclusionRate,
    Measurement.isFinite_ratio _ _ _, isFinite_theoreticalCapacity _ _ _, ?_,
    Measurement.isFinite_ratio _ _ _, Measurement.isFinite_ratio _ _ _, fun x hx => ?_,
    LatencyStats.isFinite_mean _, LatencyStats.isFinite_mean _, hrates⟩
  · exact Measurement.isFinite_andThen _ fun rate =>
      Measurement.isFinite_andThen _ fun most => Measurement.isFinite_ratio _ _ _
  · obtain ⟨⟨r, hr, hrate⟩, -⟩ := (peakRate_spec hrates).2 x hx
    exact hrates r hr x hrate

/-- A figure that is defined is a number and no infinity, whatever has been recorded. The utilization is
defined only where both its parts are, and else has the reason of the first that is not; there is no
inclusion rate where no block was produced; and the peak rate is the highest of the rates that are
defined, if there are any. -/
theorem metrics_sound (o : Observations) :
    let m := o.metrics
    (∀ figure ∈ m.quotients, ∀ x, figure = .defined x → x.isNaN = false ∧ x.isInf = false) ∧
    ((∃ x, m.utilization = .defined x) →
      (∃ rate, m.inclusionRate = .defined rate) ∧ ∃ most, m.theoreticalCapacity = .defined most) ∧
    (∀ reason, m.inclusionRate = .undefined reason → m.utilization = .undefined reason) ∧
    (∀ rate reason, m.inclusionRate = .defined rate → m.theoreticalCapacity = .undefined reason →
      m.utilization = .undefined reason) ∧
    (o.blocksProduced = some 0 → ∃ reason, m.inclusionRate = .undefined reason) ∧
    ((∃ x, m.peakRate = .defined x) ↔ ∃ r ∈ m.blockRates, ∃ x, r.rate = .defined x) ∧
    ∀ peak, m.peakRate = .defined peak → (∃ r ∈ m.blockRates, r.rate = .defined peak) ∧
      ∀ r ∈ m.blockRates, ∀ x, r.rate = .defined x → x ≤ peak := by
  intro m
  have hutilization : m.utilization = m.inclusionRate.andThen fun rate =>
      m.theoreticalCapacity.andThen fun most => .ratio rate most "zero theoretical capacity" := rfl
  have hrates : ∀ r ∈ m.blockRates, r.rate.IsFinite := fun r hr => isFinite_rate hr
  obtain ⟨hpeak, hmost⟩ := peakRate_spec hrates
  refine ⟨fun figure hfigure x hx => isNaN_isInf_of_isFinite (o.isFinite_metrics figure hfigure x hx),
    ?_, ?_, ?_, fun hnone => ⟨_, if_pos hnone⟩, hpeak, hmost⟩
  · rintro ⟨x, hx⟩
    rw [hutilization] at hx
    cases hrate : m.inclusionRate with
    | undefined reason =>
      rw [hrate] at hx
      nomatch hx
    | defined rate =>
      cases hcapacity : m.theoreticalCapacity with
      | undefined reason =>
        rw [hrate, hcapacity] at hx
        nomatch hx
      | defined most => exact ⟨⟨rate, rfl⟩, most, rfl⟩
  · intro reason hreason
    rw [hutilization, hreason]
    rfl
  · intro rate reason hrate hreason
    rw [hutilization, hrate, hreason]
    rfl

end Observations

end Throughput
