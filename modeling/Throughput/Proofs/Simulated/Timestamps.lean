import Throughput.Proofs.Simulated.Punctual

/-!
# The timestamps of blocks

A block is due at a multiple of the interval, and its timestamp has the whole seconds of as many whole
milliseconds of the interval. What is left of a millisecond is lost with each block, so timestamps fall
behind unless the interval is a number of milliseconds.
-/

namespace Throughput.Simulated

namespace Config

variable (c : Config) (number : Nat)

/-- The instant at which a block is due, in nanoseconds. -/
def dueAt : Nat := number * c.blockInterval

/-- The seconds from genesis to the timestamp of a block. -/
def writtenSeconds : Nat := number * (c.blockInterval / 1_000_000) / 1000

/-- The nanoseconds from the second that is written into a block to the instant at which it is due. -/
def lag : Nat :=
  number * (c.blockInterval / 1_000_000) % 1000 * 1_000_000 + number * (c.blockInterval % 1_000_000)

theorem written_add_lag : c.writtenSeconds number * 1_000_000_000 + c.lag number = c.dueAt number := by
  have hmillis := Nat.div_add_mod (number * (c.blockInterval / 1_000_000)) 1000
  have hinterval := Nat.div_add_mod c.blockInterval 1_000_000
  calc c.writtenSeconds number * 1_000_000_000 + c.lag number
      = (1000 * (number * (c.blockInterval / 1_000_000) / 1000) +
          number * (c.blockInterval / 1_000_000) % 1000) * 1_000_000 +
            number * (c.blockInterval % 1_000_000) := by
        unfold writtenSeconds lag
        omega
    _ = number * (1_000_000 * (c.blockInterval / 1_000_000) + c.blockInterval % 1_000_000) := by
        rw [hmillis, Nat.mul_add, Nat.mul_assoc, Nat.mul_comm (c.blockInterval / 1_000_000)]
    _ = c.dueAt number := by
        rw [hinterval]
        rfl

/-- A timestamp is behind by the whole seconds of the lag. -/
theorem written_add_lag_seconds :
    c.writtenSeconds number + c.lag number / 1_000_000_000 = c.dueAt number / 1_000_000_000 := by
  rw [← c.written_add_lag number]
  omega

/-- In whole milliseconds nothing is lost but the fraction of a second. -/
theorem lag_lt_of_dvd (h : 1_000_000 ∣ c.blockInterval) : c.lag number < 1_000_000_000 := by
  unfold lag
  rw [Nat.mod_eq_zero_of_dvd h, Nat.mul_zero, Nat.add_zero]
  exact Nat.mul_lt_mul_of_pos_right (Nat.mod_lt _ (by decide)) (by decide)

variable {c number}

theorem le_dueHeight_iff (hinterval : 1 ≤ c.blockInterval) {now : Instant} :
    number ≤ c.dueHeight now ↔ c.dueAt number ≤ now := by
  unfold dueHeight
  rw [Nat.max_eq_left hinterval]
  exact Nat.le_div_iff_mul_le hinterval

/-- A timestamp as a number, where neither the milliseconds nor the sum overflow. -/
theorem toNat_timestamp {number : UInt64}
    (hmillis : number.toNat * (c.blockInterval / 1_000_000) < 2 ^ 64)
    (hsum : c.genesisTimestamp.toNat + c.writtenSeconds number.toNat < 2 ^ 64) :
    (c.timestamp number).toNat = c.genesisTimestamp.toNat + c.writtenSeconds number.toNat := by
  have hproduct : (number * (c.blockInterval / 1_000_000).toUInt64).toNat =
      number.toNat * (c.blockInterval / 1_000_000) := by
    rw [UInt64.toNat_mul, UInt64.toNat_ofNat', Nat.mul_mod_mod]
    exact Nat.mod_eq_of_lt hmillis
  unfold timestamp
  rw [UInt64.toNat_add, UInt64.toNat_div, hproduct]
  exact Nat.mod_eq_of_lt hsum

end Config

/-- Has each block of a chain the timestamp of its place? -/
def Chain.Dated (c : Config) (chain : Chain) : Prop :=
  ∀ (i : Nat) (h : i < chain.blocks.size), chain.blocks[i].timestamp = c.timestamp i.toUInt64

theorem Chain.Dated.produce {c : Config} {chain : Chain} (h : chain.Dated c) :
    (chain.produce c).Dated c := by
  intro i hi
  simp only [Chain.blocks_produce, Array.size_push, Array.getElem_push] at hi ⊢
  split
  · rename_i hold
    exact h i hold
  · have hi : i = chain.blocks.size := by omega
    rw [hi]

/-- From genesis on the blocks are dated, whatever clients do. -/
theorem play_dated (c : Config) (accounts : List (Address × Account)) (script : Script) :
    (play c script (.genesis c accounts)).state.chain.Dated c := by
  refine play_keeps (I := fun _ _ chain => chain.Dated c) ?_ ?_ ?_ script
  · exact fun _ _ _ h => h.produce
  · exact fun _ _ _ _ _ h => h
  · intro i hi
    have hfirst : i = 0 := by simpa [State.genesis] using hi
    subst hfirst
    unfold Config.timestamp
    simp [State.genesis]

/-- A block can be read from the instant on at which it is due. Its timestamp is behind that instant by
the whole seconds of the lag, so it has the second of that instant just if the lag is less than a
second. That is so for each block where the interval is a number of milliseconds. -/
theorem timestamps_lag (c : Config) (hinterval : 1 ≤ c.blockInterval)
    (accounts : List (Address × Account)) (script : Script) (now : Instant)
    (hbefore : ∀ e ∈ script, e.1 ≤ now) (k : UInt64) :
    let s := (play c script (.genesis c accounts)).state
    ∃ answer : Option Block,
      ((Query.block k).ask c now s).1 = .block (.ok answer) ∧
      (answer.isSome ↔ c.dueAt k.toNat ≤ now) ∧
      ∀ b, answer = some b → b.number = k ∧
        let due := c.genesisTimestamp.toNat + c.dueAt k.toNat / 1_000_000_000
        (k.toNat * (c.blockInterval / 1_000_000) < 2 ^ 64 → due < 2 ^ 64 →
          b.timestamp.toNat + c.lag k.toNat / 1_000_000_000 = due ∧
          (b.timestamp.toNat = due ↔ c.lag k.toNat < 1_000_000_000) ∧
          (1_000_000 ∣ c.blockInterval → b.timestamp.toNat = due)) := by
  intro s
  have hreached : (play c (script ++ [(now, .ask (.block k))]) (.genesis c accounts)).state.chain =
      s.chain.catchUp c now := by
    rw [play_append]
    rfl
  have htallied := play_tallied c accounts (script ++ [(now, .ask (.block k))])
  have hdated := play_dated c accounts (script ++ [(now, .ask (.block k))])
  rw [hreached] at htallied hdated
  have hsize : s.chain.blocks.size ≤ c.dueHeight now + 1 :=
    size_play hbefore (by simp [State.genesis])
  have hcaught : (s.chain.catchUp c now).blocks.size = c.dueHeight now + 1 := by
    rw [Chain.size_blocks_catchUp, Nat.max_eq_right hsize]
  refine ⟨(s.chain.catchUp c now).blocks[k.toNat]?, rfl, ?_, fun b hb => ?_⟩
  · rw [isSome_getElem?, hcaught, Nat.lt_succ_iff]
    exact Config.le_dueHeight_iff hinterval
  · obtain ⟨hk, hb⟩ := Array.getElem?_eq_some_iff.mp hb
    have hnumber := htallied.number k.toNat hk
    have htimestamp := hdated k.toNat hk
    rw [hb, Nat.toUInt64, UInt64.ofNat_toNat] at hnumber htimestamp
    refine ⟨hnumber, fun hmillis hdue => ?_⟩
    have hbehind := c.written_add_lag_seconds k.toNat
    have hwritten := Config.toNat_timestamp hmillis (by omega)
    have hlag : b.timestamp.toNat + c.lag k.toNat / 1_000_000_000 =
        c.genesisTimestamp.toNat + c.dueAt k.toNat / 1_000_000_000 := by
      rw [htimestamp]
      omega
    refine ⟨hlag, by omega, fun hdvd => ?_⟩
    have hless := c.lag_lt_of_dvd k.toNat hdvd
    omega

/-- An interval of a little more than a third of a second. -/
def Config.ofThird : Config := { blockInterval := 333_400_000 }

/-- The third block is due after a second and has the timestamp of genesis. -/
theorem timestamps_lag_third :
    ∃ b : Block,
      ((Query.block 3).ask .ofThird 1_001_000_000 (.genesis .ofThird [])).1 = .block (.ok (some b)) ∧
      b.number = 3 ∧ b.timestamp.toNat = Config.ofThird.genesisTimestamp.toNat ∧
      Config.ofThird.dueAt 3 / 1_000_000_000 = 1 := by
  obtain ⟨answer, hask, hdue, hblock⟩ :=
    timestamps_lag .ofThird (by decide) [] [] 1_001_000_000 (by decide) 3
  obtain ⟨b, rfl⟩ := Option.isSome_iff_exists.mp (hdue.mpr (by decide))
  obtain ⟨hnumber, hbehind⟩ := hblock b rfl
  obtain ⟨hlag, -, -⟩ := hbehind (by decide) (by decide)
  exact ⟨b, hask, hnumber, Nat.add_right_cancel hlag, by decide⟩

end Throughput.Simulated
