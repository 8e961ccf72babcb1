import Mathlib.Algebra.BigOperators.Group.List.Basic
import Mathlib.Data.Finset.Card
import Mathlib.Algebra.Order.BigOperators.Group.Finset
import Throughput.Proofs.Send.RoundRobin

/-!
# What has been issued

The counters of the senders have issued as many numbers together as there are requests.
-/

namespace Throughput.Generator

variable {g : Generator} {first : Nat → UInt64} {m : Sequences} {dispatched : Nat}

/-- Every request is the turn of one place. -/
theorem sum_turns (g : Generator) (count : Nat) :
    ((List.range g.senders.size).map (g.turns count)).sum = count := by
  have hplaces : Set.MapsTo (· % g.senders.size) (Finset.range count : Set Nat)
      (Finset.range g.senders.size) :=
    fun position _ => Finset.mem_coe.mpr (Finset.mem_range.mpr (Nat.mod_lt position g.nonempty))
  have hcard := Finset.card_eq_sum_card_fiberwise hplaces
  rw [Finset.card_range] at hcard
  refine Eq.trans ?_ hcard.symm
  change ∑ place ∈ Finset.range g.senders.size, g.turns count place = _
  exact Finset.sum_congr rfl fun place _ => Nat.count_eq_card_filter_range _ _

/-- The counters of the senders, each where it started and where it stands. -/
theorem toList_perm (hd : g.Distinct) (hmem : ∀ a, a ∈ m ↔ ∃ place < g.senders.size, g.senderAt place = a)
    {counters : Nat → Counter}
    (hstand : ∀ place < g.senders.size, m[g.senderAt place]? = some (counters place)) :
    m.toList.Perm ((List.range g.senders.size).map fun place => (g.senderAt place, counters place)) := by
  have hkeys : m.toList.Nodup := by
    refine (Std.ExtTreeMap.distinct_keys_toList (t := m)).imp ?_
    rintro x _ hne rfl
    exact hne Std.ReflCmp.compare_self
  have hplaces : ((List.range g.senders.size).map fun place =>
      (g.senderAt place, counters place)).Nodup := by
    refine List.Nodup.map_on (fun i hi k hk he => ?_) List.nodup_range
    exact hd i (List.mem_range.mp hi) k (List.mem_range.mp hk) (Prod.mk.inj he).1
  rw [List.perm_ext_iff_of_nodup hkeys hplaces]
  rintro ⟨a, counter⟩
  rw [Std.ExtTreeMap.mem_toList_iff_getElem?_eq_some, List.mem_map]
  constructor
  · intro hcounter
    obtain ⟨place, hp, rfl⟩ := (hmem a).mp (Std.ExtTreeMap.mem_iff_isSome_getElem?.mpr (by simp [hcounter]))
    rw [hstand place hp] at hcounter
    exact ⟨place, List.mem_range.mpr hp, by rw [Option.some.inj hcounter]⟩
  · rintro ⟨place, hp, he⟩
    obtain ⟨rfl, rfl⟩ := Prod.mk.inj he
    exact hstand place (List.mem_range.mp hp)

/-- The numbers that the senders have been given are as many as the requests. -/
theorem sum_issued (hd : g.Distinct)
    (hmem : ∀ a, a ∈ m ↔ ∃ place < g.senders.size, g.senderAt place = a)
    (hstand : g.StandAt m (g.numbersAfter first dispatched))
    (hfirst : ∀ place < g.senders.size, m.start? (g.senderAt place) = some (first place))
    (hsmall : dispatched < 2 ^ 64) : (m.spans.map (·.issued.toNat)).sum = dispatched := by
  have hcounters : ∀ place < g.senders.size,
      m[g.senderAt place]? = some ⟨first place, g.numbersAfter first dispatched place⟩ := by
    intro place hp
    obtain ⟨start, hcounter⟩ := hstand place hp
    have hstart := hfirst place hp
    rw [Sequences.start?, hcounter] at hstart
    rw [hcounter, ← Option.some.inj hstart]
  -- Only here the width of the counters matters: what they issue is a difference of words.
  have hissued : ∀ place, (Counter.issued
      ⟨first place, g.numbersAfter first dispatched place⟩).toNat = g.turns dispatched place := by
    intro place
    have hturns : g.turns dispatched place ≤ dispatched := Nat.count_le _
    simp only [Counter.issued, numbersAfter]
    rw [UInt64.add_comm, UInt64.add_sub_cancel]
    exact UInt64.toNat_ofNat_of_lt (Nat.lt_of_le_of_lt hturns hsmall)
  have hperm := (toList_perm hd hmem hcounters).map fun entry => entry.2.issued.toNat
  have hsum := hperm.sum_eq
  rw [List.map_map] at hsum
  unfold Sequences.spans
  rw [List.map_map]
  refine hsum.trans (Eq.trans ?_ (g.sum_turns dispatched))
  exact congrArg List.sum (List.map_congr_left fun place _ => hissued place)

end Throughput.Generator
