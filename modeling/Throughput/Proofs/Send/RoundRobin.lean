import Mathlib.Data.Int.CardIntervalMod
import Throughput.Send.Generator

/-!
# Requests go round the senders

Requests that are built one by one and requests that are built at once from reserved blocks follow
one plan, which depends on nothing but the counters of the senders.
-/

namespace Throughput

/-- The counter of a sender hands out its next number. -/
theorem Sequences.reserve_of_getElem? {m : Sequences} {sender : Address} {c : Counter}
    (count : UInt64) (h : m[sender]? = some c) :
    m.reserve sender count =
      (some (c.next, c.next + count), m.insert sender { c with next := c.next + count }) := by
  simp [reserve, h]

namespace Generator

variable {g : Generator} {m : Sequences} {first : Nat → UInt64}

/-- The request at a position, given the numbers at which the counters of the senders start. -/
def planned (g : Generator) (first : Nat → UInt64) (position : Nat) : Request :=
  g.request (position % g.senders.size)
    (first (position % g.senders.size) + (position / g.senders.size).toUInt64)

/-- The first requests of a run in their order. -/
def plan (g : Generator) (first : Nat → UInt64) (count : Nat) : List Request :=
  (List.range count).map (g.planned first)

/-- How many of the first requests fall to the sender at a place. -/
def turns (g : Generator) (count place : Nat) : Nat :=
  Nat.count (fun position => position % g.senders.size = place) count

/-- Do the counters of the senders stand at given numbers? -/
def StandAt (g : Generator) (m : Sequences) (numbers : Nat → UInt64) : Prop :=
  ∀ place < g.senders.size, ∃ start, m[g.senderAt place]? = some ⟨start, numbers place⟩

/-- The counters after the first requests of the plan. -/
def numbersAfter (g : Generator) (first : Nat → UInt64) (count place : Nat) : UInt64 :=
  first place + (g.turns count place).toUInt64

/-- Do different places have different senders? -/
def Distinct (g : Generator) : Prop :=
  ∀ i < g.senders.size, ∀ k < g.senders.size, g.senderAt i = g.senderAt k → i = k

theorem distinct_of_ofSequences {seeds : Sequences} {template : Template} {timeout : Duration}
    {sendTimeout : Option Duration}
    (h : ofSequences seeds template timeout sendTimeout = .ok g) : g.Distinct := by
  unfold ofSequences at h
  dsimp only at h
  split at h <;> cases h
  intro i hi k hk he
  have hn : seeds.keys.Nodup := Std.ExtTreeMap.nodup_keys
  simp only [senderAt, Nat.mod_eq_of_lt hi, Nat.mod_eq_of_lt hk] at he
  exact (List.Nodup.getElem_inj_iff hn).mp he

theorem senderAt_mod (g : Generator) (place : Nat) :
    g.senderAt (place % g.senders.size) = g.senderAt place := by
  simp [senderAt]

theorem request_mod (g : Generator) (place : Nat) (nonce : UInt64) :
    g.request (place % g.senders.size) nonce = g.request place nonce := by
  have hnext : g.senderAt (place % g.senders.size + 1) = g.senderAt (place + 1) := by
    simp [senderAt, Nat.add_mod]
  simp [request, recipientAt, senderAt_mod, hnext]

theorem turns_eq_share {place : Nat} (count : Nat) (h : place < g.senders.size) :
    g.turns count place = g.share count place := by
  have hcount := Nat.count_modEq_card count g.nonempty place
  simp only [Nat.ModEq, Nat.mod_eq_of_lt h] at hcount
  exact hcount

/-- The sender whose turn it is has had one turn in each round before. -/
theorem turns_self (g : Generator) (position : Nat) :
    g.turns position (position % g.senders.size) = position / g.senders.size := by
  rw [turns_eq_share position (Nat.mod_lt _ g.nonempty)]
  simp [share]

theorem turns_succ (g : Generator) (count place : Nat) :
    g.turns (count + 1) place =
      g.turns count place + if count % g.senders.size = place then 1 else 0 :=
  Nat.count_succ _ _

/-- A block reserved at one place moves the counter of that place only. -/
theorem StandAt.reserve {numbers : Nat → UInt64} (hd : g.Distinct) (h : g.StandAt m numbers)
    {place : Nat} (hp : place < g.senders.size) (count : UInt64) :
    (m.reserve (g.senderAt place) count).1.map Prod.fst = some (numbers place) ∧
      g.StandAt (m.reserve (g.senderAt place) count).2
        (fun i => if i = place then numbers i + count else numbers i) := by
  obtain ⟨start, hc⟩ := h place hp
  rw [Sequences.reserve_of_getElem? count hc]
  refine ⟨rfl, fun i hi => ?_⟩
  by_cases he : i = place
  · subst i
    exact ⟨start, by simp⟩
  · obtain ⟨start', hc'⟩ := h i hi
    have hne : g.senderAt place ≠ g.senderAt i := fun hs => he (hd place hp i hi hs).symm
    exact ⟨start', by simp [Std.ExtTreeMap.getElem?_insert, hne, he, hc']⟩

theorem numbersAfter_succ (g : Generator) (first : Nat → UInt64) (count : Nat) :
    (fun i => if i = count % g.senders.size then g.numbersAfter first count i + 1
      else g.numbersAfter first count i) = g.numbersAfter first (count + 1) := by
  funext i
  unfold numbersAfter
  rw [turns_succ]
  by_cases he : i = count % g.senders.size
  · simp [he, UInt64.add_assoc, Nat.toUInt64, UInt64.ofNat_add]
  · simp [he, Ne.symm he]

/-- The next request of the plan is built with the next number of its sender. -/
theorem buildNext_planned (hd : g.Distinct) {position : Nat}
    (h : g.StandAt m (g.numbersAfter first position)) (built : List Request) :
    (g.buildNext (built, m) position).1 = g.planned first position :: built ∧
      g.StandAt (g.buildNext (built, m) position).2 (g.numbersAfter first (position + 1)) := by
  have hp := Nat.mod_lt position g.nonempty
  obtain ⟨hnonce, hstand⟩ := h.reserve hd hp 1
  rw [senderAt_mod] at hnonce hstand
  rw [numbersAfter_succ] at hstand
  refine ⟨?_, hstand⟩
  simp only [buildNext, Sequences.next, hnonce, Option.getD_some, planned, numbersAfter,
    turns_self, request_mod]

/-- Requests built one by one follow the plan from wherever the counters stand. -/
theorem build_plan (hd : g.Distinct) (count position : Nat)
    (h : g.StandAt m (g.numbersAfter first position)) :
    (g.build position count m).1 = (List.range' position count).map (g.planned first) ∧
      g.StandAt (g.build position count m).2 (g.numbersAfter first (position + count)) := by
  -- requests are collected with the last one first
  have hfold : ∀ k, ∃ m',
      (List.range' position k).foldl g.buildNext ([], m) =
        (((List.range' position k).map (g.planned first)).reverse, m') ∧
      g.StandAt m' (g.numbersAfter first (position + k)) := by
    intro k
    induction k with
    | zero => exact ⟨m, rfl, h⟩
    | succ k ih =>
      obtain ⟨m', hf, hm'⟩ := ih
      obtain ⟨hb, hs⟩ := buildNext_planned hd hm'
        ((List.range' position k).map (g.planned first)).reverse
      refine ⟨_, ?_, hs⟩
      rw [List.range'_1_concat, List.foldl_append, hf]
      exact Prod.ext (by simp [hb]) rfl
  obtain ⟨m', hf, hm'⟩ := hfold count
  unfold build
  rw [hf]
  exact ⟨List.reverse_reverse _, hm'⟩

/-- The counters once blocks have been reserved for the senders before a place. -/
def numbersReserved (g : Generator) (first : Nat → UInt64) (target reserved place : Nat) : UInt64 :=
  if place < reserved then g.numbersAfter first target place else first place

/-- The next block starts where its sender's counter stands and holds the sender's share. -/
theorem reserveShare_plan (hd : g.Distinct) {target place : Nat} (hp : place < g.senders.size)
    (h : g.StandAt m (g.numbersReserved first target place)) (firsts : Array UInt64) :
    (g.reserveShare target (firsts, m) place).1 = firsts.push (first place) ∧
      g.StandAt (g.reserveShare target (firsts, m) place).2
        (g.numbersReserved first target (place + 1)) := by
  obtain ⟨hb, hs⟩ := h.reserve hd hp (g.share target place).toUInt64
  have hfirst : g.numbersReserved first target place place = first place := by
    simp [numbersReserved]
  have hafter : (fun i => if i = place
      then g.numbersReserved first target place i + (g.share target place).toUInt64
      else g.numbersReserved first target place i) =
      g.numbersReserved first target (place + 1) := by
    funext i
    by_cases hi : i = place
    · subst i
      simp [numbersReserved, numbersAfter, turns_eq_share target hp]
    · simp [numbersReserved, hi, show i < place + 1 ↔ i < place by omega]
  rw [hfirst] at hb
  rw [hafter] at hs
  refine ⟨?_, hs⟩
  simp [reserveShare, hb]

/-- Blocks reserved for all senders start where the counters stand. -/
theorem reserveShares_plan (hd : g.Distinct) (target : Nat) (h : g.StandAt m first) :
    (∀ place < g.senders.size, (g.reserveShares target m).1[place]? = some (first place)) ∧
      g.StandAt (g.reserveShares target m).2 (g.numbersAfter first target) := by
  -- the senders before `k` have their blocks, the others have not moved
  have hfold : ∀ k ≤ g.senders.size, ∃ firsts m',
      (List.range k).foldl (g.reserveShare target) (#[], m) = (firsts, m') ∧
      firsts.toList = (List.range k).map first ∧
      g.StandAt m' (g.numbersReserved first target k) := by
    intro k hk
    induction k with
    | zero => exact ⟨#[], m, rfl, rfl, h⟩
    | succ k ih =>
      obtain ⟨firsts, m', hf, hl, hm'⟩ := ih (by omega)
      obtain ⟨hb, hs⟩ := reserveShare_plan hd hk hm' firsts
      refine ⟨firsts.push (first k), _, ?_, by simp [hl, List.range_succ], hs⟩
      rw [List.range_succ, List.foldl_append, hf]
      exact Prod.ext hb rfl
  obtain ⟨firsts, m', hf, hl, hm'⟩ := hfold g.senders.size le_rfl
  unfold reserveShares
  rw [hf]
  constructor
  · intro place hp
    simp [← Array.getElem?_toList, hl, hp]
  · intro place hp
    simpa [numbersReserved, hp] using hm' place hp

/-- Requests built at once follow the same plan. -/
theorem buildAll_plan (hd : g.Distinct) (target : Nat) (h : g.StandAt m first) :
    (g.buildAll target m).1 = g.plan first target ∧
      g.StandAt (g.buildAll target m).2 (g.numbersAfter first target) := by
  obtain ⟨hfirst, hstand⟩ := reserveShares_plan hd target h
  refine ⟨?_, hstand⟩
  simp only [buildAll, plan]
  apply List.map_congr_left
  intro position _
  simp [hfirst _ (Nat.mod_lt position g.nonempty), planned, request_mod]

theorem length_build (g : Generator) (position count : Nat) (m : Sequences) :
    (g.build position count m).1.length = count := by
  have hfold : ∀ (positions : List Nat) (built : List Request × Sequences),
      (positions.foldl g.buildNext built).1.length = built.1.length + positions.length := by
    intro positions
    induction positions with
    | nil => simp
    | cons position positions ih =>
      intro built
      rw [List.foldl_cons, ih]
      simp only [buildNext, List.length_cons]
      omega
  simp [build, hfold]

theorem length_buildAll (g : Generator) (target : Nat) (m : Sequences) :
    (g.buildAll target m).1.length = target := by
  simp [buildAll]

theorem length_plan (g : Generator) (first : Nat → UInt64) (count : Nat) :
    (g.plan first count).length = count := by
  simp [plan]

/-- A plan is continued where it was left. -/
theorem plan_append (g : Generator) (first : Nat → UInt64) (position count : Nat) :
    g.plan first position ++ (List.range' position count).map (g.planned first) =
      g.plan first (position + count) := by
  have hrange := List.range'_append_1 (s := 0) (m := position) (n := count)
  rw [Nat.zero_add, ← List.range_eq_range', ← List.range_eq_range'] at hrange
  rw [plan, plan, ← List.map_append, hrange]

theorem numbersAfter_zero (g : Generator) (first : Nat → UInt64) :
    g.numbersAfter first 0 = first := by
  funext place
  simp [numbersAfter, turns]

theorem plan_succ (g : Generator) (first : Nat → UInt64) (count : Nat) :
    g.plan first (count + 1) = g.plan first count ++ [g.planned first count] := by
  simp [plan, List.range_succ]

/-- Do the numbers for so many requests fit into their words? -/
def Fits (g : Generator) (first : Nat → UInt64) (count : Nat) : Prop :=
  ∀ place < g.senders.size, (first place).toNat + count < 2 ^ 64

theorem toNat_add_of_fits {count place turn : Nat} (h : g.Fits first count)
    (hp : place < g.senders.size) (ht : turn ≤ count) :
    (first place + turn.toUInt64).toNat = (first place).toNat + turn := by
  have hfit := h place hp
  rw [UInt64.toNat_add, UInt64.toNat_ofNat', Nat.mod_eq_of_lt (by omega : turn < 2 ^ 64)]
  exact Nat.mod_eq_of_lt (by omega)

/-- The number of a planned request counts the rounds from where its sender's counter stood. -/
theorem nonce_planned {count position : Nat} (h : g.Fits first count) (hp : position ≤ count) :
    (g.planned first position).nonce.toNat =
      (first (position % g.senders.size)).toNat + position / g.senders.size :=
  toNat_add_of_fits h (Nat.mod_lt _ g.nonempty) ((Nat.div_le_self _ _).trans hp)

theorem sender_planned (g : Generator) (first : Nat → UInt64) (position : Nat) :
    (g.planned first position).sender = g.senderAt position :=
  g.senderAt_mod position

theorem sender_planned_eq_iff (hd : g.Distinct) (first : Nat → UInt64) {position place : Nat}
    (hp : place < g.senders.size) :
    (g.planned first position).sender = g.senderAt place ↔ position % g.senders.size = place := by
  rw [sender_planned, ← senderAt_mod]
  exact ⟨hd _ (Nat.mod_lt _ g.nonempty) _ hp, fun h => by rw [h]⟩

/-- No number of a sender is planned twice. -/
theorem nodup_plan (hd : g.Distinct) {count : Nat} (h : g.Fits first count) :
    ((g.plan first count).map fun r => (r.sender, r.nonce)).Nodup := by
  unfold plan
  rw [List.map_map]
  refine List.Nodup.map_on ?_ List.nodup_range
  intro i hi k hk he
  have hi := List.mem_range.mp hi
  have hk := List.mem_range.mp hk
  -- the sender tells the place in the round, the number tells the round
  obtain ⟨hsender, hnonce⟩ := Prod.mk.inj he
  have hmod : i % g.senders.size = k % g.senders.size := by
    rw [sender_planned g first k, ← senderAt_mod] at hsender
    exact (sender_planned_eq_iff hd first (Nat.mod_lt _ g.nonempty)).mp hsender
  have hdiv : i / g.senders.size = k / g.senders.size := by
    have hn := congrArg UInt64.toNat hnonce
    rw [nonce_planned h hi.le, nonce_planned h hk.le, hmod] at hn
    omega
  rw [← Nat.div_add_mod i g.senders.size, hmod, hdiv, Nat.div_add_mod]

/-- The planned numbers of a sender follow each other without a gap. -/
theorem nonces_plan (hd : g.Distinct) {count place : Nat} (h : g.Fits first count)
    (hp : place < g.senders.size) :
    ((g.plan first count).filter (·.sender == g.senderAt place)).map (·.nonce.toNat) =
      List.range' (first place).toNat (g.turns count place) := by
  have hupTo : ∀ k ≤ count,
      ((g.plan first k).filter (·.sender == g.senderAt place)).map (·.nonce.toNat) =
        List.range' (first place).toNat (g.turns k place) := by
    intro k hk
    induction k with
    | zero => simp [plan, turns]
    | succ k ih =>
      rw [plan_succ, List.filter_append, List.map_append, ih (by omega), turns_succ]
      -- the next request adds a number only if it is the turn of this sender
      by_cases hturn : k % g.senders.size = place
      · have hsender := (sender_planned_eq_iff hd first hp).mpr hturn
        have hself := g.turns_self k
        rw [hturn] at hself
        simp [hsender, nonce_planned h (by omega : k ≤ count), hturn, hself, List.range'_1_concat]
      · have hsender := mt (sender_planned_eq_iff hd first hp).mp hturn
        simp [hsender, hturn]
  exact hupTo count le_rfl

end Generator

end Throughput
