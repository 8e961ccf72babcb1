import Throughput.Proofs.Send.RoundRobin

/-!
# Numbers handed out to several callers

Callers draw numbers in any order, one or many at a time, by the name of a sender or from a counter
that one of them has obtained. What a sender has been given is one block after the other.
-/

namespace Throughput

namespace Sequences

/-- What a caller does. All draw from a counter that one of them has obtained. -/
inductive Act where
  | next (sender : Address)
  | reserve (sender : Address) (count : UInt64)
  /-- Obtains the counter of a sender. -/
  | obtain (sender : Address)
  /-- Draws one number from the counter obtained at a place. -/
  | nextFrom (place : Nat)
  | reserveFrom (place : Nat) (count : UInt64)
deriving DecidableEq, Repr

end Sequences

/-- A draw: who asked for how many numbers of which sender, and the block that was handed out, its
first number and the one after its last. -/
structure Draw where
  caller : Nat
  sender : Address
  count : UInt64
  block : Option (UInt64 × UInt64)
deriving DecidableEq, Repr

/-- The numbers of a draw in their order. -/
def Draw.numbers (d : Draw) : List Nat :=
  match d.block with
  | some (first, stop) => List.range' first.toNat (stop.toNat - first.toNat)
  | none => []

/-- How many numbers draws ask for. -/
def Draw.total (draws : List Draw) : Nat := (draws.map (·.count.toNat)).sum

/-- Counters in use: the senders whose counters have been obtained, and all draws in the order of the
calls. -/
structure Service where
  sequences : Sequences
  obtained : List Address := []
  draws : List Draw := []

namespace Service

/-- Hands out one number of a sender. -/
def next (s : Service) (caller : Nat) (sender : Address) : Service :=
  let (number, sequences) := s.sequences.next sender
  { s with sequences, draws := s.draws ++ [⟨caller, sender, 1, number.map fun n => (n, n + 1)⟩] }

/-- Hands out a block of numbers of a sender. -/
def reserve (s : Service) (caller : Nat) (sender : Address) (count : UInt64) : Service :=
  let (block, sequences) := s.sequences.reserve sender count
  { s with sequences, draws := s.draws ++ [⟨caller, sender, count, block⟩] }

/-- Lets a caller act. Only seeded senders have a counter to be obtained. -/
def perform (s : Service) (x : Nat × Sequences.Act) : Service :=
  match x.2 with
  | .next sender => s.next x.1 sender
  | .reserve sender count => s.reserve x.1 sender count
  | .obtain sender =>
    if sender ∈ s.sequences then { s with obtained := s.obtained ++ [sender] } else s
  | .nextFrom place =>
    match s.obtained[place]? with
    | some sender => s.next x.1 sender
    | none => s
  | .reserveFrom place count =>
    match s.obtained[place]? with
    | some sender => s.reserve x.1 sender count
    | none => s

/-- Lets callers act in the given order. -/
def performAll (m : Sequences) (acts : List (Nat × Sequences.Act)) : Service :=
  acts.foldl perform { sequences := m }

/-- The draws on the counter of a sender. -/
def drawsOf (s : Service) (sender : Address) : List Draw := s.draws.filter (·.sender == sender)

/-- A single number is a block of one. -/
theorem next_eq_reserve (s : Service) (caller : Nat) (sender : Address) :
    s.next caller sender = s.reserve caller sender 1 := by
  unfold next reserve Sequences.next Sequences.reserve
  cases s.sequences[sender]? <;> rfl

/-- All that an act can do: it obtains a counter, nothing, or it draws a block. -/
theorem perform_cases (s : Service) (x : Nat × Sequences.Act) :
    (∃ sender ∈ s.sequences, s.perform x = { s with obtained := s.obtained ++ [sender] }) ∨
      s.perform x = s ∨ ∃ sender count, s.perform x = s.reserve x.1 sender count := by
  unfold perform
  split
  · exact .inr (.inr ⟨_, _, s.next_eq_reserve ..⟩)
  · exact .inr (.inr ⟨_, _, rfl⟩)
  · split
    · exact .inl ⟨_, ‹_›, rfl⟩
    · exact .inr (.inl rfl)
  · split
    · exact .inr (.inr ⟨_, _, s.next_eq_reserve ..⟩)
    · exact .inr (.inl rfl)
  · split
    · exact .inr (.inr ⟨_, _, rfl⟩)
    · exact .inr (.inl rfl)

theorem performAll_concat (m : Sequences) (acts : List (Nat × Sequences.Act))
    (x : Nat × Sequences.Act) : performAll m (acts ++ [x]) = (performAll m acts).perform x :=
  List.foldl_concat ..

end Service

/-! ## Consecutive blocks -/

namespace Draw

variable {start : UInt64} {draws : List Draw} {d : Draw}

theorem total_concat (draws : List Draw) (d : Draw) :
    total (draws ++ [d]) = total draws + d.count.toNat := by
  simp [total]

/-- Does each block begin where the one before it ends, the first one at a start? -/
def Consecutive (start : UInt64) (draws : List Draw) : Prop :=
  ∀ before d after, draws = before ++ d :: after →
    d.block = some (start + (total before).toUInt64, start + (total before).toUInt64 + d.count)

theorem consecutive_nil (start : UInt64) : Consecutive start [] :=
  fun _ _ _ h => absurd h (by simp)

theorem Consecutive.concat (h : Consecutive start draws)
    (hblock : d.block =
      some (start + (total draws).toUInt64, start + (total draws).toUInt64 + d.count)) :
    Consecutive start (draws ++ [d]) := by
  intro before e after hsplit
  rcases List.eq_nil_or_concat after with rfl | ⟨after, last, rfl⟩
  · obtain ⟨rfl, hlast⟩ := List.append_inj' hsplit rfl
    rw [← List.singleton_inj.mp hlast]
    exact hblock
  · rw [List.concat_eq_append, ← List.cons_append, ← List.append_assoc] at hsplit
    exact h before e after (List.append_inj' hsplit rfl).1

theorem Consecutive.of_concat (h : Consecutive start (draws ++ [d])) : Consecutive start draws := by
  rintro before e after rfl
  exact h before e (after ++ [d]) (by simp)

theorem toNat_add_total (hfit : start.toNat + total draws < 2 ^ 64) :
    (start + (total draws).toUInt64).toNat = start.toNat + total draws := by
  rw [UInt64.toNat_add, UInt64.toNat_ofNat', Nat.mod_eq_of_lt (by omega : total draws < 2 ^ 64)]
  exact Nat.mod_eq_of_lt hfit

/-- The bounds of a block as numbers, while the counter does not go round. -/
theorem Consecutive.block_toNat (h : Consecutive start draws)
    (hfit : start.toNat + total draws < 2 ^ 64) {before after : List Draw}
    (hsplit : draws = before ++ d :: after) :
    ∃ first stop, d.block = some (first, stop) ∧ first.toNat = start.toNat + total before ∧
      stop.toNat = first.toNat + d.count.toNat := by
  have htotal : total draws = total before + (d.count.toNat + total after) := by
    simp [hsplit, total]
  have hfirst : (start + (total before).toUInt64).toNat = start.toNat + total before :=
    toNat_add_total (by omega)
  refine ⟨_, _, h before d after hsplit, hfirst, ?_⟩
  rw [UInt64.toNat_add, hfirst]
  exact Nat.mod_eq_of_lt (by omega)

/-- Consecutive blocks are one range together. -/
theorem Consecutive.numbers (h : Consecutive start draws)
    (hfit : start.toNat + total draws < 2 ^ 64) :
    draws.flatMap Draw.numbers = List.range' start.toNat (total draws) := by
  induction draws using List.reverseRecOn with
  | nil => rfl
  | append_singleton draws d ih =>
    obtain ⟨first, stop, hblock, hfirst, hstop⟩ := h.block_toNat hfit rfl
    rw [total_concat] at hfit ⊢
    have hlast : d.numbers = List.range' (start.toNat + total draws) d.count.toNat := by
      simp [Draw.numbers, hblock, hfirst, hstop]
    rw [List.flatMap_append, List.flatMap_singleton, ih h.of_concat (by omega), hlast]
    exact List.range'_append_1

end Draw

/-! ## What callers are given -/

namespace Sequences

variable {m : Sequences} {a sender : Address} {start : UInt64}

/-- Every sender that is given starts begins at the last of them. -/
theorem getElem?_ofStarts_reverse (starts : List (Address × UInt64)) (a : Address) :
    (ofStarts starts)[a]? = (starts.reverse.lookup a).map fun start => ⟨start, start⟩ := by
  induction starts using List.reverseRecOn with
  | nil => rfl
  | append_singleton starts entry ih =>
    unfold ofStarts at ih ⊢
    rw [List.foldl_concat, List.reverse_concat, Std.ExtTreeMap.getElem?_insert, List.lookup_cons, ih]
    by_cases ha : entry.1 = a
    · simp [ha]
    · simp [ha, beq_eq_false_iff_ne.mpr (Ne.symm ha)]

/-- The spans in ascending order are those of all counters. -/
theorem spans_spec (m : Sequences) :
    (m.spans.map Span.sender).Pairwise (· < ·) ∧ (∀ a, a ∈ m.spans.map Span.sender ↔ a ∈ m) ∧
      ∀ span ∈ m.spans, m.start? span.sender = some span.start ∧
        m.issued? span.sender = some span.issued := by
  have hkeys : m.spans.map Span.sender = m.keys := by
    rw [← Std.ExtTreeMap.map_fst_toList_eq_keys, spans, List.map_map]
    rfl
  rw [hkeys]
  have hordered := Std.ExtTreeMap.ordered_keys (t := m)
  have hlt : ∀ {a b : Address}, compare a b = .lt → a < b :=
    fun h => compareOfLessAndEq_eq_lt.mp h
  refine ⟨hordered.imp hlt, fun a => Std.ExtTreeMap.mem_keys, fun span hspan => ?_⟩
  obtain ⟨⟨a, counter⟩, hcounter, rfl⟩ := List.mem_map.mp hspan
  rw [Std.ExtTreeMap.mem_toList_iff_getElem?_eq_some] at hcounter
  simp [start?, issued?, hcounter]

/-- A block reserved for one sender leaves the counters of the others. -/
theorem getElem?_reserve_of_ne (h : sender ≠ a) (count : UInt64) :
    (m.reserve sender count).2[a]? = m[a]? := by
  unfold reserve
  split
  · rfl
  · simp [Std.ExtTreeMap.getElem?_insert, h]

end Sequences

namespace Service

variable {s : Service} {a sender : Address} {start : UInt64}

/-- Has a seeded sender been given consecutive blocks, and does its counter stand behind them? -/
def HandsOut (s : Service) (sender : Address) (start : UInt64) : Prop :=
  s.sequences[sender]? = some ⟨start, start + (Draw.total (s.drawsOf sender)).toUInt64⟩ ∧
    Draw.Consecutive start (s.drawsOf sender)

/-- Is there no counter of a sender, and has it been given nothing? -/
structure Ignores (s : Service) (sender : Address) : Prop where
  unknown : sender ∉ s.sequences
  unobtained : sender ∉ s.obtained
  draws : ∀ d ∈ s.drawsOf sender, d.block = none

theorem drawsOf_reserve (s : Service) (caller : Nat) (sender a : Address) (count : UInt64) :
    (s.reserve caller sender count).drawsOf a =
      if sender = a then
        s.drawsOf a ++ [⟨caller, sender, count, (s.sequences.reserve sender count).1⟩]
      else s.drawsOf a := by
  unfold drawsOf reserve
  by_cases ha : sender = a <;> simp [ha]

/-- The next block of a sender begins where its counter stands, and no other counter moves. -/
theorem HandsOut.reserve (h : s.HandsOut a start) (caller : Nat) (sender : Address)
    (count : UInt64) : (s.reserve caller sender count).HandsOut a start := by
  obtain ⟨hcounter, hblocks⟩ := h
  unfold HandsOut
  rw [drawsOf_reserve]
  by_cases ha : sender = a
  · subst ha
    rw [if_pos rfl, Draw.total_concat]
    have hreserve := Sequences.reserve_of_getElem? count hcounter
    constructor
    · change (s.sequences.reserve sender count).2[sender]? = _
      simp only [hreserve, Std.ExtTreeMap.getElem?_insert_self, Nat.toUInt64, UInt64.ofNat_add,
        UInt64.ofNat_toNat, UInt64.add_assoc]
    · exact hblocks.concat (by rw [hreserve])
  · rw [if_neg ha]
    exact ⟨(Sequences.getElem?_reserve_of_ne ha count).trans hcounter, hblocks⟩

theorem HandsOut.perform (h : s.HandsOut a start) (x : Nat × Sequences.Act) :
    (s.perform x).HandsOut a start := by
  rcases s.perform_cases x with ⟨sender, -, hx⟩ | hx | ⟨sender, count, hx⟩ <;> rw [hx]
  · exact h
  · exact h
  · exact h.reserve ..

theorem Ignores.reserve (h : s.Ignores a) (caller : Nat) (sender : Address) (count : UInt64) :
    (s.reserve caller sender count).Ignores a := by
  have hnone : s.sequences[a]? = none := Std.ExtTreeMap.getElem?_eq_none h.unknown
  by_cases ha : sender = a
  · subst ha
    have hreserve : s.sequences.reserve sender count = (none, s.sequences) := by
      simp [Sequences.reserve, hnone]
    refine ⟨?_, h.unobtained, ?_⟩
    · change sender ∉ (s.sequences.reserve sender count).2
      rw [hreserve]
      exact h.unknown
    · rw [drawsOf_reserve, if_pos rfl, hreserve]
      intro d hd
      rcases List.mem_append.mp hd with hd | hd
      · exact h.draws d hd
      · rw [List.mem_singleton.mp hd]
  · refine ⟨?_, h.unobtained, ?_⟩
    · change a ∉ (s.sequences.reserve sender count).2
      rw [Std.ExtTreeMap.mem_iff_isSome_getElem?, Sequences.getElem?_reserve_of_ne ha, hnone]
      simp
    · rw [drawsOf_reserve, if_neg ha]
      exact h.draws

theorem Ignores.perform (h : s.Ignores a) (x : Nat × Sequences.Act) : (s.perform x).Ignores a := by
  rcases s.perform_cases x with ⟨sender, hsender, hx⟩ | hx | ⟨sender, count, hx⟩ <;> rw [hx]
  · refine ⟨h.unknown, fun hobtained => ?_, h.draws⟩
    rcases List.mem_append.mp hobtained with hobtained | hobtained
    · exact h.unobtained hobtained
    · exact h.unknown (List.mem_singleton.mp hobtained ▸ hsender)
  · exact h
  · exact h.reserve ..

/-- An act draws from one counter at most and leaves the others. -/
theorem perform_others (s : Service) (x : Nat × Sequences.Act) :
    ((s.perform x).sequences = s.sequences ∧ (s.perform x).draws = s.draws) ∨
      ∃ d, (s.perform x).draws = s.draws ++ [d] ∧ d.caller = x.1 ∧
        ∀ a, a ≠ d.sender → (s.perform x).sequences[a]? = s.sequences[a]? := by
  rcases s.perform_cases x with ⟨sender, -, hx⟩ | hx | ⟨sender, count, hx⟩ <;> rw [hx]
  · exact .inl ⟨rfl, rfl⟩
  · exact .inl ⟨rfl, rfl⟩
  · exact .inr ⟨_, rfl, rfl, fun a ha => Sequences.getElem?_reserve_of_ne ha.symm count⟩

/-- What every act preserves holds after any acts. -/
theorem performAll_keeps {I : Service → Prop} (m : Sequences) (hm : I { sequences := m })
    (keep : ∀ s x, I s → I (s.perform x)) (acts : List (Nat × Sequences.Act)) :
    I (performAll m acts) := by
  induction acts using List.reverseRecOn with
  | nil => exact hm
  | append_singleton acts x ih =>
    rw [performAll_concat]
    exact keep _ x ih

theorem handsOut_performAll {starts : List (Address × UInt64)}
    (h : starts.reverse.lookup sender = some start) (acts : List (Nat × Sequences.Act)) :
    (performAll (.ofStarts starts) acts).HandsOut sender start := by
  refine performAll_keeps (I := (·.HandsOut sender start)) _ ⟨?_, Draw.consecutive_nil _⟩
    (fun _ x hs => hs.perform x) acts
  change (Sequences.ofStarts starts)[sender]? = some ⟨start, start + (0 : Nat).toUInt64⟩
  rw [Sequences.getElem?_ofStarts_reverse, h]
  simp

theorem ignores_performAll {starts : List (Address × UInt64)}
    (h : starts.reverse.lookup sender = none) (acts : List (Nat × Sequences.Act)) :
    (performAll (.ofStarts starts) acts).Ignores sender := by
  refine performAll_keeps (I := (·.Ignores sender)) _ ⟨?_, nofun, nofun⟩
    (fun _ x hs => hs.perform x) acts
  rw [Std.ExtTreeMap.mem_iff_isSome_getElem?, Sequences.getElem?_ofStarts_reverse, h]
  simp

/-- Whatever callers do and in whatever order, a seeded sender is given consecutive blocks in the order
of the calls, which are disjoint and fill the range from its start on, while its counter does not go
round. An act moves the counter of one sender at most. A sender that was not seeded is given nothing
and has no counter to be obtained. The spans are those of the seeded senders in ascending order, each
with its start and what was issued. -/
theorem draws_consecutive (starts : List (Address × UInt64)) (acts : List (Nat × Sequences.Act)) :
    let s := performAll (.ofStarts starts) acts
    (∀ sender start, starts.reverse.lookup sender = some start →
      start.toNat + Draw.total (s.drawsOf sender) < 2 ^ 64 →
        (∀ before d after, s.drawsOf sender = before ++ d :: after → ∃ first stop,
          d.block = some (first, stop) ∧ first.toNat = start.toNat + Draw.total before ∧
            stop.toNat = first.toNat + d.count.toNat) ∧
        (s.drawsOf sender).Pairwise (fun d e => d.numbers.Disjoint e.numbers) ∧
        ∃ issued, s.sequences.start? sender = some start ∧
          s.sequences.issued? sender = some issued ∧
          issued.toNat = Draw.total (s.drawsOf sender) ∧
          (s.drawsOf sender).flatMap Draw.numbers = List.range' start.toNat issued.toNat) ∧
    (∀ x, let s' := performAll (.ofStarts starts) (acts ++ [x])
      s'.sequences = s.sequences ∧ s'.draws = s.draws ∨
        ∃ d, s'.draws = s.draws ++ [d] ∧ d.caller = x.1 ∧
          ∀ a, a ≠ d.sender → s'.sequences[a]? = s.sequences[a]?) ∧
    (∀ sender, sender ∉ starts.map Prod.fst →
      sender ∉ s.sequences ∧ sender ∉ s.obtained ∧ ∀ d ∈ s.drawsOf sender, d.block = none) ∧
    (s.sequences.spans.map Span.sender).Pairwise (· < ·) ∧
    (∀ a, a ∈ s.sequences.spans.map Span.sender ↔ a ∈ starts.map Prod.fst) ∧
    ∀ span ∈ s.sequences.spans, s.sequences.start? span.sender = some span.start ∧
      s.sequences.issued? span.sender = some span.issued := by
  intro s
  have hlookup : ∀ a, starts.reverse.lookup a = none ↔ a ∉ starts.map Prod.fst := by
    intro a
    simp only [List.lookup_eq_none_iff, List.mem_reverse, List.mem_map, bne_iff_ne]
    grind
  have hmem : ∀ a, a ∈ s.sequences ↔ a ∈ starts.map Prod.fst := by
    intro a
    rw [← not_iff_not, ← hlookup]
    cases hstart : starts.reverse.lookup a with
    | none => exact iff_of_true (ignores_performAll hstart acts).unknown rfl
    | some start =>
      obtain ⟨hcounter, -⟩ := handsOut_performAll hstart acts
      simp [Std.ExtTreeMap.mem_iff_isSome_getElem?, s, hcounter]
  obtain ⟨hordered, hspans, hfigures⟩ := s.sequences.spans_spec
  refine ⟨fun sender start hstart hfit => ?_, fun x => ?_, fun sender hsender => ?_, hordered,
    fun a => (hspans a).trans (hmem a), hfigures⟩
  · obtain ⟨hcounter, hblocks⟩ := handsOut_performAll hstart acts
    have hnumbers := hblocks.numbers hfit
    have hdisjoint : ((s.drawsOf sender).flatMap Draw.numbers).Nodup := by
      rw [hnumbers]
      exact List.nodup_range'
    have hissued : (Counter.issued
        ⟨start, start + (Draw.total (s.drawsOf sender)).toUInt64⟩).toNat =
          Draw.total (s.drawsOf sender) := by
      simp only [Counter.issued, UInt64.add_comm start, UInt64.add_sub_cancel]
      exact UInt64.toNat_ofNat_of_lt (Nat.lt_of_le_of_lt (Nat.le_add_left ..) hfit)
    refine ⟨fun before d after hsplit => hblocks.block_toNat hfit hsplit,
      (List.nodup_flatMap.mp hdisjoint).2, _, ?_, ?_, hissued, ?_⟩
    · simp [Sequences.start?, s, hcounter]
    · simp [Sequences.issued?, s, hcounter]
    · rw [hissued, hnumbers]
  · rw [performAll_concat]
    exact perform_others ..
  · obtain ⟨hunknown, hunobtained, hnone⟩ := ignores_performAll ((hlookup sender).mpr hsender) acts
    exact ⟨hunknown, hunobtained, hnone⟩

/-- Two callers share a counter, one by its sender and one by the counter that the other has obtained;
of two starts the later counts. -/
theorem draws_consecutive_shared :
    let s := performAll (.ofStarts [(1, 5), (2, 9), (1, 7)])
      [(0, .obtain 1), (0, .next 1), (1, .reserve 1 3), (1, .nextFrom 0), (0, .reserve 1 0),
        (1, .reserveFrom 0 2), (1, .next 3)]
    (s.drawsOf 1).flatMap Draw.numbers = [7, 8, 9, 10, 11, 12, 13] ∧
      (s.drawsOf 1).Pairwise (fun d e => d.numbers.Disjoint e.numbers) ∧ 3 ∉ s.sequences := by
  intro s
  have htotal : Draw.total (s.drawsOf 1) = 7 := by decide +kernel
  obtain ⟨hseeded, -, hunseeded, -⟩ := draws_consecutive [(1, 5), (2, 9), (1, 7)]
    [(0, .obtain 1), (0, .next 1), (1, .reserve 1 3), (1, .nextFrom 0), (0, .reserve 1 0),
      (1, .reserveFrom 0 2), (1, .next 3)]
  obtain ⟨-, hdisjoint, issued, -, -, hissued, hnumbers⟩ := hseeded 1 7 rfl (by
    rw [htotal]
    decide)
  rw [hissued, htotal] at hnumbers
  exact ⟨hnumbers, hdisjoint, (hunseeded 3 (by decide)).1⟩

end Service

end Throughput
