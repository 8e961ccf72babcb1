import Mathlib.Data.List.Perm.Basic
import Throughput.Proofs.Simulated.History

/-!
# What becomes of accepted submissions

Each accepted submission has a place in the pool until a block executes it. The counter of the pool,
the handles and the receipts are in step with that.
-/

namespace Throughput.Simulated

variable {c : Config} {log : List Executed} {d : Draft} {a : Address} {t : Transfer}

theorem Draft.find?_of_executable? (h : d.executable? a = some t) :
    d.pool.find? a (d.accounts.find a).nonce = some t := h

theorem Draft.nonce_add (c : Config) (number : UInt64) (b : Address) :
    ((d.add c number a t).accounts.find b).nonce =
      if a = b then (d.accounts.find b).nonce + 1 else (d.accounts.find b).nonce :=
  Config.nonce_execute ..

/-- What goes into a block leaves the pool. -/
theorem Draft.places_add (c : Config) (number : UInt64) (h : d.executable? a = some t) :
    d.pool.places.length = (d.add c number a t).pool.places.length + 1 :=
  (Pool.places_erase_perm (by rw [find?_of_executable? h]; rfl)).length_eq

/-- What single transfers and admissions keep is kept by a whole script. -/
theorem play_keeps_draft {I : List (Request × Handle) → List Executed → Draft → Prop}
    (hadd : ∀ acc block, Draft.KeptByAdd c block (I acc))
    (hclosed : ∀ acc log d, I acc log d → I acc log d.closed)
    (hqueue : ∀ acc log (chain : Chain) request, chain.Admits c request → I acc log chain.draft →
      I (acc ++ [(request, handleOf request.sender request.nonce)]) log (chain.queue request).draft)
    {s : State} (hI : I [] [] s.chain.draft) (script : Script) :
    I (play c script s).accepted (play c script s).executed (play c script s).state.chain.draft :=
  play_keeps (I := fun acc log chain => I acc log chain.draft)
    (fun acc _ _ h => Chain.produce_keeps (hadd acc) (hclosed acc) h) hqueue hI script

/-- What is queued at first and what is accepted is what is queued in the end and what has been
executed, place by place. -/
theorem play_places (c : Config) (script : Script) (s : State) :
    (s.chain.pool.places ++ (play c script s).accepted.map placeOf).Perm
      ((play c script s).state.chain.pool.places ++
        (play c script s).executed.map Executed.place) := by
  refine play_keeps_draft
    (I := fun acc log d => (s.chain.pool.places ++ acc.map placeOf).Perm
      (d.pool.places ++ log.map Executed.place)) ?_ ?_ ?_ (.refl _) script
  · rintro acc block log d a t - ht h
    have hfound := Pool.places_erase_perm (by rw [Draft.find?_of_executable? ht]; rfl)
    have hmoved : d.pool.places.Perm
        ((d.add c block.toUInt64 a t).pool.places ++ [(d.execution c block a t).place]) :=
      hfound.trans (List.perm_append_singleton ..).symm
    rw [List.map_append, List.map_singleton]
    refine h.trans ((hmoved.append_right _).trans ?_)
    rw [List.append_assoc]
    exact (List.perm_append_comm).append_left _
  · intro acc log d h
    exact h.trans ((Pool.places_filter_perm d.pool).symm.append_right _)
  · intro acc log chain request hadmits h
    have hplaces := Pool.places_insert_perm
      ⟨handleOf request.sender request.nonce, request.recipient, request.value⟩ hadmits.free
    rw [List.map_append, ← List.append_assoc]
    refine (h.append_right _).trans ?_
    refine (List.perm_append_singleton ..).trans ?_
    exact (hplaces.append_right (log.map Executed.place)).symm

/-- Every accepted submission is told the handle of its sender and nonce. -/
theorem play_handles (c : Config) (script : Script) (s : State) :
    ∀ x ∈ (play c script s).accepted, x.2 = handleOf x.1.sender x.1.nonce := by
  refine play_keeps (I := fun acc _ _ => ∀ x ∈ acc, x.2 = handleOf x.1.sender x.1.nonce)
    (fun _ _ _ h => h) ?_ (by simp) script
  intro acc _ _ request _ h x hx
  rcases List.mem_append.mp hx with hx | hx
  · exact h x hx
  · rw [List.mem_singleton.mp hx]

/-- The receipts are those of the executed transfers; of two for one handle the later counts. -/
theorem play_receipts (c : Config) (script : Script) (s : State) :
    (play c script s).state.chain.receipts = s.chain.receipts.insertMany
      ((play c script s).executed.map fun x => (x.transfer.handle, x.receipt)) := by
  refine play_keeps_draft (I := fun _ log d => d.receipts = s.chain.receipts.insertMany
    (log.map fun x => (x.transfer.handle, x.receipt))) ?_ ?_ ?_ ?_ script
  · intro _ block log d a t _ _ h
    rw [List.map_append, Std.ExtTreeMap.insertMany_append, ← h]
    rfl
  · exact fun _ _ _ h => h
  · exact fun _ _ _ _ _ h => h
  · exact Std.ExtTreeMap.insertMany_nil.symm

theorem mem_receipts_of_executed {script : Script} {s : State} {x : Executed}
    (hx : x ∈ (play c script s).executed) :
    x.transfer.handle ∈ (play c script s).state.chain.receipts := by
  rw [play_receipts, Std.ExtTreeMap.mem_insertMany_list]
  exact .inr (by simpa using ⟨x, hx, rfl⟩)

/-- The pool never holds more than it may. -/
theorem play_capacity (script : Script) {s : State} (h : s.chain.pooled ≤ c.poolCapacity) :
    (play c script s).state.chain.pooled ≤ c.poolCapacity := by
  refine play_keeps_draft (I := fun _ _ d => d.pooled ≤ c.poolCapacity) ?_ ?_ ?_ h script
  · intro _ block log d a t _ _ h
    exact Nat.le_trans (Nat.sub_le ..) h
  · exact fun _ _ _ h => h
  · exact fun _ _ _ _ hadmits _ => hadmits.room

/-- Are the transfers of a sender queued under the handles of their nonces? -/
def Draft.Handled (a : Address) (d : Draft) : Prop :=
  ∀ nonce t, d.pool.find? a nonce = some t → t.handle = handleOf a nonce

namespace Draft.Handled

theorem add (h : d.Handled a) (number : UInt64) (b : Address) (t : Transfer) :
    (d.add c number b t).Handled a := by
  intro nonce u hu
  simp only [Draft.add, Pool.find?_erase, ite_eq_iff, reduceCtorEq, and_false, false_or] at hu
  exact h nonce u hu.2

theorem closed (h : d.Handled a) : d.closed.Handled a :=
  fun nonce t ht => h nonce t ((Pool.find?_filter ..).symm.trans ht)

theorem queue {chain : Chain} (h : chain.draft.Handled a) (request : Request) :
    (chain.queue request).draft.Handled a := by
  intro nonce t ht
  simp only [Chain.draft, Chain.queue, Pool.find?_insert] at ht
  split at ht
  · rename_i hplace
    obtain ⟨rfl, rfl⟩ := hplace
    rw [← Option.some.inj ht]
  · exact h nonce t ht

end Draft.Handled

/-- Executed transfers carry the handles under which they were queued. -/
theorem play_logged {s : State} (h : s.chain.draft.Handled a) (script : Script) :
    ∀ x ∈ (play c script s).executed, x.sender = a → x.transfer.handle = handleOf a x.nonce := by
  refine (play_keeps_draft (I := fun _ log d => d.Handled a ∧
    ∀ x ∈ log, x.sender = a → x.transfer.handle = handleOf a x.nonce) ?_ ?_ ?_ ⟨h, by simp⟩ script).2
  · rintro _ block log d b t - ht ⟨hd, hlog⟩
    refine ⟨hd.add block.toUInt64 b t, fun x hx hsender => ?_⟩
    rcases List.mem_append.mp hx with hx | hx
    · exact hlog x hx hsender
    · rw [List.mem_singleton.mp hx] at hsender ⊢
      change b = a at hsender
      subst hsender
      exact hd _ t (Draft.find?_of_executable? ht)
  · exact fun _ _ _ h => ⟨h.1.closed, h.2⟩
  · exact fun _ _ _ request _ h => ⟨h.1.queue request, h.2⟩

/-- Is the pool in step with its counter, its accounts and the handles? -/
structure Draft.Sound (d : Draft) : Prop where
  pooled : d.pooled = d.pool.places.length
  handled : ∀ a, d.Handled a
  floor : ∀ a nonce, (d.pool.find? a nonce).isSome → (d.accounts.find a).nonce ≤ nonce

namespace Draft.Sound

theorem pooled_pos (h : d.Sound) (ht : d.executable? a = some t) : 0 < d.pooled := by
  have hperm := Pool.places_erase_perm (by rw [find?_of_executable? ht]; rfl)
  rw [h.pooled, hperm.length_eq]
  exact Nat.succ_pos _

theorem add (h : d.Sound) (ht : d.executable? a = some t) (number : UInt64) :
    (d.add c number a t).Sound := by
  refine ⟨?_, ?_, ?_⟩
  · have hplaces := places_add c number ht
    change d.pooled - 1 = _
    rw [h.pooled, hplaces]
    rfl
  · exact fun b => (h.handled b).add number a t
  · intro b nonce hqueued
    simp only [Draft.add, Pool.find?_erase] at hqueued
    rw [nonce_add]
    split at hqueued
    · simp at hqueued
    · rename_i hother
      have hfloor := h.floor b nonce hqueued
      split
      · rename_i hab
        subst b
        -- the transfer at the account nonce has gone, so the others lie above it
        have hne : (d.accounts.find a).nonce ≠ nonce := fun he => hother ⟨rfl, he⟩
        rw [ne_eq, ← UInt64.toNat_inj] at hne
        rw [UInt64.le_iff_toNat_le] at hfloor ⊢
        rw [UInt64.toNat_add, UInt64.toNat_one]
        omega
      · exact hfloor

theorem closed (h : d.Sound) : d.closed.Sound := by
  refine ⟨?_, ?_, ?_⟩
  · exact h.pooled.trans (Pool.places_filter_perm d.pool).symm.length_eq
  · exact fun a => (h.handled a).closed
  · intro a nonce hqueued
    simp only [Draft.closed, Pool.find?_filter] at hqueued
    exact h.floor a nonce hqueued

theorem queue {chain : Chain} {request : Request} (h : chain.draft.Sound)
    (hadmits : chain.Admits c request) : (chain.queue request).draft.Sound := by
  refine ⟨?_, ?_, ?_⟩
  · have hperm := Pool.places_insert_perm
      ⟨handleOf request.sender request.nonce, request.recipient, request.value⟩ hadmits.free
    have hlength := hperm.length_eq
    have hpooled := h.pooled
    simp only [Chain.draft, Chain.queue, List.length_cons] at hlength hpooled ⊢
    rw [hlength, hpooled]
  · exact fun a => (h.handled a).queue request
  · intro a nonce hqueued
    simp only [Chain.draft, Chain.queue, Pool.find?_insert] at hqueued ⊢
    split at hqueued
    · rename_i hplace
      obtain ⟨rfl, rfl⟩ := hplace
      exact hadmits.nonce
    · exact h.floor a nonce hqueued

end Draft.Sound

theorem play_sound {s : State} (h : s.chain.draft.Sound) (script : Script) :
    (play c script s).state.chain.draft.Sound :=
  play_keeps_draft (I := fun _ _ d => d.Sound)
    (fun _ block _ _ _ _ _ ht h => h.add ht block.toUInt64) (fun _ _ _ h => h.closed)
    (fun _ _ _ _ hadmits h => h.queue hadmits) h script

/-- Blocks lower the counter of the pool by what they execute, and never below zero. -/
theorem Chain.pooled_extend {chain : Chain} (h : chain.draft.Sound) (n : Nat) :
    (chain.extend c n).pooled + (chain.executed c n).length = chain.pooled := by
  let P : List Executed → Draft → Prop := fun log d =>
    d.Sound ∧ d.pooled + log.length = chain.pooled
  have hadd : ∀ block, Draft.KeptByAdd c block P := by
    rintro block log d a t - ht ⟨hs, hcount⟩
    have hpos := hs.pooled_pos ht
    refine ⟨hs.add ht block.toUInt64, ?_⟩
    simp only [Draft.add, List.length_append, List.length_singleton]
    omega
  have hstart : P [] chain.draft := ⟨h, rfl⟩
  have hkept := Chain.extend_keeps (Q := fun log chain => P log chain.draft)
    (fun _ _ h => Chain.produce_keeps hadd (fun _ _ h => ⟨h.1.closed, h.2⟩) h) n hstart
  exact hkept.2

theorem sound_genesis (c : Config) (accounts : List (Address × Account)) :
    (State.genesis c accounts).chain.draft.Sound := by
  have hempty : ∀ a nonce, Pool.find? (State.genesis c accounts).chain.draft.pool a nonce = none := by
    simp [State.genesis, Chain.draft, Pool.find?]
  refine ⟨rfl, ?_, ?_⟩
  · intro a nonce t ht
    rw [hempty] at ht
    nomatch ht
  · intro a nonce hqueued
    rw [hempty] at hqueued
    nomatch hqueued

end Throughput.Simulated
