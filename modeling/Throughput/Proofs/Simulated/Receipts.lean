import Throughput.Proofs.Simulated.Nonces

/-!
# Handles and receipts

As long as the handles of the submitted requests differ, an accepted submission is found by its handle
either in the pool or among the receipts, and there is one receipt for each executed transfer.
-/

namespace Throughput.Simulated

/-- The request whose submission comes to its end. -/
def Act.settled? : Act → Option Request
  | settle request => some request
  | _ => none

/-- The requests whose submissions come to their end in a script. -/
def Script.requests (script : Script) : List Request := script.filterMap (·.2.settled?)

/-- Do requests for different places get different handles? -/
def HandlesApart (requests : List Request) : Prop :=
  ∀ r ∈ requests, ∀ r' ∈ requests, handleOf r.sender r.nonce = handleOf r'.sender r'.nonce →
    (r.sender, r.nonce) = (r'.sender, r'.nonce)

instance (requests : List Request) : Decidable (HandlesApart requests) :=
  inferInstanceAs (Decidable (∀ r ∈ requests, ∀ r' ∈ requests, _ → _))

/-- Only what was submitted is accepted. -/
theorem request_of_accepted (c : Config) (script : Script) (s : State) :
    ∀ x ∈ (play c script s).accepted, x.1 ∈ script.requests := by
  induction script generalizing s with
  | nil => simp [play, History.accepted]
  | cons e script ih =>
    intro x hx
    unfold Script.requests at ih ⊢
    rw [accepted_cons, List.mem_append] at hx
    rw [List.filterMap_cons]
    rcases hx with hx | hx
    · rcases e.2.perform_cases c e.1 s with ⟨hnone, -⟩ | ⟨r, -, hact, hsome, -⟩
      · simp [hnone] at hx
      · rw [hsome, Option.toList_some, List.mem_singleton] at hx
        simp [hact, hx, Act.settled?]
    · split
      · exact ih _ x hx
      · exact List.mem_cons_of_mem _ (ih _ x hx)

section Genesis

variable {c : Config} {accounts : List (Address × Account)} {script : Script}

/-- The places of accepted submissions are those of the pool and of the executed transfers. -/
theorem places_accepted (c : Config) (accounts : List (Address × Account)) (script : Script) :
    let h := play c script (.genesis c accounts)
    (h.accepted.map placeOf).Perm
      (h.state.chain.pool.places ++ h.executed.map Executed.place) := by
  have hplaces := play_places c script (.genesis c accounts)
  exact hplaces

/-- An executed transfer was accepted, and under its handle. -/
theorem accepted_of_executed {x : Executed}
    (hx : x ∈ (play c script (.genesis c accounts)).executed) :
    ∃ y ∈ (play c script (.genesis c accounts)).accepted,
      placeOf y = x.place ∧ y.2 = x.transfer.handle := by
  have hmem : x.place ∈ (play c script (.genesis c accounts)).accepted.map placeOf := by
    rw [(places_accepted c accounts script).mem_iff]
    exact List.mem_append_right _ (List.mem_map_of_mem hx)
  obtain ⟨y, hy, hplace⟩ := List.mem_map.mp hmem
  refine ⟨y, hy, hplace, ?_⟩
  have hsame : y.1.sender = x.sender ∧ y.1.nonce = x.nonce := Prod.mk.inj hplace
  rw [play_handles c script _ y hy, play_logged ((sound_genesis c accounts).handled x.sender) script x hx rfl,
    hsame.1, hsame.2]

/-- Executed transfers get receipts, and nothing else does. -/
theorem mem_receipts {handle : Handle} :
    handle ∈ (play c script (.genesis c accounts)).state.chain.receipts ↔
      ∃ x ∈ (play c script (.genesis c accounts)).executed, x.transfer.handle = handle := by
  rw [play_receipts, Std.ExtTreeMap.mem_insertMany_list]
  simp [State.genesis]

/-- Only an accepted submission gets a receipt. -/
theorem accepted_of_receipt {handle : Handle}
    (h : handle ∈ (play c script (.genesis c accounts)).state.chain.receipts) :
    handle ∈ (play c script (.genesis c accounts)).accepted.map (·.2) := by
  obtain ⟨x, hx, rfl⟩ := mem_receipts.mp h
  obtain ⟨y, hy, -, hsame⟩ := accepted_of_executed hx
  exact List.mem_map.mpr ⟨y, hy, hsame⟩

/-- Accepted submissions with one handle have one place. -/
theorem placeOf_inj (hapart : HandlesApart script.requests) {x y : Request × Handle}
    (hx : x ∈ (play c script (.genesis c accounts)).accepted)
    (hy : y ∈ (play c script (.genesis c accounts)).accepted) (h : x.2 = y.2) :
    placeOf x = placeOf y := by
  rw [play_handles c script _ x hx, play_handles c script _ y hy] at h
  exact hapart _ (request_of_accepted c script _ x hx) _ (request_of_accepted c script _ y hy) h

/-- An accepted submission is in the pool under its handle as long as it has its place there. -/
theorem queued_iff (hapart : HandlesApart script.requests) {x : Request × Handle}
    (hx : x ∈ (play c script (.genesis c accounts)).accepted) :
    (∃ a nonce t, (play c script (.genesis c accounts)).state.chain.pool.find? a nonce = some t ∧
        t.handle = x.2) ↔
      placeOf x ∈ (play c script (.genesis c accounts)).state.chain.pool.places := by
  have hsound := play_sound (c := c) (sound_genesis c accounts) script
  constructor
  · rintro ⟨a, nonce, t, ht, hhandle⟩
    have hqueued := (Pool.mem_places _ a nonce).mpr (Option.isSome_of_eq_some ht)
    have hmem := (places_accepted c accounts script).mem_iff.mpr (List.mem_append_left _ hqueued)
    obtain ⟨y, hy, hplace⟩ := List.mem_map.mp hmem
    obtain ⟨hsender, hnonce⟩ : y.1.sender = a ∧ y.1.nonce = nonce := Prod.mk.inj hplace
    have hsame : x.2 = y.2 := by
      rw [← hhandle, hsound.handled a nonce t ht, play_handles c script _ y hy, hsender, hnonce]
    rw [placeOf_inj hapart hx hy hsame, hplace]
    exact hqueued
  · intro hqueued
    obtain ⟨t, ht⟩ := Option.isSome_iff_exists.mp ((Pool.mem_places ..).mp hqueued)
    refine ⟨x.1.sender, x.1.nonce, t, ht, ?_⟩
    rw [play_handles c script _ x hx]
    exact hsound.handled _ _ t ht

/-- An accepted submission has a receipt as soon as the transfer in its place has been executed. -/
theorem included_iff (hapart : HandlesApart script.requests) {x : Request × Handle}
    (hx : x ∈ (play c script (.genesis c accounts)).accepted) :
    x.2 ∈ (play c script (.genesis c accounts)).state.chain.receipts ↔
      placeOf x ∈ (play c script (.genesis c accounts)).executed.map Executed.place := by
  rw [mem_receipts, List.mem_map]
  apply exists_congr
  intro x'
  rw [and_congr_right_iff]
  intro hx'
  obtain ⟨y, hy, hplace, hhandle⟩ := accepted_of_executed hx'
  rw [← hplace, ← hhandle]
  constructor
  · exact placeOf_inj hapart hy hx
  · intro hsame
    obtain ⟨hsender, hnonce⟩ : y.1.sender = x.1.sender ∧ y.1.nonce = x.1.nonce :=
      Prod.mk.inj hsame
    rw [play_handles c script _ x hx, play_handles c script _ y hy, hsender, hnonce]

variable (hfit : NoncesFit (.genesis c accounts) (play c script (.genesis c accounts)).executed)

include hfit

/-- No submission is accepted for a place that was taken before. -/
theorem nodup_accepted :
    ((play c script (.genesis c accounts)).accepted.map placeOf).Nodup := by
  rw [(places_accepted c accounts script).nodup_iff, List.nodup_append']
  refine ⟨Pool.nodup_places _, nodup_executed hfit, ?_⟩
  rw [List.disjoint_left]
  rintro ⟨a, nonce⟩ hqueued hexecuted
  obtain ⟨x, hx, hplace⟩ := List.mem_map.mp hexecuted
  obtain ⟨rfl, rfl⟩ : x.sender = a ∧ x.nonce = nonce := Prod.mk.inj hplace
  -- what is queued lies above the account nonce, what has been executed below
  have hfloor := (play_sound (c := c) (sound_genesis c accounts) script).floor x.sender x.nonce
    ((Pool.mem_places ..).mp hqueued)
  have hlt := nonce_lt_of_executed hfit hx
  exact absurd hfloor (UInt64.not_le.mpr hlt)

variable (hapart : HandlesApart script.requests)

include hapart

/-- The executed transfers have different handles. -/
theorem nodup_handles :
    ((play c script (.genesis c accounts)).executed.map (·.transfer.handle)).Nodup := by
  have hplaces := nodup_executed hfit
  rw [List.nodup_map_iff_inj_on hplaces.of_map]
  intro x hx y hy hsame
  obtain ⟨x', hx', hxplace, hxhandle⟩ := accepted_of_executed hx
  obtain ⟨y', hy', hyplace, hyhandle⟩ := accepted_of_executed hy
  have hplace := placeOf_inj hapart hx' hy' (by rw [hxhandle, hyhandle, hsame])
  rw [hxplace, hyplace] at hplace
  exact (List.nodup_map_iff_inj_on hplaces.of_map).mp hplaces x hx y hy hplace

/-- There are as many receipts as executed transfers. -/
theorem size_receipts :
    (play c script (.genesis c accounts)).state.chain.receipts.size =
      (play c script (.genesis c accounts)).executed.length := by
  have hnodup := nodup_handles hfit hapart
  rw [play_receipts, Std.ExtTreeMap.size_insertMany_list]
  · simp [State.genesis]
  · rw [List.pairwise_map]
    exact (List.pairwise_map.mp hnodup).imp (by simp)
  · simp [State.genesis]

/-- The receipt of an executed transfer is kept under the handle of its sender and nonce. -/
theorem receipt_of_executed {x : Executed}
    (hx : x ∈ (play c script (.genesis c accounts)).executed) :
    (play c script (.genesis c accounts)).state.chain.receipts[handleOf x.sender x.nonce]? =
      some x.receipt := by
  have hnodup := nodup_handles hfit hapart
  rw [play_receipts, ← play_logged ((sound_genesis c accounts).handled x.sender) script x hx rfl]
  refine Std.ExtTreeMap.getElem?_insertMany_list_of_mem Std.ReflCmp.compare_self ?_
    (List.mem_map.mpr ⟨x, hx, rfl⟩)
  rw [List.pairwise_map]
  exact (List.pairwise_map.mp hnodup).imp (by simp)

/-- The receipts are those of the executed transfers. -/
theorem getElem?_receipts (handle : Handle) (r : Receipt) :
    (play c script (.genesis c accounts)).state.chain.receipts[handle]? = some r ↔
      ∃ x ∈ (play c script (.genesis c accounts)).executed,
        handleOf x.sender x.nonce = handle ∧ x.receipt = r := by
  constructor
  · intro hget
    obtain ⟨x, hx, hhandle⟩ := mem_receipts.mp
      (Std.ExtTreeMap.mem_iff_isSome_getElem?.mpr (Option.isSome_of_eq_some hget))
    rw [play_logged ((sound_genesis c accounts).handled x.sender) script x hx rfl] at hhandle
    have hreceipt := receipt_of_executed hfit hapart hx
    rw [hhandle, hget] at hreceipt
    exact ⟨x, hx, hhandle, (Option.some.inj hreceipt).symm⟩
  · rintro ⟨x, hx, rfl, rfl⟩
    exact receipt_of_executed hfit hapart hx

/-- An accepted submission is found by its handle either in the pool or among the receipts. -/
theorem queued_or_included {x : Request × Handle}
    (hx : x ∈ (play c script (.genesis c accounts)).accepted) :
    Xor (∃ a nonce t, (play c script (.genesis c accounts)).state.chain.pool.find? a nonce = some t ∧
        t.handle = x.2)
      (x.2 ∈ (play c script (.genesis c accounts)).state.chain.receipts) := by
  have hplaces := places_accepted c accounts script
  have hnodup := hplaces.nodup_iff.mp (nodup_accepted hfit)
  have hmem := hplaces.mem_iff.mp (List.mem_map_of_mem hx)
  rw [queued_iff hapart hx, included_iff hapart hx, xor_iff_iff_not]
  constructor
  · exact fun hqueued hexecuted => List.disjoint_of_nodup_append hnodup hqueued hexecuted
  · exact (List.mem_append.mp hmem).resolve_right

end Genesis

end Throughput.Simulated
