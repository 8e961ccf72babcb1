import Mathlib.Algebra.GroupWithZero.Nat
import Mathlib.Data.List.Nodup
import Throughput.Ledger.Simulated

/-!
# Accounts and the pool

An account changes its nonce only when a transfer of its own is executed. The pool is looked at
through the transfer that is queued under a sender and a nonce.
-/

namespace Throughput.Simulated

namespace Accounts

variable (accounts : Accounts) (a b : Address)

theorem find_insert (account : Account) :
    find (accounts.insert a account) b = if a = b then account else accounts.find b := by
  simp [find, Std.ExtTreeMap.getD_insert]

theorem nonce_credit (amount : Amount) :
    ((accounts.credit a amount).find b).nonce = (accounts.find b).nonce := by
  unfold credit
  rw [find_insert]
  split
  · rename_i h
    rw [h]
  · rfl

end Accounts

theorem Config.nonce_payFee (c : Config) (accounts : Accounts) (b : Address) :
    ((c.payFee accounts).find b).nonce = (accounts.find b).nonce := by
  have hfold : ∀ (shares : List (Address × Amount)) (accounts : Accounts),
      ((shares.foldl (fun (m : Accounts) x => m.credit x.1 x.2) accounts).find b).nonce =
        (accounts.find b).nonce := by
    intro shares
    induction shares with
    | nil => intro accounts; rfl
    | cons share shares ih =>
      intro accounts
      rw [List.foldl_cons, ih, Accounts.nonce_credit]
  exact (Accounts.nonce_credit ..).trans (hfold ..)

/-- Executing a transfer raises the nonce of its sender and no other. -/
theorem Config.nonce_execute (c : Config) (a b : Address) (t : Transfer) (accounts : Accounts) :
    ((c.execute a t accounts).2.find b).nonce =
      if a = b then (accounts.find b).nonce + 1 else (accounts.find b).nonce := by
  unfold execute
  dsimp only
  split
  · rw [nonce_payFee, Accounts.nonce_credit, Accounts.find_insert]
    split <;> simp_all
  · rw [nonce_payFee, Accounts.find_insert]
    split <;> simp_all

namespace Pool

/-- The transfer queued under a sender and a nonce. -/
def find? (pool : Pool) (a : Address) (nonce : UInt64) : Option Transfer :=
  pool[a]?.bind (·[nonce]?)

/-- The senders and nonces under which transfers are queued. -/
def places (pool : Pool) : List (Address × UInt64) :=
  pool.toList.flatMap fun (a, queue) => queue.keys.map (a, ·)

variable (pool : Pool) (a b : Address) (nonce other : UInt64)

theorem find?_erase :
    find? (pool.modify a (·.erase nonce)) b other =
      if a = b ∧ nonce = other then none else pool.find? b other := by
  unfold find?
  rw [Std.ExtTreeMap.getElem?_modify]
  by_cases hab : a = b
  · subst b
    cases hq : pool[a]? with
    | none => simp
    | some queue =>
      by_cases hn : nonce = other
      · simp [hn]
      · simp [hn, Std.ExtTreeMap.getElem?_erase]
  · simp [hab]

/-- Empty queues hold nothing. -/
theorem find?_filter :
    find? (pool.filter fun _ queue => !queue.isEmpty) b other = pool.find? b other := by
  unfold find?
  rw [Std.ExtTreeMap.getElem?_filter']
  cases hq : pool[b]? with
  | none => rfl
  | some queue =>
    by_cases he : queue.isEmpty
    · have hempty : queue = ∅ := by simpa using he
      simp [hempty]
    · simp [Option.filter, he]

theorem find?_insert (t : Transfer) :
    find? (pool.insert a ((pool.getD a ∅).insert nonce t)) b other =
      if a = b ∧ nonce = other then some t else pool.find? b other := by
  unfold find?
  rw [Std.ExtTreeMap.getElem?_insert]
  by_cases hab : a = b
  · subst b
    by_cases hn : nonce = other
    · simp [hn]
    · cases hq : pool[a]? <;>
        simp [hn, Std.ExtTreeMap.getElem?_insert, Std.ExtTreeMap.getD_eq_getD_getElem?, hq]
  · simp [hab]

theorem contains_getD :
    (pool.getD a ∅).contains nonce = (pool.find? a nonce).isSome := by
  unfold find?
  rw [Std.ExtTreeMap.getD_eq_getD_getElem?]
  cases pool[a]? with
  | none => simp
  | some queue => simp

theorem mem_places : (a, nonce) ∈ pool.places ↔ (pool.find? a nonce).isSome := by
  unfold places find?
  simp only [List.mem_flatMap, List.mem_map, Prod.mk.injEq, Prod.exists]
  constructor
  · rintro ⟨a', queue, hq, nonce', hn, rfl, rfl⟩
    rw [Std.ExtTreeMap.mem_toList_iff_getElem?_eq_some] at hq
    rw [hq, Option.bind_some, ← Std.ExtTreeMap.mem_iff_isSome_getElem?]
    exact Std.ExtTreeMap.mem_of_mem_keys hn
  · intro h
    cases hq : pool[a]? with
    | none => simp [hq] at h
    | some queue =>
      rw [hq, Option.bind_some, ← Std.ExtTreeMap.mem_iff_isSome_getElem?] at h
      exact ⟨a, queue, Std.ExtTreeMap.mem_toList_iff_getElem?_eq_some.mpr hq, nonce,
        Std.ExtTreeMap.mem_keys.mpr h, rfl, rfl⟩

/-- Each place of the pool is listed once. -/
theorem nodup_places : pool.places.Nodup := by
  unfold places
  rw [List.nodup_flatMap]
  constructor
  · rintro ⟨a, queue⟩ -
    exact Std.ExtTreeMap.nodup_keys.map fun _ _ h => (Prod.mk.inj h).2
  · have hdistinct : pool.toList.Pairwise fun x y => x.1 ≠ y.1 :=
      Std.ExtTreeMap.distinct_keys_toList.imp (by simp)
    refine hdistinct.imp fun {x y} hne => ?_
    simp only [Function.onFun, List.disjoint_left, List.mem_map]
    rintro z ⟨n, -, rfl⟩ ⟨n', -, he⟩
    exact hne (Prod.mk.inj he).1.symm

/-- The places are as many as the queues are long together. -/
theorem length_places : pool.places.length = (pool.toList.map (·.2.size)).sum := by
  unfold places
  rw [List.length_flatMap]
  congr 1
  apply List.map_congr_left
  intro entry _
  rw [List.length_map, Std.ExtTreeMap.length_keys]

variable {pool a nonce}

/-- A transfer that leaves the pool leaves one place free. -/
theorem places_erase_perm (h : (pool.find? a nonce).isSome) :
    pool.places.Perm ((a, nonce) :: places (pool.modify a (·.erase nonce))) := by
  have hgone : (a, nonce) ∉ places (pool.modify a (·.erase nonce)) := by
    rw [mem_places, find?_erase]
    simp
  rw [List.perm_ext_iff_of_nodup pool.nodup_places (List.nodup_cons.mpr ⟨hgone, nodup_places _⟩)]
  rintro ⟨b, other⟩
  rw [List.mem_cons, mem_places, mem_places, find?_erase, Prod.mk.injEq]
  by_cases hsame : a = b ∧ nonce = other
  · obtain ⟨rfl, rfl⟩ := hsame
    simp [h]
  · have hne : ¬ (b = a ∧ other = nonce) := fun he => hsame ⟨he.1.symm, he.2.symm⟩
    simp [hsame, hne]

/-- A transfer that is queued takes a place that was free. -/
theorem places_insert_perm (t : Transfer) (h : pool.find? a nonce = none) :
    (places (pool.insert a ((pool.getD a ∅).insert nonce t))).Perm ((a, nonce) :: pool.places) := by
  have hfree : (a, nonce) ∉ pool.places := by simp [mem_places, h]
  rw [List.perm_ext_iff_of_nodup (nodup_places _) (List.nodup_cons.mpr ⟨hfree, pool.nodup_places⟩)]
  rintro ⟨b, other⟩
  rw [List.mem_cons, mem_places, mem_places, find?_insert, Prod.mk.injEq]
  by_cases hsame : a = b ∧ nonce = other
  · obtain ⟨rfl, rfl⟩ := hsame
    simp
  · have hne : ¬ (b = a ∧ other = nonce) := fun he => hsame ⟨he.1.symm, he.2.symm⟩
    simp [hsame, hne]

theorem places_filter_perm (pool : Pool) :
    (places (pool.filter fun _ queue => !queue.isEmpty)).Perm pool.places := by
  rw [List.perm_ext_iff_of_nodup (nodup_places _) pool.nodup_places]
  rintro ⟨b, other⟩
  rw [mem_places, mem_places, find?_filter]

end Pool

end Throughput.Simulated
