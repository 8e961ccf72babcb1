import Mathlib.Data.List.Count
import Throughput.Proofs.Simulated.Books

/-!
# The nonces of executed transfers

The executed transfers of a sender have the nonces that follow that of its account, in order and
without a gap. As long as no nonce reaches the last word, none comes twice.
-/

namespace Throughput.Simulated

/-- The executed transfers of one sender. -/
def executedBy (a : Address) (log : List Executed) : List Executed := log.filter (·.sender == a)

/-- The greatest nonce that a word holds. -/
def lastNonce : UInt64 := 0xffffffffffffffff

/-- Does no account nonce reach the last one? An account starts with a nonce, and each executed
transfer brings it to the next. -/
def NoncesFit (s : State) (log : List Executed) : Prop :=
  (∀ a, (s.chain.accounts.find a).nonce ≠ lastNonce) ∧ ∀ x ∈ log, x.nonce + 1 ≠ lastNonce

/-- The executed transfers of a sender count up from its first nonce, and its account stands behind
the last of them. -/
theorem play_numbered (c : Config) (script : Script) (s : State) (a : Address) :
    let first := (s.chain.accounts.find a).nonce
    let mine := executedBy a (play c script s).executed
    ((play c script s).state.chain.accounts.find a).nonce = first + mine.length.toUInt64 ∧
      mine.map (·.nonce) = (List.range mine.length).map fun i => first + i.toUInt64 := by
  refine play_keeps_draft (I := fun _ log d =>
    (d.accounts.find a).nonce =
        (s.chain.accounts.find a).nonce + (executedBy a log).length.toUInt64 ∧
      (executedBy a log).map (·.nonce) = (List.range (executedBy a log).length).map
        fun i => (s.chain.accounts.find a).nonce + i.toUInt64) ?_ ?_ ?_ ?_ script
  · rintro _ block log d b t - - ⟨hnonce, hlist⟩
    rw [Draft.nonce_add]
    unfold executedBy at hnonce hlist ⊢
    by_cases hab : b = a
    · subst b
      -- the next nonce is the one of the account
      simp only [List.filter_append, List.length_append, List.map_append, hlist, hnonce, if_true,
        Draft.execution, List.filter_cons, beq_self_eq_true, List.filter_nil, List.length_singleton,
        List.map_singleton, List.range_succ]
      refine ⟨?_, trivial⟩
      rw [UInt64.add_assoc]
      congr 1
      simp [Nat.toUInt64, UInt64.ofNat_add]
    · have hnone : [d.execution c block b t].filter (·.sender == a) = [] := by
        simp [Draft.execution, hab]
      rw [List.filter_append, hnone, List.append_nil, if_neg hab]
      exact ⟨hnonce, hlist⟩
  · exact fun _ _ _ h => h
  · exact fun _ _ _ _ _ h => h
  · exact ⟨by simp [executedBy, Chain.draft], rfl⟩

section Fit

variable {c : Config} {script : Script} {s : State} {a : Address}

/-- Nonces that fit are counted without wrapping. -/
theorem toNat_nonce (h : NoncesFit s (play c script s).executed) {n : Nat}
    (hn : n ≤ (executedBy a (play c script s).executed).length) :
    ((s.chain.accounts.find a).nonce + n.toUInt64).toNat =
        (s.chain.accounts.find a).nonce.toNat + n ∧
      (s.chain.accounts.find a).nonce + n.toUInt64 ≠ lastNonce := by
  obtain ⟨-, hlist⟩ := play_numbered c script s a
  induction n with
  | zero => simpa using h.1 a
  | succ n ih =>
    obtain ⟨hnat, hne⟩ := ih (by omega)
    have hstep : (s.chain.accounts.find a).nonce + (n + 1).toUInt64 =
        (s.chain.accounts.find a).nonce + n.toUInt64 + 1 := by
      simp [Nat.toUInt64, UInt64.ofNat_add, UInt64.add_assoc]
    -- the transfer before brought the account to this nonce
    have hmem : (s.chain.accounts.find a).nonce + n.toUInt64 ∈
        (executedBy a (play c script s).executed).map (·.nonce) := by
      rw [hlist]
      exact List.mem_map.mpr ⟨n, List.mem_range.mpr hn, rfl⟩
    obtain ⟨x, hx, hxn⟩ := List.mem_map.mp hmem
    have hnext := h.2 x (List.mem_filter.mp hx).1
    rw [hxn] at hnext
    refine ⟨?_, by rwa [hstep]⟩
    rw [ne_eq, ← UInt64.toNat_inj] at hne
    have hlt := UInt64.toNat_lt ((s.chain.accounts.find a).nonce + n.toUInt64)
    rw [hstep, UInt64.toNat_add, UInt64.toNat_one]
    simp only [lastNonce, UInt64.reduceToNat] at hne
    omega

/-- The executed nonces of a sender as numbers, and the nonce of its account behind them. -/
theorem toNat_nonces (h : NoncesFit s (play c script s).executed) (a : Address) :
    let first := (s.chain.accounts.find a).nonce.toNat
    let mine := executedBy a (play c script s).executed
    ((play c script s).state.chain.accounts.find a).nonce.toNat = first + mine.length ∧
      mine.map (·.nonce.toNat) = List.range' first mine.length := by
  obtain ⟨hnonce, hlist⟩ := play_numbered c script s a
  dsimp only
  refine ⟨by rw [hnonce]; exact (toNat_nonce h (Nat.le_refl _)).1, ?_⟩
  have hnat := congrArg (List.map UInt64.toNat) hlist
  rw [List.map_map, List.map_map] at hnat
  refine hnat.trans ?_
  rw [List.range'_eq_map_range]
  apply List.map_congr_left
  intro i hi
  exact (toNat_nonce h (Nat.le_of_lt (List.mem_range.mp hi))).1

/-- Nonces that fit are executed once each. -/
theorem nodup_executed (h : NoncesFit s (play c script s).executed) :
    ((play c script s).executed.map Executed.place).Nodup := by
  rw [List.nodup_iff_count_le_one]
  rintro ⟨a, nonce⟩
  have hnodup : ((executedBy a (play c script s).executed).map (·.nonce.toNat)).Nodup := by
    rw [(toNat_nonces h a).2]
    exact List.nodup_range'
  have hplaces : (executedBy a (play c script s).executed).map Executed.place =
      ((play c script s).executed.map Executed.place).filter (·.1 == a) := by
    simp [executedBy, List.filter_map, Function.comp_def, Executed.place]
  -- the transfers at one place are among those of its sender
  rw [← List.count_filter (p := (·.1 == a)) (by simp), ← hplaces]
  refine List.nodup_iff_count_le_one.mp (List.Nodup.of_map (·.2.toNat) ?_) _
  rw [List.map_map]
  exact hnodup

/-- What is executed lies below the nonce of its account. -/
theorem nonce_lt_of_executed (h : NoncesFit s (play c script s).executed) {x : Executed}
    (hx : x ∈ (play c script s).executed) :
    x.nonce < ((play c script s).state.chain.accounts.find x.sender).nonce := by
  obtain ⟨hnonce, hlist⟩ := toNat_nonces h x.sender
  have hmem : x.nonce.toNat ∈
      (executedBy x.sender (play c script s).executed).map (·.nonce.toNat) :=
    List.mem_map.mpr ⟨x, List.mem_filter.mpr ⟨hx, by simp⟩, rfl⟩
  rw [hlist, List.mem_range'_1] at hmem
  rw [UInt64.lt_iff_toNat_lt, hnonce]
  exact hmem.2

end Fit

end Throughput.Simulated
