import Mathlib.Algebra.GroupWithZero.Nat
import Throughput.Send.Backlog

/-!
# Calls of an estimator

An estimator is primed and then asked as often as one likes, of a ledger that answers whatever it likes.
Each call notes what it reads. A call either fails and leaves the memory as it is, or reads a height and
remembers that.
-/

namespace Throughput

variable {σ : Type}

/-- What an estimator reads, and the answer. -/
inductive Note where
  | height (answer : Answer UInt64)
  | block (height : UInt64) (answer : Answer (Option Block))

namespace Note

/-- The height that was answered. -/
def height? : Note → Option UInt64
  | .height (.ok answered) => some answered
  | _ => none

/-- The height of a block that was answered, and its transactions. A missing block has none. -/
def content? : Note → Option (UInt64 × Nat)
  | .block place (.ok b) => some (place, b.elim 0 (·.transactions.toNat))
  | _ => none

end Note

/-- The same ledger, which also notes what an estimator may read. -/
def Ledger.noted (ledger : Ledger σ) : Ledger (σ × List Note) where
  submit now request := fun (s, notes) =>
    let (call, s) := ledger.submit now request s
    (call.inFirst, (s, notes))
  sequenceNumber now account := fun (s, notes) =>
    let (answer, s) := ledger.sequenceNumber now account s
    (answer, (s, notes))
  balance now account := fun (s, notes) =>
    let (answer, s) := ledger.balance now account s
    (answer, (s, notes))
  height now := fun (s, notes) =>
    let (answer, s) := ledger.height now s
    (answer, (s, notes ++ [.height answer]))
  block now height := fun (s, notes) =>
    let (answer, s) := ledger.block now height s
    (answer, (s, notes ++ [.block height answer]))
  receipt now handle := fun (s, notes) =>
    let (call, s) := ledger.receipt now handle s
    (call.inFirst, (s, notes))
  readTime now := fun (s, _) => ledger.readTime now s

/-- When an estimator is called, and what has happened to the ledger since the call before. -/
structure Visit (σ : Type) where
  now : Instant
  meanwhile : σ → σ

/-- What a call of an estimator has done: its answer, what it has read, and the memory before and after
it. -/
structure Visited where
  answer : Answer Nat
  notes : List Note
  before : CountedHeight
  after : CountedHeight

namespace Visited

/-- What a successful call has answered. -/
def result? (v : Visited) : Option Nat := v.answer.toOption

/-- The height that a successful call has read. -/
def height? (v : Visited) : Option UInt64 :=
  if v.answer.isOk then v.notes.findSome? Note.height? else none

/-- The blocks that a successful call has counted, with their transactions. -/
def contents (v : Visited) : List (UInt64 × Nat) :=
  if v.answer.isOk then v.notes.filterMap Note.content? else []

end Visited

namespace RefillEstimate

variable (estimate : RefillEstimate) (ledger : Ledger σ)

/-- Primes the estimator. Where that succeeds it counts nothing. -/
def primed (visit : Visit σ) (s : σ) (memory : CountedHeight) : Visited × σ × CountedHeight :=
  let called := (estimate.estimator ledger).prime visit.now (visit.meanwhile s, memory)
  let noted := (estimate.estimator ledger.noted).prime visit.now ((visit.meanwhile s, []), memory)
  ({ answer := called.1.elim (.ok 0) .error, notes := noted.2.1.2, before := memory
     after := called.2.2 }, called.2.1, called.2.2)

/-- Asks the estimator. -/
def asked (visit : Visit σ) (s : σ) (memory : CountedHeight) : Visited × σ × CountedHeight :=
  let called := (estimate.estimator ledger).consumed visit.now (visit.meanwhile s, memory)
  let noted := (estimate.estimator ledger.noted).consumed visit.now ((visit.meanwhile s, []), memory)
  ({ answer := called.1, notes := noted.2.1.2, before := memory, after := called.2.2 },
    called.2.1, called.2.2)

/-- Asks the estimator again and again. -/
def askedAll : List (Visit σ) → σ → CountedHeight → List Visited
  | [], _, _ => []
  | visit :: visits, s, memory =>
    let (v, s, memory) := estimate.asked ledger visit s memory
    v :: askedAll visits s memory

/-- Primes the estimator and then asks it again and again. -/
def calls (first : Visit σ) (later : List (Visit σ)) (s : σ) : List Visited :=
  let (v, s, memory) := estimate.primed ledger first s none
  v :: estimate.askedAll ledger later s memory

/-- What an estimator counts up to a height, of which it has counted the blocks up to another. -/
def Counts (estimate : RefillEstimate) (last : CountedHeight) (height : UInt64)
    (contents : List (UInt64 × Nat)) (count : Nat) : Prop :=
  match estimate with
  | .blockProgress perBlock =>
    count = min (last.elim 0 (height.toNat - ·.toNat) * perBlock.toNat) maxCount
  | .blockContent =>
    contents.map (·.1.toNat) =
        last.elim [] (fun l => List.range' (l.toNat + 1) (height.toNat - l.toNat)) ∧
      count = (contents.map (·.2)).sum % 2 ^ 64

theorem Counts.eq_zero {estimate : RefillEstimate} {height : UInt64} {contents : List (UInt64 × Nat)}
    {count : Nat} (h : estimate.Counts none height contents count) : count = 0 := by
  cases estimate with
  | blockProgress perBlock => simpa [Counts] using h
  | blockContent =>
    obtain ⟨hnone, hcount⟩ := h
    rw [List.map_eq_nil_iff.mp hnone] at hcount
    exact hcount

end RefillEstimate

/-- Does each call of a list either fail and keep the memory, or read a height, remember it, and count
up to it from the height that is remembered? -/
inductive Follows (estimate : RefillEstimate) : CountedHeight → List Visited → Prop
  | nil {memory : CountedHeight} : Follows estimate memory []
  | fails {memory : CountedHeight} {v : Visited} {e : LedgerError} {vs : List Visited}
      (hanswer : v.answer = .error e) (hbefore : v.before = memory) (hafter : v.after = memory)
      (rest : Follows estimate memory vs) : Follows estimate memory (v :: vs)
  | counts {memory : CountedHeight} {v : Visited} {height : UInt64} {count : Nat}
      {vs : List Visited} (hanswer : v.answer = .ok count) (hheight : v.height? = some height)
      (hbefore : v.before = memory) (hafter : v.after = some height)
      (hcounts : estimate.Counts memory height v.contents count)
      (rest : Follows estimate (some height) vs) : Follows estimate memory (v :: vs)

section Reads

variable {ledger : Ledger σ} {now : Instant}

theorem readTransactions_of_error {count : Nat} {height sum : UInt64} {s s' : σ} {e : LedgerError}
    (h : ledger.block now height s = (.error e, s')) :
    readTransactions ledger now (count + 1) height sum s = (.error e, s') := by
  unfold readTransactions
  rw [h]

theorem readTransactions_of_ok {count : Nat} {height sum : UInt64} {s s' : σ} {b : Option Block}
    (h : ledger.block now height s = (.ok b, s')) :
    readTransactions ledger now (count + 1) height sum s =
      readTransactions ledger now count (height + 1) (sum + b.elim 0 (·.transactions)) s' := by
  rw [readTransactions, h]
  cases b with
  | none => exact congrArg (readTransactions ledger now count _ · s') (UInt64.add_zero sum).symm
  | some b => rfl

/-- Places that are words go on to the next place, if there is one. -/
theorem range'_toNat_succ {place : UInt64} {count : Nat} (h : place.toNat + (count + 1) ≤ 2 ^ 64) :
    List.range' (place + 1).toNat count = List.range' (place.toNat + 1) count ∧
      (place + 1).toNat + count ≤ 2 ^ 64 := by
  cases count with
  | zero => exact ⟨rfl, Nat.le_of_lt (place + 1).toNat_lt⟩
  | succ count =>
    have hnext : (place + 1).toNat = place.toNat + 1 := by
      rw [UInt64.toNat_add, UInt64.toNat_one]
      exact Nat.mod_eq_of_lt (by omega)
    rw [hnext]
    exact ⟨rfl, by omega⟩

/-- Notes change nothing of what is read. A sum that is reached has the transactions of each block
once. -/
theorem readTransactions_noted (ledger : Ledger σ) (now : Instant) (count : Nat)
    (height sum : UInt64) (s : σ) (notes : List Note) : ∃ read : List Note,
      readTransactions ledger.noted now count height sum (s, notes) =
        ((readTransactions ledger now count height sum s).1,
          ((readTransactions ledger now count height sum s).2, notes ++ read)) ∧
      ∀ total, (readTransactions ledger now count height sum s).1 = .ok total →
        height.toNat + count ≤ 2 ^ 64 →
        (read.filterMap Note.content?).map (·.1.toNat) = List.range' height.toNat count ∧
        total.toNat = (sum.toNat + ((read.filterMap Note.content?).map (·.2)).sum) % 2 ^ 64 := by
  induction count generalizing height sum s notes with
  | zero =>
    refine ⟨[], ?_, ?_⟩
    · rw [List.append_nil]
      rfl
    · intro total htotal _
      obtain rfl := Except.ok.inj htotal
      exact ⟨rfl, (Nat.mod_eq_of_lt sum.toNat_lt).symm⟩
  | succ count ih =>
    have hnoted : ledger.noted.block now height (s, notes) = ((ledger.block now height s).1,
        ((ledger.block now height s).2, notes ++ [.block height (ledger.block now height s).1])) := rfl
    cases hblock : ledger.block now height s with
    | mk answer s' =>
      rw [hblock] at hnoted
      cases answer with
      | error e =>
        rw [readTransactions_of_error hblock, readTransactions_of_error hnoted]
        exact ⟨_, rfl, fun total htotal => nomatch htotal⟩
      | ok b =>
        rw [readTransactions_of_ok hblock, readTransactions_of_ok hnoted]
        obtain ⟨read, hread, htotal⟩ := ih (height + 1) (sum + b.elim 0 (·.transactions)) s'
          (notes ++ [.block height (.ok b)])
        refine ⟨.block height (.ok b) :: read, ?_, fun total hok hfits => ?_⟩
        · rw [hread, List.append_assoc]
          rfl
        · obtain ⟨hplace, hroom⟩ := range'_toNat_succ hfits
          obtain ⟨hheights, hsum⟩ := htotal total hok hroom
          have hadded : (b.elim 0 (·.transactions)).toNat = b.elim 0 (·.transactions.toNat) := by
            cases b <;> rfl
          rw [UInt64.toNat_add, Nat.mod_add_mod, hadded, Nat.add_assoc] at hsum
          refine ⟨?_, hsum⟩
          rw [List.range'_succ, ← hplace, ← hheights]
          rfl

theorem noted_height {s s' : σ} {answer : Answer UInt64} (h : ledger.height now s = (answer, s'))
    (notes : List Note) :
    ledger.noted.height now (s, notes) = (answer, (s', notes ++ [.height answer])) := by
  simp only [Ledger.noted, h]

end Reads

namespace RefillEstimate

variable {estimate : RefillEstimate} {ledger : Ledger σ} {visit : Visit σ} {s : σ}
  {memory : CountedHeight} {vs : List Visited}

/-- The blocks after one height, up to another, are counted as they are read. -/
theorem readTransactions_counts (ledger : Ledger σ) (now : Instant) (last height : UInt64) (s : σ)
    (notes : List Note) : ∃ read : List Note,
      readTransactions ledger.noted now (height.toNat - last.toNat) (last + 1) 0 (s, notes) =
        ((readTransactions ledger now (height.toNat - last.toNat) (last + 1) 0 s).1,
          ((readTransactions ledger now (height.toNat - last.toNat) (last + 1) 0 s).2,
            notes ++ read)) ∧
      ∀ total,
        (readTransactions ledger now (height.toNat - last.toNat) (last + 1) 0 s).1 = .ok total →
        blockContent.Counts (some last) height (read.filterMap Note.content?) total.toNat := by
  obtain ⟨read, hread, hcounted⟩ :=
    readTransactions_noted ledger now (height.toNat - last.toNat) (last + 1) 0 s notes
  refine ⟨read, hread, fun total htotal => ?_⟩
  have hlast := last.toNat_lt
  have hheight := height.toNat_lt
  have hroom : last.toNat + (height.toNat - last.toNat + 1) ≤ 2 ^ 64 := by omega
  obtain ⟨hplaces, hfits⟩ := range'_toNat_succ hroom
  obtain ⟨hblocks, hsum⟩ := hcounted total htotal hfits
  refine ⟨hblocks.trans hplaces, ?_⟩
  rw [hsum]
  exact congrArg (· % 2 ^ 64) (Nat.zero_add _)

theorem follows_primed (rest : Follows estimate (estimate.primed ledger visit s none).1.after vs) :
    Follows estimate none ((estimate.primed ledger visit s none).1 :: vs) := by
  cases hheight : ledger.height visit.now (visit.meanwhile s) with
  | mk answer s' =>
    have hnoted := noted_height hheight []
    simp only [primed, estimator, prime, hheight, hnoted] at rest ⊢
    cases answer with
    | error e => exact .fails rfl rfl rfl rest
    | ok height =>
      refine .counts rfl rfl rfl rfl ?_ rest
      cases estimate with
      | blockProgress perBlock => simp [Counts]
      | blockContent => exact ⟨rfl, rfl⟩

theorem follows_asked (rest : Follows estimate (estimate.asked ledger visit s memory).1.after vs) :
    Follows estimate memory ((estimate.asked ledger visit s memory).1 :: vs) := by
  cases hheight : ledger.height visit.now (visit.meanwhile s) with
  | mk answer s' =>
    have hnoted := noted_height hheight []
    cases estimate with
    | blockProgress perBlock =>
      simp only [asked, estimator, consumedByProgress, hheight, hnoted] at rest ⊢
      cases answer with
      | error e => exact .fails rfl rfl rfl rest
      | ok height => cases memory <;> exact .counts rfl rfl rfl rfl rfl rest
    | blockContent =>
      simp only [asked, estimator, consumedByContent, hheight, hnoted] at rest ⊢
      cases answer with
      | error e => exact .fails rfl rfl rfl rest
      | ok height =>
        cases memory with
        | none => exact .counts rfl rfl rfl rfl ⟨rfl, rfl⟩ rest
        | some l =>
          obtain ⟨read, hread, hcounted⟩ := readTransactions_counts ledger visit.now l height s'
            ([] ++ [.height (.ok height)])
          dsimp only at rest ⊢
          rw [hread]
          cases hsum : readTransactions ledger visit.now (height.toNat - l.toNat) (l + 1) 0 s' with
          | mk total s'' =>
            rw [hsum] at hcounted rest
            cases total with
            | error e => exact .fails rfl rfl rfl rest
            | ok total => exact .counts rfl rfl rfl rfl (hcounted total rfl) rest

theorem follows_askedAll (visits : List (Visit σ)) :
    Follows estimate memory (estimate.askedAll ledger visits s memory) := by
  induction visits generalizing s memory with
  | nil => exact .nil
  | cons visit visits ih => exact follows_asked ih

/-- Whatever the ledger answers, the calls of an estimator follow each other. -/
theorem follows_calls (estimate : RefillEstimate) (ledger : Ledger σ) (first : Visit σ)
    (later : List (Visit σ)) (s : σ) : Follows estimate none (estimate.calls ledger first later s) :=
  follows_primed (follows_askedAll later)

end RefillEstimate

/-- The heights that successful calls have read. -/
def heightsOf (vs : List Visited) : List UInt64 := vs.filterMap Visited.height?

/-- The blocks that successful calls have counted. -/
def contentsOf (vs : List Visited) : List (UInt64 × Nat) := vs.flatMap Visited.contents

/-- What successful calls have answered. -/
def resultsOf (vs : List Visited) : List Nat := vs.filterMap Visited.result?

section Lists

variable {v : Visited} {e : LedgerError} {count : Nat} {height : UInt64}

theorem lists_of_error (h : v.answer = .error e) (vs : List Visited) :
    heightsOf (v :: vs) = heightsOf vs ∧ contentsOf (v :: vs) = contentsOf vs ∧
      resultsOf (v :: vs) = resultsOf vs := by
  simp [heightsOf, contentsOf, resultsOf, Visited.height?, Visited.contents, Visited.result?, h,
    Except.isOk, Except.toBool, Except.toOption]

theorem lists_of_ok (h : v.answer = .ok count) (hheight : v.height? = some height)
    (vs : List Visited) :
    heightsOf (v :: vs) = height :: heightsOf vs ∧
      contentsOf (v :: vs) = v.contents ++ contentsOf vs ∧
      resultsOf (v :: vs) = count :: resultsOf vs := by
  simp [heightsOf, contentsOf, resultsOf, Visited.result?, hheight, h, Except.toOption]

end Lists

namespace Follows

variable {estimate : RefillEstimate} {memory : CountedHeight} {vs : List Visited}

/-- A call that fails changes nothing. -/
theorem after_of_error (h : Follows estimate memory vs) :
    ∀ v ∈ vs, ∀ e, v.answer = .error e → v.after = v.before := by
  induction h with
  | nil => exact nofun
  | fails hanswer hbefore hafter rest ih =>
    exact List.forall_mem_cons.mpr ⟨fun _ _ => hafter.trans hbefore.symm, ih⟩
  | counts hanswer hheight hbefore hafter hcounts rest ih =>
    exact List.forall_mem_cons.mpr ⟨fun e he => absurd (hanswer.symm.trans he) nofun, ih⟩

/-- A call counts from a height that was read before it, unless that is where the list began. -/
theorem mem_of_before (h : Follows estimate memory vs) :
    ∀ v ∈ vs, ∀ counted, v.before = some counted → counted ∈ memory.toList ++ heightsOf vs := by
  induction h with
  | nil => exact nofun
  | fails hanswer hbefore hafter rest ih =>
    rw [(lists_of_error hanswer _).1]
    refine List.forall_mem_cons.mpr ⟨fun counted hcounted => ?_, ih⟩
    rw [← hbefore, hcounted]
    exact List.mem_cons_self
  | counts hanswer hheight hbefore hafter hcounts rest ih =>
    rw [(lists_of_ok hanswer hheight _).1]
    refine List.forall_mem_cons.mpr ⟨fun counted hcounted => ?_, fun v hv counted hcounted => ?_⟩
    · rw [← hbefore, hcounted]
      exact List.mem_cons_self
    · exact List.mem_append_right _ (ih v hv counted hcounted)

/-- The first call that succeeds has nothing to count from, and what it reads is the first height. -/
theorem first_of_none (h : Follows estimate none vs) {v : Visited}
    (hfirst : vs.find? (·.answer.isOk) = some v) :
    v.answer = .ok 0 ∧ ∃ baseline, v.after = some baseline ∧
      (heightsOf vs).head? = some baseline := by
  generalize hmemory : (none : CountedHeight) = memory at h
  induction h with
  | nil => nomatch hfirst
  | fails hanswer hbefore hafter rest ih =>
    rw [List.find?_cons_of_neg (by simp [hanswer, Except.isOk, Except.toBool])] at hfirst
    rw [(lists_of_error hanswer _).1]
    exact ih hfirst hmemory
  | counts hanswer hheight hbefore hafter hcounts rest ih =>
    subst hmemory
    rw [List.find?_cons_of_pos (by simp [hanswer, Except.isOk, Except.toBool])] at hfirst
    obtain rfl := Option.some.inj hfirst
    rw [hcounts.eq_zero] at hanswer
    exact ⟨hanswer, _, hafter, by rw [(lists_of_ok hanswer hheight _).1]; rfl⟩

end Follows

end Throughput
