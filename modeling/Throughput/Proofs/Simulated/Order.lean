import Throughput.Proofs.Simulated.Punctual
import Throughput.Proofs.Simulated.Receipts

/-!
# The order of submissions

Requests for different places of the pool that are judged between the same two blocks, and for which
the pool has room together, may come in any order. Each of them finds the chain as it would find it
alone, and the pool ends up the same.
-/

namespace Throughput.Simulated

section Entries

variable {α β : Type} {cmp : α → α → Ordering} [Std.TransCmp cmp] [Std.LawfulEqCmp cmp]
  (m : Std.ExtTreeMap α β cmp)

/-- Entries under different keys may be made in either order. -/
theorem insert_comm {a b : α} (h : a ≠ b) (x y : β) :
    (m.insert a x).insert b y = (m.insert b y).insert a x := by
  apply Std.ExtTreeMap.ext_getElem?
  intro k
  simp only [Std.ExtTreeMap.getElem?_insert, Std.LawfulEqCmp.compare_eq_iff_eq]
  by_cases ha : a = k
  · have hb : b ≠ k := fun hb => h (ha.trans hb.symm)
    simp [ha, hb]
  · simp [ha]

/-- Of two entries under one key the later stays. -/
theorem insert_insert (a : α) (x y : β) : (m.insert a x).insert a y = m.insert a y := by
  apply Std.ExtTreeMap.ext_getElem?
  intro k
  simp only [Std.ExtTreeMap.getElem?_insert]
  split <;> rfl

end Entries

/-- Transfers for different places may be queued in either order. -/
theorem Pool.insert_getD_comm (pool : Pool) {a b : Address} {n m : UInt64} (t t' : Transfer)
    (h : (a, n) ≠ (b, m)) :
    let first := pool.insert a ((pool.getD a ∅).insert n t)
    let second := pool.insert b ((pool.getD b ∅).insert m t')
    first.insert b ((first.getD b ∅).insert m t') =
      second.insert a ((second.getD a ∅).insert n t) := by
  intro first second
  by_cases hab : a = b
  · subst hab
    have hnm : n ≠ m := fun hnm => h (by rw [hnm])
    simp only [first, second, Std.ExtTreeMap.getD_insert_self, insert_insert]
    rw [insert_comm _ hnm]
  · simp only [first, second, Std.ExtTreeMap.getD_insert, Std.LawfulEqCmp.compare_eq_iff_eq, hab,
      Ne.symm hab, if_false]
    exact insert_comm pool hab _ _

namespace Chain

/-- The verdict on a request when there is room in the pool. -/
def verdict (request : Request) (chain : Chain) : Answer Handle :=
  if request.gasLimit.toNat < transferGas then .error (.rejected "intrinsic gas too low")
  else if request.nonce < (chain.accounts.find request.sender).nonce then
    .error (.rejected "nonce too low")
  else if (chain.pool.find? request.sender request.nonce).isSome then
    .error (.rejected "already known")
  else .ok (handleOf request.sender request.nonce)

/-- Is a request queued when there is room in the pool? -/
def takes (chain : Chain) (request : Request) : Bool := (chain.verdict request).isOk

/-- The chain after the verdict on a request. -/
def offer (chain : Chain) (request : Request) : Chain :=
  if chain.takes request then chain.queue request else chain

/-- Is there room for all requests that are not refused for another reason? -/
def Fits (c : Config) (requests : List Request) (chain : Chain) : Prop :=
  chain.pooled + requests.countP chain.takes ≤ c.poolCapacity

variable {c : Config} {chain : Chain} {request other : Request} {requests : List Request}

theorem queue_comm (h : (request.sender, request.nonce) ≠ (other.sender, other.nonce)) :
    (chain.queue request).queue other = (chain.queue other).queue request :=
  congrArg (fun pool => { chain with pool, pooled := chain.pooled + 1 + 1 })
    (Pool.insert_getD_comm chain.pool _ _ h)

theorem offer_of_takes (h : chain.takes request) : chain.offer request = chain.queue request :=
  if_pos h

theorem offer_of_refuses (h : ¬ chain.takes request) : chain.offer request = chain := if_neg h

/-- A request is judged by its own place in the pool. -/
theorem verdict_offer (h : (other.sender, other.nonce) ≠ (request.sender, request.nonce)) :
    (chain.offer other).verdict request = chain.verdict request := by
  have hplace : ¬ (other.sender = request.sender ∧ other.nonce = request.nonce) :=
    fun hsame => h (Prod.ext hsame.1 hsame.2)
  by_cases hother : chain.takes other
  · rw [offer_of_takes hother]
    unfold verdict queue
    dsimp only
    rw [Pool.find?_insert, if_neg hplace]
  · rw [offer_of_refuses hother]

theorem takes_offer (h : (other.sender, other.nonce) ≠ (request.sender, request.nonce)) :
    (chain.offer other).takes request = chain.takes request :=
  congrArg Except.isOk (verdict_offer h)

theorem offer_comm (h : (request.sender, request.nonce) ≠ (other.sender, other.nonce)) :
    (chain.offer request).offer other = (chain.offer other).offer request := by
  have hother : (chain.offer request).takes other = chain.takes other := takes_offer h
  have hrequest : (chain.offer other).takes request = chain.takes request := takes_offer h.symm
  by_cases ht : chain.takes request <;> by_cases ht' : chain.takes other
  · rw [offer_of_takes (hother.trans ht'), offer_of_takes (hrequest.trans ht), offer_of_takes ht,
      offer_of_takes ht', queue_comm h]
  · rw [offer_of_refuses (by rwa [hother]), offer_of_refuses ht']
  · have hrefuses : ¬ (chain.offer other).takes request := by rwa [hrequest]
    rw [offer_of_refuses ht, offer_of_refuses hrefuses]
  · rw [offer_of_refuses ht, offer_of_refuses ht', offer_of_refuses ht]

/-- The order of requests for different places makes no difference to the pool. -/
theorem foldl_offer_perm {first second : List Request} (hperm : first.Perm second)
    (hdistinct : (first.map fun request => (request.sender, request.nonce)).Nodup) :
    first.foldl offer chain = second.foldl offer chain := by
  refine hperm.foldl_eq' (fun x hx y hy z => ?_) chain
  by_cases hsame : x = y
  · rw [hsame]
  · exact offer_comm fun hplace => hsame (List.inj_on_of_nodup_map hdistinct hx hy hplace)

/-- With room in the pool the verdict is the one that the chain has for the request. -/
theorem judge_eq (hgas : transferGas ≤ request.gasLimit.toNat)
    (hroom : chain.takes request → chain.pooled < c.poolCapacity) :
    chain.judge c request = (chain.verdict request, chain.offer request) := by
  have hverdict : chain.verdict request =
      if request.nonce < (chain.accounts.find request.sender).nonce then
        .error (.rejected "nonce too low")
      else if (chain.pool.find? request.sender request.nonce).isSome then
        .error (.rejected "already known")
      else .ok (handleOf request.sender request.nonce) := if_neg (Nat.not_lt.mpr hgas)
  have htakes : chain.takes request = (chain.verdict request).isOk := rfl
  unfold judge
  dsimp only
  rw [Pool.contains_getD]
  split at hverdict
  · rename_i hlow
    rw [hverdict] at htakes
    rw [if_pos hlow, hverdict, offer_of_refuses (by simp [htakes, Except.isOk, Except.toBool])]
  · rename_i hlow
    split at hverdict
    · rename_i hknown
      rw [hverdict] at htakes
      rw [if_neg hlow, if_pos hknown, hverdict,
        offer_of_refuses (by simp [htakes, Except.isOk, Except.toBool])]
    · rename_i hknown
      rw [hverdict] at htakes
      rw [if_neg hlow, if_neg hknown, if_neg (Nat.not_le.mpr (hroom htakes)), hverdict,
        offer_of_takes htakes]

theorem Fits.head (h : chain.Fits c (request :: requests)) (ht : chain.takes request) :
    chain.pooled < c.poolCapacity := by
  unfold Fits at h
  rw [List.countP_cons_of_pos ht] at h
  omega

theorem Fits.tail (h : chain.Fits c (request :: requests))
    (hother : ∀ r ∈ requests, (request.sender, request.nonce) ≠ (r.sender, r.nonce)) :
    (chain.offer request).Fits c requests := by
  have hsame : requests.countP (chain.offer request).takes = requests.countP chain.takes :=
    List.countP_congr fun r hr => by rw [takes_offer (hother r hr)]
  unfold Fits at h ⊢
  rw [hsame]
  by_cases ht : chain.takes request
  · rw [List.countP_cons_of_pos ht] at h
    rw [offer_of_takes ht]
    change chain.pooled + 1 + _ ≤ _
    omega
  · rw [List.countP_cons_of_neg ht] at h
    rwa [offer_of_refuses ht]

end Chain

/-! ## Submissions between two blocks -/

/-- The verdict in a reply, with its request. -/
def Reply.verdict? : Reply → Option (Request × Answer Handle)
  | .verdict request answer => some (request, answer)
  | _ => none

/-- The verdicts that were given, in their order. -/
def History.verdicts (h : History) : List (Request × Answer Handle) :=
  h.replies.filterMap Reply.verdict?

theorem verdicts_cons (c : Config) (e : Instant × Act) (script : Script) (s : State) :
    (play c (e :: script) s).verdicts =
      (e.2.perform c e.1 s).1.verdict?.toList ++
        (play c script (e.2.perform c e.1 s).2).verdicts := by
  unfold History.verdicts
  rw [replies_cons, List.filterMap_cons]
  cases (e.2.perform c e.1 s).1.verdict? <;> rfl

section NoRejections

variable {c : Config} (hnone : c.rejectEvery = none) {now : Instant} {s s' : State}

include hnone

/-- A submission that is not refused for the number of calls is judged by the chain alone. -/
theorem State.settle_eq {request : Request}
    (hroom : s.chain.takes request → s.chain.pooled < c.poolCapacity) :
    s.settle c request =
      (s.chain.verdict request,
        { s with inFlight := s.inFlight - 1, chain := s.chain.offer request }) := by
  have hrefuses : c.refuses s.submitted = false := by rw [Config.refuses, hnone]
  unfold settle
  dsimp only
  rw [hrefuses, if_neg Bool.false_ne_true]
  by_cases hgas : request.gasLimit.toNat < transferGas
  · have hverdict : s.chain.verdict request = .error (.rejected "intrinsic gas too low") :=
      if_pos hgas
    have hrefused : ¬ s.chain.takes request := by
      simp [Chain.takes, hverdict, Except.isOk, Except.toBool]
    rw [if_pos hgas, hverdict, Chain.offer_of_refuses hrefused]
  · rw [if_neg hgas, Chain.judge_eq (Nat.not_lt.mp hgas) hroom]

/-- Between two blocks an act gives the verdict that the chain has for its request, if it has one. -/
theorem Act.perform_offers {instant : Instant} (hdue : c.dueHeight instant = c.dueHeight now)
    (e : Act) (hroom : ∀ request, e.settled? = some request →
      (s.chain.catchUp c now).takes request → (s.chain.catchUp c now).pooled < c.poolCapacity) :
    (e.perform c instant s).1.verdict? =
        e.settled?.map (fun request => (request, (s.chain.catchUp c now).verdict request)) ∧
      (e.perform c instant s).2.chain.catchUp c now =
        e.settled?.elim (s.chain.catchUp c now) (s.chain.catchUp c now).offer := by
  -- No block is due between the two instants, so both stand for the same chain.
  have hcaught : ∀ s : State, s.caughtUp c instant = s.caughtUp c now := fun s => by
    unfold State.caughtUp Chain.catchUp
    rw [hdue]
  obtain ⟨hreply, hstate⟩ := e.perform_caughtUp c instant s
  rw [hcaught] at hreply
  rw [hcaught, hcaught] at hstate
  have hchain := congrArg State.chain hstate
  change (e.perform c instant s).2.chain.catchUp c now = _ at hchain
  rw [hreply, hchain]
  cases e with
  | start request => exact ⟨rfl, rfl⟩
  | ask query => exact ⟨by cases query <;> rfl, rfl⟩
  | settle request =>
    unfold answer
    dsimp only
    rw [State.settle_eq (s := s.caughtUp c now) hnone (hroom request rfl)]
    exact ⟨rfl, rfl⟩

/-- Between two blocks each request gets the verdict that the chain at the start has for it. -/
theorem play_offers {script : Script} (hdue : ∀ e ∈ script, c.dueHeight e.1 = c.dueHeight now)
    (hdistinct : (script.requests.map fun request => (request.sender, request.nonce)).Nodup)
    (hfits : (s.chain.catchUp c now).Fits c script.requests) :
    (play c script s).verdicts =
        script.requests.map (fun request => (request, (s.chain.catchUp c now).verdict request)) ∧
      (play c script s).state.chain.catchUp c now =
        script.requests.foldl Chain.offer (s.chain.catchUp c now) := by
  induction script generalizing s with
  | nil => exact ⟨rfl, rfl⟩
  | cons e script ih =>
    have hfirst := hdue e List.mem_cons_self
    have hrest := fun x hx => hdue x (List.mem_cons_of_mem e hx)
    rw [verdicts_cons, state_cons]
    cases hsettled : e.2.settled? with
    | none =>
      have hrequests : Script.requests (e :: script) = Script.requests script :=
        List.filterMap_cons_none hsettled
      rw [hrequests] at hdistinct hfits ⊢
      obtain ⟨hverdict, hchain⟩ := e.2.perform_offers hnone hfirst (s := s) (by simp [hsettled])
      simp only [hsettled, Option.map_none, Option.elim_none] at hverdict hchain
      rw [← hchain] at hfits ⊢
      rw [hverdict]
      exact ih hrest hdistinct hfits
    | some request =>
      have hrequests : Script.requests (e :: script) = request :: Script.requests script :=
        List.filterMap_cons_some hsettled
      rw [hrequests] at hdistinct hfits ⊢
      obtain ⟨hverdict, hchain⟩ := e.2.perform_offers hnone hfirst (s := s) fun r hr => by
        obtain rfl : request = r := Option.some.inj (hsettled.symm.trans hr)
        exact hfits.head
      simp only [hsettled, Option.map_some, Option.elim_some] at hverdict hchain
      obtain ⟨hother, hdistinct⟩ := List.nodup_cons.mp hdistinct
      have hother : ∀ r ∈ Script.requests script,
          (request.sender, request.nonce) ≠ (r.sender, r.nonce) :=
        fun r hr hplace => hother (List.mem_map.mpr ⟨r, hr, hplace.symm⟩)
      obtain ⟨hverdicts, hend⟩ := ih hrest hdistinct (s := (e.2.perform c e.1 s).2)
        (by rw [hchain]; exact hfits.tail hother)
      rw [hchain] at hverdicts hend
      refine ⟨?_, hend⟩
      -- The first request has another place than the rest, whose verdicts it therefore leaves.
      rw [hverdict, hverdicts]
      refine congrArg _ (List.map_congr_left fun r hr => ?_)
      rw [Chain.verdict_offer (hother r hr)]

/-- Ledgers that are the same once they are brought up to an instant answer the same from there on. -/
theorem Act.perform_alike {instant : Instant} (hsame : s.chain.catchUp c now = s'.chain.catchUp c now)
    (hle : now ≤ instant) (e : Act) :
    (e.perform c instant s).1 = (e.perform c instant s').1 ∧
      (e.perform c instant s).2.chain.catchUp c now =
        (e.perform c instant s').2.chain.catchUp c now := by
  have hcaught : s.chain.catchUp c instant = s'.chain.catchUp c instant := by
    rw [← Chain.catchUp_catchUp c hle, hsame, Chain.catchUp_catchUp c hle]
  cases e with
  | start request => exact ⟨rfl, hsame⟩
  | ask query =>
    simp only [perform, Query.ask_eq_view, State.view, hcaught]
    exact ⟨trivial, trivial⟩
  | settle request =>
    -- The numbers of calls may differ, but without rejections nothing depends on them.
    have hrefuses : ∀ n, c.refuses n = false := fun n => by rw [Config.refuses, hnone]
    simp only [perform, State.receive, hrefuses, hcaught, Bool.false_eq_true, if_false]
    split
    · exact ⟨rfl, hsame⟩
    · exact ⟨rfl, rfl⟩

theorem replies_alike (hsame : s.chain.catchUp c now = s'.chain.catchUp c now) {later : Script}
    (hlater : ∀ e ∈ later, now ≤ e.1) : (play c later s).replies = (play c later s').replies := by
  induction later generalizing s s' with
  | nil => rfl
  | cons e later ih =>
    obtain ⟨hreply, hnext⟩ := e.2.perform_alike hnone hsame (hlater e List.mem_cons_self)
    rw [replies_cons, replies_cons, hreply, ih hnext fun x hx => hlater x (List.mem_cons_of_mem e hx)]

end NoRejections

/-- Between two blocks the order of submissions does not matter. Requests for different places, with
room in the pool for those of them that are queued, get the same verdicts and handles in any order,
and from then on nobody can tell which order it was. -/
theorem play_any_order (c : Config) (hnone : c.rejectEvery = none) (s : State) (now : Instant)
    {first second : Script} (hfirst : ∀ e ∈ first, c.dueHeight e.1 = c.dueHeight now)
    (hsecond : ∀ e ∈ second, c.dueHeight e.1 = c.dueHeight now)
    (hperm : first.requests.Perm second.requests)
    (hdistinct : (first.requests.map fun request => (request.sender, request.nonce)).Nodup)
    (hfits : (s.chain.catchUp c now).Fits c first.requests) :
    let chain := s.chain.catchUp c now
    (play c first s).verdicts = first.requests.map (fun request => (request, chain.verdict request)) ∧
    (play c second s).verdicts =
      second.requests.map (fun request => (request, chain.verdict request)) ∧
    ∀ later : Script, (∀ e ∈ later, now ≤ e.1) →
      (play c later (play c first s).state).replies =
        (play c later (play c second s).state).replies := by
  have hdistinct' := (hperm.map fun request => (request.sender, request.nonce)).nodup_iff.mp hdistinct
  have hfits' : (s.chain.catchUp c now).Fits c second.requests := by
    unfold Chain.Fits at hfits ⊢
    rwa [← hperm.countP_eq]
  obtain ⟨hverdicts, hchain⟩ := play_offers hnone hfirst hdistinct hfits
  obtain ⟨hverdicts', hchain'⟩ := play_offers hnone hsecond hdistinct' hfits'
  refine ⟨hverdicts, hverdicts', fun later hlater => replies_alike hnone ?_ hlater⟩
  rw [hchain, hchain', Chain.foldl_offer_perm hperm hdistinct]

/-- One sender has a transfer in the pool and repeats it, and sends the next; another, not seen before,
leaves a gap. The pool takes two more, in either order. -/
theorem play_any_order_gapped :
    let c : Config := { poolCapacity := 3 }
    let transfer (sender : Address) (nonce : UInt64) : Request := ⟨sender, 2, 5, 21000, nonce, none⟩
    let s := (play c [(0, .settle (transfer 1 0))] (.genesis c [(1, ⟨0, 1000⟩)])).state
    let first : Script :=
      [(5, .settle (transfer 1 0)), (6, .settle (transfer 7 1)), (7, .settle (transfer 1 1))]
    let second : Script := [(5, .settle (transfer 1 1)), (8, .ask .pending),
      (8, .settle (transfer 1 0)), (9, .settle (transfer 7 1))]
    let later : Script := [(seconds 1, .ask .included), (seconds 1, .settle (transfer 7 0)),
      (seconds 2, .ask (.balance 2)), (seconds 3, .ask .pending)]
    c.rejectEvery = none ∧ (∀ e ∈ first, c.dueHeight e.1 = c.dueHeight 5) ∧
      (∀ e ∈ second, c.dueHeight e.1 = c.dueHeight 5) ∧ first.requests.Perm second.requests ∧
      (first.requests.map fun request => (request.sender, request.nonce)).Nodup ∧
      (s.chain.catchUp c 5).Fits c first.requests ∧ (∀ e ∈ later, 5 ≤ e.1) ∧
      (play c first s).verdicts.map (·.2.isOk) = [false, true, true] ∧
      (play c second s).verdicts.map (·.2.isOk) = [true, false, true] ∧
      (play c later (play c first s).state).replies =
        (play c later (play c second s).state).replies := by
  intro c transfer s first second later
  have hfirst : ∀ e ∈ first, c.dueHeight e.1 = c.dueHeight 5 := by decide
  have hsecond : ∀ e ∈ second, c.dueHeight e.1 = c.dueHeight 5 := by decide
  have hperm : first.requests.Perm second.requests := by decide
  have hdistinct : (first.requests.map fun request => (request.sender, request.nonce)).Nodup := by
    decide
  have hfits : (s.chain.catchUp c 5).Fits c first.requests := by
    unfold Chain.Fits
    decide +kernel
  have hlater : ∀ e ∈ later, 5 ≤ e.1 := by decide
  obtain ⟨hverdicts, hverdicts', hreplies⟩ :=
    play_any_order c rfl s 5 hfirst hsecond hperm hdistinct hfits
  refine ⟨rfl, hfirst, hsecond, hperm, hdistinct, hfits, hlater, ?_, ?_, hreplies later hlater⟩
  · rw [hverdicts]
    decide +kernel
  · rw [hverdicts']
    decide +kernel

end Throughput.Simulated
