import Throughput.Proofs.Simulated.Executed

/-!
# The history of a simulated ledger

Clients call a ledger at instants of their choosing: a submission starts, the latency of one is over,
or something is asked. A history has what they are told and what the blocks have executed meanwhile.
-/

namespace Throughput.Simulated

/-- What can be asked. -/
inductive Query where
  | height
  | block (place : UInt64)
  | receipt (handle : Handle)
  | balance (account : Address)
  | sequenceNumber (account : Address)
  | pending
  | included
deriving DecidableEq, Repr

/-- What a client is told. -/
inductive Reply where
  /-- A submission has started. -/
  | started
  | verdict (request : Request) (answer : Answer Handle)
  | word (answer : Answer UInt64)
  | block (answer : Answer (Option Block))
  | receipt (answer : Answer (Option Receipt))
  | amount (answer : Answer Amount)
  | count (number : Nat)

/-- What clients do. A submission that its caller gives up is started and never settled. -/
inductive Act where
  | start (request : Request)
  /-- The latency of a submission is over. -/
  | settle (request : Request)
  | ask (query : Query)
deriving DecidableEq, Repr

/-- Acts with their instants. -/
abbrev Script := List (Instant × Act)

namespace Query

/-- Puts a question to the ledger. -/
def ask (c : Config) (now : Instant) (query : Query) (s : State) : Reply × State :=
  match query with
  | .height => ((Ledger.simulated c).height now s).map .word id
  | .block place => ((Ledger.simulated c).block now place s).map .block id
  | .receipt handle =>
    let (call, s) := (Ledger.simulated c).receipt now handle s
    (call.answer now s).map .receipt id
  | .balance account => ((Ledger.simulated c).balance now account s).map .amount id
  | .sequenceNumber account => ((Ledger.simulated c).sequenceNumber now account s).map .word id
  | .pending => (s.pending c now).map .count id
  | .included => (s.included c now).map .count id

/-- What a chain says by itself. -/
def read (query : Query) (chain : Chain) : Reply :=
  match query with
  | .height => .word (.ok (chain.blocks.size - 1).toUInt64)
  | .block place => .block (.ok chain.blocks[place.toNat]?)
  | .receipt handle => .receipt (.ok chain.receipts[handle]?)
  | .balance account => .amount (.ok (chain.accounts.find account).balance)
  | .sequenceNumber account => .word (.ok (chain.accounts.find account).nonce)
  | .pending => .count chain.pooled
  | .included => .count chain.receipts.size

/-- Every question brings the chain up to its instant and reads. -/
theorem ask_eq_view (c : Config) (now : Instant) (query : Query) (s : State) :
    query.ask c now s = s.view c now query.read := by
  cases query <;> rfl

end Query

/-- Lets a client act. -/
def Act.perform (c : Config) (now : Instant) (e : Act) (s : State) : Reply × State :=
  match e with
  | .start request => (.started, ((Ledger.simulated c).submit now request s).2)
  | .settle request => (s.receive c now request).map (.verdict request) id
  | .ask query => query.ask c now s

/-- A submission that was called for at any instant settles by the verdict of the ledger. -/
theorem Act.perform_settle (c : Config) (called now : Instant) (request : Request) (before s : State) :
    (settle request).perform c now s =
      ((((Ledger.simulated c).submit called request before).1.answer now s).map
        (.verdict request) id) := rfl

/-- A ledger, what its clients have been told, and what its blocks have executed. -/
structure History where
  state : State
  replies : List Reply := []
  executed : List Executed := []

/-- The handle given to an accepted submission. -/
def Reply.accepted? : Reply → Option (Request × Handle)
  | .verdict request (.ok handle) => some (request, handle)
  | _ => none

namespace History

/-- The history with one more act. -/
def next (c : Config) (h : History) (e : Instant × Act) : History :=
  let (reply, s) := e.2.perform c e.1 h.state
  let produced := s.chain.blocks.size - h.state.chain.blocks.size
  { state := s, replies := h.replies ++ [reply]
    executed := h.executed ++ h.state.chain.executed c produced }

/-- The submissions that were accepted, with their handles, in the order of the verdicts. -/
def accepted (h : History) : List (Request × Handle) := h.replies.filterMap Reply.accepted?

end History

/-- What happens when a script is played. -/
def play (c : Config) (script : Script) (s : State) : History :=
  script.foldl (History.next c) { state := s }

/-- The place in the pool that an accepted submission is given. -/
def placeOf (x : Request × Handle) : Address × UInt64 := (x.1.sender, x.1.nonce)

/-- May the transfer of a request be queued? -/
structure Chain.Admits (c : Config) (request : Request) (chain : Chain) : Prop where
  nonce : (chain.accounts.find request.sender).nonce ≤ request.nonce
  free : chain.pool.find? request.sender request.nonce = none
  room : chain.pooled < c.poolCapacity

section Verdicts

variable {c : Config} {now : Instant} {request : Request}

/-- A transfer that may be queued is queued; any other is refused and changes nothing. -/
theorem Chain.judge_cases (c : Config) (request : Request) (chain : Chain) :
    (∃ reason, chain.judge c request = (.error (.rejected reason), chain)) ∨
      chain.Admits c request ∧
        chain.judge c request =
          (.ok (handleOf request.sender request.nonce), chain.queue request) := by
  unfold judge
  dsimp only
  rw [Pool.contains_getD]
  split
  · exact .inl ⟨_, rfl⟩
  · rename_i hnonce
    split
    · exact .inl ⟨_, rfl⟩
    · rename_i hfree
      split
      · exact .inl ⟨_, rfl⟩
      · rename_i hroom
        exact .inr ⟨⟨UInt64.not_lt.mp hnonce, by simpa using hfree, Nat.lt_of_not_le hroom⟩, rfl⟩

/-- What a verdict does: a refused submission leaves the chain, or brings it up to date; one that is
accepted is queued in the chain that is up to date. -/
theorem State.receive_cases (c : Config) (now : Instant) (request : Request) (s : State) :
    (∃ reason, (s.receive c now request).1 = .error (.rejected reason) ∧
      ((s.receive c now request).2.chain = s.chain ∨
        (s.receive c now request).2.chain = s.chain.catchUp c now)) ∨
    (s.chain.catchUp c now).Admits c request ∧
      (s.receive c now request).1 = .ok (handleOf request.sender request.nonce) ∧
      (s.receive c now request).2.chain = (s.chain.catchUp c now).queue request := by
  unfold receive
  dsimp only
  split
  · exact .inl ⟨_, rfl, .inl rfl⟩
  · split
    · exact .inl ⟨_, rfl, .inl rfl⟩
    · rcases Chain.judge_cases c request (s.chain.catchUp c now) with ⟨reason, h⟩ | ⟨hadmits, h⟩
      · rw [h]
        exact .inl ⟨_, rfl, .inr rfl⟩
      · rw [h]
        exact .inr ⟨hadmits, rfl, rfl⟩

/-- All that an act can do to the chain. -/
theorem Act.perform_cases (c : Config) (now : Instant) (e : Act) (s : State) :
    ((e.perform c now s).1.accepted? = none ∧
      ((e.perform c now s).2.chain = s.chain ∨
        (e.perform c now s).2.chain = s.chain.catchUp c now)) ∨
    ∃ request, (s.chain.catchUp c now).Admits c request ∧ e = .settle request ∧
      (e.perform c now s).1.accepted? =
        some (request, handleOf request.sender request.nonce) ∧
      (e.perform c now s).2.chain = (s.chain.catchUp c now).queue request := by
  cases e with
  | start request => exact .inl ⟨rfl, .inl rfl⟩
  | ask query =>
    simp only [perform, Query.ask_eq_view]
    exact .inl ⟨by cases query <;> rfl, .inr rfl⟩
  | settle request =>
    have hreply : ((settle request).perform c now s).1 =
        .verdict request (s.receive c now request).1 := rfl
    have hchain : ((settle request).perform c now s).2.chain =
        (s.receive c now request).2.chain := rfl
    rw [hreply, hchain]
    rcases s.receive_cases c now request with ⟨reason, hanswer, h⟩ | ⟨hadmits, hanswer, h⟩
    · rw [hanswer]
      exact .inl ⟨rfl, h⟩
    · rw [hanswer]
      exact .inr ⟨request, hadmits, rfl, rfl, h⟩

end Verdicts

/-- A history goes on as if the rest of its script were played alone. -/
theorem foldl_next (c : Config) (script : Script) (h : History) :
    script.foldl (History.next c) h =
      { state := (play c script h.state).state
        replies := h.replies ++ (play c script h.state).replies
        executed := h.executed ++ (play c script h.state).executed } := by
  induction script generalizing h with
  | nil => simp [play]
  | cons e script ih =>
    unfold play at ih ⊢
    rw [List.foldl_cons, List.foldl_cons, ih (h.next c e), ih (History.next c { state := h.state } e)]
    simp [History.next]

theorem play_append (c : Config) (script more : Script) (s : State) :
    play c (script ++ more) s =
      { state := (play c more (play c script s).state).state
        replies := (play c script s).replies ++ (play c more (play c script s).state).replies
        executed := (play c script s).executed ++ (play c more (play c script s).state).executed } := by
  rw [← foldl_next]
  exact List.foldl_append

theorem accepted_append (c : Config) (script more : Script) (s : State) :
    (play c (script ++ more) s).accepted =
      (play c script s).accepted ++ (play c more (play c script s).state).accepted := by
  unfold History.accepted
  rw [play_append, List.filterMap_append]

/-- What blocks have executed stays executed when the script goes on. -/
theorem prefix_executed (c : Config) (script later : Script) (s : State) :
    (play c script s).executed <+: (play c (script ++ later) s).executed := by
  rw [play_append]
  exact List.prefix_append ..

theorem accepted_next (c : Config) (h : History) (e : Instant × Act) :
    (h.next c e).accepted = h.accepted ++ (e.2.perform c e.1 h.state).1.accepted?.toList := by
  unfold History.accepted
  simp only [History.next, List.filterMap_append, List.append_cancel_left_eq]
  cases hr : (e.2.perform c e.1 h.state).1.accepted? <;> simp [hr]

section Cons

variable (c : Config) (e : Instant × Act) (script : Script) (s : State)

theorem state_cons :
    (play c (e :: script) s).state = (play c script (e.2.perform c e.1 s).2).state := by
  change (script.foldl (History.next c) (History.next c { state := s } e)).state = _
  rw [foldl_next]
  rfl

/-- The first act of a script is answered first. -/
theorem replies_cons :
    (play c (e :: script) s).replies =
      (e.2.perform c e.1 s).1 :: (play c script (e.2.perform c e.1 s).2).replies := by
  change (script.foldl (History.next c) (History.next c { state := s } e)).replies = _
  rw [foldl_next]
  rfl

theorem accepted_cons :
    (play c (e :: script) s).accepted =
      (e.2.perform c e.1 s).1.accepted?.toList ++
        (play c script (e.2.perform c e.1 s).2).accepted := by
  unfold History.accepted
  rw [replies_cons, List.filterMap_cons]
  cases (e.2.perform c e.1 s).1.accepted? <;> rfl

end Cons

/-- What blocks and admissions keep is kept by every act. -/
theorem next_keeps {c : Config} {I : List (Request × Handle) → List Executed → Chain → Prop}
    (hproduce : ∀ acc log chain, I acc log chain →
      I acc (log ++ chain.executedNext c) (chain.produce c))
    (hqueue : ∀ acc log chain request, chain.Admits c request → I acc log chain →
      I (acc ++ [(request, handleOf request.sender request.nonce)]) log (chain.queue request))
    {h : History} (hI : I h.accepted h.executed h.state.chain) (e : Instant × Act) :
    I (h.next c e).accepted (h.next c e).executed (h.next c e).state.chain := by
  have hcaught : ∀ n, I h.accepted (h.executed ++ h.state.chain.executed c n)
      (h.state.chain.extend c n) :=
    fun n => Chain.extend_keeps (hproduce h.accepted) n hI
  rw [accepted_next]
  simp only [History.next]
  rcases e.2.perform_cases c e.1 h.state with ⟨hnone, hchain | hchain⟩ | ⟨r, hadmits, -, hsome, hchain⟩
  · simpa [hnone, hchain, Chain.executed] using hI
  · rw [hnone, hchain]
    simpa [Chain.catchUp, Chain.size_blocks_extend] using
      hcaught (c.dueHeight e.1 + 1 - h.state.chain.blocks.size)
  · rw [hsome, hchain]
    have hq := hqueue _ _ _ r hadmits (hcaught (c.dueHeight e.1 + 1 - h.state.chain.blocks.size))
    simpa [Chain.queue, Chain.catchUp, Chain.size_blocks_extend] using hq

/-- What blocks and admissions keep is kept by a whole script. -/
theorem play_keeps {c : Config} {I : List (Request × Handle) → List Executed → Chain → Prop}
    (hproduce : ∀ acc log chain, I acc log chain →
      I acc (log ++ chain.executedNext c) (chain.produce c))
    (hqueue : ∀ acc log chain request, chain.Admits c request → I acc log chain →
      I (acc ++ [(request, handleOf request.sender request.nonce)]) log (chain.queue request))
    {s : State} (hI : I [] [] s.chain) (script : Script) :
    I (play c script s).accepted (play c script s).executed (play c script s).state.chain := by
  have hfold : ∀ h : History, I h.accepted h.executed h.state.chain →
      I (script.foldl (History.next c) h).accepted (script.foldl (History.next c) h).executed
        (script.foldl (History.next c) h).state.chain := by
    induction script with
    | nil => exact fun h hI => hI
    | cons e script ih => exact fun h hI => ih _ (next_keeps hproduce hqueue hI e)
  exact hfold { state := s } hI

end Throughput.Simulated
