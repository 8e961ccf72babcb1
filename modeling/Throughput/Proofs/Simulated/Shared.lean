import Throughput.Proofs.Ledger.Keeps
import Throughput.Proofs.Simulated.Receipts

/-!
# A ledger that others use too

Others act on a simulated ledger between the operations of a run, but they do not submit for its
senders. What the ledger has accepted for these is then what it has answered to the run.
-/

namespace Throughput.Simulated

/-- A simulated ledger and what others do to it before each of the operations to come. -/
structure Shared where
  state : State
  others : List Script

namespace Shared

/-- Lets others act. -/
def meanwhile (c : Config) (s : Shared) : Shared :=
  match s.others with
  | [] => s
  | script :: rest => ⟨(play c script s.state).state, rest⟩

/-- An operation after others have acted. -/
def lift (c : Config) (op : State → α × State) (s : Shared) : α × Shared :=
  let s := s.meanwhile c
  let (result, state) := op s.state
  (result, { s with state })

/-- A call whose answer comes after others have acted. -/
def call (c : Config) (call : Call State α) : Call Shared α :=
  ⟨call.latency, fun now => lift c (call.answer now)⟩

end Shared

end Throughput.Simulated

namespace Throughput

open Simulated in
/-- The simulated ledger as one of its users sees it. -/
def Ledger.shared (c : Simulated.Config) : Ledger Shared where
  submit now request s :=
    let (call, s) := Shared.lift c ((Ledger.simulated c).submit now request) s
    (Shared.call c call, s)
  sequenceNumber now account := Shared.lift c ((Ledger.simulated c).sequenceNumber now account)
  balance now account := Shared.lift c ((Ledger.simulated c).balance now account)
  height now := Shared.lift c ((Ledger.simulated c).height now)
  block now height := Shared.lift c ((Ledger.simulated c).block now height)
  receipt now handle s :=
    let (call, s) := Shared.lift c ((Ledger.simulated c).receipt now handle) s
    (Shared.call c call, s)

end Throughput

namespace Throughput.Simulated

/-- Does a script submit for none of the given senders? -/
def Script.IsForeign (senders : List Address) (script : Script) : Prop :=
  ∀ r ∈ script.requests, r.sender ∉ senders

/-- The accepted submissions of given senders. -/
def ofSenders (senders : List Address) (accepted : List (Request × Handle)) :
    List (Request × Handle) :=
  accepted.filter (·.1.sender ∈ senders)

variable {c : Config} {senders : List Address} {base : State} {accepted : List (Request × Handle)}

theorem ofSenders_append (senders : List Address) (xs ys : List (Request × Handle)) :
    ofSenders senders (xs ++ ys) = ofSenders senders xs ++ ofSenders senders ys :=
  List.filter_append ..

/-- Nothing that others do is accepted for the senders. -/
theorem Script.IsForeign.ofSenders_eq_nil {script : Script} (h : script.IsForeign senders)
    (s : State) :
    ofSenders senders (play c script s).accepted = [] := by
  unfold ofSenders
  rw [List.filter_eq_nil_iff]
  intro x hx
  have hother := h x.1 (request_of_accepted c script s x hx)
  simpa using hother

namespace Shared

/-- Has a ledger come from a base, and has it accepted since then for the senders what is said to have
been accepted? -/
def Tracks (c : Config) (senders : List Address) (base : State)
    (accepted : List (Request × Handle)) (s : Shared) : Prop :=
  (∃ script, s.state = (play c script base).state ∧
    ofSenders senders (play c script base).accepted = ofSenders senders accepted) ∧
  ∀ script ∈ s.others, script.IsForeign senders

namespace Tracks

variable {s : Shared}

/-- An act of a run adds what it is told was accepted. -/
theorem act (h : Tracks c senders base accepted s) (now : Instant) (e : Act) :
    Tracks c senders base (accepted ++ (e.perform c now s.state).1.accepted?.toList)
      { s with state := (e.perform c now s.state).2 } := by
  obtain ⟨⟨script, hstate, haccepted⟩, hothers⟩ := h
  refine ⟨⟨script ++ [(now, e)], ?_, ?_⟩, hothers⟩
  · rw [play_append, ← hstate]
    rfl
  · rw [accepted_append, ofSenders_append, ofSenders_append, haccepted, ← hstate]
    exact congrArg (ofSenders senders accepted ++ ofSenders senders ·)
      (accepted_next c { state := s.state } (now, e))

/-- What others do is not accepted for the senders. -/
theorem meanwhile (h : Tracks c senders base accepted s) :
    Tracks c senders base accepted (s.meanwhile c) := by
  obtain ⟨⟨script, hstate, haccepted⟩, hothers⟩ := h
  unfold Shared.meanwhile
  split
  · exact ⟨⟨script, hstate, haccepted⟩, hothers⟩
  · rename_i theirs rest heq
    have hforeign := hothers theirs (by simp [heq])
    refine ⟨⟨script ++ theirs, ?_, ?_⟩, fun other hother => hothers other (by simp [heq, hother])⟩
    · rw [play_append, hstate]
    · rw [accepted_append, ofSenders_append, hforeign.ofSenders_eq_nil, List.append_nil, haccepted]

/-- An operation that does what a question does. -/
theorem ask (h : Tracks c senders base accepted s) (now : Instant) (query : Query)
    {op : State → α × State} (hop : ∀ s, (op s).2 = (query.ask c now s).2) :
    Tracks c senders base accepted (lift c op s).2 := by
  have hasked := h.meanwhile.act now (.ask query)
  have hnone : (Act.perform c now (.ask query) (s.meanwhile c).state).1.accepted? = none := by
    cases query <;> rfl
  rw [hnone, Option.toList_none, List.append_nil] at hasked
  unfold lift
  dsimp only
  rw [hop]
  exact hasked

end Tracks

/-- The ledger answers a run as it accepts. -/
theorem shared_keeps (c : Config) (senders : List Address) (base : State) :
    (Ledger.shared c).Keeps (Tracks c senders base) := by
  refine ⟨fun accepted => ⟨?_, ?_, ?_, ?_, ?_, ?_⟩, ?_, ?_⟩
  · exact fun h now account => h.ask now (.sequenceNumber account) fun _ => rfl
  · exact fun h now account => h.ask now (.balance account) fun _ => rfl
  · exact fun h now => h.ask now .height fun _ => rfl
  · exact fun h now height => h.ask now (.block height) fun _ => rfl
  · exact fun h now handle => h.meanwhile
  · exact fun h asked handle before now => h.ask now (.receipt handle) fun _ => rfl
  · intro accepted s h now request
    have hstarted := h.meanwhile.act now (.start request)
    have hnone : (Act.perform c now (.start request) (s.meanwhile c).state).1.accepted? = none := rfl
    rwa [hnone, Option.toList_none, List.append_nil] at hstarted
  · intro accepted s h called request before now
    have hsettled := h.meanwhile.act now (.settle request)
    rw [Act.perform_settle c called now request (before.meanwhile c).state] at hsettled
    have hgrants : ∀ answer : Answer Handle,
        (Reply.verdict request answer).accepted?.toList = grants request answer := by
      intro answer
      cases answer <;> rfl
    dsimp only [Prod.map] at hsettled
    rwa [hgrants] at hsettled

end Shared

/-! ## One sender -/

/-- The accepted submissions of one sender. -/
def acceptedBy (a : Address) (accepted : List (Request × Handle)) : List (Request × Handle) :=
  accepted.filter (·.1.sender == a)

theorem acceptedBy_ofSenders {a : Address} (ha : a ∈ senders) :
    acceptedBy a (ofSenders senders accepted) = acceptedBy a accepted := by
  unfold acceptedBy ofSenders
  rw [List.filter_filter]
  apply List.filter_congr
  intro x _
  by_cases hx : x.1.sender = a
  · simp [hx, ha]
  · simp [hx]

/-- Of a sender with nothing queued at first, what is accepted is what is queued in the end and what
has been executed. -/
theorem nonces_acceptedBy {a : Address} (hidle : ∀ nonce, base.chain.pool.find? a nonce = none)
    (script : Script) :
    ((acceptedBy a (play c script base).accepted).map (·.1.nonce)).Perm
      (((play c script base).state.chain.pool.places.filter (·.1 == a)).map (·.2) ++
        (executedBy a (play c script base).executed).map (·.nonce)) := by
  have hnone : base.chain.pool.places.filter (·.1 == a) = [] := by
    rw [List.filter_eq_nil_iff]
    rintro ⟨b, nonce⟩ hplace hb
    obtain rfl : b = a := by simpa using hb
    rw [Pool.mem_places, hidle] at hplace
    nomatch hplace
  have hplaces := ((play_places c script base).filter (·.1 == a)).map (·.2)
  rw [List.filter_append, hnone, List.nil_append, List.filter_append, List.map_append] at hplaces
  simpa [acceptedBy, executedBy, List.filter_map, Function.comp_def, placeOf, Executed.place]
    using hplaces

/-- The account of a sender for whom nothing was queued or accepted stays as it was. -/
theorem Shared.Tracks.nonce {s : Shared} (h : Tracks c senders base [] s) {a : Address}
    (ha : a ∈ senders) (hidle : ∀ nonce, base.chain.pool.find? a nonce = none) :
    (s.state.chain.accounts.find a).nonce = (base.chain.accounts.find a).nonce := by
  obtain ⟨⟨script, hstate, haccepted⟩, -⟩ := h
  have hnone : acceptedBy a (play c script base).accepted = [] := by
    rw [← acceptedBy_ofSenders ha, haccepted]
    rfl
  have hnonces := nonces_acceptedBy hidle (c := c) script
  rw [hnone, List.map_nil] at hnonces
  have hempty := (List.append_eq_nil_iff.mp hnonces.symm.eq_nil).2
  have hnumber := (play_numbered c script base a).1
  rw [List.map_eq_nil_iff.mp hempty] at hnumber
  rw [hstate, hnumber]
  exact UInt64.add_zero _

/-- A ledger answers with the sequence number at which it is left. -/
theorem Shared.sequenceNumber_shared (c : Config) (now : Instant) (a : Address) (s : Shared) :
    ((Ledger.shared c).sequenceNumber now a s).1 =
      .ok (((Ledger.shared c).sequenceNumber now a s).2.state.chain.accounts.find a).nonce := rfl

end Throughput.Simulated
