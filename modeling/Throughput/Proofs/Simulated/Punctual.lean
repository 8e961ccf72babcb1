import Mathlib.Algebra.Order.Group.Nat
import Mathlib.Logic.Function.Iterate
import Throughput.Proofs.Simulated.Blocks

/-!
# Blocks on time

A ledger that produces its blocks when somebody looks gives the answers of one that produces each
block at its instant. So a question more or less makes no difference to the other answers.
-/

namespace Throughput.Simulated

/-- The verdict on a submission by the chain as it stands. -/
def State.settle (c : Config) (request : Request) (s : State) : Answer Handle × State :=
  let s := { s with inFlight := s.inFlight - 1 }
  if c.refuses s.submitted then (.error (.rejected "simulated rejection"), s)
  else if request.gasLimit.toNat < transferGas then
    (.error (.rejected "intrinsic gas too low"), s)
  else
    let (verdict, chain) := s.chain.judge c request
    (verdict, { s with chain })

/-- What a client is told by the chain as it stands. -/
def Act.answer (c : Config) (e : Act) (s : State) : Reply × State :=
  match e with
  | .start _ =>
    let inFlight := s.inFlight + 1
    (.started, { s with submitted := s.submitted + 1, inFlight,
                        peakInFlight := max s.peakInFlight inFlight })
  | .settle request => (s.settle c request).map (.verdict request) id
  | .ask query => (query.read s.chain, s)

/-- A ledger that follows the clock. -/
structure Clocked where
  now : Instant := 0
  state : State

namespace Clocked

/-- A nanosecond passes. At every multiple of the interval a block is produced. -/
def tick (c : Config) (k : Clocked) : Clocked :=
  let now := k.now + 1
  let chain := if c.blockInterval ∣ now then k.state.chain.produce c else k.state.chain
  { now, state := { k.state with chain } }

/-- The clock comes to an instant. -/
def waitUntil (c : Config) (now : Instant) (k : Clocked) : Clocked := (tick c)^[now - k.now] k

/-- What clients are told: the blocks due at the instant of an act come before the act. -/
def replies (c : Config) : Script → Clocked → List Reply
  | [], _ => []
  | (now, e) :: script, k =>
    let k := k.waitUntil c now
    let (reply, state) := e.answer c k.state
    reply :: replies c script { k with state }

end Clocked

/-- The state with every block that is due. -/
def State.caughtUp (c : Config) (now : Instant) (s : State) : State :=
  { s with chain := s.chain.catchUp c now }

section CatchUp

variable {c : Config} {now later : Instant} {s : State}

theorem Chain.catchUp_of_lt {chain : Chain} (h : c.dueHeight now < chain.blocks.size) :
    chain.catchUp c now = chain := by
  have hnone : c.dueHeight now + 1 - chain.blocks.size = 0 := by omega
  rw [catchUp, hnone]
  rfl

theorem Chain.size_blocks_catchUp (chain : Chain) :
    (chain.catchUp c now).blocks.size = max chain.blocks.size (c.dueHeight now + 1) := by
  rw [catchUp, size_blocks_extend]
  omega

theorem State.caughtUp_caughtUp (h : now ≤ later) :
    (s.caughtUp c now).caughtUp c later = s.caughtUp c later := by
  unfold caughtUp
  rw [Chain.catchUp_catchUp c h]

theorem Chain.blocks_judge (c : Config) (request : Request) (chain : Chain) :
    (chain.judge c request).2.blocks = chain.blocks := by
  rcases chain.judge_cases c request with ⟨reason, h⟩ | ⟨-, h⟩
  · rw [h]
  · rw [h]
    rfl

/-- A verdict given on looking is that of the chain with every block that is due. -/
theorem State.receive_caughtUp (c : Config) (now : Instant) (request : Request) (s : State) :
    (s.receive c now request).1 = ((s.caughtUp c now).settle c request).1 ∧
      (s.receive c now request).2.caughtUp c now = ((s.caughtUp c now).settle c request).2 := by
  unfold receive settle caughtUp
  dsimp only
  split
  · exact ⟨rfl, rfl⟩
  · split
    · exact ⟨rfl, rfl⟩
    · have hsize : c.dueHeight now < ((s.chain.catchUp c now).judge c request).2.blocks.size := by
        rw [Chain.blocks_judge]
        exact Chain.dueHeight_lt_size_catchUp ..
      rw [Chain.catchUp_of_lt hsize]
      exact ⟨rfl, rfl⟩

/-- What a client is told on looking is what the chain with every block that is due tells it. -/
theorem Act.perform_caughtUp (c : Config) (now : Instant) (e : Act) (s : State) :
    (e.perform c now s).1 = (e.answer c (s.caughtUp c now)).1 ∧
      (e.perform c now s).2.caughtUp c now = (e.answer c (s.caughtUp c now)).2 := by
  cases e with
  | start request => exact ⟨rfl, rfl⟩
  | settle request =>
    obtain ⟨hreply, hstate⟩ := State.receive_caughtUp c now request s
    exact ⟨congrArg (Reply.verdict request) hreply, hstate⟩
  | ask query =>
    have hask : (ask query).perform c now s = s.view c now query.read := Query.ask_eq_view ..
    rw [hask]
    exact ⟨rfl, State.caughtUp_caughtUp (Nat.le_refl now)⟩

end CatchUp

/-! ## The clock -/

section Clock

variable {c : Config} {now later : Instant} {s : State}

/-- A tick brings a ledger that is up to date up to the next instant. -/
theorem Clocked.tick_caughtUp (hinterval : 1 ≤ c.blockInterval)
    (hsize : s.chain.blocks.size ≤ c.dueHeight now + 1) :
    tick c ⟨now, s.caughtUp c now⟩ = ⟨now + 1, s.caughtUp c (now + 1)⟩ := by
  have hmax : max c.blockInterval 1 = c.blockInterval := Nat.max_eq_left hinterval
  have hdue : c.dueHeight (now + 1) =
      c.dueHeight now + if c.blockInterval ∣ now + 1 then 1 else 0 := by
    unfold Config.dueHeight
    rw [hmax, Nat.succ_div]
  have hcaught : (s.chain.catchUp c now).blocks.size = c.dueHeight now + 1 := by
    rw [Chain.size_blocks_catchUp]
    omega
  have hnext : s.chain.catchUp c (now + 1) =
      (s.chain.catchUp c now).extend c (c.dueHeight (now + 1) + 1 - (c.dueHeight now + 1)) := by
    rw [← hcaught]
    exact (Chain.catchUp_catchUp c (Nat.le_succ now) s.chain).symm
  unfold tick State.caughtUp
  dsimp only
  rw [hnext, hdue]
  split
  · rw [Nat.add_right_comm, Nat.add_sub_cancel_left]
    rfl
  · rw [Nat.add_zero, Nat.sub_self]
    rfl

/-- Waiting brings a ledger that is up to date up to the instant waited for. -/
theorem Clocked.waitUntil_caughtUp (hinterval : 1 ≤ c.blockInterval)
    (hsize : s.chain.blocks.size ≤ c.dueHeight now + 1) (hle : now ≤ later) :
    waitUntil c later ⟨now, s.caughtUp c now⟩ = ⟨later, s.caughtUp c later⟩ := by
  obtain ⟨n, rfl⟩ := Nat.exists_eq_add_of_le hle
  have hdue : ∀ n, c.dueHeight now ≤ c.dueHeight (now + n) :=
    fun n => Nat.div_le_div_right (Nat.le_add_right now n)
  unfold waitUntil
  rw [Nat.add_sub_cancel_left]
  clear hle
  induction n with
  | zero => rfl
  | succ n ih =>
    have hnext : s.chain.blocks.size ≤ c.dueHeight (now + n) + 1 :=
      Nat.le_trans hsize (Nat.succ_le_succ (hdue n))
    rw [Function.iterate_succ_apply', ih, tick_caughtUp hinterval hnext]
    rfl

/-- No act produces a block before it is due. -/
theorem Act.size_perform (e : Act) (hle : now ≤ later)
    (hsize : s.chain.blocks.size ≤ c.dueHeight later + 1) :
    (e.perform c now s).2.chain.blocks.size ≤ c.dueHeight later + 1 := by
  have hdue : c.dueHeight now ≤ c.dueHeight later := Nat.div_le_div_right hle
  have hcaught : (s.chain.catchUp c now).blocks.size ≤ c.dueHeight later + 1 := by
    rw [Chain.size_blocks_catchUp]
    omega
  rcases e.perform_cases c now s with ⟨-, h | h⟩ | ⟨request, -, -, -, h⟩
  · rwa [h]
  · rwa [h]
  · rw [h]
    exact hcaught

theorem size_play {script : Script} (hbefore : ∀ e ∈ script, e.1 ≤ now)
    (hsize : s.chain.blocks.size ≤ c.dueHeight now + 1) :
    (play c script s).state.chain.blocks.size ≤ c.dueHeight now + 1 := by
  induction script generalizing s with
  | nil => exact hsize
  | cons e script ih =>
    rw [state_cons]
    apply ih (fun e' he' => hbefore e' (List.mem_cons_of_mem _ he'))
    exact Act.size_perform e.2 (hbefore e List.mem_cons_self) hsize

/-- A script in the order of time is answered as if the blocks were on time. -/
theorem replies_eq_clocked (hinterval : 1 ≤ c.blockInterval)
    (hsize : s.chain.blocks.size ≤ c.dueHeight now + 1) {script : Script}
    (hsorted : script.Pairwise (·.1 ≤ ·.1)) (hlater : ∀ e ∈ script, now ≤ e.1) :
    (play c script s).replies = Clocked.replies c script ⟨now, s.caughtUp c now⟩ := by
  induction script generalizing now s with
  | nil => rfl
  | cons e script ih =>
    obtain ⟨hfirst, hrest⟩ := List.pairwise_cons.mp hsorted
    have hle : now ≤ e.1 := hlater e List.mem_cons_self
    have hdue : c.dueHeight now ≤ c.dueHeight e.1 := Nat.div_le_div_right hle
    have hnext : (e.2.perform c e.1 s).2.chain.blocks.size ≤ c.dueHeight e.1 + 1 :=
      Act.size_perform e.2 (Nat.le_refl _) (by omega)
    obtain ⟨hreply, hstate⟩ := Act.perform_caughtUp c e.1 e.2 s
    rw [replies_cons, Clocked.replies, Clocked.waitUntil_caughtUp hinterval hsize hle]
    dsimp only
    rw [ih hnext hrest hfirst, hreply, hstate]

/-- The height is the number of whole intervals that have passed. -/
theorem height_ask (hinterval : 1 ≤ c.blockInterval)
    (hsize : s.chain.blocks.size ≤ c.dueHeight now + 1) :
    (Query.height.ask c now s).1 = .word (.ok (now / c.blockInterval).toUInt64) := by
  have hmax : max c.blockInterval 1 = c.blockInterval := Nat.max_eq_left hinterval
  have hcaught : (s.chain.catchUp c now).blocks.size = now / c.blockInterval + 1 := by
    rw [Chain.size_blocks_catchUp, ← hmax]
    change max _ (c.dueHeight now + 1) = c.dueHeight now + 1
    omega
  rw [Query.ask_eq_view]
  unfold State.view Query.read
  dsimp only
  rw [hcaught, Nat.add_sub_cancel]

end Clock

/-! ## Extra questions -/

/-- A script in which each act says whether it counts or is extra. -/
abbrev Tape := List (Bool × Instant × Act)

namespace Tape

/-- All acts of a tape. -/
def full (tape : Tape) : Script := tape.map (·.2)

/-- The acts of a tape that count. -/
def original (tape : Tape) : Script := (tape.filter (·.1)).map (·.2)

/-- The replies to acts that count. -/
def repliesTo (tape : Tape) (replies : List Reply) : List Reply :=
  ((tape.zip replies).filter (·.1.1)).map (·.2)

variable {c : Config} {now : Instant} {s s' : State} {tape : Tape}

/-- Two states that are the same once they are up to date give the same answers, whatever else one of
them is asked. -/
theorem repliesTo_full (hsame : s.caughtUp c now = s'.caughtUp c now)
    (hsorted : tape.full.Pairwise (·.1 ≤ ·.1)) (hlater : ∀ e ∈ tape.full, now ≤ e.1)
    (hextra : ∀ e ∈ tape, e.1 = false → ∃ query, e.2.2 = .ask query) :
    tape.repliesTo (play c tape.full s).replies = (play c tape.original s').replies := by
  induction tape generalizing now s s' with
  | nil => rfl
  | cons e tape ih =>
    obtain ⟨counts, e⟩ := e
    obtain ⟨hfirst, hrest⟩ := List.pairwise_cons.mp hsorted
    have hle : now ≤ e.1 := hlater e List.mem_cons_self
    have hcaught : s.caughtUp c e.1 = s'.caughtUp c e.1 := by
      rw [← State.caughtUp_caughtUp hle, hsame, State.caughtUp_caughtUp hle]
    have hextra' : ∀ x ∈ tape, x.1 = false → ∃ query, x.2.2 = .ask query :=
      fun x hx => hextra x (List.mem_cons_of_mem _ hx)
    obtain ⟨hreply, hstate⟩ := Act.perform_caughtUp c e.1 e.2 s
    change repliesTo _ (play c (e :: full tape) s).replies = _
    rw [replies_cons]
    cases counts with
    | true =>
      obtain ⟨hreply', hstate'⟩ := Act.perform_caughtUp c e.1 e.2 s'
      have hnext : (e.2.perform c e.1 s).2.caughtUp c e.1 =
          (e.2.perform c e.1 s').2.caughtUp c e.1 := by rw [hstate, hstate', hcaught]
      change _ :: repliesTo tape _ = (play c (e :: original tape) s').replies
      rw [replies_cons, ih hnext hrest hfirst hextra', hreply, hreply', hcaught]
    | false =>
      obtain ⟨query, hquery⟩ := hextra (false, e) List.mem_cons_self rfl
      -- a question only brings the state up to date
      have hnext : (e.2.perform c e.1 s).2.caughtUp c e.1 = s'.caughtUp c e.1 := by
        change e.2 = _ at hquery
        rw [hstate, hquery]
        exact hcaught
      exact ih hnext hrest hfirst hextra'

end Tape

/-- Nobody can tell when blocks are produced. In the order of time, extra questions at any instants
leave all other answers as they are, every answer is that of a ledger whose blocks are on time, and
the height is the number of whole intervals that have passed. -/
theorem play_punctual (c : Config) (hinterval : 1 ≤ c.blockInterval)
    (accounts : List (Address × Account)) (tape : Tape) (hsorted : tape.full.Pairwise (·.1 ≤ ·.1))
    (hextra : ∀ e ∈ tape, e.1 = false → ∃ query, e.2.2 = .ask query) :
    let s := State.genesis c accounts
    tape.repliesTo (play c tape.full s).replies = (play c tape.original s).replies ∧
    (play c tape.full s).replies = Clocked.replies c tape.full { state := s } ∧
    ∀ now, (∀ e ∈ tape.full, e.1 ≤ now) →
      (Query.height.ask c now (play c tape.full s).state).1 =
        .word (.ok (now / c.blockInterval).toUInt64) := by
  intro s
  have hsize : s.chain.blocks.size ≤ c.dueHeight 0 + 1 := by simp [s, State.genesis]
  have hstart : s.caughtUp c 0 = s := by
    unfold State.caughtUp
    rw [Chain.catchUp_of_lt (by simp [s, State.genesis, Config.dueHeight])]
  have hpositive : ∀ e ∈ tape.full, 0 ≤ e.1 := fun e _ => Nat.zero_le _
  refine ⟨Tape.repliesTo_full rfl hsorted hpositive hextra, ?_, ?_⟩
  · rw [replies_eq_clocked hinterval hsize hsorted hpositive, hstart]
  · intro now hbefore
    exact height_ask hinterval (size_play hbefore (by simp [s, State.genesis]))

/-- A transfer, an extra question in the second interval, and a question in the third. -/
theorem play_punctual_asked :
    let s := State.genesis {} [(1, ⟨0, 1000⟩)]
    let tape : Tape := [(true, 0, .settle ⟨1, 2, 5, 21000, 0, none⟩),
      (false, 1_200_000_000, .ask .height), (true, 2_500_000_000, .ask .included)]
    1 ≤ Config.blockInterval {} ∧ tape.full.Pairwise (·.1 ≤ ·.1) ∧
      (∀ e ∈ tape, e.1 = false → ∃ query, e.2.2 = .ask query) ∧
      tape.repliesTo (play {} tape.full s).replies = (play {} tape.original s).replies ∧
      (play {} tape.full s).replies = Clocked.replies {} tape.full { state := s } ∧
      (Query.height.ask {} 2_700_000_000 (play {} tape.full s).state).1 = .word (.ok 2) := by
  intro s tape
  have hsorted : tape.full.Pairwise (·.1 ≤ ·.1) := by decide
  have hextra : ∀ e ∈ tape, e.1 = false → ∃ query, e.2.2 = .ask query := by simp [tape]
  obtain ⟨hsame, hclocked, hheight⟩ := play_punctual {} (by decide) [(1, ⟨0, 1000⟩)] tape hsorted hextra
  exact ⟨by decide, hsorted, hextra, hsame, hclocked, hheight 2_700_000_000 (by decide)⟩

end Throughput.Simulated
