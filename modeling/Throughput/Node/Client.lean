import Std.Data.ExtTreeMap
import Throughput.Error
import Throughput.Node.Endpoint
import Throughput.Node.Transaction
import Throughput.Node.Url

/-!
# Clients of nodes

A client holds the keys of its senders, signs transfers itself and sends them as bytes. The name of a
submission is the digest of those bytes, whatever the node answers.
-/

namespace Throughput

/-- A client of a node. -/
structure Client where
  keys : Std.ExtTreeMap Address SigningKey compare
  chainId : UInt64
  gasPrice : BitVec 128

namespace Client

/-- The gas price when the node names none. -/
def fallbackGasPrice : BitVec 128 := 1000000000

/-- The locator of a node. -/
def readUrl (text : String) : Except SetupError Url :=
  (Url.read text).mapError fun e =>
    .invalidConfig ("invalid rpc url " ++ text ++ ": " ++ e.message)

/-- What is wrong with calling a node at a locator. -/
def urlFault? (url : Url) : Option RpcFault :=
  if url.scheme = "http" ∨ url.scheme = "https" then none else some (.unsupported url.text)

/-- Reads the chain and the gas price off a node. -/
def connect (e : Endpoint σ) (keys : List SigningKey) (s : σ) : Except SetupError Client × σ :=
  match e.ask "eth_chainId" none Rpc.word s with
  | (.error fault, s) => (.error (.unreachable (.transport fault.message)), s)
  | (.ok chainId, s) =>
    let (price, s) := e.ask "eth_gasPrice" none (Rpc.quantity (Nat.pow 2 128)) s
    let gasPrice := match price with
      | .ok price => BitVec.ofNat 128 price
      | .error _ => fallbackGasPrice
    (.ok { keys := keys.foldl (fun m k => m.insert k.address k) ∅, chainId, gasPrice }, s)

/-- The accounts that the client can sign for, in ascending order. -/
def senders (c : Client) : List Address := c.keys.keys

/-- The name and the bytes of a transfer. -/
def sign (c : Client) (r : Request) : Answer (Handle × List UInt8) :=
  match c.keys[r.sender]? with
  | none => .error (.unknownSender r.sender)
  | some key =>
    let t := Transaction.ofRequest c.chainId c.gasPrice r
    match key.sign? t.digest with
    | none => .error (.malformed "failed to sign transaction: signature error")
    | some signature =>
      let bytes := t.signed signature
      .ok (keccak256 bytes, bytes)

/-- What a fault means for a submission: an answer of the node is a verdict. -/
def submissionError : RpcFault → LedgerError
  | .failed _ message => .rejected message
  | fault => .transport fault.message

/-- What a fault means for a read. -/
def readError (fault : RpcFault) : LedgerError := .transport fault.message

/-- The address of an account as a parameter. -/
def parameter (a : Address) : Json := .string a.lower

/-- Reads the figures of a block. -/
def readBlock (value : Json) : RpcAnswer Block := do
  let transactions ← match ← Rpc.member value "transactions" with
    | .array items => pure items.length
    | other => throw (.unexpected other)
  pure {
    number := ← Rpc.word (← Rpc.member value "number")
    timestamp := ← Rpc.word (← Rpc.member value "timestamp")
    transactions := transactions.toUInt64
    gasUsed := ← Rpc.word (← Rpc.member value "gasUsed")
    gasLimit := ← Rpc.word (← Rpc.member value "gasLimit") }

/-- Reads a receipt; one without a block is none yet. -/
def readReceipt (value : Json) : RpcAnswer (Option Receipt) := do
  let status ← Rpc.quantity 2 (← Rpc.member value "status")
  let block ← Rpc.optional Rpc.word ((Rpc.member value "blockNumber").toOption.getD .null)
  pure (block.map (⟨·, status == 1⟩))

/-- The node as a ledger. Every call is answered at once. -/
def ledger (c : Client) (e : Endpoint σ) : Ledger σ where
  submit _ request s :=
    match c.sign request with
    | .error error => (.pure 0 (.error error), s)
    | .ok (handle, bytes) =>
      let raw := "0x" ++ String.ofList (bytes.flatMap fun b => Hex.fixed 2 b.toNat)
      let (answer, s) := e.ask "eth_sendRawTransaction" (some [.string raw]) Rpc.digest s
      (.pure 0 ((answer.mapError submissionError).map fun _ => handle), s)
  sequenceNumber _ account s :=
    let (answer, s) := e.ask "eth_getTransactionCount"
      (some [parameter account, .string "latest"]) Rpc.word s
    (answer.mapError readError, s)
  balance _ account s :=
    let (answer, s) := e.ask "eth_getBalance"
      (some [parameter account, .string "latest"]) (Rpc.quantity (Nat.pow 2 256)) s
    ((answer.mapError readError).map (BitVec.ofNat 256), s)
  height _ s :=
    let (answer, s) := e.ask "eth_blockNumber" none Rpc.word s
    (answer.mapError readError, s)
  block _ height s :=
    let (answer, s) := e.ask "eth_getBlockByNumber"
      (some [.string (quantityText height.toNat), .bool false]) (Rpc.optional readBlock) s
    (answer.mapError readError, s)
  receipt _ handle s :=
    let (answer, s) := e.ask "eth_getTransactionReceipt"
      (some [.string (wordText handle)]) (Rpc.optional readReceipt) s
    (.pure 0 ((answer.mapError readError).map Option.join), s)

end Client

end Throughput
