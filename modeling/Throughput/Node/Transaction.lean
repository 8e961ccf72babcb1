import Throughput.Key.Signature
import Throughput.Ledger.Basic
import Throughput.Node.Rlp

/-!
# Transactions

A transfer as the node takes it: its fields as a list behind a type byte, then the same with a
signature of the digest of the first form.
-/

namespace Throughput

/-- A transfer on a chain at a price, which is both the price and the tip offered. -/
structure Transaction where
  chainId : UInt64
  nonce : UInt64
  price : BitVec 128
  gasLimit : UInt64
  recipient : Address
  value : Amount
deriving DecidableEq, Repr

namespace Transaction

/-- The type byte of a transfer with a price and a tip. -/
def typeByte : UInt8 := 2

/-- The transfer of a request. -/
def ofRequest (chainId : UInt64) (gasPrice : BitVec 128) (r : Request) : Transaction where
  chainId := chainId
  nonce := r.nonce
  price := r.gasPrice.getD gasPrice
  gasLimit := r.gasLimit
  recipient := r.recipient
  value := r.value

/-- The nine fields; data and access list are empty. -/
def fields (t : Transaction) : List Rlp :=
  [.nat t.chainId.toNat, .nat t.nonce.toNat, .nat t.price.toNat, .nat t.price.toNat,
    .nat t.gasLimit.toNat, .bytes t.recipient.bytes, .nat t.value.toNat, .bytes [], .list []]

/-- The digest that is signed. -/
def digest (t : Transaction) : Handle := keccak256 (typeByte :: (Rlp.list t.fields).encode)

/-- The form that is sent. -/
def signed (t : Transaction) (s : Signature) : List UInt8 :=
  typeByte :: (Rlp.list (t.fields ++ [.nat s.isOdd.toNat, .nat s.r, .nat s.s])).encode

end Transaction

end Throughput
