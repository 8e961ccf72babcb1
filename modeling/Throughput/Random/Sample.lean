import Std.Data.HashSet
import Throughput.Random.Words

/-!
# Random samples of indices

A sample of distinct indices below a length. Which of three methods draws it depends on the two
sizes, so that each stays within its cheap range.
-/

namespace Throughput

namespace Sample

/-- The product of two words as its high and low word. -/
def widen (x y : Nat) : Nat × Nat := (x * y / UInt32.size, x * y % UInt32.size)

/-- A number in `low ..= high`: the high word of a product, with a second word where the low word
could still carry. -/
def inRange (low high : Nat) : StateM WordStream Nat := do
  let range := high - low + 1
  let (result, fraction) := widen (← WordStream.draw).toNat range
  if UInt32.size - range < fraction then
    let (carry, _) := widen (← WordStream.draw).toNat range
    pure (low + result + (if UInt32.size ≤ fraction + carry then 1 else 0))
  else pure (low + result)

/-- For each bound a draw up to it; a value that was drawn before is replaced by the bound. -/
def byReplacement (length amount : Nat) : StateM WordStream (Array Nat) :=
  (List.range amount).foldlM (fun (drawn : Array Nat) i => do
    let bound := length - amount + i
    let t ← inRange 0 bound
    let drawn := match drawn.idxOf? t with
      | some p => drawn.setIfInBounds p bound
      | none => drawn
    pure (drawn.push t)) #[]

/-- Swaps each of the first indices with one drawn from the rest. -/
def byShuffle (length amount : Nat) : StateM WordStream (Array Nat) := do
  let shuffled ← (List.range amount).foldlM (fun (indices : Array Nat) i => do
    let k ← inRange i (length - 1)
    pure (indices.swapIfInBounds i k)) (Array.range length)
  pure (shuffled.extract 0 amount)

/-- A number below the length, drawn again while the low word is biased; after the given number of
attempts the draw is kept as it is. -/
def belowUnbiased (length : Nat) : Nat → StateM WordStream Nat
  | 0 => do pure (widen (← WordStream.draw).toNat length).1
  | attempts + 1 => do
    let (result, fraction) := widen (← WordStream.draw).toNat length
    if (UInt32.size - length) % length ≤ fraction then pure result else belowUnbiased length attempts

/-- An index that was not seen yet, drawn again while it was; after the given number of attempts the
first one that was not seen. -/
def unseenBelow (length : Nat) (seen : Std.HashSet Nat) : Nat → StateM WordStream Nat
  | 0 => pure (((List.range length).find? fun i => !seen.contains i).getD 0)
  | attempts + 1 => do
    let i ← belowUnbiased length 200
    if seen.contains i then unseenBelow length seen attempts else pure i

/-- Draws until enough different indices have come up. -/
def byRejection (length amount : Nat) : StateM WordStream (Array Nat) := do
  let (drawn, _) ← (List.range amount).foldlM
    (fun ((drawn, seen) : Array Nat × Std.HashSet Nat) _ => do
      let i ← unseenBelow length seen 200
      pure (drawn.push i, seen.insert i)) (#[], ∅)
  pure drawn

/-- The ways to draw a sample. -/
inductive Method where
  | replacement
  | shuffle
  | rejection
deriving DecidableEq, Repr

/-- The method for the given sizes; the limits are compared as binary32 numbers. -/
def methodFor (length amount : Nat) : Method :=
  let large := 500000 ≤ length
  let l := Float32.ofNat length
  let a := Float32.ofNat amount
  if amount < 163 then
    let slope : Float32 := if large then 8 / 45 else 1.6
    let offset : Float32 := if large then 70 / 9 else 10
    if 11 < amount ∧ l < (offset + slope * a) * a then .shuffle else .replacement
  else
    let factor : Float32 := if large then 330 / 9 else 270
    if l < factor * a then .shuffle else .rejection

/-- Distinct indices below the length, in the order drawn. -/
def indices (length amount : Nat) : StateM WordStream (Array Nat) :=
  match methodFor length amount with
  | .replacement => byReplacement length amount
  | .shuffle => byShuffle length amount
  | .rejection => byRejection length amount

/-- Is a list of indices one that a sample of the given sizes may be? -/
structure IsDraw (length amount : Nat) (drawn : List Nat) : Prop where
  size : drawn.length = amount
  nodup : drawn.Nodup
  lt : ∀ i ∈ drawn, i < length

end Sample

/-- A way to draw samples. Whatever the words are, it draws one of the sizes that were asked for. -/
structure Sampler where
  draw : Nat → Nat → StateM WordStream (Array Nat)
  isDraw {length amount : Nat} (h : amount ≤ length) (words : WordStream) :
    Sample.IsDraw length amount ((draw length amount).run words).1.toList

end Throughput
