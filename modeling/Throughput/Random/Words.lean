/-!
# A stream of random words

ChaCha with eight rounds, keyed from a 64-bit seed. The words of the blocks are handed out in order.
-/

namespace Throughput

/-- A block of sixteen words. -/
abbrev WordBlock := Vector UInt32 16

namespace WordBlock

/-- Turns the bits of a word toward the high end. -/
def rotate (x : UInt32) (n : UInt32) : UInt32 := (x <<< n) ||| (x >>> (32 - n))

/-- Mixes four words of a block. -/
def quarterRound (v : WordBlock) (a b c d : Fin 16) : WordBlock :=
  let v := v.set a (v[a] + v[b])
  let v := v.set d (rotate (v[d] ^^^ v[a]) 16)
  let v := v.set c (v[c] + v[d])
  let v := v.set b (rotate (v[b] ^^^ v[c]) 12)
  let v := v.set a (v[a] + v[b])
  let v := v.set d (rotate (v[d] ^^^ v[a]) 8)
  let v := v.set c (v[c] + v[d])
  v.set b (rotate (v[b] ^^^ v[c]) 7)

/-- One round over the columns and one over the diagonals. -/
def doubleRound (v : WordBlock) : WordBlock :=
  let v := v.quarterRound 0 4 8 12
  let v := v.quarterRound 1 5 9 13
  let v := v.quarterRound 2 6 10 14
  let v := v.quarterRound 3 7 11 15
  let v := v.quarterRound 0 5 10 15
  let v := v.quarterRound 1 6 11 12
  let v := v.quarterRound 2 7 8 13
  v.quarterRound 3 4 9 14

/-- Applies the given number of double rounds. -/
def mix : Nat → WordBlock → WordBlock
  | 0, v => v
  | n + 1, v => mix n v.doubleRound

end WordBlock

/-- A key of eight words. -/
abbrev WordKey := Vector UInt32 8

/-- The key that a seed stands for: a congruential generator whose output is shifted and turned. -/
def keyOfSeed (seed : UInt64) : WordKey :=
  let advance (state : UInt64) := state * 6364136223846793005 + 11634580027462260723
  let output (state : UInt64) : UInt32 :=
    let x := (((state >>> 18) ^^^ state) >>> 27).toUInt32
    let turn := (state >>> 59).toUInt32
    (x >>> turn) ||| (x <<< ((32 - turn) % 32))
  let states := (List.range 8).foldl (fun (acc : List UInt64 × UInt64) _ =>
    let state := advance acc.2
    (acc.1 ++ [state], state)) ([], seed)
  Vector.ofFn fun i => output ((states.1[i.val]?).getD 0)

/-- The block of a key at a position. -/
def keyBlock (key : WordKey) (position : UInt64) : WordBlock :=
  let start : WordBlock := #v[0x61707865, 0x3320646e, 0x79622d32, 0x6b206574,
    key[0], key[1], key[2], key[3], key[4], key[5], key[6], key[7],
    position.toUInt32, (position >>> 32).toUInt32, 0, 0]
  let mixed := start.mix 4
  Vector.ofFn fun i => mixed[i] + start[i]

/-- A stream of words: its key, the position of the next block, and what is left of the last one. -/
structure WordStream where
  key : WordKey
  position : UInt64 := 0
  rest : List UInt32 := []

namespace WordStream

/-- The stream of a seed. -/
def ofSeed (seed : UInt64) : WordStream := { key := keyOfSeed seed }

/-- Takes the next word. -/
def next (s : WordStream) : UInt32 × WordStream :=
  match s.rest with
  | word :: rest => (word, { s with rest })
  | [] =>
    match (keyBlock s.key s.position).toList with
    | word :: rest => (word, { s with position := s.position + 1, rest })
    | [] => (0, s)

/-- Takes the next word in a state. -/
def draw : StateM WordStream UInt32 := modifyGet next

end WordStream

end Throughput
