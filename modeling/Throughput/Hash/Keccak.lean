/-!
# Keccak-256

The permutation works on five rows of five lanes. A message is padded with the byte one, zeros and a
last bit, cut into blocks of 136 bytes, and each block is added to the first seventeen lanes.
-/

namespace Throughput.Keccak

/-- Five lanes with the same second coordinate. -/
structure Row where
  a : UInt64
  b : UInt64
  c : UInt64
  d : UInt64
  e : UInt64

/-- Five rows. -/
structure State where
  r0 : Row
  r1 : Row
  r2 : Row
  r3 : Row
  r4 : Row

/-- Turns the bits of a lane toward the high end. -/
def rotate (x : UInt64) (n : UInt64) : UInt64 :=
  if n = 0 then x else (x <<< n) ||| (x >>> (64 - n))

/-- Adds two rows bit by bit. -/
def Row.add (x y : Row) : Row :=
  ⟨x.a ^^^ y.a, x.b ^^^ y.b, x.c ^^^ y.c, x.d ^^^ y.d, x.e ^^^ y.e⟩

/-- Adds to each lane the parities of the two neighbouring columns. -/
def theta (s : State) : State :=
  let c := s.r0.add (s.r1.add (s.r2.add (s.r3.add s.r4)))
  let d : Row := ⟨c.e ^^^ rotate c.b 1, c.a ^^^ rotate c.c 1, c.b ^^^ rotate c.d 1,
    c.c ^^^ rotate c.e 1, c.d ^^^ rotate c.a 1⟩
  ⟨s.r0.add d, s.r1.add d, s.r2.add d, s.r3.add d, s.r4.add d⟩

/-- Turns every lane by its own offset and moves it to its new place. -/
def rhoPi (s : State) : State :=
  { r0 := ⟨s.r0.a, rotate s.r1.b 44, rotate s.r2.c 43, rotate s.r3.d 21, rotate s.r4.e 14⟩
    r1 := ⟨rotate s.r0.d 28, rotate s.r1.e 20, rotate s.r2.a 3, rotate s.r3.b 45, rotate s.r4.c 61⟩
    r2 := ⟨rotate s.r0.b 1, rotate s.r1.c 6, rotate s.r2.d 25, rotate s.r3.e 8, rotate s.r4.a 18⟩
    r3 := ⟨rotate s.r0.e 27, rotate s.r1.a 36, rotate s.r2.b 10, rotate s.r3.c 15, rotate s.r4.d 56⟩
    r4 := ⟨rotate s.r0.c 62, rotate s.r1.d 55, rotate s.r2.e 39, rotate s.r3.a 41, rotate s.r4.b 2⟩ }

/-- Adds to each lane its right neighbour masked by the complement of the one between. -/
def Row.chi (x : Row) : Row :=
  ⟨x.a ^^^ (~~~x.b &&& x.c), x.b ^^^ (~~~x.c &&& x.d), x.c ^^^ (~~~x.d &&& x.e),
    x.d ^^^ (~~~x.e &&& x.a), x.e ^^^ (~~~x.a &&& x.b)⟩

/-- One round with its constant. -/
def round (s : State) (constant : UInt64) : State :=
  let t := rhoPi (theta s)
  let first := t.r0.chi
  ⟨{ first with a := first.a ^^^ constant }, t.r1.chi, t.r2.chi, t.r3.chi, t.r4.chi⟩

/-- The constants of the twenty-four rounds. -/
def roundConstants : List UInt64 :=
  [0x0000000000000001, 0x0000000000008082, 0x800000000000808a, 0x8000000080008000,
   0x000000000000808b, 0x0000000080000001, 0x8000000080008081, 0x8000000000008009,
   0x000000000000008a, 0x0000000000000088, 0x0000000080008009, 0x000000008000000a,
   0x000000008000808b, 0x800000000000008b, 0x8000000000008089, 0x8000000000008003,
   0x8000000000008002, 0x8000000000000080, 0x000000000000800a, 0x800000008000000a,
   0x8000000080008081, 0x8000000000008080, 0x0000000080000001, 0x8000000080008008]

/-- The permutation. -/
def permute (s : State) : State := roundConstants.foldl round s

/-- A lane from eight bytes, the first the lowest. -/
def laneOfBytes (bytes : List UInt8) : UInt64 :=
  bytes.foldr (fun b n => (n <<< 8) ||| b.toUInt64) 0

/-- Cuts bytes into lanes. -/
def lanes : Nat → List UInt8 → List UInt64
  | 0, _ => []
  | n + 1, bytes => laneOfBytes (bytes.take 8) :: lanes n (bytes.drop 8)

/-- Lanes in order as a state; lanes that are not given are zero. -/
def State.ofLanes (lanes : List UInt64) : State :=
  let lane (i : Nat) := (lanes[i]?).getD 0
  let row (i : Nat) : Row := ⟨lane i, lane (i + 1), lane (i + 2), lane (i + 3), lane (i + 4)⟩
  ⟨row 0, row 5, row 10, row 15, row 20⟩

/-- Adds two states lane by lane. -/
def State.add (x y : State) : State :=
  ⟨x.r0.add y.r0, x.r1.add y.r1, x.r2.add y.r2, x.r3.add y.r3, x.r4.add y.r4⟩

/-- Bytes per block. -/
def rate : Nat := 136

/-- Fills a message up to whole blocks. -/
def pad (message : List UInt8) : List UInt8 :=
  let missing := rate - message.length % rate
  if missing = 1 then message ++ [0x81]
  else message ++ 0x01 :: List.replicate (missing - 2) 0 ++ [0x80]

/-- Takes in the given number of blocks. -/
def absorb : Nat → List UInt8 → State → State
  | 0, _, s => s
  | n + 1, bytes, s =>
    absorb n (bytes.drop rate) (permute (s.add (.ofLanes (lanes 17 (bytes.take rate)))))

/-- The eight bytes of a lane, the lowest first. -/
def laneBytes (x : UInt64) : List UInt8 :=
  (List.range 8).map fun i => (x >>> (8 * i.toUInt64)).toUInt8

/-- The digest as thirty-two bytes. -/
def digest (message : List UInt8) : List UInt8 :=
  let padded := pad message
  let s := absorb (padded.length / rate) padded (.ofLanes [])
  [s.r0.a, s.r0.b, s.r0.c, s.r0.d].flatMap laneBytes

end Throughput.Keccak
