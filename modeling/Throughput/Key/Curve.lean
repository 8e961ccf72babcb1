/-!
# The curve of account keys

The points of `y ^ 2 = x ^ 3 + 7` over the integers modulo a prime form a group with a generator of
prime order. A point is kept as `(x, y, z)` and stands for `(x / z ^ 2, y / z ^ 3)`, so that adding
needs no division; `z = 0` is the neutral point.
-/

namespace Throughput.Curve

/-- The modulus of the coordinates. -/
def prime : Nat := 0xfffffffffffffffffffffffffffffffffffffffffffffffffffffffefffffc2f

/-- The number of points. -/
def order : Nat := 0xfffffffffffffffffffffffffffffffebaaedce6af48a03bbfd25e8cd0364141

/-- A product of coordinates. -/
def mul (a b : Nat) : Nat := a * b % prime

/-- A sum of coordinates. -/
def add (a b : Nat) : Nat := (a + b) % prime

/-- A difference of coordinates. -/
def sub (a b : Nat) : Nat := (a + (prime - b % prime)) % prime

/-- The power of a number modulo another, by the lowest `bits` bits of the exponent. -/
def powMod (modulus base exponent : Nat) : Nat → Nat
  | 0 => 1 % modulus
  | bits + 1 =>
    let half := powMod modulus base (exponent / 2) bits
    let square := half * half % modulus
    if exponent % 2 = 1 then square * base % modulus else square

/-- The inverse of a number modulo a prime below `2 ^ 256`. -/
def inverse (modulus a : Nat) : Nat := powMod modulus (a % modulus) (modulus - 2) 256

/-- A point. -/
structure Point where
  x : Nat
  y : Nat
  z : Nat
deriving DecidableEq, Repr

namespace Point

/-- The neutral point. -/
def zero : Point := ⟨1, 1, 0⟩

/-- The generator. -/
def generator : Point where
  x := 0x79be667ef9dcbbac55a06295ce870b07029bfcdb2dce28d959f2815b16f81798
  y := 0x483ada7726a3c4655da4fbfc0e1108a8fd17b448a68554199c47d08ffb10d4b8
  z := 1

/-- The sum of a point with itself. -/
def double (p : Point) : Point :=
  let yy := mul p.y p.y
  let s := mul 4 (mul p.x yy)
  let m := mul 3 (mul p.x p.x)
  let x := sub (mul m m) (mul 2 s)
  let y := sub (mul m (sub s x)) (mul 8 (mul yy yy))
  ⟨x, y, mul 2 (mul p.y p.z)⟩

/-- The sum of two points. -/
def plus (p q : Point) : Point :=
  if p.z = 0 then q
  else if q.z = 0 then p
  else
    let pz := mul p.z p.z
    let qz := mul q.z q.z
    let u := mul p.x qz
    let s := mul p.y (mul q.z qz)
    let h := sub (mul q.x pz) u
    let r := sub (mul q.y (mul p.z pz)) s
    if h = 0 then if r = 0 then p.double else zero
    else
      let hh := mul h h
      let hhh := mul h hh
      let v := mul u hh
      let x := sub (sub (mul r r) hhh) (mul 2 v)
      let y := sub (mul r (sub v x)) (mul s hhh)
      ⟨x, y, mul h (mul p.z q.z)⟩

/-- The sum of `n` copies of a point, by the lowest `bits` bits of `n`. -/
def times (p : Point) (n : Nat) : Nat → Point
  | 0 => zero
  | bits + 1 =>
    let half := (p.times (n / 2) bits).double
    if n % 2 = 1 then half.plus p else half

/-- The two coordinates; those of the neutral point are zero. -/
def coordinates (p : Point) : Nat × Nat :=
  let i := inverse prime p.z
  let ii := mul i i
  (mul p.x ii, mul p.y (mul i ii))

end Point

end Throughput.Curve
