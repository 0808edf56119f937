import Rowtime.Binary64.Basic

/-!
# Arithmetic of binary64 numbers

Each operation computes the exact result of the exact operands and rounds it
once. The remainder has the sign of the dividend and is always exact.
-/
namespace Rowtime.Binary64

/-- The value with the opposite sign. -/
def neg (x : Binary64) : Binary64 :=
  ofParts (!x.negative) x.magnitude

/-- The signed integer `± m * 2 ^ (e - low)`. -/
def aligned (neg : Bool) (m : Nat) (e low : Int) : Int :=
  let v : Int := Int.ofNat (m * Nat.pow 2 (e - low).toNat)
  if neg then -v else v

/-- The sum. Zeros of opposite sign, and opposite values, add up to the positive zero. -/
def add (a b : Binary64) : Binary64 :=
  match a.unpack, b.unpack with
  | .nan, _ | _, .nan => nan
  | .infinite s, .infinite t => if s == t then infinity s else nan
  | .infinite s, _ => infinity s
  | _, .infinite t => infinity t
  | .finite s m e, .finite t n f =>
    let low := min e f
    let sum := aligned s m e low + aligned t n f low
    if sum == 0 then zero (s && t && m == 0 && n == 0)
    else ofScaled (decide (sum < 0)) sum.natAbs low

/-- The difference. -/
def sub (a b : Binary64) : Binary64 :=
  match b.unpack with
  | .nan => nan
  | _ => add a b.neg

/-- The product. -/
def mul (a b : Binary64) : Binary64 :=
  match a.unpack, b.unpack with
  | .nan, _ | _, .nan => nan
  | .infinite s, .infinite t => infinity (s != t)
  | .infinite s, .finite t n _ => if n == 0 then nan else infinity (s != t)
  | .finite s m _, .infinite t => if m == 0 then nan else infinity (s != t)
  | .finite s m e, .finite t n f => ofScaled (s != t) (m * n) (e + f)

/-- The quotient. -/
def div (a b : Binary64) : Binary64 :=
  match a.unpack, b.unpack with
  | .nan, _ | _, .nan => nan
  | .infinite _, .infinite _ => nan
  | .infinite s, .finite t _ _ => infinity (s != t)
  | .finite s _ _, .infinite t => zero (s != t)
  | .finite s m e, .finite t n f =>
    if n == 0 then
      if m == 0 then nan else infinity (s != t)
    else if e < f then ofRatio (s != t) m (n * Nat.pow 2 (f - e).toNat)
    else ofRatio (s != t) (m * Nat.pow 2 (e - f).toNat) n

/-- The remainder of the division toward zero, with the sign of the dividend. -/
def rem (a b : Binary64) : Binary64 :=
  match a.unpack, b.unpack with
  | .nan, _ | _, .nan => nan
  | .infinite _, _ => nan
  | _, .infinite _ => a
  | .finite s m e, .finite _ n f =>
    if n == 0 then nan
    else
      let low := min e f
      let r := (m * Nat.pow 2 (e - low).toNat) % (n * Nat.pow 2 (f - low).toNat)
      if r == 0 then zero s else ofScaled s r low

/-- The nearest integral value, halves away from zero. -/
def round (x : Binary64) : Binary64 :=
  match x.unpack with
  | .finite s m e =>
    let f := fraction m e
    if f.1 % f.2 == 0 then x else ofRatio s ((2 * f.1 + f.2) / (2 * f.2)) 1
  | _ => x

/-- The power with a natural exponent by repeated squaring, each product rounded. The exponent
is read bit by bit from its lowest; `acc` holds the product so far. -/
def powBits (acc base : Binary64) : Nat → Nat → Binary64
  | 0, _ => acc
  | fuel + 1, n =>
    let acc := if n % 2 == 1 then mul acc base else acc
    if n / 2 == 0 then acc else powBits acc (mul base base) fuel (n / 2)

/-- The power `base ^ n`, rounded at each step. -/
def pow (base : Binary64) (n : Nat) : Binary64 :=
  powBits (ofNat 1) base (n.log2 + 1) n

end Rowtime.Binary64
