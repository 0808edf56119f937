/-!
# Binary64 numbers

A `Binary64` is the 64-bit word of a double-precision number: a sign, an
eleven-bit exponent and a 52-bit fraction. `unpack` gives the exact value of a
word, `ofRatio` rounds a quotient of natural numbers to the nearest word with
ties to the even one. Every operation of this folder is exact integer
arithmetic followed by that one rounding, so nothing depends on the machine.
-/
namespace Rowtime

/-- The word of a double-precision number. -/
structure Binary64 where
  bits : UInt64
deriving DecidableEq, Inhabited, Repr

namespace Binary64

/-- What a word denotes: not a number, an infinity, or `mant * 2 ^ exp` with a sign. -/
inductive Unpacked where
  | nan
  | infinite (negative : Bool)
  | finite (negative : Bool) (mant : Nat) (exp : Int)
deriving DecidableEq, Repr

/-- Weight of the sign bit. -/
def signWeight : Nat := Nat.pow 2 63

/-- Weight of the lowest exponent bit. -/
def exponentWeight : Nat := Nat.pow 2 52

/-- The exponent field of infinities and of what is not a number. -/
def topExponent : Nat := 2047

/-- The sign bit. -/
def negative (x : Binary64) : Bool :=
  decide (signWeight ≤ x.bits.toNat)

/-- The word without its sign. -/
def magnitude (x : Binary64) : Nat :=
  x.bits.toNat % signWeight

/-- The word with the given sign and magnitude. -/
def ofParts (neg : Bool) (mag : Nat) : Binary64 :=
  ⟨UInt64.ofNat ((if neg then signWeight else 0) + mag)⟩

/-- The exact value of a word. -/
def unpack (x : Binary64) : Unpacked :=
  let e := x.magnitude / exponentWeight
  let f := x.magnitude % exponentWeight
  if e == topExponent then
    if f == 0 then .infinite x.negative else .nan
  else if e == 0 then .finite x.negative f (-1074)
  else .finite x.negative (exponentWeight + f) ((e : Int) - 1075)

/-- The zero of the given sign. -/
def zero (neg : Bool) : Binary64 := ofParts neg 0

/-- The infinity of the given sign. -/
def infinity (neg : Bool) : Binary64 := ofParts neg (topExponent * exponentWeight)

/-- The word used for results that are not a number. -/
def nan : Binary64 := ofParts false (topExponent * exponentWeight + Nat.pow 2 51)

/-- The quotient rounded to the nearest natural number, ties to the even one. -/
def roundDiv (num den : Nat) : Nat :=
  let q := num / den
  let r := num % den
  if den < 2 * r || (2 * r == den && q % 2 == 1) then q + 1 else q

/-- `n / d` scaled by `2 ^ -e` as a fraction. -/
def scaled (n d : Nat) (e : Int) : Nat × Nat :=
  if 0 ≤ e then (n, d * Nat.pow 2 e.toNat) else (n * Nat.pow 2 (-e).toNat, d)

/-- The exponent of the lowest bit kept when `n / d` is rounded to 53 bits. -/
def unitExponent (n d : Nat) : Int :=
  let e := (n.log2 : Int) - (d.log2 : Int) - 52
  let s := scaled n d e
  let e := if s.1 / s.2 < Nat.pow 2 52 then e - 1 else e
  max e (-1074)

/-- The word nearest to `n / d` with the given sign, ties to the even one; a value too large
becomes an infinity. -/
def ofRatio (neg : Bool) (n d : Nat) : Binary64 :=
  if n == 0 then zero neg
  else
    let e := unitExponent n d
    let s := scaled n d e
    let mag := (e + 1074).toNat * exponentWeight + roundDiv s.1 s.2
    if topExponent * exponentWeight ≤ mag then infinity neg else ofParts neg mag

/-- The word nearest to an integer. -/
def ofInt (i : Int) : Binary64 :=
  ofRatio (decide (i < 0)) i.natAbs 1

/-- The word nearest to a natural number. -/
def ofNat (n : Nat) : Binary64 :=
  ofRatio false n 1

/-- The word nearest to `± mant * 2 ^ exp`. -/
def ofScaled (neg : Bool) (mant : Nat) (exp : Int) : Binary64 :=
  if 0 ≤ exp then ofRatio neg (mant * Nat.pow 2 exp.toNat) 1
  else ofRatio neg mant (Nat.pow 2 (-exp).toNat)

/-- Neither an infinity nor outside the numbers. -/
def isFinite (x : Binary64) : Bool :=
  match x.unpack with
  | .finite .. => true
  | _ => false

/-- One of the words that are not a number. -/
def isNaN (x : Binary64) : Bool :=
  match x.unpack with
  | .nan => true
  | _ => false

/-- The exact magnitude of a finite value as a fraction. -/
def fraction (mant : Nat) (exp : Int) : Nat × Nat :=
  if 0 ≤ exp then (mant * Nat.pow 2 exp.toNat, 1) else (mant, Nat.pow 2 (-exp).toNat)

/-- A finite value without fractional part. -/
def isIntegral (x : Binary64) : Bool :=
  match x.unpack with
  | .finite _ m e =>
    let f := fraction m e
    f.1 % f.2 == 0
  | _ => false

/-- The integer part of a finite value, toward zero; zero for every other word. -/
def truncate (x : Binary64) : Int :=
  match x.unpack with
  | .finite neg m e =>
    let f := fraction m e
    let q : Int := Int.ofNat (f.1 / f.2)
    if neg then -q else q
  | _ => 0

end Binary64

end Rowtime
