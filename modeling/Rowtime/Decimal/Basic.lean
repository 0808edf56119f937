import Rowtime.Binary64.Basic

/-!
# Decimal numbers

A `Decimal` is a sign, a coefficient of at most 96 bits and a scale of at most
28 fractional digits. The scale is kept, so `1.5` and `1.50` are different
decimals of the same value; `sameValue` and `compare` look at the value only.

`fit?` brings an exact number with any coefficient and scale into this range: it
drops as few fractional digits as needed and rounds to the nearest, ties to the
even neighbour.
-/
namespace Rowtime

/-- A decimal number `± coeff / 10 ^ scale`. -/
structure Decimal where
  negative : Bool
  coeff : Nat
  scale : Nat
  coeff_lt : coeff < Nat.pow 2 96
  scale_le : scale ≤ 28
deriving DecidableEq

namespace Decimal

/-- The largest number of fractional digits. -/
def maxScale : Nat := 28

/-- The first coefficient that is too large. -/
def coeffLimit : Nat := Nat.pow 2 96

/-- Zero without fractional digits. -/
def zero : Decimal := ⟨false, 0, 0, by decide, by decide⟩

instance : Inhabited Decimal := ⟨zero⟩

/-- The decimal with the given parts, if they are in range. A zero is given no sign. -/
def ofParts? (neg : Bool) (coeff scale : Nat) : Option Decimal :=
  if hc : coeff < Nat.pow 2 96 then
    if hs : scale ≤ 28 then some ⟨neg && coeff != 0, coeff, scale, hc, hs⟩ else none
  else none

/-- The decimal of a 64-bit integer; integers outside the range of decimals give zero. -/
def ofInt (i : Int) : Decimal :=
  (ofParts? (decide (i < 0)) i.natAbs 0).getD zero

/-- Whether the value is zero. -/
def isZero (d : Decimal) : Bool := d.coeff == 0

/-- Whether the value is whole. -/
def isWhole (d : Decimal) : Bool := d.coeff % Nat.pow 10 d.scale == 0

/-- The number with the opposite sign, also of a zero. -/
def neg (d : Decimal) : Decimal := { d with negative := !d.negative }

/-- The coefficient that the number has with a given scale, with its sign. -/
def atScale (d : Decimal) (s : Nat) : Int :=
  let c : Int := Int.ofNat (d.coeff * Nat.pow 10 (s - d.scale))
  if d.negative then -c else c

/-- The order of the values. -/
def compare (a b : Decimal) : Ordering :=
  let s := max a.scale b.scale
  Ord.compare (a.atScale s) (b.atScale s)

/-- Equality of values, whatever the scales. -/
def sameValue (a b : Decimal) : Bool := a.compare b == .eq

/-- The part before the point, with its sign. -/
def truncate (d : Decimal) : Int :=
  let c : Int := Int.ofNat (d.coeff / Nat.pow 10 d.scale)
  if d.negative then -c else c

/-- A coefficient and its scale without zeros at the end, as far as the scale allows. -/
def dropZeros : Nat → Nat → Nat × Nat
  | 0, n => (n, 0)
  | s + 1, n => if n % 10 == 0 then dropZeros s (n / 10) else (n, s + 1)

/-- How many digits must be dropped for the coefficient and the scale to be in range. The search
stops at `fuel` digits. -/
def excess (num scale : Nat) : Nat → Nat → Nat
  | 0, k => k
  | fuel + 1, k =>
    if num / Nat.pow 10 k < coeffLimit && scale ≤ maxScale + k then k else excess num scale fuel (k + 1)

/-- The decimal nearest to `± num / 10 ^ scale`, ties to even; none if it is too large. -/
def fit? (neg : Bool) (num scale : Nat) : Option Decimal :=
  let k := excess num scale (scale + 1) 0
  if scale < k then none
  else
    let c := Binary64.roundDiv num (Nat.pow 10 k)
    if c == coeffLimit then
      if k == scale then none else ofParts? neg (Binary64.roundDiv c 10) (scale - k - 1)
    else ofParts? neg c (scale - k)

/-- The number with at most `places` fractional digits, ties to even. A number with no more
digits than that stays as it is. -/
def roundTo (d : Decimal) (places : Nat) : Decimal :=
  if d.scale ≤ places then d
  else (ofParts? d.negative (Binary64.roundDiv d.coeff (Nat.pow 10 (d.scale - places))) places).getD zero

end Decimal

end Rowtime
