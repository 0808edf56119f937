import Rowtime.Binary64.Arithmetic
import Rowtime.Decimal.Basic

/-!
# Decimals and binary64 numbers

`toBinary64` adds the rounded whole and fractional parts and rounds the sum to
the scale. `ofBinary64?` replaces the powers of two of the word by powers of
ten, halving where a factor five no longer fits, then cuts the result to the
range of decimals and to the digits that a double-precision number guarantees.
-/
namespace Rowtime.Decimal

/-- The double-precision number for a decimal. -/
def toBinary64 (d : Decimal) : Binary64 :=
  if d.scale == 0 then Binary64.ofInt d.truncate
  else
    let unit := Nat.pow 10 d.scale
    let whole := Binary64.ofNat (d.coeff / unit)
    let part := (Binary64.ofNat (d.coeff % unit)).div (Binary64.ofNat unit)
    let value :=
      if d.coeff % unit == 0 then whole
      else
        let ten := (Binary64.ofNat 10).pow d.scale
        (((whole.add part).mul ten).round).div ten
    if d.negative then value.neg else value

/-- Removes `k` factors two from `n * 10 ^ e / 2 ^ k`: halves an even number, else multiplies by
five, else halves with loss. -/
def halve : Nat → Nat → Int → Nat × Int
  | 0, n, e => (n, e)
  | k + 1, n, e =>
    if n % 2 == 0 then halve k (n / 2) (e + 1)
    else if 5 * n < coeffLimit then halve k (5 * n) e
    else halve k (n / 2) (e + 1)

/-- Puts `k` factors two into `n * 10 ^ e * 2 ^ k`: doubles while there is room, else divides by
five with loss. -/
def double : Nat → Nat → Int → Nat × Int
  | 0, n, e => (n, e)
  | k + 1, n, e => if n < Nat.pow 2 95 then double k (2 * n) (e - 1) else double k (n / 5) e

/-- Multiplies by ten until the exponent is zero; none when the coefficient leaves its range. -/
def raise? : Nat → Nat → Option Nat
  | 0, n => some n
  | k + 1, n => if 10 * n < coeffLimit then raise? k (10 * n) else none

/-- Drops `k` digits one by one, rounding each half upward; nothing is left when the number
becomes zero. -/
def lower : Nat → Nat → Nat × Bool
  | 0, n => (n, true)
  | k + 1, n =>
    if n / 10 == 0 then (0, false)
    else lower k (if 5 ≤ n % 10 then n / 10 + 1 else n / 10)

/-- Drops digits while more than 53 bits are used. -/
def guarantee : Nat → Nat → Nat × Nat
  | 0, n => (n, 0)
  | s + 1, n =>
    if Nat.pow 2 52 ≤ n then guarantee s (if 5 ≤ n % 10 then n / 10 + 1 else n / 10) else (n, s + 1)

/-- Zero with a sign. -/
def signedZero (neg : Bool) : Decimal := { zero with negative := neg }

/-- The decimal for a double-precision number; none for infinities, for what is not a number and
for values out of range. -/
def ofBinary64? (x : Binary64) : Option Decimal :=
  match x.unpack with
  | .finite neg m e =>
    if m == 0 then some (signedZero neg)
    else
      let r := if e < 0 then halve (-e).toNat m e else double e.toNat m e
      let cut : Option (Nat × Nat) :=
        if 0 < r.2 then (raise? r.2.toNat r.1).map (·, 0)
        else
          let s := (-r.2).toNat
          let c := lower (s - maxScale) r.1
          some (c.1, if c.2 then min s maxScale else 0)
      cut.bind fun c =>
        let g := guarantee c.2 c.1
        let z := dropZeros g.2 g.1
        if z.1 == 0 then some (signedZero neg) else ofParts? neg z.1 z.2
  | _ => none

end Rowtime.Decimal
