import Rowtime.Binary64.Basic
import Rowtime.Text.Digits

/-!
# Shortest decimal digits

The decimal numbers that round to a given word form an interval, whose ends
belong to it when the fraction of the word is even. `shortest` gives the
fewest digits of a number in that interval, and of those the ones nearest to the
exact value. Every count of digits has two candidates, the neighbours of the
value on the grid of that many digits, so seventeen steps suffice. Where both
candidates are equally near, a parameter decides.
-/
namespace Rowtime.Binary64

/-- What is done when two candidates are equally near. -/
inductive Tie where
  | up
  | toEven
deriving DecidableEq, Repr

/-- A positive decimal number `digits * 10 ^ exp`. -/
structure DecimalDigits where
  digits : Nat
  exp : Int
deriving DecidableEq, Repr

/-- The largest `k` with `10 ^ k ≤ num / den`. -/
def decimalExponent (num den : Nat) : Int :=
  let k : Int := (Text.Digits.count num : Int) - (Text.Digits.count den : Int)
  let holds := if 0 ≤ k then decide (den * Nat.pow 10 k.toNat ≤ num) else decide (den ≤ num * Nat.pow 10 (-k).toNat)
  if holds then k else k - 1

/-- The exact value and the ends of its interval over a common denominator. -/
structure Bounds where
  low : Nat
  value : Nat
  high : Nat
  den : Nat
  closed : Bool

/-- The bounds of `mant * 2 ^ exp`. Just above a power of two the lower neighbour is nearer. -/
def boundsOf (mant : Nat) (exp : Int) : Bounds :=
  let below := if mant == exponentWeight && -1074 < exp then 1 else 2
  let f := fraction 1 (exp - 2)
  { low := (4 * mant - below) * f.1
    value := 4 * mant * f.1
    high := (4 * mant + 2) * f.1
    den := f.2
    closed := mant % 2 == 0 }

/-- Whether `d * 10 ^ k` lies in the interval. -/
def Bounds.contains (b : Bounds) (d : Nat) (k : Int) : Bool :=
  let x := if 0 ≤ k then d * Nat.pow 10 k.toNat * b.den else d * b.den
  let s := if 0 ≤ k then 1 else Nat.pow 10 (-k).toNat
  if b.closed then b.low * s ≤ x && x ≤ b.high * s else b.low * s < x && x < b.high * s

/-- The number on the grid of `10 ^ k` that is in the interval and nearest to the value. -/
def Bounds.candidate? (b : Bounds) (tie : Tie) (k : Int) : Option Nat :=
  let unit := if 0 ≤ k then b.den * Nat.pow 10 k.toNat else b.den
  let v := if 0 ≤ k then b.value else b.value * Nat.pow 10 (-k).toNat
  let d := v / unit
  let r := v % unit
  let upper := match tie with
    | .up => decide (unit ≤ 2 * r)
    | .toEven => decide (unit < 2 * r) || (2 * r == unit && d % 2 == 1)
  match b.contains d k && d != 0, b.contains (d + 1) k with
  | true, true => some (if upper then d + 1 else d)
  | true, false => some d
  | false, true => some (d + 1)
  | false, false => none

/-- Tries grids of growing fineness, from `k` downwards. -/
def Bounds.search (b : Bounds) (tie : Tie) : Nat → Int → DecimalDigits
  | 0, k => ⟨(b.candidate? tie k).getD 0, k⟩
  | n + 1, k =>
    match b.candidate? tie k with
    | some d => ⟨d, k⟩
    | none => b.search tie n (k - 1)

/-- The digits without trailing zeros; the fuel bounds their number. -/
def DecimalDigits.stripped : Nat → DecimalDigits → DecimalDigits
  | 0, x => x
  | n + 1, x =>
    if x.digits != 0 && x.digits % 10 == 0 then stripped n ⟨x.digits / 10, x.exp + 1⟩ else x

/-- The shortest digits of `mant * 2 ^ exp`, where `mant` is not zero. -/
def shortest (tie : Tie) (mant : Nat) (exp : Int) : DecimalDigits :=
  let b := boundsOf mant exp
  (b.search tie 17 (decimalExponent b.value b.den)).stripped 20

end Rowtime.Binary64
