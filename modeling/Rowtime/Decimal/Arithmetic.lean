import Rowtime.Decimal.Basic

/-!
# Arithmetic of decimals

Each operation is exact where the result fits, and rounded by `fit?` where it
does not; `none` means that the result is too large. Zero operands follow their
own rules: a sum with a zero is the other operand as it is, a product with a zero
or a quotient of zero is the plain zero.
-/
namespace Rowtime.Decimal

/-- The sum, with the larger of the two scales. -/
def add? (a b : Decimal) : Option Decimal :=
  if a.isZero then some b
  else if b.isZero then some a
  else
    let s := max a.scale b.scale
    let sum := a.atScale s + b.atScale s
    fit? (decide (sum < 0)) sum.natAbs s

/-- The difference. -/
def sub? (a b : Decimal) : Option Decimal :=
  if a.isZero then some (if b.isZero then b else b.neg)
  else if b.isZero then some a
  else add? a b.neg

/-- The product, whose scale is the sum of the scales. Two coefficients of 32 bits whose product
lies far below the smallest decimal give the plain zero. -/
def mul? (a b : Decimal) : Option Decimal :=
  if a.isZero || b.isZero then some zero
  else
    let s := a.scale + b.scale
    if a.coeff < Nat.pow 2 32 && b.coeff < Nat.pow 2 32 && 47 < s then some zero
    else fit? (a.negative != b.negative) (a.coeff * b.coeff) s

/-- The largest number of digits, up to nine, that a coefficient of the given scale can take on. -/
def roomFor (coeff : Nat) (scale : Int) : Nat :=
  ([9, 8, 7, 6, 5, 4, 3, 2, 1].find? fun x : Nat =>
    scale + x ≤ maxScale && coeff * Nat.pow 10 x < coeffLimit).getD 0

/-- A coefficient that has become too large, with one digit less, rounded half to even; `sticky`
tells that more digits followed. -/
def shed (coeff : Nat) (scale : Int) (sticky : Bool) : Option (Nat × Int) :=
  if scale ≤ 0 then none
  else
    let q := coeff / 10
    let up := 5 < coeff % 10 || (coeff % 10 == 5 && (sticky || q % 2 == 1))
    some (if up then q + 1 else q, scale - 1)

/-- The end of a division that has no room for more digits: rounded half to even. -/
def closeQuotient (den q r : Nat) (scale : Int) : Option (Nat × Int) :=
  if den < 2 * r || (den == 2 * r && q % 2 == 1) then
    if q + 1 == coeffLimit then shed (q + 1) scale true else some (q + 1, scale)
  else some (q, scale)

/-- Goes on with a division by `den` that has the quotient `q` and the remainder `r`: as many
digits at a time as there is room for, until nothing remains or there is no room. -/
def divideFrom (den : Nat) : Nat → Nat → Nat → Int → Option (Nat × Int)
  | 0, q, _, scale => some (q, scale)
  | fuel + 1, q, r, scale =>
    if r == 0 && 0 ≤ scale then some (q, scale)
    else
      let x := if r == 0 then min 9 (-scale).toNat else roomFor q scale
      if x == 0 then if 0 ≤ scale then closeQuotient den q r scale else none
      else if r != 0 && scale + x < 0 then none
      else
        let q' := q * Nat.pow 10 x
        if coeffLimit ≤ q' then none
        else
          let q'' := q' + r * Nat.pow 10 x / den
          let r' := r * Nat.pow 10 x % den
          if coeffLimit ≤ q'' then shed q'' (scale + x) (r' != 0)
          else divideFrom den fuel q'' r' (scale + x)

/-- One attempt to drop `k` trailing zeros. -/
def dropGroup (k : Nat) (x : Nat × Nat) : Nat × Nat :=
  if k ≤ x.2 && x.1 % Nat.pow 10 k == 0 then (x.1 / Nat.pow 10 k, x.2 - k) else x

/-- Drops trailing zeros: eight at a time while the lowest 32 bits are zero, then four, two and
one. -/
def trimZeros : Nat → Nat × Nat → Nat × Nat
  | 0, x => x
  | fuel + 1, x =>
    if x.1 % Nat.pow 2 32 == 0 && 8 ≤ x.2 && x.1 % Nat.pow 10 8 == 0 then
      trimZeros fuel (x.1 / Nat.pow 10 8, x.2 - 8)
    else dropGroup 1 (dropGroup 2 (dropGroup 4 x))

/-- The quotient. When the coefficients divide, the scale is the difference of the scales. Else
digits are added in groups of up to nine until nothing remains or no more fit, and up to seven
zeros at the end are dropped again. -/
def div? (a b : Decimal) : Option Decimal :=
  if b.isZero then none
  else if a.isZero then some zero
  else
    let scale : Int := (a.scale : Int) - b.scale
    let r := a.coeff % b.coeff
    match divideFrom b.coeff 64 (a.coeff / b.coeff) r scale with
    | none => none
    | some (q, s) =>
      let x := if r == 0 then (q, s.toNat) else trimZeros 4 (q, s.toNat)
      ofParts? (a.negative != b.negative) x.1 x.2

/-- The remainder of the division toward zero, with the sign of the dividend. A dividend smaller
than the divisor is its own remainder. -/
def rem? (a b : Decimal) : Option Decimal :=
  if b.isZero then none
  else if a.isZero then some zero
  else
    let s := max a.scale b.scale
    let x := (a.atScale s).natAbs
    let y := (b.atScale s).natAbs
    if x == y then some zero
    else if x < y then some a
    else ofParts? a.negative (x % y) s

end Rowtime.Decimal
