import Rowtime.Relation.Operator

/-!
# Aggregates

An aggregate looks at the values of its argument that are not NULL, in row
order; with DISTINCT only the first of equal ones counts. Sums and averages of
integers and decimals are exact as far as they fit; a sum of nothing is NULL.
-/
namespace Rowtime

open Sql

namespace Value

/-- The values, each only where it occurs first. `seen` holds those kept so far, in order. -/
def distinctFrom (seen : List Value) : List Value → List Value
  | [] => seen
  | v :: r =>
    if seen.any fun u => u.sortCompare v == .eq then distinctFrom seen r
    else distinctFrom (seen ++ [v]) r

/-- The values, each only where it occurs first. -/
def distinct (vs : List Value) : List Value := distinctFrom [] vs

/-- The sum of numbers, going on from `total`. -/
def sumFrom (total : Option Number) : List Value → Except Fault Value
  | [] => .ok (match total with
    | some n => n.toValue
    | none => .null)
  | v :: r =>
    match Number.ofValue? v with
    | none => .error (.typeMismatch (.argument "SUM" v.kind))
    | some n =>
      match total with
      | none => sumFrom (some n) r
      | some t =>
        match Number.apply .add t n with
        | .error e => .error e
        | .ok w =>
          match Number.ofValue? w with
          | some m => sumFrom (some m) r
          | none => .error (.typeMismatch .numericOverflow)

/-- The sum of numbers. -/
def sum (vs : List Value) : Except Fault Value := sumFrom none vs

/-- A decimal divided by a count. -/
def decimalAverage (d : Decimal) (count : Nat) : Except Fault Value :=
  match d.div? (Decimal.ofInt count) with
  | some q => .ok (.numeric q)
  | none => .error (.typeMismatch .numericOverflow)

/-- The average of numbers. -/
def average (vs : List Value) : Except Fault Value :=
  match sum vs with
  | .error e => .error e
  | .ok .null => .ok .null
  | .ok (.real x) => .ok (.real (x.div (Binary64.ofNat vs.length)))
  | .ok (.integer i) => decimalAverage (Decimal.ofInt i.toInt) vs.length
  | .ok (.numeric d) => decimalAverage d vs.length
  | .ok v => .error (.typeMismatch (.argument "AVG" v.kind))

/-- The first value that no other beats in the wanted direction, going on from `best`. -/
def extremeFrom (wanted : Ordering) (best : Option Value) : List Value → Except Fault Value
  | [] => .ok (best.getD .null)
  | v :: r =>
    match best with
    | none => extremeFrom wanted (some v) r
    | some b =>
      match v.compare? b with
      | .error e => .error e
      | .ok o => extremeFrom wanted (if o == some wanted then some v else some b) r

/-- The result of an aggregate over the values of its argument. -/
def aggregate (f : Aggregate) (vs : List Value) : Except Fault Value :=
  match f with
  | .count => .ok (.integer (Int64.ofNat vs.length))
  | .sum => sum vs
  | .avg => average vs
  | .min => extremeFrom .lt none vs
  | .max => extremeFrom .gt none vs

end Value

end Rowtime
