import Rowtime.Relation.Basic
import Rowtime.Relation.Pattern
import Rowtime.Value.Compare

/-!
# Operators on values

Truth has three values; numbers other than zero count as true. Comparisons with
NULL give NULL, and so does arithmetic. Concatenation joins the plain texts.
-/
namespace Rowtime

open Sql

namespace Value

/-- The truth of a value, if it is not NULL. -/
def truth (v : Value) : Except Fault (Option Bool) :=
  match v with
  | .null => .ok none
  | .boolean b => .ok (some b)
  | _ =>
    match Number.ofValue? v with
    | some n => .ok (some (n.compare? (.int 0) != some .eq))
    | none => .error (.typeMismatch (.notBoolean v.kind))

/-- The value of a truth, NULL when there is none. -/
def ofTruth : Option Bool → Value
  | some b => .boolean b
  | none => .null

/-- Negation of a truth. -/
def notTruth (t : Option Bool) : Option Bool := t.map fun b => !b

/-- Conjunction of truths: false wins over the unknown. -/
def andTruth : Option Bool → Option Bool → Option Bool
  | some false, _ | _, some false => some false
  | some true, some true => some true
  | _, _ => none

/-- Disjunction of truths: true wins over the unknown. -/
def orTruth : Option Bool → Option Bool → Option Bool
  | some true, _ | _, some true => some true
  | some false, some false => some false
  | _, _ => none

/-- Whether an order satisfies a comparison. -/
def satisfies (op : BinaryOp) (o : Ordering) : Bool :=
  match op with
  | .eq => o == .eq
  | .ne => o != .eq
  | .lt => o == .lt
  | .le => o != .gt
  | .gt => o == .gt
  | _ => o != .lt

/-- The arithmetic operation of an operator, if it is one. -/
def arith? : BinaryOp → Option Arith
  | .plus => some .add
  | .minus => some .sub
  | .times => some .mul
  | .divide => some .div
  | .modulo => some .rem
  | _ => none

/-- Arithmetic on values that are numbers. -/
def arithmetic (op : Arith) (l r : Value) : Except Fault Value :=
  match Number.ofValue? l, Number.ofValue? r with
  | some a, some b => Number.apply op a b
  | _, _ => .error (.typeMismatch (.operands op.symbol l.kind r.kind))

/-- The result of an operator other than AND and OR. -/
def operate (op : BinaryOp) (l r : Value) : Except Fault Value :=
  if op.isComparison then
    match l.compare? r with
    | .error e => .error e
    | .ok o => .ok (ofTruth (o.map (satisfies op)))
  else if l.isNull || r.isNull then .ok .null
  else if op == .concat then .ok (.text (l.display ++ r.display))
  else
    match arith? op with
    | some a => arithmetic a l r
    | none => .error (.unsupported (.operator op.symbol))

/-- A number with the opposite sign; NULL stays NULL. -/
def negate (v : Value) : Except Fault Value :=
  if v.isNull then .ok .null
  else
    match Number.ofValue? v with
    | some n => n.negate
    | none => .error (.typeMismatch (.negate v.kind))

/-- Whether a value has the form of a pattern; spaces at its end do not count. -/
def like (v p : Value) : Bool :=
  Pattern.matchesPattern p.display.toList (Text.trimRight (· == ' ') v.display.toList)

/-- The value without its sign. -/
def absolute (v : Value) : Except Fault Value :=
  match Number.ofValue? v with
  | some n => if n.compare? (.int 0) == some .lt then n.negate else .ok n.toValue
  | none => .error (.typeMismatch (.argument "ABS" v.kind))

/-- The functions of one argument. -/
inductive Function where
  | upper
  | lower
  | length
  | abs
deriving DecidableEq

/-- The function of one argument with an upper-case name. -/
def function? (name : String) : Option Function :=
  if name == "UPPER" then some .upper
  else if name == "LOWER" then some .lower
  else if name == "LENGTH" then some .length
  else if name == "ABS" then some .abs
  else none

/-- The result of a function of one argument; NULL gives NULL. -/
def applyFunction (f : Function) (v : Value) : Except Fault Value :=
  if v.isNull then .ok .null
  else
    match f with
    | .upper => .ok (.text (Text.upper v.display))
    | .lower => .ok (.text (Text.lower v.display))
    | .length => .ok (.integer (Int64.ofNat (Text.unpadded v.display).length))
    | .abs => absolute v

end Value

end Rowtime
