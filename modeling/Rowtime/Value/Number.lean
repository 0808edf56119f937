import Rowtime.Binary64.Order
import Rowtime.Decimal.Arithmetic
import Rowtime.Decimal.OfBinary64
import Rowtime.Fault
import Rowtime.Value.Basic

/-!
# Numbers in expressions

The numeric view of a value. Two numbers meet in the narrower class that holds
both: integers with integers, decimals with integers and decimals, and
double-precision numbers with everything. Integer and decimal results that do
not fit are faults; double-precision results never are.
-/
namespace Rowtime

/-- A number in one of the three classes. -/
inductive Number where
  | int (i : Int64)
  | dec (d : Decimal)
  | real (x : Binary64)
deriving DecidableEq

/-- An arithmetic operation. -/
inductive Arith where
  | add
  | sub
  | mul
  | div
  | rem
deriving DecidableEq

/-- The sign that an operation is written with. -/
def Arith.symbol : Arith → Char
  | .add => '+'
  | .sub => '-'
  | .mul => '*'
  | .div => '/'
  | .rem => '%'

namespace Number

/-- The numeric view of a value. -/
def ofValue? : Value → Option Number
  | .smallInt i => some (.int i.toInt64)
  | .integer i => some (.int i)
  | .numeric d => some (.dec d)
  | .real x => some (.real x)
  | _ => none

/-- The value of a number. -/
def toValue : Number → Value
  | .int i => .integer i
  | .dec d => .numeric d
  | .real x => .real x

/-- The double-precision number for a number. -/
def toBinary64 : Number → Binary64
  | .int i => Binary64.ofInt i.toInt
  | .dec d => d.toBinary64
  | .real x => x

/-- The decimal for a number, if there is one. -/
def toDecimal? : Number → Option Decimal
  | .int i => some (Decimal.ofInt i.toInt)
  | .dec d => some d
  | .real x => Decimal.ofBinary64? x

/-- Compares two numbers in the class where they meet. -/
def compare? (a b : Number) : Option Ordering :=
  match a, b with
  | .int i, .int j => some (Ord.compare i.toInt j.toInt)
  | .real _, _ | _, .real _ => a.toBinary64.compare? b.toBinary64
  | .int i, .dec e => some ((Decimal.ofInt i.toInt).compare e)
  | .dec d, .int j => some (d.compare (Decimal.ofInt j.toInt))
  | .dec d, .dec e => some (d.compare e)

/-- Whether a number is a zero of its class. -/
def isZero (a : Number) : Bool := a.toBinary64.sameValue (Binary64.zero false)

/-- The exact integer result. -/
def intResult (op : Arith) (a b : Int) : Int :=
  match op with
  | .add => a + b
  | .sub => a - b
  | .mul => a * b
  | .div => a.tdiv b
  | .rem => a.tmod b

/-- The integer result, if the quotient and it fit 64 bits. -/
def intApply? (op : Arith) (a b : Int) : Option Int64 :=
  match op with
  | .rem => (toInt64? (a.tdiv b)).bind fun _ => toInt64? (a.tmod b)
  | _ => toInt64? (intResult op a b)

/-- The decimal result, if there is one. -/
def decimalApply? (op : Arith) (a b : Decimal) : Option Decimal :=
  match op with
  | .add => a.add? b
  | .sub => a.sub? b
  | .mul => a.mul? b
  | .div => a.div? b
  | .rem => a.rem? b

/-- The double-precision result. -/
def realApply (op : Arith) (a b : Binary64) : Binary64 :=
  match op with
  | .add => a.add b
  | .sub => a.sub b
  | .mul => a.mul b
  | .div => a.div b
  | .rem => a.rem b

/-- Whether an operation divides. -/
def divides : Arith → Bool
  | .div | .rem => true
  | _ => false

/-- Applies an operation in the class where the operands meet. -/
def apply (op : Arith) (a b : Number) : Except Fault Value :=
  if divides op && b.isZero then .error (.typeMismatch .divisionByZero)
  else
    match a, b with
    | .int i, .int j =>
      match intApply? op i.toInt j.toInt with
      | some k => .ok (.integer k)
      | none => .error (.typeMismatch (.integerOverflow i.toInt op.symbol j.toInt))
    | .real _, _ | _, .real _ => .ok (.real (realApply op a.toBinary64 b.toBinary64))
    | _, _ =>
      match a.toDecimal?, b.toDecimal? with
      | some d, some e =>
        match decimalApply? op d e with
        | some r => .ok (.numeric r)
        | none => .error (.typeMismatch .numericOverflow)
      | _, _ => .error (.typeMismatch .numericOverflow)

/-- The number with the opposite sign, as the difference from the integer zero. -/
def negate (a : Number) : Except Fault Value := apply .sub (.int 0) a

end Number

end Rowtime
