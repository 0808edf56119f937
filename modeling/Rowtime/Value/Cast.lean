import Rowtime.Json.Reader
import Rowtime.Text.Case
import Rowtime.Value.Number

/-!
# Casting values to column types

A value is cast in two steps. A text given to a type with a numeric storage
class is first read as a number of that class (`Value.read`); then the declared
type takes what it understands (`Value.fit`). NULL stays NULL. Text types take
every value through its plain text.
-/
namespace Rowtime.Value

open Text

/-- The fault of a value that a type does not take. -/
def cannotStore (v : Value) (t : SqlType) : Fault :=
  .typeMismatch (.store v.kind v.display t)

/-- What was read, or the fault of the text. -/
def orCannotStore (t : SqlType) (s : String) : Option Value → Except Fault Value
  | some v => .ok v
  | none => .error (cannotStore (.text s) t)

/-- Reads a text as a number when the storage class of the type is a numeric one; booleans are
read later. -/
def read (t : SqlType) (v : Value) : Except Fault Value :=
  match v with
  | .text s =>
    match t.affinity with
    | .integer =>
      if t = .boolean then .ok v else orCannotStore t s ((readInt64? s).map .integer)
    | .real => orCannotStore t s ((Binary64.read? (trim s.toList)).map .real)
    | .numeric => orCannotStore t s ((Decimal.read? (trim s.toList)).map .numeric)
    | _ => .ok v
  | _ => .ok v

/-- The words for the truth values. -/
def truthWord? (s : String) : Option Bool :=
  let w := asciiLowerText s
  if w == "true" || w == "t" || w == "yes" then some true
  else if w == "false" || w == "f" || w == "no" then some false
  else none

/-- The truth value that a value stands for. -/
def toBool? (v : Value) : Option Bool :=
  match v with
  | .boolean b => some b
  | _ =>
    match v.toInt64? with
    | some i =>
      if i == 0 then some false
      else if i == 1 then some true
      else none
    | none => v.asText.bind truthWord?

/-- The plain text of a value as text types store it. -/
def storedText : Value → String
  | .text s | .char s => s
  | v => v.display

/-- The text padded with spaces to a width. -/
def padTo (n : Nat) (s : String) : String :=
  String.ofList (s.toList ++ List.replicate (n - s.length) ' ')

/-- The bytes that a text stands for: hexadecimal digits behind `\x`, else its encoding. -/
def toBytes? (s : String) : Option (List UInt8) :=
  match s.toList with
  | '\\' :: 'x' :: r => Hex.decode? r
  | _ => some s.toUTF8.toList

/-- Fits a value other than NULL into a declared type. -/
def fit (t : SqlType) (v : Value) : Except Fault Value :=
  let refused : Except Fault Value := .error (cannotStore v t)
  match t with
  | .smallInt =>
    match v.toInt64?.bind fun i => toInt16? i.toInt with
    | some i => .ok (.smallInt i)
    | none => refused
  | .integer | .bigInt =>
    match v.toInt64? with
    | some i => .ok (.integer i)
    | none => refused
  | .real =>
    match Number.ofValue? v with
    | some n => .ok (.real n.toBinary64)
    | none => refused
  | .numeric _ s =>
    match (Number.ofValue? v).bind Number.toDecimal? with
    | some d => .ok (.numeric (d.roundTo s.toNat))
    | none => refused
  | .boolean =>
    match toBool? v with
    | some b => .ok (.boolean b)
    | none => refused
  | .text => .ok (.text (storedText v))
  | .varchar n =>
    let s := storedText v
    if n.toNat < s.length then .error (.typeMismatch (.tooLong t s)) else .ok (.text s)
  | .char n =>
    let s := storedText v
    if n.toNat < s.length then .error (.typeMismatch (.tooLong t s))
    else .ok (.char (padTo n.toNat s))
  | .date =>
    match v with
    | .date _ => .ok v
    | .text s => orCannotStore t s ((Date.read? (trim s.toList)).map .date)
    | _ => refused
  | .timestamp =>
    match v with
    | .timestamp _ => .ok v
    | .text s => orCannotStore t s ((Timestamp.read? s.toList).map .timestamp)
    | _ => refused
  | .timestampTz =>
    match v with
    | .timestampTz _ => .ok v
    | .text s => orCannotStore t s ((Timestamp.readUtc? s.toList).map .timestampTz)
    | _ => refused
  | .uuid =>
    match v with
    | .uuid _ => .ok v
    | .text s => orCannotStore t s ((Uuid.read? (trim s.toList)).map .uuid)
    | _ => refused
  | .json =>
    match v with
    | .json _ => .ok v
    | .text s => if (Json.read? s).isSome then .ok (.json s) else .error .invalidJson
    | _ => refused
  | .bytea =>
    match v with
    | .bytea _ => .ok v
    | .text s => orCannotStore t s ((toBytes? s).map .bytea)
    | _ => refused

/-- The value as a column of the type stores it. -/
def cast (v : Value) (t : SqlType) : Except Fault Value :=
  if v.isNull then .ok .null
  else
    match read t v with
    | .ok w => fit t w
    | .error e => .error e

end Rowtime.Value
