import Rowtime.Binary64.Text
import Rowtime.Calendar.Timestamp
import Rowtime.Decimal.Text
import Rowtime.Text.Hex
import Rowtime.Uuid

/-!
# Values

A `Value` is NULL or a datum of one of thirteen kinds. Fixed-length text keeps
its padding, a JSON document is kept as its text, a moment with zone is kept in
universal time. `display` is the plain text of a value.
-/
namespace Rowtime

/-- A value of a column or an expression. -/
inductive Value where
  | null
  | smallInt (i : Int16)
  | integer (i : Int64)
  | real (x : Binary64)
  | numeric (d : Decimal)
  | text (s : String)
  | char (s : String)
  | boolean (b : Bool)
  | date (d : Date)
  | timestamp (t : Timestamp)
  | timestampTz (t : Timestamp)
  | uuid (u : Uuid)
  | json (s : String)
  | bytea (bs : List UInt8)
deriving DecidableEq, Inhabited

/-- A row is its values in column order. -/
abbrev Row := List Value

/-- The 64-bit integer equal to `i`, if there is one. -/
def toInt64? (i : Int) : Option Int64 :=
  if -9223372036854775808 ≤ i ∧ i ≤ 9223372036854775807 then some (Int64.ofInt i) else none

/-- The 16-bit integer equal to `i`, if there is one. -/
def toInt16? (i : Int) : Option Int16 :=
  if -32768 ≤ i ∧ i ≤ 32767 then some (Int16.ofInt i) else none

namespace Value

open Text

/-- Whether the value is NULL. -/
def isNull : Value → Bool
  | .null => true
  | _ => false

/-- The name of the kind of a value. -/
def kind : Value → String
  | .null => "null"
  | .smallInt _ => "smallint"
  | .integer _ => "integer"
  | .real _ => "real"
  | .numeric _ => "numeric"
  | .text _ => "text"
  | .char _ => "char"
  | .boolean _ => "boolean"
  | .date _ => "date"
  | .timestamp _ => "timestamp"
  | .timestampTz _ => "timestamptz"
  | .uuid _ => "uuid"
  | .json _ => "json"
  | .bytea _ => "bytea"

/-- The plain text of a value. -/
def display : Value → String
  | .null => "NULL"
  | .smallInt i => Digits.intText i.toInt
  | .integer i => Digits.intText i.toInt
  | .real x => x.display
  | .numeric d => d.display
  | .text s => s
  | .char s => s
  | .boolean b => if b then "true" else "false"
  | .date d => d.display
  | .timestamp t => t.display
  | .timestampTz t => t.displayUtc
  | .uuid u => u.display
  | .json s => s
  | .bytea bs => String.ofList ('\\' :: 'x' :: Hex.encode bs)

/-- The integer of an integer kind. -/
def asInt : Value → Option Int64
  | .integer i => some i
  | .smallInt i => some i.toInt64
  | _ => none

/-- The string of a text kind. -/
def asText : Value → Option String
  | .text s => some s
  | .char s => some s
  | _ => none

/-- The truth value of a boolean. -/
def asBool : Value → Option Bool
  | .boolean b => some b
  | _ => none

/-- Reads a 64-bit integer between blanks. -/
def readInt64? (s : String) : Option Int64 :=
  (Digits.readBounded? (-9223372036854775808) 9223372036854775807 (trim s.toList)).map Int64.ofInt

/-- The 64-bit integer nearest to an integer. -/
def clampInt64 (i : Int) : Int64 :=
  Int64.ofInt (max (-9223372036854775808) (min i 9223372036854775807))

/-- The 64-bit integer that a value stands for: an integer, a whole number, or the text of an
integer. A whole double-precision number out of range gives the nearest bound. -/
def toInt64? : Value → Option Int64
  | .smallInt i => some i.toInt64
  | .integer i => some i
  | .numeric d => if d.isWhole then Rowtime.toInt64? d.truncate else none
  | .real x => if x.isIntegral then some (clampInt64 x.truncate) else none
  | .text s => readInt64? s
  | .char s => readInt64? s
  | _ => none

end Value

end Rowtime
