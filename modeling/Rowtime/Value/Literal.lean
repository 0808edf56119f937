import Rowtime.Json.Reader
import Rowtime.Json.Writer
import Rowtime.Text.Doubled
import Rowtime.Value.Basic

/-!
# Values as literals and as JSON

`literal` is the text of a value inside a statement: numbers with a point when
they are not integers, text between single quotes. `toJson` is the value inside
an output record: integers, double-precision numbers and booleans as such, a JSON
document as the document it denotes, everything else as a string.
-/
namespace Rowtime.Value

open Text

/-- The text of a value in a statement. -/
def literal (v : Value) : String :=
  match v with
  | .null => "NULL"
  | .smallInt _ | .integer _ => v.display
  | .real x => if x.isIntegral then x.exactWhole else x.display
  | .numeric d => if d.scale == 0 then d.display ++ ".0" else d.display
  | .boolean b => if b then "TRUE" else "FALSE"
  | _ => Doubled.quoted '\'' v.display

/-- The value in an output record. -/
def toJson (v : Value) : Json :=
  match v with
  | .null => .null
  | .smallInt i => .number (.whole i.toInt)
  | .integer i => .number (.whole i.toInt)
  | .real x => if x.isFinite then .number (.real x) else .null
  | .boolean b => .bool b
  | .json s => (Json.read? s).getD (.string s)
  | _ => .string v.display

end Rowtime.Value
