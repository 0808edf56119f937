import Rowtime.Table
import Rowtime.Value.Cast

/-!
# Rows for a table

An INSERT names columns and gives tuples of values for them. Without names the
columns of the table are meant in their order, and a tuple that is one value
short leaves out the row time. `Table.fill` lays a tuple out in table order: a
column that is not named has its default, a row time that is missing or NULL is
generated, and every value is cast to the type of its column.

`Table.prepare` does this for all tuples, each checked against the table with
the rows before it, so that nothing is recorded unless every row fits.
-/
namespace Rowtime.Table

/-- The positions of named columns; each may be named once. -/
def positionsOf (t : Table) (seen : List Nat) : List String → Except Fault (List Nat)
  | [] => .ok []
  | name :: r =>
    match t.columnIndex? name with
    | none => .error (.columnNotFound name)
    | some i =>
      if seen.contains i then .error (.badSyntax (.repeatedColumn name))
      else (positionsOf t (i :: seen) r).map (i :: ·)

/-- The positions of all columns. -/
def allPositions (t : Table) : List Nat := List.range t.columns.length

/-- The positions that the values of a tuple are meant for. -/
def targets (t : Table) (named : Option (List Nat)) (values : Row) : List Nat :=
  match named with
  | some is => is
  | none =>
    if values.length + 1 = t.columns.length then t.allPositions.filter fun i => i ≠ t.rowtimeIndex
    else t.allPositions

/-- The value that a tuple gives for a position. -/
def given? (targets : List Nat) (values : Row) (i : Nat) : Option Value :=
  ((targets.zip values).find? fun p => p.1 = i).map (·.2)

/-- The value for a column before it is cast: what is given, else a generated row time or the
default of the column. -/
def valueFor (t : Table) (now : Int64) (i : Nat) (c : Column) (given : Option Value) : Value :=
  if i = t.rowtimeIndex then
    match given with
    | none | some .null => .integer (t.nextRowtime now)
    | some v => v
  else given.getD (c.defaultValue.getD .null)

/-- The values for the columns from position `i` on. -/
def fillFrom (t : Table) (now : Int64) (given : Nat → Option Value) :
    Nat → List Column → Except Fault Row
  | _, [] => .ok []
  | i, c :: cs =>
    match (t.valueFor now i c (given i)).cast c.type with
    | .error e => .error e
    | .ok v => (fillFrom t now given (i + 1) cs).map (v :: ·)

/-- A tuple as a complete row of the table. -/
def fill (t : Table) (now : Int64) (named : Option (List Nat)) (values : Row) : Except Fault Row :=
  let is := t.targets named values
  if values.length ≠ is.length then .error (.columnCount is.length values.length)
  else t.fillFrom now (given? is values) 0 t.columns

/-- The complete rows of a list of tuples, each filled and checked on the table with the rows
before it. -/
def fillAll (t : Table) (now : Int64) (named : Option (List Nat)) :
    List Row → Except Fault (List Row)
  | [] => .ok []
  | values :: rest =>
    match t.fill now named values with
    | .error e => .error e
    | .ok row =>
      match t.insert row with
      | .error e => .error e
      | .ok t' => (fillAll t' now named rest).map (row :: ·)

/-- The rows that an INSERT adds to a table. -/
def prepare (t : Table) (now : Int64) (names : Option (List String)) (tuples : List Row) :
    Except Fault (List Row) :=
  match names with
  | none => t.fillAll now none tuples
  | some ns =>
    match t.positionsOf [] ns with
    | .error e => .error e
    | .ok is => t.fillAll now (some is) tuples

end Rowtime.Table
