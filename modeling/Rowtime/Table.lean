import Rowtime.Text.Case
import Rowtime.Value.Compare

/-!
# Tables

A table is append-only and ordered by its row time: one column named `rowtime`
holds a positive 64-bit integer that grows from row to row, and `maxRowtime` is
the last of them, zero while there are no rows. `Table.create` adds the column
when it is not declared and otherwise checks the declaration; `Table.insert`
checks a complete row and appends it.
-/
namespace Rowtime

open Text

/-- Name of the column that carries the order of insertion. -/
def rowtimeName : String := "rowtime"

/-- A column with its declared type and constraints. -/
structure Column where
  name : String
  type : SqlType
  nullable : Bool
  primaryKey : Bool
  unique : Bool
  defaultValue : Option Value
deriving DecidableEq, Inhabited

/-- Whether this is the row time column. -/
def Column.isRowtime (c : Column) : Bool := sameName c.name rowtimeName

/-- The row time column of tables that do not declare one. -/
def Column.rowtime : Column := ⟨rowtimeName, .bigInt, false, true, true, none⟩

/-- An append-only table. -/
structure Table where
  name : String
  columns : List Column
  rows : List Row
  rowtimeIndex : Nat
  maxRowtime : Int64
deriving DecidableEq, Inhabited

namespace Table

/-- The fault of a declared row time column, if it has one. -/
def rowtimeFault? (c : Column) : Option RowtimeFault :=
  if !c.type.isInt64 then some (.notBigInt c.type)
  else if c.nullable then some .nullable
  else if c.defaultValue.isSome then some .hasDefault
  else none

/-- The columns with their row time column as primary key, and its position. -/
def withRowtime (columns : List Column) : Except Fault (List Column × Nat) :=
  match columns.findIdx? Column.isRowtime with
  | none => .ok (Column.rowtime :: columns, 0)
  | some i =>
    match columns[i]? with
    | none => .ok (columns, i)
    | some c =>
      match rowtimeFault? c with
      | some why => .error (.invalidRowtime why)
      | none => .ok (columns.set i { c with primaryKey := true, unique := true }, i)

/-- The first name that occurred before, `seen` holding the earlier ones. -/
def repeatedName? (seen : List String) : List Column → Option String
  | [] => none
  | c :: r =>
    if seen.any fun s => sameName s c.name then some c.name else repeatedName? (c.name :: seen) r

/-- An empty table with the given columns. -/
def create (name : String) (columns : List Column) : Except Fault Table :=
  match withRowtime columns with
  | .error e => .error e
  | .ok (cs, i) =>
    match cs.find? fun c => c.primaryKey && !c.isRowtime with
    | some pk => .error (.invalidRowtime (.otherPrimaryKey pk.name))
    | none =>
      match repeatedName? [] cs with
      | some n => .error (.badSyntax (.repeatedColumn n))
      | none => .ok ⟨name, cs, [], i, 0⟩

/-- The fault of a value for the column at position `i`, given the rows stored so far. -/
def columnFault? (rows : List Row) (i : Nat) (c : Column) (v : Value) : Option Fault :=
  if v.isNull then if c.nullable then none else some (.notNull c.name)
  else if c.unique && !c.isRowtime && rows.any fun r => (r[i]?.map (Value.same · v)).getD false then
    some (.unique c.name v.display)
  else none

/-- The first fault among the columns from position `i` on. -/
def rowFault? (rows : List Row) : Nat → List Column → Row → Option Fault
  | i, c :: cs, v :: vs =>
    match columnFault? rows i c v with
    | some e => some e
    | none => rowFault? rows (i + 1) cs vs
  | _, _, _ => none

/-- The row time of a row: a positive integer above the maximum so far. -/
def rowtimeOf (t : Table) (row : Row) : Except Fault Int64 :=
  let v := row[t.rowtimeIndex]?.getD .null
  match v with
  | .integer i =>
    if i.toInt ≤ 0 then .error (.invalidRowtime (.notPositive v.display))
    else if i.toInt ≤ t.maxRowtime.toInt then
      .error (.invalidRowtime (.notAbove i.toInt t.maxRowtime.toInt))
    else .ok i
  | _ => .error (.invalidRowtime (.notPositive v.display))

/-- The table with one complete row more. -/
def insert (t : Table) (row : Row) : Except Fault Table :=
  if row.length ≠ t.columns.length then .error (.columnCount t.columns.length row.length)
  else
    match rowFault? t.rows 0 t.columns row with
    | some e => .error e
    | none =>
      match t.rowtimeOf row with
      | .error e => .error e
      | .ok i => .ok { t with rows := t.rows ++ [row], maxRowtime := i }

/-- The row time for a row inserted at a clock reading: the reading, or one more than the maximum
when the clock is not beyond it. -/
def nextRowtime (t : Table) (now : Int64) : Int64 :=
  Value.clampInt64 (max now.toInt (t.maxRowtime.toInt + 1))

/-- The position of a column. -/
def columnIndex? (t : Table) (name : String) : Option Nat :=
  t.columns.findIdx? fun c => sameName c.name name

end Table

end Rowtime
