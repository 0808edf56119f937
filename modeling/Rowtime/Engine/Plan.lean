import Rowtime.Engine.Insert
import Rowtime.Log.Operation
import Rowtime.Relation.Query
import Rowtime.Sql.Statement

/-!
# What a statement does

A statement is decided on the tables that an engine sees: it is answered at
once, or it is answered after operations have been recorded. `Statement.plan`
makes that decision and records nothing itself, so a statement that is refused
leaves no trace.
-/
namespace Rowtime

open Sql Log

/-- The short report on a statement. -/
inductive Tag where
  | createTable
  | dropTable
  | insert (rows : Nat)
  | select (rows : Nat)
deriving DecidableEq

/-- The text of a report. -/
def Tag.text : Tag → String
  | .createTable => "CREATE TABLE"
  | .dropTable => "DROP TABLE"
  | .insert n => "INSERT 0 " ++ Text.Digits.text n
  | .select n => "SELECT " ++ Text.Digits.text n

/-- The result of a statement: column names, rows and a report. -/
structure Outcome where
  columns : List String
  rows : List Row
  tag : Tag
deriving DecidableEq

/-- A result without rows. -/
def Outcome.command (tag : Tag) : Outcome := ⟨[], [], tag⟩

/-- A relation as a result. -/
def Outcome.ofRelation (r : Relation) : Outcome := ⟨r.columnNames, r.rows, .select r.rows.length⟩

/-- What is to be done for a statement. -/
inductive Plan where
  | answer (o : Outcome)
  | record (ops : List Operation) (o : Outcome)

/-- A declared column with its default cast to its type. -/
def Sql.ColumnDef.column (d : ColumnDef) : Except Fault Column :=
  match d.defaultValue with
  | none => .ok ⟨d.name, d.type, d.nullable, d.primaryKey, d.unique, none⟩
  | some v =>
    match v.cast d.type with
    | .error e => .error e
    | .ok w => .ok ⟨d.name, d.type, d.nullable, d.primaryKey, d.unique, some w⟩

/-- The tables of a catalog, one name in each row. -/
def Catalog.listing (db : Catalog) : Relation :=
  ⟨[⟨none, "table_name"⟩], db.tables.map fun t => [.text t.name]⟩

/-- Decides about the definition of a table. -/
def planCreate (db : Catalog) (name : String) (defs : List ColumnDef) (ifNotExists : Bool) :
    Except Fault Plan :=
  match db.get? name with
  | some _ =>
    if ifNotExists then .ok (.answer (.command .createTable)) else .error (.tableExists name)
  | none => do
    let columns ← collect ColumnDef.column defs
    let t ← Table.create name columns
    return .record [.create name t] (.command .createTable)

/-- Decides about the removal of a table. -/
def planDrop (db : Catalog) (name : String) (ifExists : Bool) : Except Fault Plan :=
  match db.get? name with
  | none => if ifExists then .ok (.answer (.command .dropTable)) else .error (.tableNotFound name)
  | some _ => .ok (.record [.drop name] (.command .dropTable))

/-- Decides about rows for a table; the time is that of the clock in nanoseconds. -/
def planInsert (now : Int64) (db : Catalog) (name : String) (names : Option (List String))
    (tuples : List Row) : Except Fault Plan := do
  let t ← db.table name
  let rows ← t.prepare now names tuples
  return .record (rows.map (Operation.insert t.name)) (.command (.insert rows.length))

/-- Decides about a statement on the tables of a catalog. -/
def Sql.Statement.plan (now : Int64) (db : Catalog) : Statement → Except Fault Plan
  | .createTable name defs ifNotExists => planCreate db name defs ifNotExists
  | .dropTable name ifExists => planDrop db name ifExists
  | .insert name names tuples => planInsert now db name names tuples
  | .showTables => .ok (.answer (.ofRelation db.listing))
  | .query q => do
    let r ← q.run db
    return .answer (.ofRelation r)

end Rowtime
