import Rowtime.Catalog

/-!
# Operations

What the log records: a table is created, a table is removed, a row is appended.
A database is the result of applying the operations of its log in order to the
empty catalog. An operation that does not fit is passed over; this happens when
several writers work on one log.
-/
namespace Rowtime.Log

/-- A recorded change of the database. -/
inductive Operation where
  | create (name : String) (table : Table)
  | drop (name : String)
  | insert (name : String) (row : Row)
deriving DecidableEq

/-- A recorded change with its number and the time of its writing in seconds. -/
structure Entry where
  sequence : UInt64
  timestamp : UInt64
  operation : Operation
deriving DecidableEq

/-- The catalog after one operation. A table that exists already is not created again, and a
table that is missing need not be dropped. -/
def Operation.apply (db : Catalog) : Operation → Except Fault Catalog
  | .create name t =>
    match db.get? name with
    | some _ => .ok db
    | none => db.create t
  | .drop name =>
    match db.drop name with
    | .ok db' => .ok db'
    | .error _ => .ok db
  | .insert name row =>
    match db.get? name with
    | none => .error (.tableNotFound name)
    | some t =>
      match t.insert row with
      | .ok t' => .ok (db.set name t')
      | .error e => .error e

/-- The catalog after one operation, which is passed over if it does not fit. -/
def Operation.applyOrSkip (db : Catalog) (op : Operation) : Catalog :=
  match op.apply db with
  | .ok db' => db'
  | .error _ => db

/-- The catalog after a list of operations. -/
def replay (db : Catalog) (ops : List Operation) : Catalog :=
  ops.foldl Operation.applyOrSkip db

/-- How many operations of a list fit, each on the result of those before it. -/
def countApplied (db : Catalog) : List Operation → Nat
  | [] => 0
  | op :: r =>
    match op.apply db with
    | .ok db' => countApplied db' r + 1
    | .error _ => countApplied db r

end Rowtime.Log
