import Rowtime.Sql.Query

/-!
# Statements

What a client can send: a query, the definition or removal of a table, rows for
a table, or the question for the tables.
-/
namespace Rowtime.Sql

/-- A column as it is declared in a statement. -/
structure ColumnDef where
  name : String
  type : SqlType
  nullable : Bool
  primaryKey : Bool
  unique : Bool
  defaultValue : Option Value

/-- A statement. -/
inductive Statement where
  | createTable (name : String) (columns : List ColumnDef) (ifNotExists : Bool)
  | dropTable (name : String) (ifExists : Bool)
  | insert (table : String) (columns : Option (List String)) (rows : List Row)
  | showTables
  | query (q : Query)

/-- Equality of declared columns. -/
def ColumnDef.same (a b : ColumnDef) : Bool :=
  a.name == b.name && a.type == b.type && a.nullable == b.nullable &&
    a.primaryKey == b.primaryKey && a.unique == b.unique &&
    (match a.defaultValue, b.defaultValue with
    | none, none => true
    | some v, some w => v.same w
    | _, _ => false)

/-- Equality of statement trees. -/
def Statement.same : Statement → Statement → Bool
  | .createTable n c x, .createTable m d y => n == m && sameBy ColumnDef.same c d && x == y
  | .dropTable n x, .dropTable m y => n == m && x == y
  | .insert n c r, .insert m d s => n == m && c == d && sameBy (sameBy Value.same) r s
  | .showTables, .showTables => true
  | .query a, .query b => a.same b
  | _, _ => false

end Rowtime.Sql
