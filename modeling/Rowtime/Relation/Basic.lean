import Rowtime.Sql.Printer

/-!
# Relations

A relation is a list of named columns and rows of as many values. A column name
may carry the qualifier of the source it comes from. References to columns are
resolved without regard to ASCII case and must fit exactly one column.
-/
namespace Rowtime

open Text Sql

/-- A column that is visible in a scope. -/
structure Binding where
  qualifier : Option String
  name : String
deriving DecidableEq, Inhabited

/-- Whether a column carries a qualifier. -/
def Binding.hasQualifier (b : Binding) (q : String) : Bool :=
  match b.qualifier with
  | some own => sameName own q
  | none => false

/-- Whether a reference fits a column. -/
def Binding.fits (b : Binding) (c : ColumnRef) : Bool :=
  sameName b.name c.name &&
    match c.qualifier with
    | none => true
    | some q => b.hasQualifier q

/-- The positions of the columns that a reference fits, counted from `i`. -/
def positionsFrom (c : ColumnRef) : Nat → List Binding → List Nat
  | _, [] => []
  | i, b :: r => if b.fits c then i :: positionsFrom c (i + 1) r else positionsFrom c (i + 1) r

/-- The position of the only column that a reference fits. -/
def resolve (bs : List Binding) (c : ColumnRef) : Except Fault Nat :=
  match positionsFrom c 0 bs with
  | [] => .error (.columnNotFound c.display)
  | [i] => .ok i
  | _ => .error (.ambiguousColumn c.display)

/-- Named columns and rows. -/
structure Relation where
  columns : List Binding
  rows : List Row
deriving DecidableEq, Inhabited

namespace Relation

/-- One row without columns: the source of a query that names none. -/
def unit : Relation := ⟨[], [[]]⟩

/-- The names of the columns. -/
def columnNames (r : Relation) : List String := r.columns.map (·.name)

/-- Every row of the first with every row of the second, the first varying slowest. -/
def cross (a b : Relation) : Relation :=
  ⟨a.columns ++ b.columns, a.rows.flatMap fun l => b.rows.map fun r => l ++ r⟩

/-- The columns under one qualifier, or under none. -/
def qualified (q : Option String) (r : Relation) : Relation :=
  ⟨r.columns.map fun b => ⟨q, b.name⟩, r.rows⟩

end Relation

end Rowtime
