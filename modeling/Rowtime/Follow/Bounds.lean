import Rowtime.Follow.Marks

/-!
# Queries within bounds

A query is bounded by marks: every SELECT in it sees of the tables in its own
source only the rows up to their marks. When one table advances, its rows also
have to lie above its former mark. The bounds are conditions on the row time in
front of the condition that is there, the lower bound first, so that a row out
of bounds is refused before the old condition is looked at.

A branch of a union that does not read the advancing table has nothing new to
offer while another branch does, and is emptied.
-/
namespace Rowtime

open Sql

/-- The table that advances and its former mark. -/
structure Advance where
  table : TableRef
  former : Int64
deriving DecidableEq, Inhabited

/-- The row time of an occurrence compared with a mark. -/
def TableRef.bound (t : TableRef) (op : BinaryOp) (mark : Int64) : Expr :=
  .binary op (.column ⟨some t.qualifier, rowtimeName⟩) (.literal (.integer mark))

/-- The conjunction of conditions from left to right. -/
def conjunction : List Expr → Option Expr
  | [] => none
  | e :: r => some (r.foldl Expr.and e)

/-- The lower bound of the advancing table, if it has a mark. -/
def Marks.lower (s : Marks) : Option Advance → List Expr
  | none => []
  | some a => if (s.get? a.table).isSome then [a.table.bound .gt a.former] else []

/-- The upper bounds, one for each mark. -/
def Marks.uppers (s : Marks) : List Expr := s.entries.map fun e => e.1.bound .le e.2

/-- A condition behind the bounds. -/
def Marks.bound (s : Marks) (a : Option Advance) (condition : Option Expr) : Option Expr :=
  conjunction (s.lower a ++ s.uppers ++ condition.toList)

/-- The condition that nothing satisfies, behind another one. -/
def never : Option Expr → Expr
  | none => .literal (.boolean false)
  | some e => e.and (.literal (.boolean false))

namespace Sql

/-- The query with every SELECT emptied that is not inside a source. -/
def Query.emptied : Query → Query
  | .select source c t => .select source { c with condition := some (never c.condition) } t
  | .union l r all t => .union l.emptied r.emptied all t
  | .paren q => .paren q.emptied

/-- Whether a query reads an occurrence. -/
def Query.reads (q : Query) (t : TableRef) : Bool := t.isIn q.tables

/-- Whether a branch of a union is to be emptied. -/
def isIdle (a : Option Advance) (union branch : Query) : Bool :=
  match a with
  | none => false
  | some x => union.reads x.table && !branch.reads x.table

mutual

/-- The query within bounds. -/
def Query.bounded (s : Marks) (a : Option Advance) : Query → Query
  | .select source c t =>
    .select (FromItem.boundedList s a source)
      { c with condition := (s.restrict (scopeTables source)).bound a c.condition } t
  | .union l r all t =>
    let l' := Query.bounded s a l
    let r' := Query.bounded s a r
    .union (if isIdle a (.union l r all t) l then l'.emptied else l')
      (if isIdle a (.union l r all t) r then r'.emptied else r') all t
  | .paren q => .paren (Query.bounded s a q)

/-- The source item with its subqueries within bounds. -/
def FromItem.bounded (s : Marks) (a : Option Advance) : FromItem → FromItem
  | .table name al => .table name al
  | .subquery q al => .subquery (Query.bounded s a q) al
  | .paren items => .paren (FromItem.boundedList s a items)
  | .join k l r on => .join k (FromItem.bounded s a l) (FromItem.bounded s a r) on

/-- The source items with their subqueries within bounds. -/
def FromItem.boundedList (s : Marks) (a : Option Advance) : List FromItem → List FromItem
  | [] => []
  | x :: r => FromItem.bounded s a x :: FromItem.boundedList s a r

end

end Sql

end Rowtime
