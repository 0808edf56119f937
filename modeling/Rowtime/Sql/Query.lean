import Rowtime.Sql.Expr

/-!
# Queries

A query is a single SELECT, a union of two queries, or a query in parentheses.
The source of a SELECT is a list of items: tables, subqueries, parenthesized
lists and joins. Ordering, limit and offset form the `Tail`, which a SELECT and a
union both have.
-/
namespace Rowtime.Sql

/-- One item of a projection. -/
inductive SelectItem where
  | all
  | allOf (qualifier : String)
  | expr (e : Expr) (name : Option String)

/-- The direction of a sort key. -/
inductive SortOrder where
  | asc
  | desc
deriving DecidableEq

/-- A sort key. -/
structure SortKey where
  expr : Expr
  order : SortOrder

/-- The closing clauses of a SELECT or a union. -/
structure Tail where
  orderBy : List SortKey
  limit : Option UInt64
  offset : Option UInt64

/-- No closing clause. -/
def Tail.empty : Tail := ⟨[], Option.none, Option.none⟩

/-- Whether no closing clause is given. -/
def Tail.isNone (t : Tail) : Bool :=
  t.orderBy.isEmpty && t.limit.isNone && t.offset.isNone

/-- The clauses of a SELECT other than its source and its tail. -/
structure Clauses where
  distinct : Bool
  projection : List SelectItem
  condition : Option Expr
  groupBy : List Expr
  having : Option Expr

/-- The kinds of join. -/
inductive JoinKind where
  | inner
  | left
  | right
  | cross
deriving DecidableEq

mutual

/-- A query. -/
inductive Query where
  | select (source : List FromItem) (clauses : Clauses) (tail : Tail)
  | union (left right : Query) (all : Bool) (tail : Tail)
  | paren (q : Query)

/-- An item of a source. -/
inductive FromItem where
  | table (name : String) (alias? : Option String)
  | subquery (q : Query) (alias? : Option String)
  | paren (items : List FromItem)
  | join (kind : JoinKind) (left right : FromItem) (on : Option Expr)

end

/-- Equality of projection items. -/
def SelectItem.same : SelectItem → SelectItem → Bool
  | .all, .all => true
  | .allOf a, .allOf b => a == b
  | .expr a n, .expr b m => a.same b && n == m
  | _, _ => false

/-- Equality of lists by an equality of their elements. -/
def sameBy (eq : α → α → Bool) (xs ys : List α) : Bool :=
  xs.length == ys.length && (xs.zip ys).all fun p => eq p.1 p.2

/-- Equality of tails. -/
def Tail.same (a b : Tail) : Bool :=
  sameBy (fun x y => x.expr.same y.expr && x.order == y.order) a.orderBy b.orderBy &&
    a.limit == b.limit && a.offset == b.offset

/-- Equality of clauses. -/
def Clauses.same (a b : Clauses) : Bool :=
  a.distinct == b.distinct && sameBy SelectItem.same a.projection b.projection &&
    Expr.sameOption a.condition b.condition && sameBy Expr.same a.groupBy b.groupBy &&
    Expr.sameOption a.having b.having

mutual

/-- Equality of query trees. -/
def Query.same : Query → Query → Bool
  | .select f c t, .select g d u => FromItem.sameList f g && c.same d && t.same u
  | .union a b x t, .union c d y u => a.same c && b.same d && x == y && t.same u
  | .paren a, .paren b => a.same b
  | _, _ => false

/-- Equality of source items. -/
def FromItem.same : FromItem → FromItem → Bool
  | .table a x, .table b y => a == b && x == y
  | .subquery a x, .subquery b y => a.same b && x == y
  | .paren a, .paren b => FromItem.sameList a b
  | .join k a b c, .join l d e f => k == l && a.same d && b.same e && Expr.sameOption c f
  | _, _ => false

/-- Equality of lists of source items. -/
def FromItem.sameList : List FromItem → List FromItem → Bool
  | [], [] => true
  | a :: x, b :: y => a.same b && FromItem.sameList x y
  | _, _ => false

end

end Rowtime.Sql
