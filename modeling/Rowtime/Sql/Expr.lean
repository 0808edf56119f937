import Rowtime.Value.Compare

/-!
# Expressions

The tree of a condition or a projected expression. A column may carry a
qualifier, a call keeps its name in upper case, and an aggregate without
argument stands for the count of all rows.
-/
namespace Rowtime.Sql

open Text

/-- A reference to a column. -/
structure ColumnRef where
  qualifier : Option String
  name : String
deriving DecidableEq, Inhabited

/-- The operators with one operand. -/
inductive UnaryOp where
  | not
  | minus
deriving DecidableEq

/-- The operators with two operands. -/
inductive BinaryOp where
  | or
  | and
  | eq
  | ne
  | lt
  | le
  | gt
  | ge
  | plus
  | minus
  | times
  | divide
  | modulo
  | concat
deriving DecidableEq

/-- The aggregate functions. -/
inductive Aggregate where
  | count
  | sum
  | avg
  | min
  | max
deriving DecidableEq

/-- An expression. -/
inductive Expr where
  | column (c : ColumnRef)
  | literal (v : Value)
  | unary (op : UnaryOp) (e : Expr)
  | binary (op : BinaryOp) (l r : Expr)
  | isNull (negated : Bool) (e : Expr)
  | between (negated : Bool) (e low high : Expr)
  | inList (negated : Bool) (e : Expr) (items : List Expr)
  | like (negated : Bool) (e pattern : Expr)
  | call (name : String) (args : List Expr)
  | aggregate (f : Aggregate) (distinct : Bool) (arg : Expr)
  | aggregateAll (f : Aggregate) (distinct : Bool)

instance : Inhabited Expr := ⟨.literal .null⟩

/-- The sign or word of an operator. -/
def BinaryOp.symbol : BinaryOp → String
  | .or => "OR"
  | .and => "AND"
  | .eq => "="
  | .ne => "<>"
  | .lt => "<"
  | .le => "<="
  | .gt => ">"
  | .ge => ">="
  | .plus => "+"
  | .minus => "-"
  | .times => "*"
  | .divide => "/"
  | .modulo => "%"
  | .concat => "||"

/-- The operators that compare. -/
def BinaryOp.isComparison : BinaryOp → Bool
  | .eq | .ne | .lt | .le | .gt | .ge => true
  | _ => false

/-- The name of an aggregate function. -/
def Aggregate.name : Aggregate → String
  | .count => "COUNT"
  | .sum => "SUM"
  | .avg => "AVG"
  | .min => "MIN"
  | .max => "MAX"

/-- The aggregate functions in the order in which names are looked up. -/
def Aggregate.all : List Aggregate := [.count, .sum, .avg, .min, .max]

/-- The aggregate function with a name, in any case. -/
def Aggregate.ofName? (name : String) : Option Aggregate :=
  Aggregate.all.find? fun f => sameName f.name name

namespace Expr

/-- The conjunction of two conditions. -/
def and (l r : Expr) : Expr := .binary .and l r

mutual

/-- Whether an aggregate occurs in the expression. -/
def hasAggregate : Expr → Bool
  | .column _ | .literal _ => false
  | .unary _ e | .isNull _ e => e.hasAggregate
  | .binary _ l r => l.hasAggregate || r.hasAggregate
  | .between _ e l h => e.hasAggregate || l.hasAggregate || h.hasAggregate
  | .inList _ e items => e.hasAggregate || anyAggregate items
  | .like _ e p => e.hasAggregate || p.hasAggregate
  | .call _ args => anyAggregate args
  | .aggregate .. | .aggregateAll .. => true

/-- Whether an aggregate occurs in one of the expressions. -/
def anyAggregate : List Expr → Bool
  | [] => false
  | e :: r => e.hasAggregate || anyAggregate r

end

mutual

/-- Equality of trees, literals being compared by kind and content. -/
def same : Expr → Expr → Bool
  | .column a, .column b => a == b
  | .literal a, .literal b => a.same b
  | .unary o a, .unary p b => o == p && a.same b
  | .binary o a b, .binary p c d => o == p && a.same c && b.same d
  | .isNull n a, .isNull m b => n == m && a.same b
  | .between n a b c, .between m d e f => n == m && a.same d && b.same e && c.same f
  | .inList n a xs, .inList m b ys => n == m && a.same b && sameList xs ys
  | .like n a b, .like m c d => n == m && a.same c && b.same d
  | .call f xs, .call g ys => f == g && sameList xs ys
  | .aggregate f d a, .aggregate g e b => f == g && d == e && a.same b
  | .aggregateAll f d, .aggregateAll g e => f == g && d == e
  | _, _ => false

/-- Equality of lists of trees. -/
def sameList : List Expr → List Expr → Bool
  | [], [] => true
  | a :: x, b :: y => a.same b && sameList x y
  | _, _ => false

end

/-- Equality of optional trees. -/
def sameOption : Option Expr → Option Expr → Bool
  | none, none => true
  | some a, some b => a.same b
  | _, _ => false

end Expr

end Rowtime.Sql
