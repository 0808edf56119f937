import Rowtime.Relation.Operator

/-!
# Ordering, duplicates and limits

Result rows are kept together with their sort keys. Sorting is stable: rows with
equal keys keep their order. Duplicates are dropped in favour of the first row
of their kind.
-/
namespace Rowtime

open Sql

/-- A result row with its sort keys. -/
structure KeyedRow where
  row : Row
  keys : List Value
deriving DecidableEq

/-- Compares key lists one key after the other, each in its direction. -/
def compareKeys : List SortOrder → List Value → List Value → Ordering
  | o :: os, a :: as, b :: bs =>
    let c := a.sortCompare b
    let c := if o == .desc then c.swap else c
    if c == .eq then compareKeys os as bs else c
  | _, _, _ => .eq

/-- Puts an element into a list that is sorted from the last element to the first, behind all
that come after it. -/
def insertLast (less : α → α → Bool) (x : α) : List α → List α
  | [] => [x]
  | y :: r => if less x y then y :: insertLast less x r else x :: y :: r

/-- The list in order; elements of which neither is less keep their order. -/
def stableSort (less : α → α → Bool) (xs : List α) : List α :=
  (xs.foldl (fun acc x => insertLast less x acc) []).reverse

/-- The rows without those that equal an earlier one. `kept` holds the rows kept so far. -/
def dedupFrom (kept : List KeyedRow) : List KeyedRow → List KeyedRow
  | [] => kept
  | x :: r =>
    if kept.any fun k => Value.sameGroup k.row x.row then dedupFrom kept r
    else dedupFrom (kept ++ [x]) r

/-- The rows without those that equal an earlier one. -/
def dedup (rows : List KeyedRow) : List KeyedRow := dedupFrom [] rows

/-- The rows in the order of their keys. -/
def sortRows (orders : List SortOrder) (rows : List KeyedRow) : List KeyedRow :=
  if orders.isEmpty then rows
  else stableSort (fun a b => compareKeys orders a.keys b.keys == .lt) rows

/-- The rows that the closing clauses leave, in their order. -/
def applyTail (t : Tail) (rows : List KeyedRow) : List Row :=
  let sorted := sortRows (t.orderBy.map (·.order)) rows
  let rest := sorted.drop (t.offset.getD 0).toNat
  let page := match t.limit with
    | some n => rest.take n.toNat
    | none => rest
  page.map (·.row)

end Rowtime
