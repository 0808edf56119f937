import Rowtime.Relation.Query

/-!
# The tables that a query reads

A `TableRef` is one occurrence of a table in the source of a query, with the
alias it has there. Occurrences are equal when names and aliases agree without
regard to ASCII case. `Query.tables` lists the occurrences of a whole query,
subqueries and the branches of unions included; `scopeTables` lists those that
a single SELECT sees in its own source. An equal occurrence is listed once, and
the one-row table is not listed.
-/
namespace Rowtime

open Text Sql

/-- An occurrence of a table. -/
structure TableRef where
  name : String
  alias? : Option String
deriving DecidableEq, Inhabited

namespace TableRef

/-- Equality of occurrences. -/
def same (a b : TableRef) : Bool :=
  sameName a.name b.name &&
    match a.alias?, b.alias? with
    | some x, some y => sameName x y
    | none, none => true
    | _, _ => false

/-- The name that qualifies the columns of the occurrence. -/
def qualifier (t : TableRef) : String := t.alias?.getD t.name

/-- The text of an occurrence in a source. -/
def display (t : TableRef) : String :=
  match t.alias? with
  | none => nameText t.name
  | some a => nameText t.name ++ " AS " ++ nameText a

/-- Whether the one-row table is meant. -/
def isDual (t : TableRef) : Bool := sameName t.name dualName

/-- Whether an equal occurrence is in a list. -/
def isIn (t : TableRef) (ts : List TableRef) : Bool := ts.any fun u => u.same t

/-- The occurrences without the one-row table and without those that equal an earlier one; `kept`
holds the ones before. -/
def distinctFrom (kept : List TableRef) : List TableRef → List TableRef
  | [] => kept
  | t :: r => if t.isDual || t.isIn kept then distinctFrom kept r else distinctFrom (kept ++ [t]) r

/-- The occurrences without the one-row table and without repetitions. -/
def distinct (ts : List TableRef) : List TableRef := distinctFrom [] ts

end TableRef

namespace Sql

mutual

/-- All occurrences in a query, in the order of the text. -/
def Query.occurrences : Query → List TableRef
  | .select source _ _ => FromItem.occurrencesList source
  | .union l r _ _ => l.occurrences ++ r.occurrences
  | .paren q => q.occurrences

/-- All occurrences in a source item. -/
def FromItem.occurrences : FromItem → List TableRef
  | .table name a => [⟨name, a⟩]
  | .subquery q _ => q.occurrences
  | .paren items => FromItem.occurrencesList items
  | .join _ l r _ => l.occurrences ++ r.occurrences

/-- All occurrences in a list of source items. -/
def FromItem.occurrencesList : List FromItem → List TableRef
  | [] => []
  | x :: r => x.occurrences ++ FromItem.occurrencesList r

end

mutual

/-- The occurrences in a source item outside its subqueries. -/
def FromItem.scope : FromItem → List TableRef
  | .table name a => [⟨name, a⟩]
  | .subquery _ _ => []
  | .paren items => FromItem.scopeList items
  | .join _ l r _ => l.scope ++ r.scope

/-- The occurrences in a list of source items outside their subqueries. -/
def FromItem.scopeList : List FromItem → List TableRef
  | [] => []
  | x :: r => x.scope ++ FromItem.scopeList r

end

/-- The tables that a query reads. -/
def Query.tables (q : Query) : List TableRef := TableRef.distinct q.occurrences

/-- The tables that a SELECT with the given source sees in it. -/
def scopeTables (source : List FromItem) : List TableRef :=
  TableRef.distinct (FromItem.scopeList source)

end Sql

end Rowtime
