import Rowtime.Catalog
import Rowtime.Relation.Eval
import Rowtime.Relation.Order

/-!
# Running queries

A SELECT is run in this order: source, condition, grouping, projection,
duplicates, order, page. A query is grouped when it says so, when it has a
condition on groups, or when an aggregate occurs in its projection or order; a
grouped query without keys has one group, even without rows. Output columns
carry no qualifier.
-/
namespace Rowtime

open Text Sql

/-- Name of the one-row table that is there unless a table has its name. -/
def dualName : String := "dual"

namespace Relation

/-- The rows of a table under a qualifier. -/
def ofTable (qualifier : String) (t : Table) : Relation :=
  ⟨t.columns.map fun c => ⟨some qualifier, c.name⟩, t.rows⟩

/-- The table with a name as a relation. -/
def fromTable (db : Catalog) (name : String) (alias? : Option String) : Except Fault Relation :=
  match db.get? name with
  | some t => .ok (ofTable (alias?.getD name) t)
  | none => if sameName name dualName then .ok unit else .error (.tableNotFound name)

/-- Whether a pair of rows satisfies the condition of a join. -/
def joins (columns : List Binding) (on : Option Expr) (l r : Row) : Except Fault Bool :=
  match on with
  | none => .ok true
  | some c => c.holds (.ofRow columns (l ++ r))

/-- The results of a test that succeed, in order. -/
def filterM (test : α → Except Fault Bool) : List α → Except Fault (List α)
  | [] => .ok []
  | a :: r => do
    let b ← test a
    let rest ← filterM test r
    return if b then a :: rest else rest

/-- The joined rows of one row of the left side. Without a match a left join fills up with
NULLs. -/
def joinRow (columns : List Binding) (on : Option Expr) (kind : JoinKind) (width : Nat)
    (right : List Row) (l : Row) : Except Fault (List Row) := do
  let found ← filterM (fun r => joins columns on l r) right
  if found.isEmpty && kind == .left then return [l ++ List.replicate width .null]
  return found.map fun r => l ++ r

/-- The joined rows of one row of the right side of a right join. -/
def joinRowRight (columns : List Binding) (on : Option Expr) (width : Nat) (left : List Row)
    (r : Row) : Except Fault (List Row) := do
  let found ← filterM (fun l => joins columns on l r) left
  if found.isEmpty then return [List.replicate width .null ++ r]
  return found.map fun l => l ++ r

/-- The join of two relations. -/
def join (kind : JoinKind) (on : Option Expr) (a b : Relation) : Except Fault Relation := do
  let columns := a.columns ++ b.columns
  let rows ←
    if kind == .right then collect (joinRowRight columns on a.columns.length a.rows) b.rows
    else collect (joinRow columns on kind b.columns.length b.rows) a.rows
  return ⟨columns, rows.flatten⟩

/-- The name of a projected expression without a name of its own. -/
def derivedName : Expr → String
  | .column c => c.name
  | .call name _ => lower name
  | .aggregate f _ _ | .aggregateAll f _ => lower f.name
  | _ => "?column?"

/-- The output columns of one item of a projection. -/
def itemColumns (source : List Binding) : SelectItem → Except Fault (List Binding)
  | .all => .ok (source.map fun b => ⟨none, b.name⟩)
  | .allOf q =>
    match source.filter fun b => b.hasQualifier q with
    | [] => .error (.tableNotFound q)
    | bs => .ok (bs.map fun b => ⟨none, b.name⟩)
  | .expr e name => .ok [⟨none, name.getD (derivedName e)⟩]

/-- The output columns of a projection. -/
def outputColumns (items : List SelectItem) (source : List Binding) :
    Except Fault (List Binding) := do
  let parts ← collect (itemColumns source) items
  return parts.flatten

/-- The output values of one item of a projection. -/
def itemValues (ctx : Context) : SelectItem → Except Fault Row
  | .all => .ok ctx.row
  | .allOf q => .ok (((ctx.columns.zip ctx.row).filter fun p => p.1.hasQualifier q).map (·.2))
  | .expr e _ => do
    let v ← e.eval ctx
    return [v]

/-- The output row of a projection. -/
def project (items : List SelectItem) (ctx : Context) : Except Fault Row := do
  let parts ← collect (itemValues ctx) items
  return parts.flatten

/-- The output position that a sort key names by number. -/
def positional? (e : Expr) (width : Nat) : Except Fault (Option Nat) :=
  match e with
  | .literal (.integer n) =>
    if 1 ≤ n.toInt ∧ n.toInt ≤ width then .ok (some (n.toInt.toNat - 1))
    else .error (.positionNotFound n.toInt)
  | _ => .ok none

/-- The output position that a sort key names by the name of one output column. -/
def outputPosition? (e : Expr) (output : List Binding) : Option Nat :=
  match e with
  | .column ⟨none, name⟩ =>
    match positionsFrom ⟨none, name⟩ 0 output with
    | [i] => some i
    | _ => none
  | _ => none

/-- The value of a sort key of a SELECT: an output value by position or name, else an expression
over the source row. -/
def sortKeyValue (output : List Binding) (projected : Row) (ctx : Context) (k : SortKey) :
    Except Fault Value := do
  match ← positional? k.expr output.length with
  | some i => return projected[i]?.getD .null
  | none =>
    match outputPosition? k.expr output with
    | some i => return projected[i]?.getD .null
    | none => k.expr.eval ctx

/-- The value of a sort key of a union: an output value by position, else an expression over the
output row. -/
def unionKeyValue (output : List Binding) (row : Row) (k : SortKey) : Except Fault Value := do
  match ← positional? k.expr output.length with
  | some i => return row[i]?.getD .null
  | none => k.expr.eval (.ofRow output row)

/-- Whether a SELECT works on groups. -/
def isGrouped (c : Clauses) (t : Tail) : Bool :=
  !c.groupBy.isEmpty || c.having.isSome ||
    (c.projection.any fun i => match i with
      | .expr e _ => e.hasAggregate
      | _ => false) ||
    t.orderBy.any fun k => k.expr.hasAggregate

/-- The rows with their group key. -/
def groupKey (columns : List Binding) (keys : List Expr) (row : Row) : Except Fault (Row × Row) := do
  let key ← collect (fun e => e.eval (.ofRow columns row)) keys
  return (key, row)

/-- The groups with one row more: it joins the first group with its key or starts a new one. -/
def addToGroup (key row : Row) : List (Row × List Row) → List (Row × List Row)
  | [] => [(key, [row])]
  | (k, members) :: r =>
    if Value.sameGroup k key then (k, members ++ [row]) :: r
    else (k, members) :: addToGroup key row r

/-- The groups of a relation in the order in which their keys occur first. -/
def groupRows (keys : List Expr) (source : Relation) : Except Fault (List (List Row)) :=
  if keys.isEmpty then .ok [source.rows]
  else do
    let keyed ← collect (groupKey source.columns keys) source.rows
    let groups := keyed.foldl (fun acc p => addToGroup p.1 p.2 acc) []
    return groups.map (·.2)

/-- The context of a group: its first row, or a row of NULLs, stands for it. -/
def groupContext (columns : List Binding) (group : List Row) : Context :=
  ⟨columns, group.head?.getD (List.replicate columns.length .null), some group⟩

/-- The output row of a context with its sort keys. -/
def outputRow (c : Clauses) (t : Tail) (output : List Binding) (ctx : Context) :
    Except Fault KeyedRow := do
  let projected ← project c.projection ctx
  let keys ← collect (sortKeyValue output projected ctx) t.orderBy
  return ⟨projected, keys⟩

/-- The output row of a group, if the group passes the condition on groups. -/
def groupOutput (c : Clauses) (t : Tail) (output columns : List Binding) (group : List Row) :
    Except Fault (List KeyedRow) := do
  let ctx := groupContext columns group
  let passes ← match c.having with
    | some h => h.holds ctx
    | none => .ok true
  if !passes then return []
  let x ← outputRow c t output ctx
  return [x]

/-- The rows that satisfy an optional condition. -/
def filtered (condition : Option Expr) (source : Relation) : Except Fault Relation :=
  match condition with
  | none => .ok source
  | some w => do
    let rows ← filterM (fun row => w.holds (.ofRow source.columns row)) source.rows
    return ⟨source.columns, rows⟩

/-- The result of a SELECT over its source. -/
def select (c : Clauses) (t : Tail) (source : Relation) : Except Fault Relation := do
  let source ← filtered c.condition source
  let output ← outputColumns c.projection source.columns
  let rows ←
    if isGrouped c t then do
      let groups ← groupRows c.groupBy source
      let parts ← collect (groupOutput c t output source.columns) groups
      pure parts.flatten
    else collect (fun row => outputRow c t output (.ofRow source.columns row)) source.rows
  return ⟨output, applyTail t (if c.distinct then dedup rows else rows)⟩

/-- The union of two results; the first one names the columns. -/
def union (all : Bool) (t : Tail) (a b : Relation) : Except Fault Relation :=
  if a.columns.length ≠ b.columns.length then
    .error (.columnCount a.columns.length b.columns.length)
  else do
    let output := a.columns.map fun c => (⟨none, c.name⟩ : Binding)
    let rows ← collect (fun row => do
      let keys ← collect (unionKeyValue output row) t.orderBy
      return (⟨row, keys⟩ : KeyedRow)) (a.rows ++ b.rows)
    return ⟨output, applyTail t (if all then rows else dedup rows)⟩

end Relation

namespace Sql

mutual

/-- The result of a query on the tables of a catalog. -/
def Query.run (db : Catalog) : Query → Except Fault Relation
  | .select source c t => do
    let s ← FromItem.runList db .unit source
    s.select c t
  | .union l r all t => do
    let a ← Query.run db l
    let b ← Query.run db r
    Relation.union all t a b
  | .paren q => Query.run db q

/-- The rows of a source item. -/
def FromItem.run (db : Catalog) : FromItem → Except Fault Relation
  | .table name a => Relation.fromTable db name a
  | .subquery q a => do
    let r ← Query.run db q
    return r.qualified a
  | .paren items => FromItem.runList db .unit items
  | .join k l r on => do
    let a ← FromItem.run db l
    let b ← FromItem.run db r
    Relation.join k on a b

/-- The rows of a list of source items, each combined with all before it. -/
def FromItem.runList (db : Catalog) (acc : Relation) : List FromItem → Except Fault Relation
  | [] => .ok acc
  | x :: r => do
    let b ← FromItem.run db x
    FromItem.runList db (acc.cross b) r

end

end Sql

end Rowtime
