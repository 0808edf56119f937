import Rowtime.Proofs.Names
import Rowtime.Proofs.Results

/-!
# Queries over sources

A `Source` gives every occurrence of a table its own rows. `Query.runOn` runs a
query over a source; run over the tables of a catalog it is `Query.run`. The
result depends on the occurrences in the query only, and every row of it has a
value for each column when this is so in the source.
-/
namespace Rowtime

open Text Sql

/-- Where the occurrences of tables find their rows. -/
abbrev Source := TableRef → Option Table

/-- The tables of a catalog. -/
def Catalog.source (db : Catalog) : Source := fun t => db.get? t.name

/-- Every row has a value for each column. -/
def Table.Rectangular (t : Table) : Prop := ∀ row ∈ t.rows, row.length = t.columns.length

/-- Every table of the source has rows as wide as its columns. -/
def Source.Rectangular (src : Source) : Prop := ∀ t table, src t = some table → table.Rectangular

namespace Relation

/-- The joined rows of two relations, part by part. -/
def joinParts (kind : JoinKind) (on : Option Expr) (a b : Relation) :
    Except Fault (List (List Row)) :=
  if kind == .right then
    collect (joinRowRight (a.columns ++ b.columns) on a.columns.length a.rows) b.rows
  else collect (joinRow (a.columns ++ b.columns) on kind b.columns.length b.rows) a.rows

theorem join_eq (kind : JoinKind) (on : Option Expr) (a b : Relation) :
    join kind on a b = (joinParts kind on a b >>= fun parts =>
      .ok ⟨a.columns ++ b.columns, parts.flatten⟩) := by
  unfold join joinParts
  split <;> rfl

@[simp] theorem unit_cross (r : Relation) : unit.cross r = r := by
  simp [unit, cross]

/-- The output rows of a SELECT over the rows that satisfy its condition. -/
def keyedRows (c : Clauses) (t : Tail) (output : List Binding) (kept : Relation) :
    Except Fault (List KeyedRow) :=
  if isGrouped c t then
    groupRows c.groupBy kept >>= fun groups =>
      collect (groupOutput c t output kept.columns) groups >>= fun parts => .ok parts.flatten
  else collect (fun row => outputRow c t output (.ofRow kept.columns row)) kept.rows

/-- A SELECT behind its condition. -/
def selectKept (c : Clauses) (t : Tail) (kept : Relation) : Except Fault Relation :=
  outputColumns c.projection kept.columns >>= fun output =>
    keyedRows c t output kept >>= fun rows =>
      .ok ⟨output, applyTail t (if c.distinct then dedup rows else rows)⟩

theorem select_eq (c : Clauses) (t : Tail) (source : Relation) :
    select c t source = (filtered c.condition source >>= selectKept c t) := by
  unfold select selectKept keyedRows
  congr 1
  funext kept
  congr 1
  funext output
  by_cases hg : isGrouped c t = true
  · simp only [if_pos hg, bind_assoc]
    rfl
  · simp only [if_neg hg]
    rfl

theorem groupOutput_eq (c : Clauses) (t : Tail) (output columns : List Binding) (group : List Row) :
    groupOutput c t output columns group =
      ((match c.having with
        | some h => h.holds (groupContext columns group)
        | none => .ok true) >>= fun pass =>
        if pass then outputRow c t output (groupContext columns group) >>= fun x => .ok [x]
        else .ok []) := by
  unfold groupOutput
  cases c.having with
  | none => rfl
  | some h =>
      simp only
      congr 1
      funext pass
      cases pass <;> rfl

end Relation

/-- The rows of an occurrence. -/
def Relation.fromSource (src : Source) (t : TableRef) : Except Fault Relation :=
  match src t with
  | some table => .ok (ofTable t.qualifier table)
  | none => if t.isDual then .ok unit else .error (.tableNotFound t.name)

namespace Sql

mutual

/-- The result of a query over a source. -/
def Query.runOn (src : Source) : Query → Except Fault Relation
  | .select source c t => do
    let s ← FromItem.runListOn src .unit source
    s.select c t
  | .union l r all t => do
    let a ← Query.runOn src l
    let b ← Query.runOn src r
    Relation.union all t a b
  | .paren q => Query.runOn src q

/-- The rows of a source item over a source. -/
def FromItem.runOn (src : Source) : FromItem → Except Fault Relation
  | .table name a => Relation.fromSource src ⟨name, a⟩
  | .subquery q a => do
    let r ← Query.runOn src q
    return r.qualified a
  | .paren items => FromItem.runListOn src .unit items
  | .join k l r on => do
    let a ← FromItem.runOn src l
    let b ← FromItem.runOn src r
    Relation.join k on a b

/-- The rows of a list of source items over a source, each combined with all before it. -/
def FromItem.runListOn (src : Source) (acc : Relation) : List FromItem → Except Fault Relation
  | [] => .ok acc
  | x :: r => do
    let b ← FromItem.runOn src x
    FromItem.runListOn src (acc.cross b) r

end

/-- Induction over queries and their source items. -/
theorem Query.induct {P : Query → Prop} {S : FromItem → Prop}
    (select : ∀ source c t, (∀ x ∈ source, S x) → P (.select source c t))
    (union : ∀ l r all t, P l → P r → P (.union l r all t))
    (paren : ∀ q, P q → P (.paren q))
    (table : ∀ name a, S (.table name a))
    (subquery : ∀ q a, P q → S (.subquery q a))
    (items : ∀ xs, (∀ x ∈ xs, S x) → S (.paren xs))
    (join : ∀ k l r on, S l → S r → S (.join k l r on)) :
    (∀ q, P q) ∧ ∀ x, S x := by
  have hnil : ∀ x ∈ ([] : List FromItem), S x := fun x hx => absurd hx (by simp)
  have hcons : ∀ x (xs : List FromItem), S x → (∀ y ∈ xs, S y) → ∀ y ∈ x :: xs, S y :=
    fun x xs hx hxs => List.forall_mem_cons.mpr ⟨hx, hxs⟩
  exact ⟨@Query.rec P S (fun xs => ∀ x ∈ xs, S x) select union paren table subquery items join
      hnil hcons,
    @FromItem.rec P S (fun xs => ∀ x ∈ xs, S x) select union paren table subquery items join
      hnil hcons⟩

theorem FromItem.runListOn_nil (src : Source) (acc : Relation) :
    FromItem.runListOn src acc [] = .ok acc := by
  rw [FromItem.runListOn]

theorem FromItem.runListOn_cons (src : Source) (acc : Relation) (x : FromItem)
    (xs : List FromItem) :
    FromItem.runListOn src acc (x :: xs) =
      (x.runOn src >>= fun b => FromItem.runListOn src (acc.cross b) xs) := by
  rw [FromItem.runListOn]

/-! ## Agreement -/

/-- The result depends on the occurrences only. -/
theorem runOn_congr (src src' : Source) :
    (∀ q : Query, (∀ t ∈ q.occurrences, src t = src' t) → q.runOn src = q.runOn src') ∧
      ∀ x : FromItem, (∀ t ∈ x.occurrences, src t = src' t) → x.runOn src = x.runOn src' := by
  have hlist : ∀ xs : List FromItem,
      (∀ x ∈ xs, (∀ t ∈ x.occurrences, src t = src' t) → x.runOn src = x.runOn src') →
      (∀ t ∈ FromItem.occurrencesList xs, src t = src' t) →
      ∀ acc, FromItem.runListOn src acc xs = FromItem.runListOn src' acc xs := by
    intro xs ih h acc
    induction xs generalizing acc with
    | nil => rw [FromItem.runListOn_nil, FromItem.runListOn_nil]
    | cons x xs hxs =>
        simp only [FromItem.occurrencesList, List.forall_mem_append] at h
        rw [FromItem.runListOn_cons, FromItem.runListOn_cons, ih x (by simp) h.1]
        congr 1
        funext b
        exact hxs (fun y hy => ih y (by simp [hy])) h.2 _
  refine Query.induct ?_ ?_ ?_ ?_ ?_ ?_ ?_
  · intro source c t ih h
    rw [Query.occurrences] at h
    rw [Query.runOn, Query.runOn, hlist source ih h]
  · intro l r all t hl hr h
    simp only [Query.occurrences, List.forall_mem_append] at h
    rw [Query.runOn, Query.runOn, hl h.1, hr h.2]
  · intro q hq h
    rw [Query.occurrences] at h
    rw [Query.runOn, Query.runOn, hq h]
  · intro name a h
    simp only [FromItem.occurrences, List.mem_singleton, forall_eq] at h
    rw [FromItem.runOn, FromItem.runOn, Relation.fromSource, Relation.fromSource, h]
  · intro q a hq h
    rw [FromItem.occurrences] at h
    rw [FromItem.runOn, FromItem.runOn, hq h]
  · intro xs ih h
    rw [FromItem.occurrences] at h
    rw [FromItem.runOn, FromItem.runOn, hlist xs ih h]
  · intro k l r on hl hr h
    simp only [FromItem.occurrences, List.forall_mem_append] at h
    rw [FromItem.runOn, FromItem.runOn, hl h.1, hr h.2]

theorem Query.runOn_congr {src src' : Source} {q : Query}
    (h : ∀ t ∈ q.occurrences, src t = src' t) : q.runOn src = q.runOn src' :=
  (Sql.runOn_congr src src').1 q h

theorem fromTable_eq (db : Catalog) (name : String) (a : Option String) :
    Relation.fromTable db name a = Relation.fromSource db.source ⟨name, a⟩ := rfl

theorem FromItem.runList_eq {db : Catalog} {xs : List FromItem}
    (h : ∀ x ∈ xs, x.run db = x.runOn db.source) (acc : Relation) :
    FromItem.runList db acc xs = FromItem.runListOn db.source acc xs := by
  induction xs generalizing acc with
  | nil => rw [FromItem.runList, FromItem.runListOn_nil]
  | cons x xs ih =>
      rw [FromItem.runList, FromItem.runListOn_cons, h x (by simp)]
      congr 1
      funext b
      exact ih (fun y hy => h y (by simp [hy])) _

theorem run_eq (db : Catalog) :
    (∀ q : Query, q.run db = q.runOn db.source) ∧
      ∀ x : FromItem, x.run db = x.runOn db.source := by
  refine Query.induct ?_ ?_ ?_ ?_ ?_ ?_ ?_
  · intro source c t ih
    rw [Query.run, Query.runOn, FromItem.runList_eq ih]
  · intro l r all t hl hr
    rw [Query.run, Query.runOn, hl, hr]
  · intro q hq
    rw [Query.run, Query.runOn, hq]
  · intro name a
    rw [FromItem.run, FromItem.runOn, fromTable_eq]
  · intro q a hq
    rw [FromItem.run, FromItem.runOn, hq]
  · intro xs ih
    rw [FromItem.run, FromItem.runOn, FromItem.runList_eq ih]
  · intro k l r on hl hr
    rw [FromItem.run, FromItem.runOn, hl, hr]

/-- A query over the tables of a catalog. -/
theorem Query.run_eq_runOn (db : Catalog) (q : Query) : q.run db = q.runOn db.source :=
  (run_eq db).1 q

end Sql

end Rowtime
