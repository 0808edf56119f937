import Rowtime.Proofs.Databases
import Rowtime.Proofs.Pages
import Rowtime.Proofs.Watched

/-!
# Every look is within its row

A query is executed under watch in the steps of its execution: each relation is seen when it is
produced, be it a table, a product, a join, a subquery, what a condition leaves, a group, a union or
a result; each output row when it is projected; the sort keys of a row when they are there; and
each position when a row or a list of keys is looked up at it. Over tables whose rows have a value
for each column all of it fits, also what is seen before a fault.
-/
namespace Rowtime

open Sql

/-- Whether a condition holds, with every look into a row. -/
def Sql.Expr.watchHolds (e : Expr) (ctx : Context) : Watched Bool := do
  let v ← e.watch ctx
  let t ← Watched.quiet v.truth
  return t == some true

namespace Relation

/-! ## Execution under watch -/

/-- Whether a pair of rows satisfies the condition of a join. -/
def watchJoins (columns : List Binding) (on : Option Expr) (l r : Row) : Watched Bool :=
  match on with
  | none => return true
  | some c => c.watchHolds (.ofRow columns (l ++ r))

/-- The joined rows of one row of the left side. -/
def watchJoinRow (columns : List Binding) (on : Option Expr) (kind : JoinKind) (width : Nat)
    (right : List Row) (l : Row) : Watched (List Row) := do
  let found ← Watched.filterM (fun r => watchJoins columns on l r) right
  if found.isEmpty && kind == .left then return [l ++ List.replicate width .null]
  return found.map fun r => l ++ r

/-- The joined rows of one row of the right side of a right join. -/
def watchJoinRowRight (columns : List Binding) (on : Option Expr) (width : Nat) (left : List Row)
    (r : Row) : Watched (List Row) := do
  let found ← Watched.filterM (fun l => watchJoins columns on l r) left
  if found.isEmpty then return [List.replicate width .null ++ r]
  return found.map fun l => l ++ r

/-- The joined rows of two relations, part by part. -/
def watchJoinParts (kind : JoinKind) (on : Option Expr) (a b : Relation) :
    Watched (List (List Row)) :=
  if kind == .right then
    Watched.collect (watchJoinRowRight (a.columns ++ b.columns) on a.columns.length a.rows) b.rows
  else
    Watched.collect (watchJoinRow (a.columns ++ b.columns) on kind b.columns.length b.rows) a.rows

/-- The join of two relations. -/
def watchJoin (kind : JoinKind) (on : Option Expr) (a b : Relation) : Watched Relation := do
  let parts ← watchJoinParts kind on a b
  Watched.produce ⟨a.columns ++ b.columns, parts.flatten⟩

/-- The rows that satisfy an optional condition. -/
def watchFiltered (condition : Option Expr) (source : Relation) : Watched Relation :=
  match condition with
  | none => return source
  | some w => do
    let rows ← Watched.filterM (fun row => w.watchHolds (.ofRow source.columns row)) source.rows
    Watched.produce ⟨source.columns, rows⟩

/-- The output values of one item of a projection. -/
def watchItem (ctx : Context) : SelectItem → Watched Row
  | .expr e _ => do
    let v ← e.watch ctx
    return [v]
  | i => Watched.quiet (itemValues ctx i)

/-- The output row of a projection. -/
def watchProject (items : List SelectItem) (ctx : Context) : Watched Row := do
  let parts ← Watched.collect (watchItem ctx) items
  return parts.flatten

/-- The value of a sort key of a SELECT. -/
def watchSortKey (output : List Binding) (projected : Row) (ctx : Context) (k : SortKey) :
    Watched Value := do
  match ← Watched.quiet (positional? k.expr output.length) with
  | some i => Watched.lookUp projected i
  | none =>
    match outputPosition? k.expr output with
    | some i => Watched.lookUp projected i
    | none => k.expr.watch ctx

/-- The value of a sort key of a union. -/
def watchUnionKey (output : List Binding) (row : Row) (k : SortKey) : Watched Value := do
  match ← Watched.quiet (positional? k.expr output.length) with
  | some i => Watched.lookUp row i
  | none => k.expr.watch (.ofRow output row)

/-- The output row of a context with its sort keys. -/
def watchOutputRow (c : Clauses) (t : Tail) (output : List Binding) (ctx : Context) :
    Watched KeyedRow := do
  let projected ← watchProject c.projection ctx
  Watched.see (.projected output projected)
  let keys ← Watched.collect (watchSortKey output projected ctx) t.orderBy
  Watched.see (.keyed t.orderBy keys)
  return ⟨projected, keys⟩

/-- An output row of a union with its sort keys. -/
def watchUnionRow (t : Tail) (output : List Binding) (row : Row) : Watched KeyedRow := do
  Watched.see (.projected output row)
  let keys ← Watched.collect (watchUnionKey output row) t.orderBy
  Watched.see (.keyed t.orderBy keys)
  return ⟨row, keys⟩

/-- A row with its group key. -/
def watchGroupKey (columns : List Binding) (keys : List Expr) (row : Row) :
    Watched (Row × Row) := do
  let key ← Watched.collect (fun e => e.watch (.ofRow columns row)) keys
  return (key, row)

/-- The groups of a relation. -/
def watchGroups (keys : List Expr) (source : Relation) : Watched (List (List Row)) :=
  if keys.isEmpty then return [source.rows]
  else do
    let keyed ← Watched.collect (watchGroupKey source.columns keys) source.rows
    return (keyed.foldl (fun acc p => addToGroup p.1 p.2 acc) []).map (·.2)

/-- Whether a context satisfies an optional condition on groups. -/
def watchPasses (having : Option Expr) (ctx : Context) : Watched Bool :=
  match having with
  | some h => h.watchHolds ctx
  | none => return true

/-- The output row of a group that passes the condition on groups. The group is seen, and the row
that stands for it, which is no row of it when the group is empty. -/
def watchGroupOutput (c : Clauses) (t : Tail) (output columns : List Binding) (group : List Row) :
    Watched (List KeyedRow) := do
  Watched.see (.relation ⟨columns, group⟩)
  Watched.see (.relation ⟨columns, [(groupContext columns group).row]⟩)
  let passes ← watchPasses c.having (groupContext columns group)
  if passes then
    let x ← watchOutputRow c t output (groupContext columns group)
    return [x]
  else return []

/-- The output rows of a SELECT over the rows that satisfy its condition. -/
def watchKeyedRows (c : Clauses) (t : Tail) (output : List Binding) (kept : Relation) :
    Watched (List KeyedRow) :=
  if isGrouped c t then do
    let groups ← watchGroups c.groupBy kept
    let parts ← Watched.collect (watchGroupOutput c t output kept.columns) groups
    return parts.flatten
  else Watched.collect (fun row => watchOutputRow c t output (.ofRow kept.columns row)) kept.rows

/-- The result of a SELECT over its source. -/
def watchSelect (c : Clauses) (t : Tail) (source : Relation) : Watched Relation := do
  let kept ← watchFiltered c.condition source
  let output ← Watched.quiet (outputColumns c.projection kept.columns)
  let rows ← watchKeyedRows c t output kept
  let chosen ← watchTail t (if c.distinct then dedup rows else rows)
  Watched.produce ⟨output, chosen⟩

/-- The union of two results. -/
def watchUnion (all : Bool) (t : Tail) (a b : Relation) : Watched Relation :=
  if a.columns.length ≠ b.columns.length then
    Watched.quiet (.error (.columnCount a.columns.length b.columns.length))
  else do
    let output := a.columns.map fun c => (⟨none, c.name⟩ : Binding)
    let rows ← Watched.collect (watchUnionRow t output) (a.rows ++ b.rows)
    let chosen ← watchTail t (if all then rows else dedup rows)
    Watched.produce ⟨output, chosen⟩

/-! ## Steps -/

section Shows

open Watched (Shows)

variable {c : Clauses} {t : Tail} {columns output : List Binding} {ctx : Context}
  {a b source : Relation}

theorem shows_holds (e : Expr) (h : ctx.Aligned) : (e.watchHolds ctx).Shows (e.holds ctx) :=
  (e.shows_eval h).bind fun _ _ => (Shows.quiet _).bind fun _ _ => .pure _

theorem shows_joins {on : Option Expr} {l r : Row} (h : (l ++ r).length = columns.length) :
    (watchJoins columns on l r).Shows (joins columns on l r) := by
  cases on with
  | none => exact .pure true
  | some e => exact shows_holds e (.ofRow h)

theorem shows_joinRow {on : Option Expr} {kind : JoinKind} {width : Nat} {right : List Row}
    {l : Row} (h : ∀ r ∈ right, (l ++ r).length = columns.length) :
    (watchJoinRow columns on kind width right l).Shows (joinRow columns on kind width right l) :=
  (Shows.filterM fun r hr => shows_joins (h r hr)).bind fun _ _ =>
    .ite (fun _ => .pure _) fun _ => .pure _

theorem shows_joinRowRight {on : Option Expr} {width : Nat} {left : List Row} {r : Row}
    (h : ∀ l ∈ left, (l ++ r).length = columns.length) :
    (watchJoinRowRight columns on width left r).Shows (joinRowRight columns on width left r) :=
  (Shows.filterM fun l hl => shows_joins (h l hl)).bind fun _ _ =>
    .ite (fun _ => .pure _) fun _ => .pure _

theorem shows_joinParts (kind : JoinKind) (on : Option Expr) (ha : a.Rectangular)
    (hb : b.Rectangular) : (watchJoinParts kind on a b).Shows (joinParts kind on a b) := by
  have hpair : ∀ l ∈ a.rows, ∀ r ∈ b.rows, (l ++ r).length = (a.columns ++ b.columns).length := by
    intro l hl r hr
    rw [List.length_append, List.length_append, ha l hl, hb r hr]
  exact .ite (fun _ => .collect fun r hr => shows_joinRowRight fun l hl => hpair l hl r hr)
    fun _ => .collect fun l hl => shows_joinRow (hpair l hl)

theorem shows_join (kind : JoinKind) (on : Option Expr) (ha : a.Rectangular)
    (hb : b.Rectangular) : (watchJoin kind on a b).Shows (join kind on a b) := by
  rw [join_eq]
  refine (shows_joinParts kind on ha hb).bind fun parts hparts => .produce ?_
  exact join_rectangular ha hb (by rw [join_eq, hparts, ok_bind])

theorem shows_filtered (condition : Option Expr) (h : source.Rectangular) :
    (watchFiltered condition source).Shows (filtered condition source) := by
  cases condition with
  | none => exact .pure source
  | some w =>
      refine (Shows.filterM fun row hrow => shows_holds w (.ofRow (h row hrow))).bind
        fun rows hrows => .produce ?_
      have hfiltered : filtered (some w) source = .ok ⟨source.columns, rows⟩ := by
        rw [filtered, hrows]
        rfl
      exact filtered_rectangular h hfiltered

theorem shows_itemValues (h : ctx.Aligned) (i : SelectItem) :
    (watchItem ctx i).Shows (itemValues ctx i) := by
  cases i with
  | all => exact .quiet _
  | allOf q => exact .quiet _
  | expr e name => exact (e.shows_eval h).bind fun v _ => .pure _

theorem shows_project (items : List SelectItem) (h : ctx.Aligned) :
    (watchProject items ctx).Shows (project items ctx) :=
  (Shows.collect fun i _ => shows_itemValues h i).bind fun _ _ => .pure _

theorem positional?_lt {e : Expr} {width i : Nat} (h : positional? e width = .ok (some i)) :
    i < width := by
  unfold positional? at h
  split at h
  · split at h
    · obtain rfl := Option.some.inj (Except.ok.inj h)
      omega
    · cases h
  · cases h

theorem outputPosition?_lt {e : Expr} {i : Nat} (h : outputPosition? e output = some i) :
    i < output.length := by
  unfold outputPosition? at h
  split at h
  · split at h
    · rename_i j hj
      obtain rfl := Option.some.inj h
      exact lt_of_mem_positionsFrom (by rw [hj]; exact List.mem_singleton_self j)
    · cases h
  · cases h

theorem shows_sortKeyValue {projected : Row} (hp : projected.length = output.length)
    (h : ctx.Aligned) (k : SortKey) :
    (watchSortKey output projected ctx k).Shows (sortKeyValue output projected ctx k) := by
  refine (Shows.quiet _).bind fun place hplace => ?_
  cases place with
  | some i => exact .lookUp (hp ▸ positional?_lt hplace)
  | none =>
      dsimp only
      cases hnamed : outputPosition? k.expr output with
      | some i => exact .lookUp (hp ▸ outputPosition?_lt hnamed)
      | none => exact k.expr.shows_eval h

theorem shows_unionKeyValue {row : Row} (h : row.length = output.length) (k : SortKey) :
    (watchUnionKey output row k).Shows (unionKeyValue output row k) := by
  refine (Shows.quiet _).bind fun place hplace => ?_
  cases place with
  | some i => exact .lookUp (h ▸ positional?_lt hplace)
  | none => exact k.expr.shows_eval (.ofRow h)

theorem shows_outputRow (h : ctx.Aligned)
    (ho : outputColumns c.projection ctx.columns = .ok output) :
    (watchOutputRow c t output ctx).Shows (outputRow c t output ctx) := by
  refine (shows_project c.projection h).bind fun projected hprojected => ?_
  have hwidth : projected.length = output.length := project_length h.row hprojected ho
  refine .see_then hwidth ((Shows.collect fun k _ => shows_sortKeyValue hwidth h k).bind
    fun keys hkeys => ?_)
  exact .see_then (length_of_collect hkeys) (.pure _)

theorem shows_unionRow {row : Row} (h : row.length = output.length) :
    (watchUnionRow t output row).Shows (unionRow t output row) := by
  refine .see_then h ((Shows.collect fun k _ => shows_unionKeyValue h k).bind fun keys hkeys => ?_)
  exact .see_then (length_of_collect hkeys) (.pure _)

theorem shows_groupRows (keys : List Expr) (h : source.Rectangular) :
    (watchGroups keys source).Shows (groupRows keys source) :=
  .ite (fun _ => .pure _) fun _ =>
    (Shows.collect fun row hrow =>
      (Shows.collect fun e _ => e.shows_eval (.ofRow (h row hrow))).bind fun _ _ => .pure _).bind
        fun _ _ => .pure _

theorem groupContext_aligned {group : List Row} (h : ∀ row ∈ group, row.length = columns.length) :
    (groupContext columns group).Aligned := by
  refine ⟨groupContext_length h, fun rows hrows => ?_⟩
  obtain rfl := Option.some.inj hrows
  exact h

theorem shows_passes (having : Option Expr) (h : ctx.Aligned) :
    (watchPasses having ctx).Shows
      (match having with
        | some e => e.holds ctx
        | none => .ok true) := by
  cases having with
  | none => exact .pure true
  | some e => exact shows_holds e h

theorem shows_groupOutput {group : List Row} (h : ∀ row ∈ group, row.length = columns.length)
    (ho : outputColumns c.projection columns = .ok output) :
    (watchGroupOutput c t output columns group).Shows (groupOutput c t output columns group) := by
  have haligned := groupContext_aligned h
  rw [groupOutput_eq]
  refine .see_then h (.see_then (List.forall_mem_singleton.mpr haligned.row) ?_)
  exact (shows_passes c.having haligned).bind fun pass _ =>
    .ite (fun _ => (shows_outputRow haligned ho).bind fun x _ => .pure [x]) fun _ => .pure []

theorem shows_keyedRows (h : source.Rectangular)
    (ho : outputColumns c.projection source.columns = .ok output) :
    (watchKeyedRows c t output source).Shows (keyedRows c t output source) := by
  refine .ite (fun _ => ?_) fun _ =>
    .collect fun row hrow => shows_outputRow (.ofRow (h row hrow)) ho
  refine (shows_groupRows c.groupBy h).bind fun groups hgroups => ?_
  refine (Shows.collect fun group hgroup => ?_).bind fun _ _ => .pure _
  exact shows_groupOutput (fun row hrow => h row (mem_groupRows hgroups hgroup hrow)) ho

theorem shows_select (c : Clauses) (t : Tail) (h : source.Rectangular) :
    (watchSelect c t source).Shows (select c t source) := by
  rw [select_eq]
  refine (shows_filtered c.condition h).bind fun kept hkept => ?_
  have hwidth := filtered_rectangular h hkept
  refine (Shows.quiet _).bind fun output houtput => ?_
  refine (shows_keyedRows hwidth houtput).bind fun rows hrows => ?_
  have hkeys : ∀ x ∈ if c.distinct then dedup rows else rows, x.keys.length = t.orderBy.length := by
    intro x hx
    obtain ⟨ctx, hctx⟩ := mem_keyedRows hrows (by split at hx; exacts [mem_dedup hx, hx])
    exact length_of_collect (outputRow_eq_ok.mp hctx).2
  have hselect : select c t source =
      .ok ⟨output, applyTail t (if c.distinct then dedup rows else rows)⟩ := by
    rw [select_eq, hkept, ok_bind, selectKept, houtput, ok_bind, hrows, ok_bind]
  exact (shows_applyTail hkeys).andThen (.produce (select_rectangular h hselect))

theorem shows_union (all : Bool) (t : Tail) (ha : a.Rectangular) (hb : b.Rectangular) :
    (watchUnion all t a b).Shows (union all t a b) := by
  refine .ite (fun _ => .quiet _) fun hcount => ?_
  have hwidth : ∀ row ∈ a.rows ++ b.rows,
      row.length = (a.columns.map fun c => (⟨none, c.name⟩ : Binding)).length := by
    rw [List.length_map]
    exact List.forall_mem_append.mpr
      ⟨ha, fun row hrow => (hb row hrow).trans (Decidable.not_not.mp hcount).symm⟩
  refine (Shows.collect fun row hrow => shows_unionRow (hwidth row hrow)).bind fun rows hrows => ?_
  have hkeys : ∀ x ∈ if all then rows else dedup rows, x.keys.length = t.orderBy.length := by
    intro x hx
    obtain ⟨row, -, hrow⟩ := exists_of_mem_collect hrows
      (by split at hx; exacts [hx, mem_dedup hx])
    exact length_keys_unionRow hrow
  have hunion : union all t a b = .ok ⟨a.columns.map fun c => ⟨none, c.name⟩,
      applyTail t (if all then rows else dedup rows)⟩ := by
    rw [union, if_neg hcount]
    exact bind_eq_ok.mpr ⟨rows, hrows, rfl⟩
  exact (shows_applyTail hkeys).andThen (.produce (union_rectangular ha hb hunion))

end Shows

end Relation

namespace Sql

mutual

/-- The result of a query, with all that comes up. -/
def Query.watch (db : Catalog) : Query → Watched Relation
  | .select source c t => do
    let s ← FromItem.watchList db .unit source
    s.watchSelect c t
  | .union l r all t => do
    let a ← Query.watch db l
    let b ← Query.watch db r
    Relation.watchUnion all t a b
  | .paren q => Query.watch db q

/-- The rows of a source item. -/
def FromItem.watch (db : Catalog) : FromItem → Watched Relation
  | .table name a => do
    let r ← Watched.quiet (Relation.fromTable db name a)
    Watched.produce r
  | .subquery q a => do
    let r ← Query.watch db q
    Watched.produce (r.qualified a)
  | .paren items => FromItem.watchList db .unit items
  | .join k l r on => do
    let a ← FromItem.watch db l
    let b ← FromItem.watch db r
    Relation.watchJoin k on a b

/-- The rows of a list of source items; each product on the way is seen. -/
def FromItem.watchList (db : Catalog) (acc : Relation) : List FromItem → Watched Relation
  | [] => Watched.produce acc
  | x :: r => do
    let acc ← Watched.produce acc
    let b ← FromItem.watch db x
    FromItem.watchList db (acc.cross b) r

end

section Shows

open Watched (Shows)

variable {db : Catalog}

theorem FromItem.shows_runList {xs : List FromItem} (h : ∀ x ∈ xs, (x.watch db).Shows (x.run db))
    (hr : ∀ x ∈ xs, ∀ r : Relation, x.run db = .ok r → r.Rectangular) {acc : Relation}
    (ha : acc.Rectangular) :
    (FromItem.watchList db acc xs).Shows (FromItem.runList db acc xs) := by
  induction xs generalizing acc with
  | nil =>
      rw [FromItem.watchList, FromItem.runList]
      exact .produce ha
  | cons x xs ih =>
      obtain ⟨hx, hxs⟩ := List.forall_mem_cons.mp h
      obtain ⟨hrx, hrxs⟩ := List.forall_mem_cons.mp hr
      rw [FromItem.watchList, FromItem.runList]
      exact (Shows.produce ha).andThen
        (hx.bind fun b hb => ih hxs hrxs (Relation.cross_rectangular ha (hrx b hb)))

/-- Over tables whose rows have a value for each column, a watched query has the result of the
query, and all that is seen fits. -/
theorem shows_run (h : db.source.Rectangular) :
    (∀ q : Query, (q.watch db).Shows (q.run db)) ∧
      ∀ x : FromItem, (x.watch db).Shows (x.run db) := by
  -- What the parts come to is as wide as it should be, watched or not; the induction is needed only
  -- for what is seen on the way.
  have hitems : ∀ (xs : List FromItem) (r : Relation), FromItem.runList db .unit xs = .ok r →
      r.Rectangular := fun xs r hr =>
    FromItem.run_rectangular (x := .paren xs) h (by rw [FromItem.run, hr])
  have hlist : ∀ xs : List FromItem, (∀ x ∈ xs, (x.watch db).Shows (x.run db)) →
      (FromItem.watchList db .unit xs).Shows (FromItem.runList db .unit xs) := fun xs hxs =>
    FromItem.shows_runList hxs (fun _ _ _ => FromItem.run_rectangular h)
      Relation.unit_rectangular
  refine Query.induct ?_ ?_ ?_ ?_ ?_ ?_ ?_
  · intro source c t ih
    rw [Query.watch, Query.run]
    exact (hlist source ih).bind fun s hs => Relation.shows_select c t (hitems source s hs)
  · intro l r all t hl hr
    rw [Query.watch, Query.run]
    exact hl.bind fun a ha => hr.bind fun b hb =>
      Relation.shows_union all t (Query.run_rectangular h ha) (Query.run_rectangular h hb)
  · intro q hq
    rw [Query.watch, Query.run]
    exact hq
  · intro name a
    rw [FromItem.watch, FromItem.run]
    refine .produced fun r hr => ?_
    rw [fromTable_eq] at hr
    exact Relation.fromSource_rectangular h hr
  · intro q a hq
    rw [FromItem.watch, FromItem.run]
    exact hq.bind fun r hr => .produce (Relation.qualified_rectangular (Query.run_rectangular h hr))
  · intro xs ih
    rw [FromItem.watch, FromItem.run]
    exact hlist xs ih
  · intro k l r on hl hr
    rw [FromItem.watch, FromItem.run]
    exact hl.bind fun a ha => hr.bind fun b hb =>
      Relation.shows_join k on (FromItem.run_rectangular h ha) (FromItem.run_rectangular h hb)

end Shows

section Yields

open Watched (Yields)

variable {db : Catalog}

theorem FromItem.watchList_yields (acc : Relation) (xs : List FromItem) :
    (FromItem.watchList db acc xs).Yields := by
  induction xs generalizing acc with
  | nil =>
      rw [FromItem.watchList]
      exact .produce acc
  | cons x xs ih =>
      rw [FromItem.watchList]
      exact .bind fun acc => .bind fun b => ih (acc.cross b)

/-- Every relation that a query or a source item comes to is seen. -/
theorem watch_yields :
    (∀ q : Query, (q.watch db).Yields) ∧ ∀ x : FromItem, (x.watch db).Yields := by
  -- All but a query in parentheses end with a relation that is produced or with a fault.
  refine Query.induct ?_ ?_ ?_ ?_ ?_ ?_ ?_
  · intro source c t _
    rw [Query.watch]
    exact .bind fun s => .bind fun kept => .bind fun output => .bind fun rows => .bind fun chosen =>
      .produce _
  · intro l r all t _ _
    rw [Query.watch]
    refine .bind fun a => .bind fun b => ?_
    unfold Relation.watchUnion
    split
    · exact .fault _
    · exact .bind fun rows => .bind fun chosen => .produce _
  · intro q hq
    rw [Query.watch]
    exact hq
  · intro name a
    rw [FromItem.watch]
    exact .bind .produce
  · intro q a _
    rw [FromItem.watch]
    exact .bind fun r => .produce _
  · intro xs _
    rw [FromItem.watch]
    exact FromItem.watchList_yields .unit xs
  · intro k l r on _ _
    rw [FromItem.watch]
    exact .bind fun a => .bind fun b => .bind fun parts => .produce _

end Yields

/-- No position is out of range. Over tables whose rows have a value for each column, a query under
watch comes to what it comes to unwatched, and its result is among what is seen. In every relation
that is seen the rows are as wide as the columns, every projected row has a value for each output
column and every list of keys a key for each sort key, and every position at which a row or a list
of keys is looked up is within it. So it is when the query ends in a fault. -/
theorem Query.seen_in_range {db : Catalog} (hdb : ∀ t ∈ db.tables, t.Rectangular) (q : Query) :
    (q.watch db).result = q.run db ∧
      (∀ r, q.run db = .ok r → .relation r ∈ (q.watch db).seen) ∧
      (∀ r, .relation r ∈ (q.watch db).seen → ∀ row ∈ r.rows, row.length = r.columns.length) ∧
      (∀ output row, .projected output row ∈ (q.watch db).seen → row.length = output.length) ∧
      (∀ order keys, .keyed order keys ∈ (q.watch db).seen → keys.length = order.length) ∧
      ∀ values i, .lookup values i ∈ (q.watch db).seen → i < values.length := by
  have hsource : db.source.Rectangular := fun t table ht =>
    hdb table (List.mem_map_of_mem (Catalog.mem_of_get? ht))
  obtain ⟨hresult, hfits⟩ := (shows_run hsource).1 q
  exact ⟨hresult, fun r hr => watch_yields.1 q r (hresult.trans hr), fun r hr => hfits _ hr,
    fun output row hrow => hfits _ hrow, fun order keys hkeys => hfits _ hkeys,
    fun values i hi => hfits _ hi⟩

/-- A table with one reading. -/
def oneReading : Catalog :=
  ⟨[("t", ⟨"t", [.rowtime, ⟨"v", .integer, true, false, false, none⟩],
    [[.integer 1, .integer 10]], 0, 1⟩)]⟩

/-- `SELECT COUNT(*), x.v FROM t AS x LEFT JOIN t AS y ON x.v < y.v WHERE y.v IS NOT NULL
ORDER BY 1`. -/
def Query.surpassed : Query :=
  .select [.join .left (.table "t" (some "x")) (.table "t" (some "y"))
      (some (.binary .lt (.column ⟨some "x", "v"⟩) (.column ⟨some "y", "v"⟩)))]
    ⟨false, [.expr (.aggregateAll .count false) none, .expr (.column ⟨some "x", "v"⟩) none],
      some (.isNull true (.column ⟨some "y", "v"⟩)), [], none⟩
    ⟨[⟨.literal (.integer 1), .asc⟩], none, none⟩

/-- The reading is joined to NULLs, for which the condition fails; a row of NULLs stands for the
empty group, and the only row of the result is sorted by its first value. -/
theorem Query.seen_in_range_surpassed :
    (∀ t ∈ oneReading.tables, t.Rectangular) ∧
      (Query.surpassed.watch oneReading).seen.filterMap Sighting.lookup? =
        [([.integer 1, .integer 10, .integer 1, .integer 10], 1),
          ([.integer 1, .integer 10, .integer 1, .integer 10], 3),
          ([.integer 1, .integer 10, .null, .null], 3), ([.null, .null, .null, .null], 1),
          ([.integer 0, .null], 0)] ∧
      (∀ p ∈ (Query.surpassed.watch oneReading).seen.filterMap Sighting.lookup?,
        p.2 < p.1.length) ∧
      .relation ⟨[⟨none, "count"⟩, ⟨none, "v"⟩], [[.integer 0, .null]]⟩ ∈
        (Query.surpassed.watch oneReading).seen := by
  have hdb : ∀ t ∈ oneReading.tables, t.Rectangular := by
    simp [oneReading, Catalog.tables, Table.Rectangular]
  obtain ⟨-, hyields, -, -, -, hlooks⟩ := seen_in_range hdb surpassed
  refine ⟨hdb, by decide +kernel, fun p hp => ?_, hyields _ (by decide +kernel)⟩
  obtain ⟨s, hs, hp⟩ := List.mem_filterMap.mp hp
  cases s with
  | lookup values i =>
      obtain rfl := Option.some.inj hp
      exact hlooks values i hs
  | _ => cases hp

end Sql

end Rowtime
