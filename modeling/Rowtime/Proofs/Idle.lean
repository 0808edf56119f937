import Rowtime.Proofs.Joins

/-!
# Idle branches of unions

A branch of a union that does not read the advancing table is emptied: FALSE stands
behind the condition of each of its SELECTs. So it adds nothing, and the statement
gives what it gives with an empty relation of the same columns in place of the
branch. `Query.header` computes these columns, which no row decides, and
`Query.runVacant` runs a query with empty relations in place of its idle branches.

A SELECT with aggregates and without keys has one group even when no row is left.
Emptied, it still has a row; so it must not stand in an idle branch.
-/
namespace Rowtime

open Sql

/-! ## The columns of a result -/

namespace Sql

mutual

/-- The columns of the result of a query. -/
def Query.header (db : Catalog) : Query → Except Fault (List Binding)
  | .select source c _ => do
    let columns ← FromItem.headerList db [] source
    Relation.outputColumns c.projection columns
  | .union l _ _ _ => do
    let columns ← Query.header db l
    return columns.map fun b => ⟨none, b.name⟩
  | .paren q => Query.header db q

/-- The columns of a source item. -/
def FromItem.header (db : Catalog) : FromItem → Except Fault (List Binding)
  | .table name a => do
    let r ← Relation.fromTable db name a
    return r.columns
  | .subquery q a => do
    let columns ← Query.header db q
    return columns.map fun b => ⟨a, b.name⟩
  | .paren items => FromItem.headerList db [] items
  | .join _ l r _ => do
    let a ← FromItem.header db l
    let b ← FromItem.header db r
    return a ++ b

/-- The columns of a list of source items behind others. -/
def FromItem.headerList (db : Catalog) (acc : List Binding) :
    List FromItem → Except Fault (List Binding)
  | [] => .ok acc
  | x :: r => do
    let b ← FromItem.header db x
    FromItem.headerList db (acc ++ b) r

end

end Sql

namespace Relation

theorem columns_select {c : Clauses} {t : Tail} {source r : Relation}
    (h : select c t source = .ok r) : outputColumns c.projection source.columns = .ok r.columns := by
  rw [select_eq] at h
  obtain ⟨kept, hk, h⟩ := bind_eq_ok.mp h
  obtain ⟨output, ho, h⟩ := bind_eq_ok.mp h
  obtain ⟨rows, -, h⟩ := bind_eq_ok.mp h
  rw [Except.ok.injEq] at h
  rw [← h, ← (filtered_spec hk).1]
  exact ho

/-- A union names its columns after the first operand, and takes its rows from both. -/
theorem union_spec {all : Bool} {t : Tail} {a b r : Relation} (h : union all t a b = .ok r) :
    r.columns = a.columns.map (fun c => ⟨none, c.name⟩) ∧
      (a.rows = [] → b.rows = [] → r.rows = []) := by
  unfold union at h
  split at h
  · simp at h
  · obtain ⟨rows, hrows, h⟩ := bind_eq_ok.mp h
    rw [pure_eq_ok] at h
    subst h
    refine ⟨rfl, fun ha hb => ?_⟩
    rw [ha, hb, List.append_nil, collect_nil, Except.ok.injEq] at hrows
    subst hrows
    apply List.eq_nil_iff_forall_not_mem.mpr
    intro row hrow
    obtain ⟨x, hx, -⟩ := mem_applyTail hrow
    split at hx
    · cases hx
    · exact List.not_mem_nil (mem_dedup hx)

end Relation

namespace Sql

theorem FromItem.headerList_of_run {db : Catalog} {xs : List FromItem}
    (ih : ∀ x ∈ xs, ∀ r, x.run db = .ok r → x.header db = .ok r.columns) {acc r : Relation}
    (h : FromItem.runList db acc xs = .ok r) :
    FromItem.headerList db acc.columns xs = .ok r.columns := by
  induction xs generalizing acc with
  | nil =>
      rw [FromItem.runList, Except.ok.injEq] at h
      rw [FromItem.headerList, h]
  | cons x xs hxs =>
      rw [FromItem.runList] at h
      obtain ⟨b, hb, h⟩ := bind_eq_ok.mp h
      rw [FromItem.headerList, ih x List.mem_cons_self b hb, ok_bind]
      exact hxs (fun y hy => ih y (List.mem_cons_of_mem _ hy)) h

theorem header_of_run (db : Catalog) :
    (∀ q : Query, ∀ r, q.run db = .ok r → q.header db = .ok r.columns) ∧
      ∀ x : FromItem, ∀ r, x.run db = .ok r → x.header db = .ok r.columns := by
  apply Query.induct
  · intro source c t ih r h
    rw [Query.run] at h
    obtain ⟨s, hs, h⟩ := bind_eq_ok.mp h
    have hlist : FromItem.headerList db [] source = .ok s.columns :=
      FromItem.headerList_of_run ih hs
    rw [Query.header, hlist, ok_bind]
    exact Relation.columns_select h
  · intro l r all t hl hr u h
    rw [Query.run] at h
    obtain ⟨a, ha, h⟩ := bind_eq_ok.mp h
    obtain ⟨b, -, h⟩ := bind_eq_ok.mp h
    rw [Query.header, hl a ha, (Relation.union_spec h).1]
    rfl
  · intro q hq r h
    rw [Query.run] at h
    rw [Query.header]
    exact hq r h
  · intro name a r h
    rw [FromItem.run] at h
    rw [FromItem.header, h]
    rfl
  · intro q a hq r h
    rw [FromItem.run] at h
    obtain ⟨u, hu, h⟩ := bind_eq_ok.mp h
    rw [pure_eq_ok] at h
    rw [FromItem.header, hq u hu, ← h]
    rfl
  · intro xs ih r h
    rw [FromItem.run] at h
    rw [FromItem.header]
    exact FromItem.headerList_of_run ih h
  · intro k l r on hl hr u h
    rw [FromItem.run] at h
    obtain ⟨a, ha, h⟩ := bind_eq_ok.mp h
    obtain ⟨b, hb, h⟩ := bind_eq_ok.mp h
    rw [FromItem.header, hl a ha, hr b hb, Relation.columns_join h]
    rfl

/-- No row decides the columns of a result. -/
theorem Query.header_of_run {db : Catalog} {q : Query} {r : Relation} (h : q.run db = .ok r) :
    q.header db = .ok r.columns :=
  (Sql.header_of_run db).1 q r h

theorem Query.header_emptied (db : Catalog) (q : Query) : q.emptied.header db = q.header db := by
  apply (Query.induct (P := fun q => q.emptied.header db = q.header db) (S := fun _ => True)
    ?_ ?_ ?_ ?_ ?_ ?_ ?_).1 q
  · intro source c t _
    rw [Query.emptied, Query.header, Query.header]
  · intro l r all t hl _
    rw [Query.emptied, Query.header, Query.header, hl]
  · intro q hq
    rw [Query.emptied, Query.header, Query.header, hq]
  all_goals intros; trivial

theorem header_bounded (db : Catalog) (s : Marks) (a : Option Advance) :
    (∀ q : Query, (q.bounded s a).header db = q.header db) ∧
      ∀ x : FromItem, (x.bounded s a).header db = x.header db := by
  have hlist : ∀ xs : List FromItem, (∀ x ∈ xs, (x.bounded s a).header db = x.header db) →
      ∀ acc, FromItem.headerList db acc (FromItem.boundedList s a xs) =
        FromItem.headerList db acc xs := by
    intro xs ih
    induction xs with
    | nil =>
        intro acc
        rw [FromItem.boundedList]
    | cons x xs hxs =>
        intro acc
        rw [FromItem.boundedList, FromItem.headerList, FromItem.headerList,
          ih x List.mem_cons_self]
        congr 1
        funext b
        exact hxs (fun y hy => ih y (List.mem_cons_of_mem _ hy)) _
  apply Query.induct
  · intro source c t ih
    rw [Query.bounded, Query.header, Query.header, hlist source ih]
  · intro l r all t hl _
    rw [Query.bounded, Query.header, Query.header]
    split
    · rw [Query.header_emptied, hl]
    · rw [hl]
  · intro q hq
    rw [Query.bounded, Query.header, Query.header, hq]
  · intro name al
    rw [FromItem.bounded]
  · intro q al hq
    rw [FromItem.bounded, FromItem.header, FromItem.header, hq]
  · intro xs ih
    rw [FromItem.bounded, FromItem.header, FromItem.header, hlist xs ih]
  · intro k l r on hl hr
    rw [FromItem.bounded, FromItem.header, FromItem.header, hl, hr]

/-! ## Queries that are emptied -/

/-- Whether a SELECT has no row when no row satisfies its condition. -/
def Clauses.vanishes (c : Clauses) (t : Tail) : Bool :=
  !Relation.isGrouped c t || !c.groupBy.isEmpty

/-- Whether a query has no rows once it is emptied. -/
def Query.vanishes : Query → Bool
  | .select _ c t => c.vanishes t
  | .union l r _ _ => l.vanishes && r.vanishes
  | .paren q => q.vanishes

theorem Query.vanishes_emptied (q : Query) : q.emptied.vanishes = q.vanishes := by
  apply (Query.induct (P := fun q => q.emptied.vanishes = q.vanishes) (S := fun _ => True)
    ?_ ?_ ?_ ?_ ?_ ?_ ?_).1 q
  · intro source c t _
    rw [Query.emptied, Query.vanishes, Query.vanishes]
    rfl
  · intro l r all t hl hr
    rw [Query.emptied, Query.vanishes, Query.vanishes, hl, hr]
  · intro q hq
    rw [Query.emptied, Query.vanishes, Query.vanishes, hq]
  all_goals intros; trivial

theorem Query.vanishes_bounded (s : Marks) (a : Option Advance) (q : Query) :
    (q.bounded s a).vanishes = q.vanishes := by
  apply (Query.induct (P := fun q => (q.bounded s a).vanishes = q.vanishes) (S := fun _ => True)
    ?_ ?_ ?_ ?_ ?_ ?_ ?_).1 q
  · intro source c t _
    rw [Query.bounded, Query.vanishes, Query.vanishes]
    rfl
  · intro l r all t hl hr
    rw [Query.bounded, Query.vanishes, Query.vanishes]
    split <;> split <;> simp only [Query.vanishes_emptied, hl, hr]
  · intro q hq
    rw [Query.bounded, Query.vanishes, Query.vanishes, hq]
  all_goals intros; trivial

end Sql

namespace Relation

/-- Without rows there are no groups, unless there are no keys either. -/
theorem keyedRows_nil {c : Clauses} {t : Tail} (h : c.vanishes t = true) {output : List Binding}
    {kept : Relation} (hk : kept.rows = []) : keyedRows c t output kept = .ok [] := by
  unfold keyedRows
  split
  · rename_i hg
    have hkeys : c.groupBy.isEmpty = false := by
      rw [Clauses.vanishes, hg] at h
      simpa using h
    rw [groupRows, hkeys, hk]
    rfl
  · rw [hk]
    rfl

/-- FALSE behind a condition leaves no row. -/
theorem kept_never (condition : Option Expr) (source : Relation) :
    (kept (some (never condition)) source).rows = [] := by
  apply List.filter_eq_nil_iff.mpr
  intro row _ hp
  have htrue : holdsIn (conjunction (condition.toList ++ [.literal (.boolean false)]))
      (.ofRow source.columns row) = .ok true ↔ _ := holdsIn_conjunction_iff
  have hnever : conjunction (condition.toList ++ [.literal (.boolean false)]) =
      some (never condition) := by
    cases condition <;> rfl
  rw [hnever] at htrue
  have hfalse := htrue.mp (eq_ok_of_passes hp) (.literal (.boolean false)) (by simp)
  cases hfalse

theorem select_never {c : Clauses} {t : Tail} (hc : c.vanishes t = true) {source r : Relation}
    (h : select { c with condition := some (never c.condition) } t source = .ok r) :
    r.rows = [] := by
  rw [select_eq] at h
  obtain ⟨rest, hrest, h⟩ := bind_eq_ok.mp h
  obtain ⟨-, rfl⟩ := filtered_eq_ok_iff.mp hrest
  obtain ⟨output, -, h⟩ := bind_eq_ok.mp h
  rw [keyedRows_nil (c := { c with condition := some (never c.condition) }) hc
    (kept_never c.condition source), ok_bind, Except.ok.injEq] at h
  subst h
  apply List.eq_nil_iff_forall_not_mem.mpr
  intro row hrow
  obtain ⟨x, hx, -⟩ := mem_applyTail hrow
  split at hx
  · exact List.not_mem_nil (mem_dedup hx)
  · cases hx

end Relation

namespace Sql

/-- An emptied query has no rows if it vanishes. -/
theorem Query.rows_emptied {db : Catalog} {q : Query} (hq : q.vanishes = true) {r : Relation}
    (h : q.emptied.run db = .ok r) : r.rows = [] := by
  revert r
  revert hq
  apply (Query.induct (P := fun q => q.vanishes = true → ∀ {r}, q.emptied.run db = .ok r →
    r.rows = []) (S := fun _ => True) ?_ ?_ ?_ ?_ ?_ ?_ ?_).1 q
  · intro source c t _ hc r h
    rw [Query.emptied, Query.run] at h
    obtain ⟨s, -, h⟩ := bind_eq_ok.mp h
    exact Relation.select_never hc h
  · intro l r all t hl hr hv u h
    rw [Query.vanishes, Bool.and_eq_true] at hv
    rw [Query.emptied, Query.run] at h
    obtain ⟨a, ha, h⟩ := bind_eq_ok.mp h
    obtain ⟨b, hb, h⟩ := bind_eq_ok.mp h
    exact (Relation.union_spec h).2 (hl hv.1 ha) (hr hv.2 hb)
  · intro q hq hv r h
    rw [Query.vanishes] at hv
    rw [Query.emptied, Query.run] at h
    exact hq hv h
  all_goals intros; trivial

/-! ## Empty relations in place of idle branches -/

/-- The empty relation with the columns of a query. -/
def Query.vacant (db : Catalog) (q : Query) : Except Fault Relation := do
  let columns ← q.header db
  return ⟨columns, []⟩

mutual

/-- The result of a query within bounds with an empty relation in place of each idle branch. -/
def Query.runVacant (s : Marks) (a : Option Advance) (db : Catalog) :
    Query → Except Fault Relation
  | .select source c t => do
    let r ← FromItem.runVacantList s a db .unit source
    r.select { c with condition := (s.restrict (scopeTables source)).bound a c.condition } t
  | .union l r all t =>
    (if isIdle a (.union l r all t) l then l.vacant db else Query.runVacant s a db l) >>= fun x =>
      (if isIdle a (.union l r all t) r then r.vacant db else Query.runVacant s a db r) >>= fun y =>
        Relation.union all t x y
  | .paren q => Query.runVacant s a db q

/-- The rows of a source item with the idle branches of its subqueries empty. -/
def FromItem.runVacant (s : Marks) (a : Option Advance) (db : Catalog) :
    FromItem → Except Fault Relation
  | .table name al => Relation.fromTable db name al
  | .subquery q al => do
    let r ← Query.runVacant s a db q
    return r.qualified al
  | .paren items => FromItem.runVacantList s a db .unit items
  | .join k l r on => do
    let x ← FromItem.runVacant s a db l
    let y ← FromItem.runVacant s a db r
    Relation.join k on x y

/-- The rows of a list of source items, each combined with all before it. -/
def FromItem.runVacantList (s : Marks) (a : Option Advance) (db : Catalog) (acc : Relation) :
    List FromItem → Except Fault Relation
  | [] => .ok acc
  | x :: r => do
    let b ← FromItem.runVacant s a db x
    FromItem.runVacantList s a db (acc.cross b) r

end

mutual

/-- Whether every idle branch of a union in a query vanishes. -/
def Query.idleVanish (a : Option Advance) : Query → Bool
  | .select source _ _ => FromItem.idleVanishList a source
  | .union l r all t =>
    (!isIdle a (.union l r all t) l || l.vanishes) &&
      (!isIdle a (.union l r all t) r || r.vanishes) &&
      Query.idleVanish a l && Query.idleVanish a r
  | .paren q => Query.idleVanish a q

/-- Whether every idle branch of a union in a source item vanishes. -/
def FromItem.idleVanish (a : Option Advance) : FromItem → Bool
  | .table _ _ => true
  | .subquery q _ => Query.idleVanish a q
  | .paren items => FromItem.idleVanishList a items
  | .join _ l r _ => FromItem.idleVanish a l && FromItem.idleVanish a r

/-- Whether every idle branch of a union in a list of source items vanishes. -/
def FromItem.idleVanishList (a : Option Advance) : List FromItem → Bool
  | [] => true
  | x :: r => FromItem.idleVanish a x && FromItem.idleVanishList a r

end

section
variable {db : Catalog} {s : Marks} {a : Option Advance}

/-- A branch that is emptied if it is idle gives the rows of the branch or no rows. -/
theorem Query.branch_vacant {branch : Query} {idle : Bool}
    (hv : (!idle || branch.vanishes) = true)
    (ih : ∀ r, (branch.bounded s a).run db = .ok r → branch.runVacant s a db = .ok r)
    {r : Relation}
    (h : (if idle then (branch.bounded s a).emptied else branch.bounded s a).run db = .ok r) :
    (if idle then branch.vacant db else branch.runVacant s a db) = .ok r := by
  cases idle with
  | false => exact ih r h
  | true =>
      have hheader : branch.header db = .ok r.columns := by
        rw [← (header_bounded db s a).1 branch, ← Query.header_emptied]
        exact Query.header_of_run h
      have hrows : r.rows = [] := by
        apply Query.rows_emptied _ h
        rw [Query.vanishes_bounded]
        exact hv
      rw [if_pos rfl, Query.vacant, hheader, ← hrows]
      rfl

theorem FromItem.runVacantList_of_bounded {xs : List FromItem}
    (ih : ∀ x ∈ xs, x.idleVanish a = true →
      ∀ r, (x.bounded s a).run db = .ok r → x.runVacant s a db = .ok r)
    (hv : FromItem.idleVanishList a xs = true) {acc r : Relation}
    (h : FromItem.runList db acc (FromItem.boundedList s a xs) = .ok r) :
    FromItem.runVacantList s a db acc xs = .ok r := by
  induction xs generalizing acc with
  | nil =>
      rw [FromItem.boundedList, FromItem.runList] at h
      rw [FromItem.runVacantList, h]
  | cons x xs hxs =>
      rw [FromItem.idleVanishList, Bool.and_eq_true] at hv
      rw [FromItem.boundedList, FromItem.runList] at h
      obtain ⟨b, hb, h⟩ := bind_eq_ok.mp h
      rw [FromItem.runVacantList, ih x List.mem_cons_self hv.1 b hb, ok_bind]
      exact hxs (fun y hy => ih y (List.mem_cons_of_mem _ hy)) hv.2 h

theorem runVacant_of_bounded :
    (∀ q : Query, q.idleVanish a = true →
        ∀ r, (q.bounded s a).run db = .ok r → q.runVacant s a db = .ok r) ∧
      ∀ x : FromItem, x.idleVanish a = true →
        ∀ r, (x.bounded s a).run db = .ok r → x.runVacant s a db = .ok r := by
  apply Query.induct
  · intro source c t ih hv r h
    rw [Query.idleVanish] at hv
    rw [Query.bounded, Query.run] at h
    obtain ⟨u, hu, h⟩ := bind_eq_ok.mp h
    rw [Query.runVacant, FromItem.runVacantList_of_bounded ih hv hu, ok_bind]
    exact h
  · intro l r all t hl hr hv u h
    rw [Query.idleVanish, Bool.and_eq_true, Bool.and_eq_true, Bool.and_eq_true] at hv
    obtain ⟨⟨⟨hvl, hvr⟩, hil⟩, hir⟩ := hv
    rw [Query.bounded, Query.run] at h
    obtain ⟨x, hx, h⟩ := bind_eq_ok.mp h
    obtain ⟨y, hy, h⟩ := bind_eq_ok.mp h
    rw [Query.runVacant, Query.branch_vacant hvl (hl hil) hx, ok_bind,
      Query.branch_vacant hvr (hr hir) hy, ok_bind]
    exact h
  · intro q hq hv r h
    rw [Query.idleVanish] at hv
    rw [Query.bounded, Query.run] at h
    rw [Query.runVacant]
    exact hq hv r h
  · intro name al _ r h
    rw [FromItem.bounded, FromItem.run] at h
    rw [FromItem.runVacant, h]
  · intro q al hq hv r h
    rw [FromItem.idleVanish] at hv
    rw [FromItem.bounded, FromItem.run] at h
    obtain ⟨u, hu, h⟩ := bind_eq_ok.mp h
    rw [FromItem.runVacant, hq hv u hu]
    exact h
  · intro xs ih hv r h
    rw [FromItem.idleVanish] at hv
    rw [FromItem.bounded, FromItem.run] at h
    rw [FromItem.runVacant]
    exact FromItem.runVacantList_of_bounded ih hv h
  · intro k l r on hl hr hv u h
    rw [FromItem.idleVanish, Bool.and_eq_true] at hv
    rw [FromItem.bounded, FromItem.run] at h
    obtain ⟨x, hx, h⟩ := bind_eq_ok.mp h
    obtain ⟨y, hy, h⟩ := bind_eq_ok.mp h
    rw [FromItem.runVacant, hl hv.1 x hx, ok_bind, hr hv.2 y hy, ok_bind]
    exact h

end

/-- A union gives what it gives with empty relations in place of its idle branches, if each of these
vanishes: no SELECT of it has aggregates or a condition on groups, but no keys. -/
theorem Query.idle_branches_vacant {db : Catalog} {s : Marks} {x : Advance} {q : Query}
    (hq : q.idleVanish (some x) = true) {r : Relation}
    (h : (q.bounded s (some x)).run db = .ok r) : q.runVacant s (some x) db = .ok r :=
  runVacant_of_bounded.1 q hq r h

/-- The column `v` of a table. -/
def valuesOf (table : String) : Query :=
  .select [.table table none] ⟨false, [.expr (.column ⟨none, "v"⟩) none], none, [], none⟩ .empty

/-- The number of rows of a table for each group. -/
def countsOf (table : String) (keys : List Expr) : Query :=
  .select [.table table none] ⟨false, [.expr (.aggregateAll .count false) none], none, keys, none⟩
    .empty

/-- Two tables with a row each. -/
def pairOfTables : Catalog :=
  ⟨[("a", ⟨"a", [.rowtime, ⟨"v", .integer, true, false, false, none⟩],
      [[.integer 20, .integer 1]], 0, 20⟩),
    ("b", ⟨"b", [.rowtime, ⟨"v", .integer, true, false, false, none⟩],
      [[.integer 10, .integer 7]], 0, 10⟩)]⟩

/-- The marks of both tables. -/
def pairOfMarks : Marks := ⟨[(⟨"a", none⟩, 20), (⟨"b", none⟩, 10)]⟩

/-- Counts by a key vanish. -/
theorem Query.idle_branches_vacant_grouped :
    ∃ r, ((Query.union (valuesOf "a") (countsOf "b" [.column ⟨none, "v"⟩]) true .empty).bounded
        pairOfMarks (some ⟨⟨"a", none⟩, 10⟩)).run pairOfTables = .ok r ∧
      (Query.union (valuesOf "a") (countsOf "b" [.column ⟨none, "v"⟩]) true .empty).runVacant
        pairOfMarks (some ⟨⟨"a", none⟩, 10⟩) pairOfTables = .ok r ∧
      r.rows = [[.integer 1]] := by
  have hrun : ((Query.union (valuesOf "a") (countsOf "b" [.column ⟨none, "v"⟩]) true .empty).bounded
      pairOfMarks (some ⟨⟨"a", none⟩, 10⟩)).run pairOfTables =
        .ok ⟨[⟨none, "v"⟩], [[.integer 1]]⟩ := by decide +kernel
  exact ⟨_, hrun, Query.idle_branches_vacant (by decide +kernel) hrun, rfl⟩

/-- A count without keys is still there when its branch is emptied: it is zero. -/
theorem Query.idle_branch_counted :
    ((Query.union (valuesOf "a") (countsOf "b" []) true .empty).bounded
        pairOfMarks (some ⟨⟨"a", none⟩, 10⟩)).run pairOfTables =
        .ok ⟨[⟨none, "v"⟩], [[.integer 1], [.integer 0]]⟩ ∧
      (Query.union (valuesOf "a") (countsOf "b" []) true .empty).runVacant
        pairOfMarks (some ⟨⟨"a", none⟩, 10⟩) pairOfTables =
        .ok ⟨[⟨none, "v"⟩], [[.integer 1]]⟩ := by
  decide +kernel

end Sql

end Rowtime
