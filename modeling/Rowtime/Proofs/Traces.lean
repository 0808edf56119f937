import Mathlib.Data.List.Perm.Basic
import Rowtime.Proofs.Bounded

/-!
# Where the rows of a query come from

A plain query neither groups rows nor leaves any out: it is made of tables, inner
joins, subqueries and UNION ALL, and at most orders its rows. Each of its result rows
comes from one row of each table on the way, and from one branch of each union. The
trace of a query lists the result rows with the row times of those table rows and the
unions that were passed; it has a row for every combination of table rows on which the
conditions hold, so a row that occurs twice in a result is there twice.

A trace through windows is the part of the trace with its row times in the windows,
and emptying idle branches leaves the part that passed through no idle branch. The
result of a plain query, if it has one, has the rows of its trace in some order.
-/
namespace Rowtime

open Sql

/-- A result row with the row times that it comes from, and the tables of every union that it
passed beside those of the branch. -/
structure Traced extends Stamped where
  choices : List (List TableRef × List TableRef)

namespace Traced

/-- Two rows side by side. -/
def append (x y : Traced) : Traced :=
  ⟨x.toStamped.append y.toStamped, x.choices ++ y.choices⟩

/-- The row in another form. -/
def withRow (x : Traced) (row : Row) : Traced := { x with row := row }

/-- The row behind a union. -/
def through (x : Traced) (union branch : List TableRef) : Traced :=
  { x with choices := (union, branch) :: x.choices }

/-- Whether the row passed no branch that is idle when a table advances. -/
def isActive (x : Traced) (t : TableRef) : Bool :=
  x.choices.all fun c => !t.isIn c.1 || t.isIn c.2

end Traced

/-- Columns with traced rows. -/
structure Trace where
  columns : List Binding
  rows : List Traced

namespace Trace

/-- The relation without the traces. -/
def relation (a : Trace) : Relation := ⟨a.columns, a.rows.map (·.row)⟩

/-- One row without columns. -/
def unit : Trace := ⟨[], [⟨⟨[], []⟩, []⟩]⟩

/-- Every row of the first with every row of the second. -/
def cross (a b : Trace) : Trace :=
  ⟨a.columns ++ b.columns, a.rows.flatMap fun x => b.rows.map fun y => x.append y⟩

/-- The rows on which a condition holds. -/
def kept (condition : Option Expr) (a : Trace) : Trace :=
  ⟨a.columns, a.rows.filter (passes fun x => holdsIn condition (.ofRow a.columns x.row))⟩

/-- The columns under one qualifier. -/
def qualified (q : Option String) (a : Trace) : Trace :=
  ⟨a.columns.map fun b => ⟨q, b.name⟩, a.rows⟩

/-- The part whose rows pass. -/
def part (p : Traced → Bool) (a : Trace) : Trace := ⟨a.columns, a.rows.filter p⟩

/-- The output columns of a projection, none where it fails. -/
def outputColumns (items : List SelectItem) (columns : List Binding) : List Binding :=
  match Relation.outputColumns items columns with
  | .ok bs => bs
  | .error _ => []

/-- The output row of a projection, without values where it fails. -/
def outputRow (items : List SelectItem) (ctx : Context) : Row :=
  match Relation.project items ctx with
  | .ok row => row
  | .error _ => []

/-- The rows in the form that a projection gives them. -/
def project (items : List SelectItem) (a : Trace) : Trace :=
  ⟨outputColumns items a.columns,
    a.rows.map fun x => x.withRow (outputRow items (.ofRow a.columns x.row))⟩

/-- The rows behind a branch of a union. -/
def through (union branch : List TableRef) (a : Trace) : Trace :=
  ⟨a.columns, a.rows.map fun x => x.through union branch⟩

/-- The rows of two branches, with the names of the columns of the first. -/
def append (a b : Trace) : Trace := ⟨a.columns.map fun c => ⟨none, c.name⟩, a.rows ++ b.rows⟩

end Trace

/-- The rows of an occurrence with their row times. -/
def Source.trace (src : Source) (t : TableRef) : Trace :=
  match src t with
  | some table =>
    ⟨(Relation.ofTable t.qualifier table).columns,
      table.rows.map fun row => ⟨⟨row, [(t, table.stamp row)]⟩, []⟩⟩
  | none => ⟨[], []⟩

namespace Sql

mutual

/-- The trace of a query over a source. -/
def Query.trace (src : Source) : Query → Trace
  | .select source c _ =>
    ((FromItem.traceList src .unit source).kept c.condition).project c.projection
  | .union l r all t =>
    let tables := (Query.union l r all t).tables
    ((Query.trace src l).through tables l.tables).append ((Query.trace src r).through tables r.tables)
  | .paren q => Query.trace src q

/-- The trace of a source item. -/
def FromItem.trace (src : Source) : FromItem → Trace
  | .table name a => src.trace ⟨name, a⟩
  | .subquery q a => (Query.trace src q).qualified a
  | .paren items => FromItem.traceList src .unit items
  | .join _ l r on => ((FromItem.trace src l).cross (FromItem.trace src r)).kept on

/-- The trace of a list of source items, each combined with all before it. -/
def FromItem.traceList (src : Source) (acc : Trace) : List FromItem → Trace
  | [] => acc
  | x :: r => FromItem.traceList src (acc.cross (FromItem.trace src x)) r

end

/-- Whether the closing clauses at most order the rows. -/
def Tail.isWhole (t : Tail) : Bool := t.limit.isNone && t.offset.isNone

mutual

/-- Whether a query neither groups rows nor leaves any out. -/
def Query.isPlain : Query → Bool
  | .select source c t =>
    FromItem.isPlainList source && !c.distinct && !Relation.isGrouped c t && t.isWhole
  | .union l r all t => all && t.isWhole && l.isPlain && r.isPlain
  | .paren q => q.isPlain

/-- Whether a source item is made of tables, inner joins and plain subqueries. -/
def FromItem.isPlain : FromItem → Bool
  | .table _ _ => true
  | .subquery q _ => q.isPlain
  | .paren items => FromItem.isPlainList items
  | .join k l r _ => (k == .inner || k == .cross) && l.isPlain && r.isPlain

/-- Whether all source items are. -/
def FromItem.isPlainList : List FromItem → Bool
  | [] => true
  | x :: r => x.isPlain && FromItem.isPlainList r

end

theorem FromItem.isPlainList_iff {xs : List FromItem} :
    FromItem.isPlainList xs = true ↔ ∀ x ∈ xs, x.isPlain = true := by
  induction xs with
  | nil => simp [FromItem.isPlainList]
  | cons x xs ih => simp [FromItem.isPlainList, ih]

theorem FromItem.traceList_nil (src : Source) (acc : Trace) :
    FromItem.traceList src acc [] = acc := by
  rw [FromItem.traceList]

theorem FromItem.traceList_cons (src : Source) (acc : Trace) (x : FromItem) (xs : List FromItem) :
    FromItem.traceList src acc (x :: xs) = FromItem.traceList src (acc.cross (x.trace src)) xs := by
  rw [FromItem.traceList]

/-- A plain query has no outer joins. -/
theorem isInner_of_isPlain : (∀ q : Query, q.isPlain = true → q.isInner = true) ∧
    ∀ x : FromItem, x.isPlain = true → x.isInner = true := by
  refine Query.induct ?_ ?_ ?_ ?_ ?_ ?_ ?_
  · intro source c t ih h
    simp only [Query.isPlain, Bool.and_eq_true, FromItem.isPlainList_iff] at h
    rw [Query.isInner, FromItem.isInnerList_iff]
    exact fun x hx => ih x hx (h.1.1.1 x hx)
  · intro l r all t hl hr h
    simp only [Query.isPlain, Bool.and_eq_true] at h
    rw [Query.isInner, hl h.1.2, hr h.2]
    rfl
  · intro q hq h
    rw [Query.isPlain] at h
    rw [Query.isInner, hq h]
  · intro name a _
    rw [FromItem.isInner]
  · intro q a hq h
    rw [FromItem.isPlain] at h
    rw [FromItem.isInner, hq h]
  · intro xs ih h
    rw [FromItem.isPlain, FromItem.isPlainList_iff] at h
    rw [FromItem.isInner, FromItem.isInnerList_iff]
    exact fun x hx => ih x hx (h x hx)
  · intro k l r on hl hr h
    simp only [FromItem.isPlain, Bool.and_eq_true] at h
    rw [FromItem.isInner, h.1.1, hl h.1.2, hr h.2]
    rfl

end Sql

/-! ## The result is the trace -/

namespace Trace

@[simp] theorem relation_unit : unit.relation = Relation.unit := rfl

theorem relation_cross (a b : Trace) : (a.cross b).relation = a.relation.cross b.relation := by
  simp only [relation, cross, Relation.cross, List.map_flatMap, List.flatMap_map, List.map_map]
  rfl

theorem relation_kept (condition : Option Expr) (a : Trace) :
    (a.kept condition).relation = Relation.kept condition a.relation := by
  simp only [relation, kept, Relation.kept, List.filter_map]
  rfl

theorem relation_qualified (q : Option String) (a : Trace) :
    (a.qualified q).relation = a.relation.qualified q := rfl

theorem relation_through (union branch : List TableRef) (a : Trace) :
    (a.through union branch).relation = a.relation := by
  simp only [relation, through, List.map_map]
  rfl

end Trace

namespace Relation

/-- The same columns, and the same rows in some order. -/
structure Like (r s : Relation) : Prop where
  columns : r.columns = s.columns
  rows : r.rows.Perm s.rows

theorem Like.refl (r : Relation) : r.Like r := ⟨rfl, .refl _⟩

theorem Like.cross {a b c d : Relation} (h : a.Like b) (k : c.Like d) :
    (a.cross c).Like (b.cross d) := by
  refine ⟨by simp only [Relation.cross, h.columns, k.columns], ?_⟩
  exact List.Perm.flatMap h.rows fun _ _ => k.rows.map _

theorem Like.kept {a b : Relation} (h : a.Like b) (condition : Option Expr) :
    (Relation.kept condition a).Like (Relation.kept condition b) := by
  refine ⟨h.columns, ?_⟩
  simp only [Relation.kept, h.columns]
  exact h.rows.filter _

theorem Like.qualified {a b : Relation} (h : a.Like b) (q : Option String) :
    (a.qualified q).Like (b.qualified q) :=
  ⟨by simp only [Relation.qualified, h.columns], h.rows⟩

theorem applyTail_empty (rows : List KeyedRow) : applyTail .empty rows = rows.map (·.row) := rfl

theorem sortRows_perm (orders : List SortOrder) (rows : List KeyedRow) :
    (sortRows orders rows).Perm rows := by
  unfold sortRows
  split
  · exact .refl _
  · exact stableSort_perm _ _

theorem applyTail_perm {t : Tail} (h : t.isWhole = true) (rows : List KeyedRow) :
    (applyTail t rows).Perm (rows.map (·.row)) := by
  rw [Tail.isWhole, Bool.and_eq_true, Option.isNone_iff_eq_none, Option.isNone_iff_eq_none] at h
  rw [applyTail, h.1, h.2]
  exact (sortRows_perm _ _).map _

/-- Output rows are the projected rows. -/
theorem map_row_of_collect {c : Clauses} {t : Tail} {output columns : List Binding} {source : List Row}
    {rows : List KeyedRow}
    (h : collect (fun row => outputRow c t output (.ofRow columns row)) source = .ok rows) :
    rows.map (·.row) = source.map fun row => Trace.outputRow c.projection (.ofRow columns row) := by
  have hall := collect_eq_ok_iff.mp h
  clear h
  induction hall with
  | nil => rfl
  | @cons row x as bs hx _ ih =>
      rw [List.map_cons, List.map_cons, ih]
      congr 1
      obtain ⟨projected, hp, hx⟩ := bind_eq_ok.mp hx
      obtain ⟨keys, -, hx⟩ := bind_eq_ok.mp hx
      rw [pure_eq_ok] at hx
      rw [← hx, Trace.outputRow, hp]

/-- The rows that a projection gives. -/
def projected (items : List SelectItem) (a : Relation) : Relation :=
  ⟨Trace.outputColumns items a.columns,
    a.rows.map fun row => Trace.outputRow items (.ofRow a.columns row)⟩

theorem Like.projected {a b : Relation} (h : a.Like b) (items : List SelectItem) :
    (Relation.projected items a).Like (Relation.projected items b) := by
  simp only [Relation.projected, h.columns]
  exact ⟨rfl, h.rows.map _⟩

/-- A SELECT without grouping and duplicates gives its kept rows one by one, and orders them. -/
theorem selectKept_plain {c : Clauses} {t : Tail} (hd : c.distinct = false)
    (hg : isGrouped c t = false) {kept r : Relation} (h : selectKept c t kept = .ok r) :
    ∃ rows : List KeyedRow, rows.map (·.row) = (kept.projected c.projection).rows ∧
      r = ⟨(kept.projected c.projection).columns, applyTail t rows⟩ := by
  obtain ⟨output, ho, h⟩ := bind_eq_ok.mp h
  obtain ⟨rows, hr, h⟩ := bind_eq_ok.mp h
  rw [keyedRows, hg] at hr
  simp only [Bool.false_eq_true, if_false] at hr
  rw [hd, Except.ok.injEq] at h
  simp only [Bool.false_eq_true, if_false] at h
  refine ⟨rows, map_row_of_collect hr, ?_⟩
  rw [← h, projected, Trace.outputColumns, ho]

theorem Like.selectKept {c : Clauses} {t : Tail} (hd : c.distinct = false)
    (hg : isGrouped c t = false) (ht : t.isWhole = true) {kept r : Relation}
    (h : Relation.selectKept c t kept = .ok r) : r.Like (kept.projected c.projection) := by
  obtain ⟨rows, hrows, rfl⟩ := selectKept_plain hd hg h
  exact ⟨rfl, hrows ▸ applyTail_perm ht rows⟩

/-- The rows of two branches, with the names of the columns of the first. -/
def append (a b : Relation) : Relation := ⟨a.columns.map fun c => ⟨none, c.name⟩, a.rows ++ b.rows⟩

theorem Like.append {a b c d : Relation} (h : a.Like b) (k : c.Like d) :
    (a.append c).Like (b.append d) :=
  ⟨by simp only [Relation.append, h.columns], h.rows.append k.rows⟩

theorem Like.union {t : Tail} (ht : t.isWhole = true) {a b r : Relation}
    (h : Relation.union true t a b = .ok r) : r.Like (a.append b) := by
  rw [Relation.union] at h
  split at h
  · cases h
  · obtain ⟨rows, hr, h⟩ := bind_eq_ok.mp h
    rw [pure_eq_ok, if_pos rfl] at h
    have hrows : rows.map (·.row) = a.rows ++ b.rows := by
      generalize a.rows ++ b.rows = source at hr
      have hall := collect_eq_ok_iff.mp hr
      clear hr h
      induction hall with
      | nil => rfl
      | @cons row x as bs hx _ ih =>
          obtain ⟨keys, -, hx⟩ := bind_eq_ok.mp hx
          rw [pure_eq_ok] at hx
          rw [List.map_cons, ih, ← hx]
    rw [← h]
    refine ⟨rfl, ?_⟩
    change List.Perm _ (a.rows ++ b.rows)
    exact hrows ▸ applyTail_perm ht rows

theorem Like.trans {a b c : Relation} (h : a.Like b) (k : b.Like c) : a.Like c :=
  ⟨h.columns.trans k.columns, h.rows.trans k.rows⟩

end Relation

theorem Relation.fromSource_trace {src : Source} {t : TableRef} (hd : t.isDual = false)
    {r : Relation} (h : Relation.fromSource src t = .ok r) : r = (src.trace t).relation := by
  unfold Relation.fromSource at h
  unfold Source.trace
  cases hs : src t with
  | none => simp [hs, hd] at h
  | some table =>
      rw [hs, Except.ok.injEq] at h
      rw [← h]
      simp only [Trace.relation, List.map_map, Function.comp_def, List.map_id']
      rfl

namespace Trace

theorem relation_project (items : List SelectItem) (a : Trace) :
    (a.project items).relation = a.relation.projected items := by
  simp only [relation, project, Relation.projected, List.map_map]
  rfl

theorem relation_append (a b : Trace) : (a.append b).relation = a.relation.append b.relation := by
  simp only [relation, append, Relation.append, List.map_append]

end Trace

namespace Sql

/-- The trace depends on the occurrences only. -/
theorem trace_congr {src src' : Source} :
    (∀ q : Query, (∀ t ∈ q.occurrences, src t = src' t) → q.trace src = q.trace src') ∧
      ∀ x : FromItem, (∀ t ∈ x.occurrences, src t = src' t) → x.trace src = x.trace src' := by
  have hlist : ∀ xs : List FromItem,
      (∀ x ∈ xs, (∀ t ∈ x.occurrences, src t = src' t) → x.trace src = x.trace src') →
      (∀ t ∈ FromItem.occurrencesList xs, src t = src' t) →
      ∀ acc, FromItem.traceList src acc xs = FromItem.traceList src' acc xs := by
    intro xs ih h
    induction xs with
    | nil =>
        intro acc
        rw [FromItem.traceList_nil, FromItem.traceList_nil]
    | cons x xs hxs =>
        intro acc
        simp only [FromItem.occurrencesList, List.forall_mem_append] at h
        rw [FromItem.traceList_cons, FromItem.traceList_cons, ih x (by simp) h.1]
        exact hxs (fun y hy => ih y (by simp [hy])) h.2 _
  refine Query.induct ?_ ?_ ?_ ?_ ?_ ?_ ?_
  · intro source c t ih h
    rw [Query.occurrences] at h
    rw [Query.trace, Query.trace, hlist source ih h]
  · intro l r all t hl hr h
    simp only [Query.occurrences, List.forall_mem_append] at h
    rw [Query.trace, Query.trace, hl h.1, hr h.2]
  · intro q hq h
    rw [Query.occurrences] at h
    rw [Query.trace, Query.trace, hq h]
  · intro name a h
    simp only [FromItem.occurrences, List.mem_singleton, forall_eq] at h
    rw [FromItem.trace, FromItem.trace, Source.trace, Source.trace, h]
  · intro q a h k
    rw [FromItem.occurrences] at k
    rw [FromItem.trace, FromItem.trace, h k]
  · intro xs ih h
    rw [FromItem.occurrences] at h
    rw [FromItem.trace, FromItem.trace, hlist xs ih h]
  · intro k l r on hl hr h
    simp only [FromItem.occurrences, List.forall_mem_append] at h
    rw [FromItem.trace, FromItem.trace, hl h.1, hr h.2]

/-- The result of a plain query on tables has the rows of its trace. -/
theorem runOn_trace (src : Source) :
    (∀ q : Query, q.isPlain = true → (∀ t ∈ q.occurrences, t.isDual = false) →
      ∀ r, q.runOn src = .ok r → r.Like (q.trace src).relation) ∧
    ∀ x : FromItem, x.isPlain = true → (∀ t ∈ x.occurrences, t.isDual = false) →
      ∀ r, x.runOn src = .ok r → r.Like (x.trace src).relation := by
  have hlist : ∀ xs : List FromItem, FromItem.isPlainList xs = true →
      (∀ t ∈ FromItem.occurrencesList xs, t.isDual = false) →
      (∀ x ∈ xs, x.isPlain = true → (∀ t ∈ x.occurrences, t.isDual = false) →
        ∀ r, x.runOn src = .ok r → r.Like (x.trace src).relation) →
      ∀ (acc : Trace) (acc' : Relation), acc'.Like acc.relation → ∀ r,
        FromItem.runListOn src acc' xs = .ok r →
        r.Like (FromItem.traceList src acc xs).relation := by
    intro xs hp hd ih
    induction xs with
    | nil =>
        intro acc acc' hacc r h
        rw [FromItem.runListOn_nil, Except.ok.injEq] at h
        rw [FromItem.traceList_nil, ← h]
        exact hacc
    | cons x xs hxs =>
        intro acc acc' hacc r h
        rw [FromItem.isPlainList, Bool.and_eq_true] at hp
        simp only [FromItem.occurrencesList, List.forall_mem_append] at hd
        rw [FromItem.runListOn_cons] at h
        obtain ⟨b, hb, h⟩ := bind_eq_ok.mp h
        rw [FromItem.traceList_cons]
        refine hxs hp.2 hd.2 (fun y hy => ih y (by simp [hy])) _ _ ?_ r h
        rw [Trace.relation_cross]
        exact hacc.cross (ih x (by simp) hp.1 hd.1 b hb)
  refine Query.induct ?_ ?_ ?_ ?_ ?_ ?_ ?_
  · intro source c t ih hp hd r h
    simp only [Query.isPlain, Bool.and_eq_true, Bool.not_eq_true'] at hp
    obtain ⟨⟨⟨hps, hdist⟩, hg⟩, ht⟩ := hp
    rw [Query.occurrences] at hd
    rw [Query.runOn] at h
    obtain ⟨s, hs, h⟩ := bind_eq_ok.mp h
    have hlike := hlist source hps hd ih .unit _ (.refl _) s hs
    rw [Relation.select_eq] at h
    obtain ⟨kept, hk, h⟩ := bind_eq_ok.mp h
    obtain ⟨-, rfl⟩ := Relation.filtered_eq_ok_iff.mp hk
    rw [Query.trace, Trace.relation_project, Trace.relation_kept]
    exact (Relation.Like.selectKept hdist hg ht h).trans ((hlike.kept _).projected _)
  · intro l r all t hl hr hp hd u h
    simp only [Query.isPlain, Bool.and_eq_true] at hp
    obtain ⟨⟨⟨rfl, ht⟩, hpl⟩, hpr⟩ := hp
    simp only [Query.occurrences, List.forall_mem_append] at hd
    rw [Query.runOn] at h
    obtain ⟨a, ha, h⟩ := bind_eq_ok.mp h
    obtain ⟨b, hb, h⟩ := bind_eq_ok.mp h
    rw [Query.trace, Trace.relation_append, Trace.relation_through, Trace.relation_through]
    exact (Relation.Like.union ht h).trans ((hl hpl hd.1 a ha).append (hr hpr hd.2 b hb))
  · intro q hq hp hd r h
    rw [Query.isPlain] at hp
    rw [Query.occurrences] at hd
    rw [Query.runOn] at h
    rw [Query.trace]
    exact hq hp hd r h
  · intro name a _ hd r h
    simp only [FromItem.occurrences, List.mem_singleton, forall_eq] at hd
    rw [FromItem.runOn] at h
    rw [FromItem.trace, Relation.fromSource_trace hd h]
    exact .refl _
  · intro q a hq hp hd r h
    rw [FromItem.isPlain] at hp
    rw [FromItem.occurrences] at hd
    rw [FromItem.runOn] at h
    obtain ⟨b, hb, h⟩ := bind_eq_ok.mp h
    rw [pure_eq_ok] at h
    rw [← h, FromItem.trace, Trace.relation_qualified]
    exact (hq hp hd b hb).qualified a
  · intro xs ih hp hd r h
    rw [FromItem.isPlain] at hp
    rw [FromItem.occurrences] at hd
    rw [FromItem.runOn] at h
    rw [FromItem.trace]
    exact hlist xs hp hd ih .unit _ (.refl _) r h
  · intro k l r on hl hr hp hd u h
    simp only [FromItem.isPlain, Bool.and_eq_true] at hp
    obtain ⟨⟨hk, hpl⟩, hpr⟩ := hp
    simp only [FromItem.occurrences, List.forall_mem_append] at hd
    rw [FromItem.runOn] at h
    obtain ⟨a, ha, h⟩ := bind_eq_ok.mp h
    obtain ⟨b, hb, h⟩ := bind_eq_ok.mp h
    rw [Relation.join_inner hk] at h
    obtain ⟨-, rfl⟩ := Relation.filtered_eq_ok_iff.mp h
    rw [FromItem.trace, Trace.relation_kept, Trace.relation_cross]
    exact ((hl hpl hd.1 a ha).cross (hr hpr hd.2 b hb)).kept on

end Sql

/-! ## Traces through windows -/

/-- The source through windows. -/
def Source.within (src : Source) (p : TableRef → Int64 → Bool) : Source :=
  fun t => (src t).map (Table.within (p t))

namespace Trace

variable {p : Traced → Bool}

/-- A test that looks at the row times and choices, row by row. -/
structure Splits (p : Traced → Bool) : Prop where
  unit : p ⟨⟨[], []⟩, []⟩ = true
  append : ∀ x y : Traced, p (x.append y) = (p x && p y)
  withRow : ∀ (x : Traced) row, p (x.withRow row) = p x

theorem part_unit (hp : Splits p) : unit.part p = unit := by
  rw [part, unit, List.filter_cons, hp.unit]
  rfl

theorem part_cross (hp : Splits p) (a b : Trace) :
    (a.cross b).part p = (a.part p).cross (b.part p) := by
  have hrow : ∀ x : Traced, (b.rows.map fun y => x.append y).filter p =
      if p x then (b.rows.filter p).map fun y => x.append y else [] := by
    intro x
    rw [List.filter_map]
    cases hx : p x <;> simp [Function.comp_def, hp.append, hx]
  simp only [part, cross, List.filter_flatMap, hrow]
  congr 1
  induction a.rows with
  | nil => rfl
  | cons x xs ih =>
      rw [List.flatMap_cons, ih, List.filter_cons]
      cases p x <;> simp

theorem part_kept (condition : Option Expr) (a : Trace) :
    (a.kept condition).part p = (a.part p).kept condition := by
  simp only [part, kept, List.filter_filter, Bool.and_comm]

theorem part_qualified (q : Option String) (a : Trace) :
    (a.qualified q).part p = (a.part p).qualified q := rfl

theorem part_project (hp : Splits p) (items : List SelectItem) (a : Trace) :
    (a.project items).part p = (a.part p).project items := by
  simp only [part, project, List.filter_map, Function.comp_def, hp.withRow]

theorem part_through {union branch : List TableRef} (hp : ∀ x : Traced, p (x.through union branch) = p x)
    (a : Trace) : (a.through union branch).part p = (a.part p).through union branch := by
  simp only [part, through, List.filter_map, Function.comp_def, hp]

theorem part_append (a b : Trace) : (a.append b).part p = (a.part p).append (b.part p) := by
  simp only [part, append, List.filter_append]

end Trace

theorem Traced.within_splits (p : TableRef → Int64 → Bool) :
    Trace.Splits fun x : Traced => x.within p :=
  ⟨rfl, fun _ _ => List.all_append, fun _ _ => rfl⟩

theorem Source.trace_within (src : Source) (p : TableRef → Int64 → Bool) (t : TableRef) :
    (src.within p).trace t = (src.trace t).part fun x => x.within p := by
  unfold Source.trace Source.within Trace.part
  cases src t with
  | none => rfl
  | some table =>
      have hstamp : ∀ row : Row, Stamped.within p ⟨row, [(t, table.stamp row)]⟩ =
          p t (table.stamp row) := fun row => by simp [Stamped.within]
      simp only [Option.map_some, Table.within_rows, List.filter_map, Function.comp_def, hstamp]
      rfl

namespace Sql

/-- The trace through windows is the part of the trace in the windows. -/
theorem trace_within (src : Source) (p : TableRef → Int64 → Bool) :
    (∀ q : Query, q.trace (src.within p) = (q.trace src).part fun x => x.within p) ∧
      ∀ x : FromItem, x.trace (src.within p) = (x.trace src).part fun x => x.within p := by
  have hp := Traced.within_splits p
  have hlist : ∀ xs : List FromItem,
      (∀ x ∈ xs, x.trace (src.within p) = (x.trace src).part fun x => x.within p) →
      ∀ acc, FromItem.traceList (src.within p) (acc.part fun x => x.within p) xs =
        (FromItem.traceList src acc xs).part fun x => x.within p := by
    intro xs ih
    induction xs with
    | nil =>
        intro acc
        rw [FromItem.traceList_nil, FromItem.traceList_nil]
    | cons x xs hxs =>
        intro acc
        rw [FromItem.traceList_cons, FromItem.traceList_cons, ih x (by simp), ← Trace.part_cross hp]
        exact hxs (fun y hy => ih y (by simp [hy])) _
  refine Query.induct ?_ ?_ ?_ ?_ ?_ ?_ ?_
  · intro source c t ih
    have hs := hlist source ih .unit
    rw [Trace.part_unit hp] at hs
    rw [Query.trace, Query.trace, hs, Trace.part_project hp, Trace.part_kept]
  · intro l r all t hl hr
    have hthrough : ∀ (u b : List TableRef) (x : Traced), (x.through u b).within p = x.within p :=
      fun _ _ _ => rfl
    rw [Query.trace, Query.trace, hl, hr, Trace.part_append, Trace.part_through (hthrough _ _),
      Trace.part_through (hthrough _ _)]
  · intro q hq
    rw [Query.trace, Query.trace, hq]
  · intro name a
    rw [FromItem.trace, FromItem.trace, Source.trace_within]
  · intro q a hq
    rw [FromItem.trace, FromItem.trace, hq, Trace.part_qualified]
  · intro xs ih
    have hs := hlist xs ih .unit
    rw [Trace.part_unit hp] at hs
    rw [FromItem.trace, FromItem.trace, hs]
  · intro k l r on hl hr
    rw [FromItem.trace, FromItem.trace, hl, hr, Trace.part_kept, Trace.part_cross hp]

end Sql

/-! ## Traces of emptied branches -/

theorem Traced.isActive_splits (t : TableRef) : Trace.Splits fun x : Traced => x.isActive t :=
  ⟨rfl, fun _ _ => List.all_append, fun _ _ => rfl⟩

/-- A condition behind which FALSE stands holds nowhere. -/
theorem Trace.kept_never (condition : Option Expr) (a : Trace) :
    (a.kept (some (never condition))).rows = [] := by
  refine List.filter_eq_nil_iff.mpr fun x _ h => ?_
  have hok := eq_ok_of_passes h
  have hfalse : ∀ ctx, (never condition).holds ctx ≠ .ok true := by
    intro ctx hc
    cases condition with
    | none => cases hc
    | some e =>
        rw [never, holds_eq, truthAt_and] at hc
        obtain ⟨t, ht, hc⟩ := bind_eq_ok.mp hc
        obtain ⟨s, -, ht⟩ := bind_eq_ok.mp ht
        split at ht
        · rw [Except.ok.injEq] at ht
          subst ht
          cases hc
        · change Except.ok (Value.andTruth s (some false)) = .ok t at ht
          rw [Except.ok.injEq] at ht
          subst ht
          rcases s with _ | (_ | _) <;> cases hc
  exact hfalse _ hok

namespace Sql

/-- An emptied query has the columns of the query and no rows. -/
theorem Query.trace_emptied (src : Source) (q : Query) :
    q.emptied.trace src = ⟨(q.trace src).columns, []⟩ := by
  refine (Query.induct (P := fun q => q.emptied.trace src = ⟨(q.trace src).columns, []⟩)
    (S := fun _ => True) ?_ ?_ ?_ (fun _ _ => trivial) (fun _ _ _ => trivial) (fun _ _ => trivial)
    (fun _ _ _ _ _ _ => trivial)).1 q
  · intro source c t _
    rw [Query.emptied, Query.trace, Query.trace, Trace.project, Trace.project, Trace.kept_never]
    rfl
  · intro l r all t hl hr
    rw [Query.emptied, Query.trace, Query.trace, hl, hr]
    rfl
  · intro q hq
    rw [Query.emptied, Query.trace, Query.trace, hq]

theorem isIdle_eq (y : Advance) (union branch : Query) :
    isIdle (some y) union branch = !(!y.table.isIn union.tables || y.table.isIn branch.tables) := by
  rw [isIdle, Query.reads, Query.reads]
  cases y.table.isIn union.tables <;> simp

theorem Query.tables_congr {q q' : Query} (h : q.occurrences = q'.occurrences) :
    q.tables = q'.tables := by
  rw [Query.tables, Query.tables, h]

/-- A branch of a union, emptied if it is idle. -/
theorem trace_branch {src : Source} {y : Advance} {union branch : Query}
    (h : (branch.idled (some y)).trace src = (branch.trace src).part (·.isActive y.table)) :
    ((if isIdle (some y) union branch then (branch.idled (some y)).emptied
        else branch.idled (some y)).trace src).through union.tables branch.tables =
      ((branch.trace src).through union.tables branch.tables).part (·.isActive y.table) := by
  have hactive : ∀ x : Traced, (x.through union.tables branch.tables).isActive y.table =
      (!isIdle (some y) union branch && x.isActive y.table) := by
    intro x
    rw [isIdle_eq, Bool.not_not]
    rfl
  cases hi : isIdle (some y) union branch with
  | true =>
      have hnone : ((branch.trace src).through union.tables branch.tables).rows.filter
          (·.isActive y.table) = [] := by
        refine List.filter_eq_nil_iff.mpr fun z hz => ?_
        obtain ⟨x, -, rfl⟩ := List.mem_map.mp hz
        simp [hactive, hi]
      rw [if_pos rfl, Query.trace_emptied, h]
      exact congrArg (Trace.mk _) hnone.symm
  | false =>
      simp only [Bool.false_eq_true, if_false]
      rw [h, Trace.part_through fun x => by rw [hactive, hi]; rfl]

/-- Emptying idle branches leaves the part of the trace that passed through none of them. -/
theorem trace_idled (src : Source) (y : Advance) :
    (∀ q : Query, (q.idled (some y)).trace src = (q.trace src).part (·.isActive y.table)) ∧
      ∀ x : FromItem, (x.idled (some y)).trace src = (x.trace src).part (·.isActive y.table) := by
  have hp := Traced.isActive_splits y.table
  have hlist : ∀ xs : List FromItem,
      (∀ x ∈ xs, (x.idled (some y)).trace src = (x.trace src).part (·.isActive y.table)) →
      ∀ acc, FromItem.traceList src (acc.part (·.isActive y.table)) (FromItem.idledList (some y) xs) =
        (FromItem.traceList src acc xs).part (·.isActive y.table) := by
    intro xs ih
    induction xs with
    | nil =>
        intro acc
        rw [FromItem.idledList, FromItem.traceList_nil, FromItem.traceList_nil]
    | cons x xs hxs =>
        intro acc
        rw [FromItem.idledList, FromItem.traceList_cons, FromItem.traceList_cons, ih x (by simp),
          ← Trace.part_cross hp]
        exact hxs (fun z hz => ih z (by simp [hz])) _
  refine Query.induct ?_ ?_ ?_ ?_ ?_ ?_ ?_
  · intro source c t ih
    have hs := hlist source ih .unit
    rw [Trace.part_unit hp] at hs
    rw [Query.idled, Query.trace, Query.trace, hs, Trace.part_project hp, Trace.part_kept]
  · intro l r all t hl hr
    have htables := Query.tables_congr ((occurrences_idled (some y)).1 (.union l r all t))
    have hbranch : ∀ (idle : Bool) (branch : Query),
        (if idle then (branch.idled (some y)).emptied else branch.idled (some y)).tables =
          branch.tables := by
      intro idle branch
      refine Query.tables_congr ?_
      cases idle with
      | true => rw [if_pos rfl, Query.occurrences_emptied, (occurrences_idled _).1]
      | false => exact (occurrences_idled _).1 branch
    rw [Query.idled] at htables ⊢
    rw [Query.trace, Query.trace, Trace.part_append]
    simp only [htables, hbranch]
    rw [trace_branch hl, trace_branch hr]
  · intro q hq
    rw [Query.idled, Query.trace, Query.trace, hq]
  · intro name a
    have hall : ∀ x ∈ (src.trace ⟨name, a⟩).rows, x.isActive y.table = true := by
      intro x hx
      unfold Source.trace at hx
      split at hx
      · obtain ⟨row, -, rfl⟩ := List.mem_map.mp hx
        rfl
      · exact absurd hx List.not_mem_nil
    rw [FromItem.idled, FromItem.trace, Trace.part, List.filter_eq_self.mpr hall]
  · intro q a hq
    rw [FromItem.idled, FromItem.trace, FromItem.trace, hq, Trace.part_qualified]
  · intro xs ih
    have hs := hlist xs ih .unit
    rw [Trace.part_unit hp] at hs
    rw [FromItem.idled, FromItem.trace, FromItem.trace, hs]
  · intro k l r on hl hr
    rw [FromItem.idled, FromItem.trace, FromItem.trace, hl, hr, Trace.part_kept, Trace.part_cross hp]

end Sql

end Rowtime
