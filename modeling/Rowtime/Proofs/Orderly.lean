import Rowtime.Proofs.Traces

/-!
# Rows that a round cannot miss

A row comes from one row of each table on its way. When a table advances, a query
within bounds sees the row if every occurrence of that table on the way is new and no
union was passed through a branch that is idle. A row is orderly if its occurrences
differ and no union on its way reads one of them without its branch doing so; an
orderly row is seen as soon as one of its occurrences is new.

In a separate query no occurrence in a subquery is found again in what the subquery is
joined with. Its rows are orderly as long as each single source names its tables apart.
-/
namespace Rowtime

open Sql

/-- No occurrence in the first list is in the second. -/
def TableRef.avoid (ts us : List TableRef) : Bool := ts.all fun t => !t.isIn us

theorem TableRef.avoid_iff {ts us : List TableRef} :
    TableRef.avoid ts us = true ↔ ∀ t ∈ ts, ∀ u ∈ us, t.same u = false := by
  rw [TableRef.avoid, List.all_eq_true]
  refine forall₂_congr fun t _ => ?_
  rw [Bool.not_eq_true', Bool.eq_false_iff, ne_eq, TableRef.isIn_iff, not_exists]
  refine forall_congr' fun u => ?_
  rw [not_and, TableRef.same_comm, Bool.not_eq_true]

theorem TableRef.avoid_append_left {ts ts' us : List TableRef} :
    TableRef.avoid (ts ++ ts') us = true ↔ TableRef.avoid ts us = true ∧ TableRef.avoid ts' us = true := by
  rw [TableRef.avoid, List.all_append, Bool.and_eq_true]
  rfl

theorem TableRef.avoid_append_right {ts us us' : List TableRef} :
    TableRef.avoid ts (us ++ us') = true ↔ TableRef.avoid ts us = true ∧ TableRef.avoid ts us' = true := by
  simp only [TableRef.avoid_iff, List.forall_mem_append, forall_and]

namespace Sql

mutual

/-- The occurrences in the subqueries of a source item. -/
def FromItem.inner : FromItem → List TableRef
  | .table _ _ => []
  | .subquery q _ => q.occurrences
  | .paren items => FromItem.innerList items
  | .join _ l r _ => l.inner ++ r.inner

/-- The occurrences in the subqueries of a list of source items. -/
def FromItem.innerList : List FromItem → List TableRef
  | [] => []
  | x :: r => x.inner ++ FromItem.innerList r

end

mutual

/-- Whether no occurrence in a subquery is also in what the subquery is joined with. -/
def Query.isSeparate : Query → Bool
  | .select source _ _ => FromItem.isSeparateList source
  | .union l r _ _ => l.isSeparate && r.isSeparate
  | .paren q => q.isSeparate

/-- Whether this is so in a source item. -/
def FromItem.isSeparate : FromItem → Bool
  | .table _ _ => true
  | .subquery q _ => q.isSeparate
  | .paren items => FromItem.isSeparateList items
  | .join _ l r _ =>
    l.isSeparate && r.isSeparate && TableRef.avoid l.inner r.occurrences &&
      TableRef.avoid r.inner l.occurrences

/-- Whether this is so in a list of source items. -/
def FromItem.isSeparateList : List FromItem → Bool
  | [] => true
  | x :: r =>
    x.isSeparate && FromItem.isSeparateList r &&
      TableRef.avoid x.inner (FromItem.occurrencesList r) &&
      TableRef.avoid (FromItem.innerList r) x.occurrences

end

theorem FromItem.mem_occurrencesList_iff {xs : List FromItem} {t : TableRef} :
    t ∈ FromItem.occurrencesList xs ↔ ∃ x ∈ xs, t ∈ x.occurrences := by
  induction xs with
  | nil => simp [FromItem.occurrencesList]
  | cons x xs ih => simp [FromItem.occurrencesList, ih]

theorem FromItem.mem_scopeList_iff {xs : List FromItem} {t : TableRef} :
    t ∈ FromItem.scopeList xs ↔ ∃ x ∈ xs, t ∈ x.scope := by
  induction xs with
  | nil => simp [FromItem.scopeList]
  | cons x xs ih => simp [FromItem.scopeList, ih]

theorem FromItem.scope_sublist {xs : List FromItem} {x : FromItem} (h : x ∈ xs) :
    x.scope.Sublist (FromItem.scopeList xs) := by
  induction xs with
  | nil => exact absurd h List.not_mem_nil
  | cons y xs ih =>
      rw [FromItem.scopeList]
      rcases List.mem_cons.mp h with rfl | h
      · exact List.sublist_append_left _ _
      · exact (ih h).trans (List.sublist_append_right _ _)

theorem FromItem.mem_innerList_iff {xs : List FromItem} {t : TableRef} :
    t ∈ FromItem.innerList xs ↔ ∃ x ∈ xs, t ∈ x.inner := by
  induction xs with
  | nil => simp [FromItem.innerList]
  | cons x xs ih => simp [FromItem.innerList, ih]

/-- An occurrence in a source item is in its scope or in one of its subqueries. -/
theorem FromItem.mem_occurrences_iff {x : FromItem} {t : TableRef} :
    t ∈ x.occurrences ↔ t ∈ x.scope ∨ t ∈ x.inner := by
  refine (Query.induct (P := fun _ => True)
    (S := fun x => t ∈ x.occurrences ↔ t ∈ x.scope ∨ t ∈ x.inner) (fun _ _ _ _ => trivial)
    (fun _ _ _ _ _ _ => trivial) (fun _ _ => trivial) ?_ ?_ ?_ ?_).2 x
  · intro name a
    simp [FromItem.occurrences, FromItem.scope, FromItem.inner]
  · intro q a _
    simp [FromItem.occurrences, FromItem.scope, FromItem.inner]
  · intro xs ih
    rw [FromItem.occurrences, FromItem.scope, FromItem.inner, mem_occurrencesList_iff,
      mem_scopeList_iff, mem_innerList_iff]
    constructor
    · rintro ⟨x, hx, ht⟩
      exact ((ih x hx).mp ht).imp (fun h => ⟨x, hx, h⟩) fun h => ⟨x, hx, h⟩
    · rintro (⟨x, hx, ht⟩ | ⟨x, hx, ht⟩)
      · exact ⟨x, hx, (ih x hx).mpr (Or.inl ht)⟩
      · exact ⟨x, hx, (ih x hx).mpr (Or.inr ht)⟩
  · intro k l r on hl hr
    rw [FromItem.occurrences, FromItem.scope, FromItem.inner, List.mem_append, List.mem_append,
      List.mem_append, hl, hr, or_or_or_comm]

theorem FromItem.mem_occurrencesList {xs : List FromItem} {t : TableRef} :
    t ∈ FromItem.occurrencesList xs ↔ t ∈ FromItem.scopeList xs ∨ t ∈ FromItem.innerList xs := by
  rw [mem_occurrencesList_iff, mem_scopeList_iff, mem_innerList_iff]
  simp only [mem_occurrences_iff, and_or_left, exists_or]

end Sql

namespace Sql

theorem FromItem.isSeparate_of_list {xs : List FromItem} (h : FromItem.isSeparateList xs = true) :
    ∀ x ∈ xs, x.isSeparate = true := by
  induction xs with
  | nil => exact fun x hx => absurd hx List.not_mem_nil
  | cons x xs ih =>
      simp only [FromItem.isSeparateList, Bool.and_eq_true] at h
      exact List.forall_mem_cons.mpr ⟨h.1.1.1, ih h.1.1.2⟩

/-- Operands of one source, neither of which has an occurrence of the other in a subquery. -/
theorem apart_operands {ts us scope scope' inner inner' : List TableRef}
    (ht : ∀ t ∈ ts, t ∈ scope ∨ t ∈ inner) (hu : ∀ u ∈ us, u ∈ scope' ∨ u ∈ inner')
    (hs : TableRef.Apart (scope ++ scope')) (hl : TableRef.avoid inner us = true)
    (hr : TableRef.avoid inner' ts = true) : ∀ t ∈ ts, ∀ u ∈ us, t.same u = false := by
  intro t hmt u hmu
  rcases ht t hmt with h | h
  · rcases hu u hmu with k | k
    · exact (List.pairwise_append.mp hs).2.2 t h u k
    · rw [TableRef.same_comm]
      exact TableRef.avoid_iff.mp hr u k t hmt
  · exact TableRef.avoid_iff.mp hl t h u hmu

/-- In a separate source no table is also read in a subquery. -/
theorem scope_avoids_inner {x : FromItem} (h : x.isSeparate = true) :
    ∀ t ∈ x.scope, ∀ u ∈ x.inner, t.same u = false := by
  have hlist : ∀ xs : List FromItem,
      (∀ x ∈ xs, x.isSeparate = true → ∀ t ∈ x.scope, ∀ u ∈ x.inner, t.same u = false) →
      FromItem.isSeparateList xs = true →
      ∀ t ∈ FromItem.scopeList xs, ∀ u ∈ FromItem.innerList xs, t.same u = false := by
    intro xs ih h
    induction xs with
    | nil => exact fun t ht => absurd ht List.not_mem_nil
    | cons x xs hxs =>
        simp only [FromItem.isSeparateList, Bool.and_eq_true, TableRef.avoid_iff] at h
        obtain ⟨⟨⟨hx, hr⟩, hl⟩, hi⟩ := h
        intro t ht u hu
        rcases List.mem_append.mp ht with ht | ht <;> rcases List.mem_append.mp hu with hu | hu
        · exact ih x (by simp) hx t ht u hu
        · rw [TableRef.same_comm]
          exact hi u hu t (FromItem.mem_occurrences_iff.mpr (Or.inl ht))
        · rw [TableRef.same_comm]
          exact hl u hu t (FromItem.mem_occurrencesList.mpr (Or.inl ht))
        · exact hxs (fun y hy => ih y (by simp [hy])) hr t ht u hu
  refine (Query.induct (P := fun _ => True)
    (S := fun x => x.isSeparate = true → ∀ t ∈ x.scope, ∀ u ∈ x.inner, t.same u = false)
    (fun _ _ _ _ => trivial) (fun _ _ _ _ _ _ => trivial) (fun _ _ => trivial) ?_ ?_ ?_ ?_).2 x h
  · intro name a _ t _ u hu
    exact absurd hu List.not_mem_nil
  · intro q a _ _ t ht
    exact absurd ht List.not_mem_nil
  · intro xs ih h
    rw [FromItem.isSeparate] at h
    exact hlist xs ih h
  · intro k l r on hl hr h t ht u hu
    simp only [FromItem.isSeparate, Bool.and_eq_true, TableRef.avoid_iff] at h
    obtain ⟨⟨⟨hsl, hsr⟩, hil⟩, hir⟩ := h
    rcases List.mem_append.mp ht with ht | ht <;> rcases List.mem_append.mp hu with hu | hu
    · exact hl hsl t ht u hu
    · rw [TableRef.same_comm]
      exact hir u hu t (FromItem.mem_occurrences_iff.mpr (Or.inl ht))
    · rw [TableRef.same_comm]
      exact hil u hu t (FromItem.mem_occurrences_iff.mpr (Or.inl ht))
    · exact hr hsr t ht u hu

end Sql

namespace Traced

/-- The occurrences of the row are in one list, and those of the unions on its way in another. -/
structure From (z : Traced) (ts inner : List TableRef) : Prop where
  stamps : ∀ e ∈ z.stamps, e.1 ∈ ts
  choices : ∀ c ∈ z.choices, ∀ t : TableRef, t.isIn c.1 = true → t.isIn inner = true

theorem From.append {x y : Traced} {ts inner us inner' : List TableRef} (hx : x.From ts inner)
    (hy : y.From us inner') : (x.append y).From (ts ++ us) (inner ++ inner') := by
  constructor
  · intro e he
    rcases List.mem_append.mp he with he | he
    · exact List.mem_append_left _ (hx.stamps e he)
    · exact List.mem_append_right _ (hy.stamps e he)
  · intro c hc t ht
    rw [TableRef.isIn_append, Bool.or_eq_true]
    rcases List.mem_append.mp hc with hc | hc
    · exact Or.inl (hx.choices c hc t ht)
    · exact Or.inr (hy.choices c hc t ht)

/-- The occurrences differ, and no union on the way reads one of them without its branch. -/
structure Orderly (z : Traced) : Prop where
  apart : TableRef.Apart (z.stamps.map (·.1))
  active : ∀ e ∈ z.stamps, z.isActive e.1 = true

theorem isActive_congr (z : Traced) {t u : TableRef} (h : t.same u = true) :
    z.isActive t = z.isActive u := by
  unfold isActive
  simp only [TableRef.isIn_congr h]

theorem Orderly.single {row : Row} {e : TableRef × Int64} : Orderly ⟨⟨row, [e]⟩, []⟩ :=
  ⟨List.pairwise_singleton _ _, fun _ _ => rfl⟩

theorem Orderly.unit {row : Row} : Orderly ⟨⟨row, []⟩, []⟩ :=
  ⟨.nil, fun _ h => absurd h List.not_mem_nil⟩

theorem Orderly.withRow {z : Traced} (h : z.Orderly) (row : Row) : (z.withRow row).Orderly :=
  ⟨h.apart, h.active⟩

theorem isActive_of_avoids {z : Traced} {ts inner : List TableRef} (h : z.From ts inner)
    {t : TableRef} (ht : t.isIn inner = false) : z.isActive t = true := by
  rw [isActive, List.all_eq_true]
  intro c hc
  cases hu : t.isIn c.1 with
  | false => rfl
  | true => exact absurd (h.choices c hc t hu) (by rw [ht]; exact Bool.false_ne_true)

/-- Two orderly rows side by side that have nothing to do with each other. -/
theorem Orderly.append {x y : Traced} {ts us inner inner' : List TableRef} (hx : x.Orderly)
    (hy : y.Orderly) (fx : x.From ts inner) (fy : y.From us inner')
    (hapart : ∀ t ∈ ts, ∀ u ∈ us, t.same u = false) (hl : TableRef.avoid inner us = true)
    (hr : TableRef.avoid inner' ts = true) : (x.append y).Orderly := by
  have hidle : ∀ {t : TableRef} {vs inner : List TableRef}, t ∈ vs → TableRef.avoid inner vs = true →
      t.isIn inner = false := by
    intro t vs inner ht h
    rw [Bool.eq_false_iff, ne_eq, TableRef.isIn_iff]
    rintro ⟨u, hu, hs⟩
    rw [TableRef.avoid_iff.mp h u hu t ht] at hs
    cases hs
  constructor
  · change TableRef.Apart ((x.stamps ++ y.stamps).map (·.1))
    rw [List.map_append]
    refine List.pairwise_append.mpr ⟨hx.apart, hy.apart, ?_⟩
    simp only [List.forall_mem_map]
    exact fun e he e' he' => hapart _ (fx.stamps e he) _ (fy.stamps e' he')
  · intro e he
    change (x.choices ++ y.choices).all _ = true
    rw [List.all_append, Bool.and_eq_true]
    rcases List.mem_append.mp he with he | he
    · exact ⟨hx.active e he, isActive_of_avoids fy (hidle (fx.stamps e he) hr)⟩
    · exact ⟨isActive_of_avoids fx (hidle (fy.stamps e he) hl), hy.active e he⟩

/-- An orderly row behind a union whose branch reads its occurrences. -/
theorem Orderly.through {z : Traced} (h : z.Orderly) {union branch : List TableRef}
    (hb : ∀ e ∈ z.stamps, e.1.isIn branch = true) : (z.through union branch).Orderly := by
  refine ⟨h.apart, fun e he => ?_⟩
  change ((union, branch) :: z.choices).all _ = true
  rw [List.all_cons, Bool.and_eq_true, Bool.or_eq_true]
  exact ⟨Or.inr (hb e he), h.active e he⟩

end Traced

namespace Trace

/-- Every row has its occurrences and its unions in the given lists. -/
def From (a : Trace) (ts inner : List TableRef) : Prop := ∀ z ∈ a.rows, z.From ts inner

/-- Every row is orderly. -/
def Orderly (a : Trace) : Prop := ∀ z ∈ a.rows, z.Orderly

theorem mem_cross {a b : Trace} {z : Traced} :
    z ∈ (a.cross b).rows ↔ ∃ x ∈ a.rows, ∃ y ∈ b.rows, z = x.append y := by
  simp only [cross, List.mem_flatMap, List.mem_map, eq_comm]

theorem mem_kept {condition : Option Expr} {a : Trace} {z : Traced} (h : z ∈ (a.kept condition).rows) :
    z ∈ a.rows := (List.mem_filter.mp h).1

theorem mem_project {items : List SelectItem} {a : Trace} {z : Traced}
    (h : z ∈ (a.project items).rows) : ∃ x ∈ a.rows, ∃ row, z = x.withRow row := by
  obtain ⟨x, hx, rfl⟩ := List.mem_map.mp h
  exact ⟨x, hx, _, rfl⟩

theorem mem_through {union branch : List TableRef} {a : Trace} {z : Traced}
    (h : z ∈ (a.through union branch).rows) : ∃ x ∈ a.rows, z = x.through union branch := by
  obtain ⟨x, hx, rfl⟩ := List.mem_map.mp h
  exact ⟨x, hx, rfl⟩

theorem mem_append {a b : Trace} {z : Traced} :
    z ∈ (a.append b).rows ↔ z ∈ a.rows ∨ z ∈ b.rows := List.mem_append

theorem From.cross {a b : Trace} {ts us inner inner' : List TableRef} (ha : a.From ts inner)
    (hb : b.From us inner') : (a.cross b).From (ts ++ us) (inner ++ inner') := by
  intro z hz
  obtain ⟨x, hx, y, hy, rfl⟩ := mem_cross.mp hz
  exact (ha x hx).append (hb y hy)

theorem From.kept {a : Trace} {ts inner : List TableRef} (h : a.From ts inner)
    (condition : Option Expr) : (a.kept condition).From ts inner := fun z hz => h z (mem_kept hz)

theorem From.project {a : Trace} {ts inner : List TableRef} (h : a.From ts inner)
    (items : List SelectItem) : (a.project items).From ts inner := by
  intro z hz
  obtain ⟨x, hx, row, rfl⟩ := mem_project hz
  exact ⟨(h x hx).stamps, (h x hx).choices⟩

theorem unit_from : unit.From [] [] := by
  intro z hz
  rw [unit, List.mem_singleton] at hz
  subst hz
  exact ⟨fun _ h => absurd h List.not_mem_nil, fun _ h => absurd h List.not_mem_nil⟩

theorem unit_orderly : unit.Orderly := by
  intro z hz
  rw [unit, List.mem_singleton] at hz
  exact hz ▸ Traced.Orderly.unit

end Trace

theorem Source.trace_from (src : Source) (t : TableRef) : (src.trace t).From [t] [] := by
  intro z hz
  unfold Source.trace at hz
  split at hz
  · obtain ⟨row, -, rfl⟩ := List.mem_map.mp hz
    exact ⟨fun e he => by rw [List.mem_singleton.mp he]; exact List.mem_singleton.mpr rfl,
      fun _ h => absurd h List.not_mem_nil⟩
  · exact absurd hz List.not_mem_nil

theorem Source.trace_orderly (src : Source) (t : TableRef) : (src.trace t).Orderly := by
  intro z hz
  unfold Source.trace at hz
  split at hz
  · obtain ⟨row, -, rfl⟩ := List.mem_map.mp hz
    exact Traced.Orderly.single
  · exact absurd hz List.not_mem_nil

namespace Sql

/-- The tables that a union reads are among its occurrences. -/
theorem Query.isIn_occurrences {q : Query} {t : TableRef} (h : t.isIn q.tables = true) :
    t.isIn q.occurrences = true := by
  rw [Query.tables, TableRef.isIn_distinct, Bool.and_eq_true] at h
  exact h.1

/-- The rows of a query come from its occurrences. -/
theorem trace_from (src : Source) :
    (∀ q : Query, (q.trace src).From q.occurrences q.occurrences) ∧
      ∀ x : FromItem, (x.trace src).From x.occurrences x.inner := by
  have hlist : ∀ xs : List FromItem, (∀ x ∈ xs, (x.trace src).From x.occurrences x.inner) →
      ∀ (acc : Trace) ts inner, acc.From ts inner →
        (FromItem.traceList src acc xs).From (ts ++ FromItem.occurrencesList xs)
          (inner ++ FromItem.innerList xs) := by
    intro xs ih
    induction xs with
    | nil =>
        intro acc ts inner h
        rw [FromItem.traceList_nil, FromItem.occurrencesList, FromItem.innerList, List.append_nil,
          List.append_nil]
        exact h
    | cons x xs hxs =>
        intro acc ts inner h
        rw [FromItem.traceList_cons, FromItem.occurrencesList, FromItem.innerList,
          ← List.append_assoc, ← List.append_assoc]
        exact hxs (fun y hy => ih y (by simp [hy])) _ _ _ (h.cross (ih x (by simp)))
  have hwider : ∀ {z : Traced} {ts inner inner' : List TableRef}, z.From ts inner →
      (∀ t ∈ inner, t ∈ inner') → z.From ts inner' := by
    intro z ts inner inner' h hi
    refine ⟨h.stamps, fun c hc t ht => ?_⟩
    obtain ⟨u, hu, hs⟩ := TableRef.isIn_iff.mp (h.choices c hc t ht)
    exact TableRef.isIn_iff.mpr ⟨u, hi u hu, hs⟩
  refine Query.induct ?_ ?_ ?_ ?_ ?_ ?_ ?_
  · intro source c t ih z hz
    have hs := (hlist source ih .unit [] [] Trace.unit_from).kept c.condition
    rw [List.nil_append, List.nil_append] at hs
    rw [Query.trace] at hz
    rw [Query.occurrences]
    exact hwider (hs.project c.projection z hz) fun t ht =>
      FromItem.mem_occurrencesList.mpr (Or.inr ht)
  · intro l r all t hl hr z hz
    have hbranch : ∀ {branch : Query} {x : Traced}, x.From branch.occurrences branch.occurrences →
        (∀ u ∈ branch.occurrences, u ∈ (Query.union l r all t).occurrences) →
        (x.through (Query.union l r all t).tables branch.tables).From
          (Query.union l r all t).occurrences (Query.union l r all t).occurrences := by
      intro branch x h hsub
      refine ⟨fun e he => hsub _ (h.stamps e he), fun c hc t ht => ?_⟩
      rcases List.mem_cons.mp hc with rfl | hc
      · exact Query.isIn_occurrences ht
      · obtain ⟨u, hu, hs⟩ := TableRef.isIn_iff.mp (h.choices c hc t ht)
        exact TableRef.isIn_iff.mpr ⟨u, hsub u hu, hs⟩
    rw [Query.trace] at hz
    rcases Trace.mem_append.mp hz with hz | hz
    · obtain ⟨x, hx, rfl⟩ := Trace.mem_through hz
      exact hbranch (hl x hx) fun t ht => by
        rw [Query.occurrences]
        exact List.mem_append_left _ ht
    · obtain ⟨x, hx, rfl⟩ := Trace.mem_through hz
      exact hbranch (hr x hx) fun t ht => by
        rw [Query.occurrences]
        exact List.mem_append_right _ ht
  · intro q hq
    rw [Query.trace, Query.occurrences]
    exact hq
  · intro name a
    rw [FromItem.trace, FromItem.occurrences, FromItem.inner]
    exact src.trace_from _
  · intro q a hq
    rw [FromItem.trace, FromItem.occurrences, FromItem.inner]
    exact hq
  · intro xs ih
    have hs := hlist xs ih .unit [] [] Trace.unit_from
    rw [List.nil_append, List.nil_append] at hs
    rw [FromItem.trace, FromItem.occurrences, FromItem.inner]
    exact hs
  · intro k l r on hl hr
    rw [FromItem.trace, FromItem.occurrences, FromItem.inner]
    exact (hl.cross hr).kept on

end Sql

/-- The rows of operands that have nothing to do with each other are orderly side by side. -/
theorem Trace.Orderly.cross {a b : Trace} {ts us scope scope' inner inner' : List TableRef}
    (ha : a.Orderly) (hb : b.Orderly) (fa : a.From ts inner) (fb : b.From us inner')
    (ht : ∀ t ∈ ts, t ∈ scope ∨ t ∈ inner) (hu : ∀ u ∈ us, u ∈ scope' ∨ u ∈ inner')
    (hs : TableRef.Apart (scope ++ scope')) (hl : TableRef.avoid inner us = true)
    (hr : TableRef.avoid inner' ts = true) : (a.cross b).Orderly := by
  intro z hz
  obtain ⟨x, hx, y, hy, rfl⟩ := Trace.mem_cross.mp hz
  exact (ha x hx).append (hb y hy) (fa x hx) (fb y hy) (Sql.apart_operands ht hu hs hl hr) hl hr

theorem Trace.Orderly.kept {a : Trace} (h : a.Orderly) (condition : Option Expr) :
    (a.kept condition).Orderly := fun z hz => h z (Trace.mem_kept hz)

theorem Trace.Orderly.project {a : Trace} (h : a.Orderly) (items : List SelectItem) :
    (a.project items).Orderly := by
  intro z hz
  obtain ⟨x, hx, row, rfl⟩ := Trace.mem_project hz
  exact (h x hx).withRow row

end Rowtime
