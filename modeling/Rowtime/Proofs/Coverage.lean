import Rowtime.Proofs.Repeated
import Rowtime.Proofs.Seen

/-!
# What a run has covered

Deliveries cover a query up to some marks when each orderly row up to the marks is seen
by one of them that reads the row's tables. Whatever the query evaluates on the tables
up to the marks was then evaluated in one of these deliveries, so the query gives a
result there, and all its rows are orderly. The proof follows the query: operands
first, then the condition of their join, the clauses of the SELECT, and the union.

The deliveries of the first round and of complete rounds cover a query up to the marks
of the last of them.
-/
namespace Rowtime

open Sql

/-! ## Served and covered -/

/-- The database on which a delivery was made. -/
structure Delivery.Before (d : Delivery) (root : Query) (db before : Catalog) : Prop where
  valid : before.Valid
  tracks : d.marks.Tracks root.tables before
  grows : ∀ t ∈ root.tables, before.GrowsAt db t.name

/-- Deliveries of a query that cover it up to some marks. -/
structure Cover (root : Query) (db : Catalog) (ds : List Delivery) (s : Marks) : Prop where
  real : root.RealTables
  deliveries : ∀ d ∈ ds, d.Of root db
  sees : ∀ z : Traced, z.Orderly → (∀ e ∈ z.stamps, e.1.isIn root.tables = true) → s.upTo z = true →
    ∃ d ∈ ds, d.sees z = true ∧ ∀ y ∈ d.advance, ∃ e ∈ z.stamps, y.table.same e.1 = true
  last : ∀ t : TableRef, t.isIn root.tables = true →
    ∃ d ∈ ds, d.marks = s ∧ ∀ y ∈ d.advance, y.table.same t = true

namespace Sql

/-- Every delivery that reads the query ran it within its bounds. -/
def Query.Served (q root : Query) (db : Catalog) (ds : List Delivery) : Prop :=
  ∀ d ∈ ds, (∀ y ∈ d.advance, y.table.isIn q.occurrences = true) →
    ∃ before, d.Before root db before ∧ Succeeds ((q.bounded d.marks d.advance).runOn before.source)

/-- Every delivery that reads the source item ran it within its bounds. -/
def FromItem.Served (x : FromItem) (root : Query) (db : Catalog) (ds : List Delivery) : Prop :=
  ∀ d ∈ ds, (∀ y ∈ d.advance, y.table.isIn x.occurrences = true) →
    ∃ before, d.Before root db before ∧ Succeeds ((x.bounded d.marks d.advance).runOn before.source)

variable {root : Query} {db : Catalog} {ds : List Delivery} {s : Marks}

theorem isIn_of_subset {t : TableRef} {ts us : List TableRef} (h : t.isIn ts = true)
    (hs : ∀ u ∈ ts, u ∈ us) : t.isIn us = true := by
  obtain ⟨u, hu, hsame⟩ := TableRef.isIn_iff.mp h
  exact TableRef.isIn_iff.mpr ⟨u, hs u hu, hsame⟩

theorem FromItem.succeeds_of_list {src : Source} {xs : List FromItem} {acc r : Relation}
    (h : FromItem.runListOn src acc xs = .ok r) : ∀ x ∈ xs, Succeeds (x.runOn src) := by
  induction xs generalizing acc with
  | nil => exact fun x hx => absurd hx List.not_mem_nil
  | cons x xs ih =>
      rw [FromItem.runListOn_cons] at h
      obtain ⟨b, hb, h⟩ := bind_eq_ok.mp h
      exact List.forall_mem_cons.mpr ⟨⟨b, hb⟩, ih h⟩

theorem Query.Served.source {source : List FromItem} {c : Clauses} {t : Tail}
    (h : (Query.select source c t).Served root db ds) : (FromItem.paren source).Served root db ds := by
  intro d hd ha
  rw [FromItem.occurrences] at ha
  obtain ⟨before, hb, r, hr⟩ := h d hd (by rwa [Query.occurrences])
  rw [Query.bounded, Query.runOn] at hr
  obtain ⟨full, hf, -⟩ := bind_eq_ok.mp hr
  exact ⟨before, hb, full, by rw [FromItem.bounded, FromItem.runOn, hf]⟩

theorem FromItem.Served.items {xs : List FromItem} (h : (FromItem.paren xs).Served root db ds) :
    ∀ x ∈ xs, x.Served root db ds := by
  intro x hx d hd ha
  obtain ⟨before, hb, r, hr⟩ := h d hd fun y hy => isIn_of_subset (ha y hy) fun t ht => by
    rw [FromItem.occurrences]
    exact FromItem.mem_occurrencesList_iff.mpr ⟨x, hx, ht⟩
  rw [FromItem.bounded, FromItem.runOn, FromItem.boundedList_eq] at hr
  exact ⟨before, hb, FromItem.succeeds_of_list hr _ (List.mem_map_of_mem hx)⟩

theorem FromItem.Served.query {q : Query} {al : Option String}
    (h : (FromItem.subquery q al).Served root db ds) : q.Served root db ds := by
  intro d hd ha
  obtain ⟨before, hb, r, hr⟩ := h d hd (by rwa [FromItem.occurrences])
  rw [FromItem.bounded, FromItem.runOn] at hr
  obtain ⟨b, hb', -⟩ := bind_eq_ok.mp hr
  exact ⟨before, hb, b, hb'⟩

theorem FromItem.Served.operands {k : JoinKind} {l r : FromItem} {on : Option Expr}
    (h : (FromItem.join k l r on).Served root db ds) : l.Served root db ds ∧ r.Served root db ds := by
  constructor
  · intro d hd ha
    obtain ⟨before, hb, b, hr⟩ := h d hd fun y hy => isIn_of_subset (ha y hy) fun t ht => by
      rw [FromItem.occurrences]
      exact List.mem_append_left _ ht
    rw [FromItem.bounded, FromItem.runOn] at hr
    obtain ⟨a, ha, -⟩ := bind_eq_ok.mp hr
    exact ⟨before, hb, a, ha⟩
  · intro d hd ha
    obtain ⟨before, hb, b, hr⟩ := h d hd fun y hy => isIn_of_subset (ha y hy) fun t ht => by
      rw [FromItem.occurrences]
      exact List.mem_append_right _ ht
    rw [FromItem.bounded, FromItem.runOn] at hr
    obtain ⟨a, -, hr⟩ := bind_eq_ok.mp hr
    obtain ⟨c, hc, -⟩ := bind_eq_ok.mp hr
    exact ⟨before, hb, c, hc⟩

theorem Query.Served.query {q : Query} (h : (Query.paren q).Served root db ds) : q.Served root db ds := by
  intro d hd ha
  obtain ⟨before, hb, r, hr⟩ := h d hd (by rwa [Query.occurrences])
  rw [Query.bounded, Query.runOn] at hr
  exact ⟨before, hb, r, hr⟩

/-- A branch that reads the advancing table is not idle. -/
theorem isIdle_of_reads {a : Option Advance} {union branch : Query}
    (h : ∀ y ∈ a, y.table.isIn branch.occurrences = true ∧ y.table.isDual = false) :
    isIdle a union branch = false := by
  cases a with
  | none => rfl
  | some y =>
      obtain ⟨hin, hd⟩ := h y rfl
      have hreads : branch.reads y.table = true := by
        rw [Query.reads, Query.tables, TableRef.isIn_distinct, hin, hd]
        rfl
      rw [isIdle, hreads, Bool.not_true, Bool.and_false]

theorem Query.Served.branches (hds : ∀ d ∈ ds, d.Of root db) {l r : Query} {all : Bool} {t : Tail}
    (h : (Query.union l r all t).Served root db ds) : l.Served root db ds ∧ r.Served root db ds := by
  have hidle : ∀ (branch : Query) d, d ∈ ds →
      (∀ y ∈ d.advance, y.table.isIn branch.occurrences = true) →
      isIdle d.advance (.union l r all t) branch = false := fun branch d hd ha =>
    isIdle_of_reads fun y hy =>
      ⟨ha y hy, TableRef.isDual_of_mem_distinct ((hds d hd).advance y hy)⟩
  constructor
  · intro d hd ha
    obtain ⟨before, hb, u, hu⟩ := h d hd fun y hy => isIn_of_subset (ha y hy) fun v hv => by
      rw [Query.occurrences]
      exact List.mem_append_left _ hv
    rw [Query.bounded, Query.runOn, hidle l d hd ha] at hu
    obtain ⟨a, ha', -⟩ := bind_eq_ok.mp hu
    exact ⟨before, hb, a, ha'⟩
  · intro d hd ha
    obtain ⟨before, hb, u, hu⟩ := h d hd fun y hy => isIn_of_subset (ha y hy) fun v hv => by
      rw [Query.occurrences]
      exact List.mem_append_right _ hv
    rw [Query.bounded, Query.runOn, hidle r d hd ha] at hu
    obtain ⟨a, -, hu⟩ := bind_eq_ok.mp hu
    obtain ⟨b, hb', -⟩ := bind_eq_ok.mp hu
    exact ⟨before, hb, b, hb'⟩

/-! ## The result up to the marks -/

/-- A query gives a result on the tables up to the marks, and its rows are orderly. -/
structure Query.Settled (db : Catalog) (s : Marks) (q : Query) : Prop where
  succeeds : Succeeds (q.runOn (db.view s none))
  orderly : (q.trace (db.view s none)).Orderly

/-- A source item gives its rows on the tables up to the marks, and they are orderly. -/
structure FromItem.Settled (db : Catalog) (s : Marks) (x : FromItem) : Prop where
  succeeds : Succeeds (x.runOn (db.view s none))
  orderly : (x.trace (db.view s none)).Orderly

end Sql

section
variable {root : Query} {db : Catalog} {ds : List Delivery} {s : Marks} (hc : Cover root db ds s)
include hc

theorem Cover.marked {d : Delivery} (hd : d ∈ ds) {before : Catalog} (hb : d.Before root db before) :
    d.marks.Functional ∧ ∀ y, d.advance = some y → (d.marks.get? y.table).isSome = true := by
  refine ⟨hb.tracks.functional (TableRef.apart_distinct _), fun y hy => ?_⟩
  exact Marks.get?_isSome_iff.mpr
    (hb.tracks.exists_mark (TableRef.isIn_of_mem ((hc.deliveries d hd).advance y hy)))

/-- One of the deliveries has no advancing table. -/
theorem Cover.exists_first : ∃ d ∈ ds, d.advance = none := by
  obtain ⟨d, hd, -, ha⟩ := hc.sees ⟨⟨[], []⟩, []⟩ Traced.Orderly.unit (by simp) rfl
  refine ⟨d, hd, ?_⟩
  cases h : d.advance with
  | none => rfl
  | some y =>
      obtain ⟨e, he, -⟩ := ha y h
      exact absurd he List.not_mem_nil

/-- An orderly row up to the marks is seen by a delivery that reads what the row comes from. -/
theorem Cover.exists_seeing {z : Traced} (hz : z.Orderly) {ts inner : List TableRef}
    (hf : z.From ts inner) (hsub : ∀ t ∈ ts, t ∈ root.occurrences) (hs : s.upTo z = true) :
    ∃ d ∈ ds, d.sees z = true ∧ ∀ y ∈ d.advance, y.table.isIn ts = true := by
  obtain ⟨d, hd, hsee, ha⟩ := hc.sees z hz (fun e he => hc.real.isIn (hsub _ (hf.stamps e he))) hs
  refine ⟨d, hd, hsee, fun y hy => ?_⟩
  obtain ⟨e, he, hsame⟩ := ha y hy
  exact TableRef.isIn_iff.mpr ⟨e.1, hf.stamps e he, TableRef.same_symm hsame⟩

namespace Sql

/-- A delivery that reads a source item shows what it sees of it. -/
theorem FromItem.Served.seen {x : FromItem} (hx : x.Served root db ds) (hp : x.isPlain = true)
    (hsub : ∀ t ∈ x.occurrences, t ∈ root.occurrences) {d : Delivery} (hd : d ∈ ds)
    (ha : ∀ y ∈ d.advance, y.table.isIn x.occurrences = true) :
    Succeeds ((x.idled d.advance).runOn (db.view d.marks d.advance)) := by
  obtain ⟨before, hb, full, hfull⟩ := hx d hd ha
  obtain ⟨hfun, hmark⟩ := hc.marked hd hb
  obtain ⟨part, hpart, -⟩ :=
    (bounded_seen hb.valid hfun hmark).2 x (isInner_of_isPlain.2 x hp) full hfull
  refine ⟨part, ?_⟩
  rw [← hpart]
  refine (runOn_congr _ _).2 _ fun t ht => ?_
  rw [(occurrences_idled _).2] at ht
  exact hc.real.view_grows hb.tracks hb.grows _ (hsub t ht)

/-- A delivery that reads a query shows what it sees of it. -/
theorem Query.Served.seen {q : Query} (hq : q.Served root db ds) (hp : q.isPlain = true)
    (hsub : ∀ t ∈ q.occurrences, t ∈ root.occurrences) {d : Delivery} (hd : d ∈ ds)
    (ha : ∀ y ∈ d.advance, y.table.isIn q.occurrences = true) :
    Succeeds ((q.idled d.advance).runOn (db.view d.marks d.advance)) := by
  obtain ⟨before, hb, r, hr⟩ := hq d hd ha
  obtain ⟨hfun, hmark⟩ := hc.marked hd hb
  refine ⟨r, ?_⟩
  rw [← (bounded_seen hb.valid hfun hmark).1 q (isInner_of_isPlain.1 q hp) 0 r hr]
  refine Query.runOn_congr fun t ht => ?_
  rw [(occurrences_idled _).1] at ht
  exact hc.real.view_grows hb.tracks hb.grows _ (hsub t ht)

/-- What a source item has to be for its rows up to the marks to be settled. -/
structure FromItem.Fit (x : FromItem) (root : Query) (db : Catalog) (ds : List Delivery) : Prop where
  plain : x.isPlain = true
  separate : x.isSeparate = true
  occurrences : ∀ t ∈ x.occurrences, t ∈ root.occurrences
  served : x.Served root db ds

/-- What a query has to be for its rows up to the marks to be settled. -/
structure Query.Fit (q root : Query) (db : Catalog) (ds : List Delivery) : Prop where
  plain : q.isPlain = true
  separate : q.isSeparate = true
  occurrences : ∀ t ∈ q.occurrences, t ∈ root.occurrences
  served : q.Served root db ds

theorem table_settled {name : String} {al : Option String}
    (h : (FromItem.table name al).Fit root db ds) : (FromItem.table name al).Settled db s := by
  have hocc : (⟨name, al⟩ : TableRef) ∈ (FromItem.table name al).occurrences := by
    rw [FromItem.occurrences]
    exact List.mem_singleton.mpr rfl
  have hd := hc.real _ (h.occurrences _ hocc)
  constructor
  · obtain ⟨d, hd', ha⟩ := hc.exists_first
    obtain ⟨r, hr⟩ := h.served.seen hc h.plain h.occurrences hd' (by rw [ha]; simp)
    rw [FromItem.idled, FromItem.runOn, Relation.fromSource, Catalog.view] at hr
    rw [FromItem.runOn, Relation.fromSource, Catalog.view]
    cases ht : db.get? name with
    | none =>
        rw [ht] at hr
        simp [hd] at hr
    | some table => exact ⟨_, rfl⟩
  · rw [FromItem.trace]
    exact Source.trace_orderly _ _

omit hc in
/-- A list of settled source items is settled. -/
theorem list_settled {xs : List FromItem} (hx : ∀ x ∈ xs, x.Settled db s)
    (hs : TableRef.Apart (FromItem.scopeList xs)) (hsep : FromItem.isSeparateList xs = true) :
    (FromItem.paren xs).Settled db s := by
  have hgen : ∀ (acc : Relation) (a : Trace) (ts scope inner : List TableRef), a.Orderly →
      a.From ts inner → (∀ t ∈ ts, t ∈ scope ∨ t ∈ inner) →
      TableRef.Apart (scope ++ FromItem.scopeList xs) →
      TableRef.avoid inner (FromItem.occurrencesList xs) = true →
      TableRef.avoid (FromItem.innerList xs) ts = true →
      Succeeds (FromItem.runListOn (db.view s none) acc xs) ∧
        (FromItem.traceList (db.view s none) a xs).Orderly := by
    clear hs
    induction xs with
    | nil =>
        intro acc a ts scope inner ha _ _ _ _ _
        rw [FromItem.runListOn_nil, FromItem.traceList_nil]
        exact ⟨⟨acc, rfl⟩, ha⟩
    | cons x xs ih =>
        intro acc a ts scope inner ha hfrom hsplit hapart hinner hinners
        obtain ⟨⟨b, hb⟩, hxo⟩ := hx x (by simp)
        simp only [FromItem.isSeparateList, Bool.and_eq_true] at hsep
        obtain ⟨⟨⟨-, hsepr⟩, hxi⟩, hri⟩ := hsep
        rw [FromItem.occurrencesList, TableRef.avoid_append_right] at hinner
        rw [FromItem.innerList, TableRef.avoid_append_left] at hinners
        rw [FromItem.scopeList, ← List.append_assoc] at hapart
        have hxfrom := (trace_from (db.view s none)).2 x
        have hcross : (a.cross (x.trace (db.view s none))).Orderly :=
          ha.cross hxo hfrom hxfrom hsplit (fun t ht => FromItem.mem_occurrences_iff.mp ht)
            (List.pairwise_append.mp hapart).1 hinner.1 hinners.1
        rw [FromItem.runListOn_cons, FromItem.traceList_cons, hb, ok_bind]
        refine ih (fun y hy => hx y (by simp [hy])) hsepr _ _ (ts ++ x.occurrences) (scope ++ x.scope)
          (inner ++ x.inner) hcross (hfrom.cross hxfrom) ?_ hapart ?_ ?_
        · intro t ht
          rw [List.mem_append, List.mem_append]
          rcases List.mem_append.mp ht with ht | ht
          · exact (hsplit t ht).imp Or.inl Or.inl
          · exact (FromItem.mem_occurrences_iff.mp ht).imp Or.inr Or.inr
        · exact TableRef.avoid_append_left.mpr ⟨hinner.2, hxi⟩
        · exact TableRef.avoid_append_right.mpr ⟨hinners.2, hri⟩
  obtain ⟨hrun, htrace⟩ := hgen .unit .unit [] [] [] Trace.unit_orderly Trace.unit_from (by simp) hs rfl
    (TableRef.avoid_iff.mpr (by simp))
  exact ⟨by rw [FromItem.runOn]; exact hrun, by rw [FromItem.trace]; exact htrace⟩

omit hc in
theorem FromItem.Fit.items {xs : List FromItem} (h : (FromItem.paren xs).Fit root db ds) :
    ∀ x ∈ xs, x.Fit root db ds := by
  intro x hx
  have hp := h.plain
  have hs := h.separate
  rw [FromItem.isPlain, FromItem.isPlainList_iff] at hp
  rw [FromItem.isSeparate] at hs
  refine ⟨hp x hx, FromItem.isSeparate_of_list hs x hx, fun t ht => h.occurrences t ?_, h.served.items x hx⟩
  rw [FromItem.occurrences]
  exact FromItem.mem_occurrencesList_iff.mpr ⟨x, hx, ht⟩

omit hc in
theorem FromItem.Fit.operands {k : JoinKind} {l r : FromItem} {on : Option Expr}
    (h : (FromItem.join k l r on).Fit root db ds) : l.Fit root db ds ∧ r.Fit root db ds := by
  have hp := h.plain
  have hs := h.separate
  have hocc := h.occurrences
  simp only [FromItem.isPlain, Bool.and_eq_true] at hp
  simp only [FromItem.isSeparate, Bool.and_eq_true] at hs
  rw [FromItem.occurrences, List.forall_mem_append] at hocc
  exact ⟨⟨hp.1.2, hs.1.1.1, hocc.1, h.served.operands.1⟩, ⟨hp.2, hs.1.1.2, hocc.2, h.served.operands.2⟩⟩

omit hc in
theorem Query.Fit.source {source : List FromItem} {c : Clauses} {t : Tail}
    (h : (Query.select source c t).Fit root db ds) : (FromItem.paren source).Fit root db ds := by
  have hp := h.plain
  have hs := h.separate
  have hocc := h.occurrences
  simp only [Query.isPlain, Bool.and_eq_true] at hp
  rw [Query.isSeparate] at hs
  rw [Query.occurrences] at hocc
  exact ⟨by rw [FromItem.isPlain]; exact hp.1.1.1, by rw [FromItem.isSeparate]; exact hs,
    by rw [FromItem.occurrences]; exact hocc, h.served.source⟩

theorem Query.Fit.branches {l r : Query} {all : Bool} {t : Tail}
    (h : (Query.union l r all t).Fit root db ds) : l.Fit root db ds ∧ r.Fit root db ds := by
  have hp := h.plain
  have hs := h.separate
  have hocc := h.occurrences
  simp only [Query.isPlain, Bool.and_eq_true] at hp
  rw [Query.isSeparate, Bool.and_eq_true] at hs
  rw [Query.occurrences, List.forall_mem_append] at hocc
  have hserved := h.served.branches hc.deliveries
  exact ⟨⟨hp.1.2, hs.1, hocc.1, hserved.1⟩, ⟨hp.2, hs.2, hocc.2, hserved.2⟩⟩

omit hc in
theorem upTo_splits (s : Marks) : Trace.Splits s.upTo := Traced.within_splits (s.admits none)

/-- A join of settled operands is settled: its condition was evaluated on every pair of their rows
by the delivery that saw the pair. -/
theorem join_settled {k : JoinKind} {l r : FromItem} {on : Option Expr}
    (h : (FromItem.join k l r on).Fit root db ds) (hs : TableRef.Apart (l.scope ++ r.scope))
    (hl : l.Settled db s) (hr : r.Settled db s) : (FromItem.join k l r on).Settled db s := by
  have hplain := h.plain
  have hsep := h.separate
  have hreal : ∀ t ∈ (FromItem.join k l r on).occurrences, t.isDual = false := fun t ht =>
    hc.real t (h.occurrences t ht)
  simp only [FromItem.isPlain, Bool.and_eq_true] at hplain
  simp only [FromItem.isSeparate, Bool.and_eq_true] at hsep
  rw [FromItem.occurrences, List.forall_mem_append] at hreal
  obtain ⟨⟨hk, hpl⟩, hpr⟩ := hplain
  obtain ⟨⟨-, hil⟩, hir⟩ := hsep
  have fl := (trace_from (db.view s none)).2 l
  have fr := (trace_from (db.view s none)).2 r
  have hcross : ((l.trace (db.view s none)).cross (r.trace (db.view s none))).Orderly :=
    hl.orderly.cross hr.orderly fl fr (fun t ht => FromItem.mem_occurrences_iff.mp ht)
      (fun t ht => FromItem.mem_occurrences_iff.mp ht) hs hil hir
  refine ⟨?_, by rw [FromItem.trace]; exact hcross.kept on⟩
  obtain ⟨a, ha⟩ := hl.succeeds
  obtain ⟨b, hb⟩ := hr.succeeds
  have hlike : (a.cross b).Like
      ((((l.trace db.source).cross (r.trace db.source)).part s.upTo).relation) := by
    rw [Trace.part_cross (upTo_splits s), Trace.relation_cross]
    exact ((runOn_upTo db s).2 l hpl hreal.1 a ha).cross ((runOn_upTo db s).2 r hpr hreal.2 b hb)
  rw [FromItem.runOn, ha, ok_bind, hb, ok_bind, Relation.join_inner hk]
  refine ⟨_, Relation.filtered_eq_ok_iff.mpr ⟨evaluated_upTo
    (P := fun columns row => Succeeds (holdsIn on (.ofRow columns row))) hlike ?_, rfl⟩⟩
  intro z hz
  have hup := (List.mem_filter.mp hz).2
  rw [Trace.part_cross (upTo_splits s), ← (trace_upTo db s).2 l hreal.1,
    ← (trace_upTo db s).2 r hreal.2] at hz
  have hocc := h.occurrences
  rw [FromItem.occurrences] at hocc
  obtain ⟨d, hd, hsee, halive⟩ := hc.exists_seeing (hcross z hz) (fl.cross fr z hz) hocc hup
  obtain ⟨u, hu⟩ := h.served.seen hc h.plain h.occurrences hd (by rwa [FromItem.occurrences])
  rw [FromItem.idled, FromItem.runOn] at hu
  obtain ⟨a', ha', hu⟩ := bind_eq_ok.mp hu
  obtain ⟨b', hb', hu⟩ := bind_eq_ok.mp hu
  rw [Relation.join_inner hk] at hu
  refine ⟨d, hsee, a'.cross b', ?_, (Relation.filtered_eq_ok_iff.mp hu).1⟩
  rw [Trace.part_cross d.sees_splits, Trace.relation_cross]
  exact ((runOn_seen db d).2 l hpl hreal.1 a' ha').cross ((runOn_seen db d).2 r hpr hreal.2 b' hb')

/-- A source whose items are settled is settled, and so is one that names an occurrence twice: it has
no rows. -/
theorem source_settled {source : List FromItem} {c : Clauses} {t : Tail}
    (h : (Query.select source c t).Fit root db ds)
    (ih : ∀ x ∈ source, TableRef.Apart x.scope → x.Fit root db ds → x.Settled db s) :
    (FromItem.paren source).Settled db s := by
  have hsource := h.source
  have hsep := hsource.separate
  rw [FromItem.isSeparate] at hsep
  by_cases hs : TableRef.Apart (FromItem.scopeList source)
  · refine list_settled (fun x hx => ih x hx ?_ (hsource.items x hx)) hs hsep
    exact hs.sublist (FromItem.scope_sublist hx)
  · obtain ⟨u, hu, htwice⟩ := exists_twice hs
    have hin : u ∈ (Query.select source c t).occurrences := by
      rw [Query.occurrences]
      exact FromItem.mem_occurrencesList.mpr (Or.inl hu)
    have hroot := h.occurrences u hin
    obtain ⟨d, hd, hmarks, hadvance⟩ := hc.last u (hc.real.isIn hroot)
    obtain ⟨before, hb, r, hr⟩ := h.served d hd fun y hy =>
      TableRef.isIn_iff.mpr ⟨u, hin, TableRef.same_symm (hadvance y hy)⟩
    obtain ⟨hfun, -⟩ := hc.marked hd hb
    have hmark := Marks.get?_isSome_iff.mpr (hb.tracks.exists_mark (hc.real.isIn hroot))
    rw [hmarks] at hfun hmark hr
    have hinner := isInner_of_isPlain.2 _ hsource.plain
    rw [FromItem.isInner] at hinner
    have hunread : u.isIn (FromItem.innerList source) = false := by
      rw [Bool.eq_false_iff, ne_eq, TableRef.isIn_iff]
      rintro ⟨v, hv, hsame⟩
      rw [TableRef.same_comm, scope_avoids_inner (x := .paren source) hsource.separate u hu v hv] at hsame
      cases hsame
    obtain ⟨part, hpart, hempty⟩ := repeated_empty hb.valid hfun hinner (hc.real u hroot) hu htwice
      hmark hadvance hunread hr
    have hrun : (FromItem.paren source).runOn (db.view s none) = .ok part := by
      rw [← hpart, ← FromItem.runOn]
      refine (runOn_congr _ _).2 _ fun v hv => ?_
      exact hc.real.view_grows (hmarks ▸ hb.tracks) hb.grows none (hsource.occurrences v hv)
    refine ⟨⟨part, hrun⟩, fun z hz => ?_⟩
    have hlike := (runOn_trace _).2 _ hsource.plain
      (fun v hv => hc.real v (hsource.occurrences v hv)) _ hrun
    have hmem := hlike.rows.mem_iff.mpr (List.mem_map_of_mem hz)
    rw [hempty] at hmem
    exact absurd hmem List.not_mem_nil

/-- A SELECT over a settled source is settled. -/
theorem select_settled {source : List FromItem} {c : Clauses} {t : Tail}
    (h : (Query.select source c t).Fit root db ds) (hx : (FromItem.paren source).Settled db s) :
    (Query.select source c t).Settled db s := by
  have hplain := h.plain
  simp only [Query.isPlain, Bool.and_eq_true, Bool.not_eq_true'] at hplain
  obtain ⟨⟨⟨-, -⟩, hg⟩, -⟩ := hplain
  have hsource := h.source
  have hreal : ∀ v ∈ (FromItem.paren source).occurrences, v.isDual = false := fun v hv =>
    hc.real v (hsource.occurrences v hv)
  have horderly := hx.orderly
  rw [FromItem.trace] at horderly
  refine ⟨?_, by rw [Query.trace]; exact (horderly.kept _).project _⟩
  obtain ⟨rows, hrows⟩ := hx.succeeds
  have hlike := (runOn_upTo db s).2 _ hsource.plain hreal rows hrows
  -- what a delivery that reads the SELECT had as its source
  have hseen : ∀ d ∈ ds, (∀ y ∈ d.advance, y.table.isIn (FromItem.paren source).occurrences = true) →
      ∃ r' : Relation, r'.Like (((FromItem.paren source).trace db.source).part d.sees).relation ∧
        Succeeds (Relation.select c t r') := by
    intro d hd ha
    obtain ⟨u, hu⟩ := h.served.seen hc h.plain h.occurrences hd
      (by rwa [Query.occurrences, ← FromItem.occurrences])
    rw [Query.idled, Query.runOn] at hu
    obtain ⟨r', hr', hu⟩ := bind_eq_ok.mp hu
    exact ⟨r', (runOn_seen db d).2 _ hsource.plain hreal r'
      (by rw [FromItem.idled, FromItem.runOn, hr']), u, hu⟩
  rw [FromItem.runOn] at hrows
  rw [Query.runOn, hrows, ok_bind, Relation.select_succeeds_iff hg]
  constructor
  · obtain ⟨d, hd, ha⟩ := hc.exists_first
    obtain ⟨r', hr', hselect⟩ := hseen d hd (by rw [ha]; simp)
    have hcolumns : rows.columns = r'.columns := hlike.columns.trans hr'.columns.symm
    rw [hcolumns]
    exact ((Relation.select_succeeds_iff hg).mp hselect).1
  · refine evaluated_upTo (P := Relation.Evaluates c t) hlike fun z hz => ?_
    have hup := (List.mem_filter.mp hz).2
    rw [← (trace_upTo db s).2 _ hreal] at hz
    obtain ⟨d, hd, hsee, halive⟩ := hc.exists_seeing (hx.orderly z hz)
      ((trace_from _).2 _ z hz) hsource.occurrences hup
    obtain ⟨r', hr', hselect⟩ := hseen d hd halive
    exact ⟨d, hsee, r', hr', ((Relation.select_succeeds_iff hg).mp hselect).2⟩

/-- A union of settled branches is settled. -/
theorem union_settled {l r : Query} {all : Bool} {t : Tail}
    (h : (Query.union l r all t).Fit root db ds) (hl : l.Settled db s) (hr : r.Settled db s) :
    (Query.union l r all t).Settled db s := by
  have hplain := h.plain
  simp only [Query.isPlain, Bool.and_eq_true] at hplain
  obtain ⟨⟨⟨rfl, ht⟩, hpl⟩, hpr⟩ := hplain
  have hreal : ∀ v ∈ (Query.union l r true t).occurrences, v.isDual = false := fun v hv =>
    hc.real v (h.occurrences v hv)
  have hbranches := hreal
  rw [Query.occurrences, List.forall_mem_append] at hbranches
  obtain ⟨hrl, hrr⟩ := hbranches
  have horderly : ((Query.union l r true t).trace (db.view s none)).Orderly := by
    intro z hz
    rw [Query.trace] at hz
    rcases Trace.mem_append.mp hz with hz | hz
    · obtain ⟨x, hx, rfl⟩ := Trace.mem_through hz
      exact (hl.orderly x hx).through fun e he =>
        Query.RealTables.isIn hrl (((trace_from _).1 l x hx).stamps e he)
    · obtain ⟨x, hx, rfl⟩ := Trace.mem_through hz
      exact (hr.orderly x hx).through fun e he =>
        Query.RealTables.isIn hrr (((trace_from _).1 r x hx).stamps e he)
  refine ⟨?_, horderly⟩
  obtain ⟨a, ha⟩ := hl.succeeds
  obtain ⟨b, hb⟩ := hr.succeeds
  have hal := (runOn_upTo db s).1 l hpl hrl a ha
  have hbl := (runOn_upTo db s).1 r hpr hrr b hb
  have hthrough : ∀ (u v : List TableRef) (x : Traced), s.upTo (x.through u v) = s.upTo x :=
    fun _ _ _ => rfl
  have hlike : (a.append b).Like (((Query.union l r true t).trace db.source).part s.upTo).relation := by
    rw [Query.trace, Trace.part_append, Trace.part_through (hthrough _ _),
      Trace.part_through (hthrough _ _), Trace.relation_append, Trace.relation_through,
      Trace.relation_through]
    exact hal.append hbl
  rw [Query.runOn, ha, ok_bind, hb, ok_bind, Relation.union_succeeds_iff]
  constructor
  · -- the branches are as wide as they were in the delivery without an advancing table
    obtain ⟨d, hd, hnone⟩ := hc.exists_first
    obtain ⟨u, hu⟩ := h.served.seen hc h.plain h.occurrences hd (by rw [hnone]; simp)
    rw [hnone, idled_none.1, Query.runOn] at hu
    obtain ⟨a', ha', hu⟩ := bind_eq_ok.mp hu
    obtain ⟨b', hb', hu⟩ := bind_eq_ok.mp hu
    have hwidth := (Relation.union_succeeds_iff.mp ⟨u, hu⟩).1
    have hacols : a.columns = a'.columns :=
      hal.columns.trans ((runOn_upTo db d.marks).1 l hpl hrl a' ha').columns.symm
    have hbcols : b.columns = b'.columns :=
      hbl.columns.trans ((runOn_upTo db d.marks).1 r hpr hrr b' hb').columns.symm
    rw [hacols, hbcols, hwidth]
  · refine evaluated_upTo (P := Relation.UnionEvaluates t) hlike fun z hz => ?_
    have hup := (List.mem_filter.mp hz).2
    rw [← (trace_upTo db s).1 _ hreal] at hz
    obtain ⟨d, hd, hsee, halive⟩ := hc.exists_seeing (horderly z hz) ((trace_from _).1 _ z hz)
      h.occurrences hup
    obtain ⟨u, hu⟩ := h.served.seen hc h.plain h.occurrences hd halive
    have hseen := (runOn_seen db d).1 _ h.plain hreal u hu
    rw [Query.idled, Query.runOn] at hu
    obtain ⟨a', -, hu⟩ := bind_eq_ok.mp hu
    obtain ⟨b', -, hu⟩ := bind_eq_ok.mp hu
    exact ⟨d, hsee, a'.append b', (Relation.Like.union ht hu).symm.trans hseen,
      (Relation.union_succeeds_iff.mp ⟨u, hu⟩).2⟩

/-- What is covered up to the marks is settled there. -/
theorem settled_of_cover : (∀ q : Query, q.Fit root db ds → q.Settled db s) ∧
    ∀ x : FromItem, TableRef.Apart x.scope → x.Fit root db ds → x.Settled db s := by
  refine Query.induct ?_ ?_ ?_ ?_ ?_ ?_ ?_
  · intro source c t ih h
    exact select_settled hc h (source_settled hc h ih)
  · intro l r all t hl hr h
    have hbranches := h.branches hc
    exact union_settled hc h (hl hbranches.1) (hr hbranches.2)
  · intro q hq h
    have hocc := h.occurrences
    have hp := h.plain
    have hs := h.separate
    rw [Query.occurrences] at hocc
    rw [Query.isPlain] at hp
    rw [Query.isSeparate] at hs
    obtain ⟨hrun, horderly⟩ := hq ⟨hp, hs, hocc, h.served.query⟩
    exact ⟨by rw [Query.runOn]; exact hrun, by rw [Query.trace]; exact horderly⟩
  · intro name al _ h
    exact table_settled hc h
  · intro q al hq _ h
    have hocc := h.occurrences
    have hp := h.plain
    have hs := h.separate
    rw [FromItem.occurrences] at hocc
    rw [FromItem.isPlain] at hp
    rw [FromItem.isSeparate] at hs
    obtain ⟨⟨r, hr⟩, horderly⟩ := hq ⟨hp, hs, hocc, h.served.query⟩
    exact ⟨⟨r.qualified al, by rw [FromItem.runOn, hr]; rfl⟩, by rw [FromItem.trace]; exact horderly⟩
  · intro xs ih hapart h
    rw [FromItem.scope] at hapart
    have hsep := h.separate
    rw [FromItem.isSeparate] at hsep
    exact list_settled (fun x hx => ih x hx (hapart.sublist (FromItem.scope_sublist hx)) (h.items x hx))
      hapart hsep
  · intro k l r on hl hr hapart h
    rw [FromItem.scope] at hapart
    obtain ⟨hal, har, -⟩ := List.pairwise_append.mp hapart
    exact join_settled hc h hapart (hl hal h.operands.1) (hr har h.operands.2)

end Sql

end

/-! ## The deliveries of a run -/

theorem Marks.get?_congr (s : Marks) {t u : TableRef} (h : t.same u = true) : s.get? t = s.get? u := by
  unfold Marks.get?
  simp only [TableRef.same_congr_right h]

theorem Marks.admits_some (s : Marks) (y : Advance) (t : TableRef) (i : Int64) :
    s.admits (some y) t i = (s.admits none t i && (!y.table.same t || decide (y.former < i))) := by
  simp [Marks.admits]

theorem Marks.admits_none {s : Marks} {t : TableRef} {m : Int64} (h : s.get? t = some m) (i : Int64) :
    s.admits none t i = decide (i ≤ m) := by
  simp [Marks.admits, h]

/-- Equal occurrences of an orderly row are one. -/
theorem Traced.Orderly.eq_of_same {z : Traced} (h : z.Orderly) {e e' : TableRef × Int64}
    (he : e ∈ z.stamps) (he' : e' ∈ z.stamps) (hs : e.1.same e'.1 = true) : e = e' := by
  have hapart := h.apart
  rw [TableRef.Apart, List.pairwise_map] at hapart
  by_contra hne
  have : Std.Symm fun x y : TableRef × Int64 => x.1.same y.1 = false :=
    ⟨fun x y hxy => by rw [TableRef.same_comm, hxy]⟩
  have hfalse := hapart.forall he he' hne
  rw [hs] at hfalse
  cases hfalse

namespace Round

/-- A row up to the marks of the last round is up to those of the first, or was above the former
marks of a round that it is up to the marks of. -/
theorem upTo_marksAfter {first : Marks} {rs : List Round} (hc : Chained first rs) {z : Traced}
    (hz : (marksAfter first rs).upTo z = true) :
    first.upTo z = true ∨ ∃ r ∈ rs, r.marks.upTo z = true ∧ r.former.upTo z = false := by
  induction rs generalizing first with
  | nil => exact Or.inl hz
  | cons r rs ih =>
      obtain ⟨hformer, hc⟩ := hc
      rcases ih hc hz with h | ⟨r', hr', h⟩
      · cases hf : first.upTo z with
        | true => exact Or.inl rfl
        | false => exact Or.inr ⟨r, List.mem_cons_self, h, hformer ▸ hf⟩
      · exact Or.inr ⟨r', List.mem_cons_of_mem _ hr', h⟩

variable {q : Query} {db : Catalog}

theorem Of.exists_delivery {r : Round} (h : r.Of q db q.tables) {t : TableRef}
    (ht : t.isIn q.tables = true) : ∃ d ∈ r.deliveries, ∃ u, u.same t = true ∧ d.marks = r.marks ∧
      d.advance = some ⟨u, (r.former.get? t).getD 0⟩ := by
  obtain ⟨u, hu, hs⟩ := TableRef.isIn_iff.mp ht
  rw [← h.tables] at hu
  obtain ⟨e, he, rfl⟩ := List.mem_map.mp hu
  refine ⟨r.delivery e, List.mem_map_of_mem he, e.1, hs, rfl, ?_⟩
  rw [Round.delivery, r.former.get?_congr hs]

/-- An orderly row that has become new in a complete round is seen in it. -/
theorem Of.sees {r : Round} (h : r.Of q db q.tables) {z : Traced} (hz : z.Orderly)
    (hin : ∀ e ∈ z.stamps, e.1.isIn q.tables = true) (hm : r.marks.upTo z = true)
    (hf : r.former.upTo z = false) :
    ∃ d ∈ r.deliveries, d.sees z = true ∧ ∀ y ∈ d.advance, ∃ e ∈ z.stamps, y.table.same e.1 = true := by
  rw [Marks.upTo, Stamped.within, List.all_eq_true] at hm
  rw [Marks.upTo, Stamped.within, List.all_eq_false] at hf
  obtain ⟨e, he, hnew⟩ := hf
  obtain ⟨d, hd, u, hu, hmarks, hadvance⟩ := h.exists_delivery (hin e he)
  refine ⟨d, hd, ?_, fun y hy => ?_⟩
  · obtain ⟨f, hfm⟩ := Option.isSome_iff_exists.mp
      (Marks.get?_isSome_iff.mpr (h.former.exists_mark (hin e he)))
    rw [Marks.admits_none hfm, decide_eq_true_eq, Int64.not_le] at hnew
    rw [hfm, Option.getD_some] at hadvance
    rw [Delivery.sees, hmarks, hadvance, Option.all_some, Bool.and_eq_true,
      z.isActive_congr hu, hz.active e he]
    refine ⟨List.all_eq_true.mpr fun e' he' => ?_, rfl⟩
    rw [Marks.admits_some, hm e' he', Bool.true_and]
    cases hs : u.same e'.1 with
    | false => rfl
    | true =>
        have heq := hz.eq_of_same he he' (TableRef.same_trans (TableRef.same_symm hu) hs)
        rw [← heq]
        simpa using hnew
  · rw [hadvance, Option.mem_some_iff] at hy
    exact ⟨e, he, hy ▸ hu⟩

end Round

/-- The first round and complete rounds of changes cover a query up to the last marks. -/
theorem cover_of_rounds {q : Query} {db : Catalog} (hq : q.RealTables) {first : Marks}
    {result : Relation} {rs : List Round} (hfirst : (Delivery.mk first none result).Of q db)
    (hchain : Round.Chained first rs) (hrs : ∀ r ∈ rs, r.Of q db q.tables) :
    Cover q db (⟨first, none, result⟩ :: rs.flatMap Round.deliveries) (Round.marksAfter first rs) := by
  constructor
  · exact hq
  · intro d hd
    rcases List.mem_cons.mp hd with rfl | hd
    · exact hfirst
    · obtain ⟨r, hr, hd⟩ := List.mem_flatMap.mp hd
      exact (hrs r hr).deliveries d hd
  · intro z hz hin hup
    rcases Round.upTo_marksAfter hchain hup with h | ⟨r, hr, hm, hf⟩
    · refine ⟨_, List.mem_cons_self, ?_, fun y hy => (by cases hy)⟩
      rw [Delivery.sees, Option.all_none, Bool.and_true]
      exact h
    · obtain ⟨d, hd, hsee, ha⟩ := (hrs r hr).sees hz hin hm hf
      exact ⟨d, List.mem_cons_of_mem _ (List.mem_flatMap.mpr ⟨r, hr, hd⟩), hsee, ha⟩
  · intro t ht
    rcases List.eq_nil_or_concat rs with rfl | ⟨rest, r, rfl⟩
    · exact ⟨_, List.mem_cons_self, rfl, fun y hy => (by cases hy)⟩
    · rw [List.concat_eq_append] at hrs ⊢
      have hr : r ∈ rest ++ [r] := by simp
      obtain ⟨d, hd, u, hu, hmarks, hadvance⟩ := (hrs r hr).exists_delivery ht
      refine ⟨d, List.mem_cons_of_mem _ (List.mem_flatMap.mpr ⟨r, hr, hd⟩), ?_, fun y hy => ?_⟩
      · rw [hmarks, Round.marksAfter_concat]
      · rw [hadvance, Option.mem_some_iff] at hy
        exact hy ▸ hu

/-- A plain and separate query is settled up to the marks of each complete round. -/
theorem settled_of_rounds {q : Query} {db : Catalog} (hq : q.RealTables) (hp : q.isPlain = true)
    (hs : q.isSeparate = true) {first : Marks} {result : Relation} {rs : List Round}
    (hfirst : (Delivery.mk first none result).Of q db) (hchain : Round.Chained first rs)
    (hrs : ∀ r ∈ rs, r.Of q db q.tables) : q.Settled db (Round.marksAfter first rs) := by
  have hc := cover_of_rounds hq hfirst hchain hrs
  refine (Sql.settled_of_cover hc).1 q ⟨hp, hs, fun t ht => ht, fun d hd _ => ?_⟩
  obtain ⟨before, hv, htracks, hg, hr⟩ := (hc.deliveries d hd).gave
  exact ⟨before, ⟨hv, htracks, hg⟩, d.result, by rw [← Query.run_eq_runOn, hr]⟩

namespace History

variable {h : History} {q : Query} {db : Catalog}

theorem Of.settled_last (k : h.Of q db) (hq : q.RealTables) (hp : q.isPlain = true)
    (hs : q.isSeparate = true) : q.Settled db h.last :=
  settled_of_rounds hq hp hs k.first k.complete_chained k.rounds

theorem Of.settled_round (k : h.Of q db) (hq : q.RealTables) (hp : q.isPlain = true)
    (hs : q.isSeparate = true) {r : Round} (hr : r ∈ h.rounds) : q.Settled db r.marks := by
  obtain ⟨pre, post, heq⟩ := List.append_of_mem hr
  have hchain := k.complete_chained
  have hrs := k.rounds
  rw [heq, List.append_cons] at hchain hrs
  have hsettled := settled_of_rounds hq hp hs k.first (Round.chained_append.mp hchain).1
    fun x hx => hrs x (List.mem_append_left _ hx)
  rwa [Round.marksAfter_concat] at hsettled

end History

end Rowtime
