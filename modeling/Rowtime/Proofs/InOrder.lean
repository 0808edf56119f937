import Rowtime.Proofs.Emitted

/-!
# One table is delivered in order

A query that projects and filters one table gives its rows in the order of the table,
and the rows of a table stand in the order of their row times. The windows of the
rounds follow one another, so what is written, one round behind the other, is what the
query gives once on the table up to the last mark.
-/
namespace Rowtime

open Sql

/-- A part at the front of a list and the rest of a larger part, one behind the other. -/
theorem filter_append_filter {α : Type} {xs : List α} {a b : α → Bool}
    (hxs : xs.Pairwise fun x y => a y = true → a x = true) (hab : ∀ x ∈ xs, a x = true → b x = true) :
    xs.filter a ++ xs.filter (fun x => b x && !a x) = xs.filter b := by
  induction xs with
  | nil => rfl
  | cons x xs ih =>
      obtain ⟨hx, hxs⟩ := List.pairwise_cons.mp hxs
      have hrest := ih hxs fun y hy => hab y (by simp [hy])
      cases ha : a x with
      | true =>
          have hb := hab x (by simp) ha
          simp only [List.filter_cons, ha, hb, Bool.not_true, Bool.and_false, Bool.false_eq_true,
            if_false, if_true, List.cons_append]
          rw [hrest]
      | false =>
          have hnone : xs.filter a = [] := by
            refine List.filter_eq_nil_iff.mpr fun y hy hay => ?_
            rw [hx y hy hay] at ha
            cases ha
          rw [hnone, List.nil_append] at hrest
          simp only [List.filter_cons, ha, hnone, hrest, Bool.not_false, Bool.and_true,
            Bool.false_eq_true, if_false, List.nil_append]

theorem Trace.map_relation_rows {β : Type} (a : Trace) (f : Row → β) :
    a.relation.rows.map f = a.rows.map fun z => f z.row := List.map_map

namespace Sql

/-- A SELECT from one table that only projects and filters. -/
def Query.ofTable (t : TableRef) (c : Clauses) : Query :=
  .select [.table t.name t.alias?] c .empty

/-- The clauses neither group rows nor leave out duplicates. -/
structure Clauses.Direct (c : Clauses) : Prop where
  distinct : c.distinct = false
  grouped : Relation.isGrouped c .empty = false

section
variable {t : TableRef} {c : Clauses}

@[simp] theorem Query.occurrences_ofTable : (Query.ofTable t c).occurrences = [t] := rfl

theorem Query.tables_ofTable (ht : t.isDual = false) : (Query.ofTable t c).tables = [t] := by
  rw [Query.tables, Query.occurrences_ofTable, TableRef.distinct, TableRef.distinctFrom, ht]
  rfl

theorem Query.realTables_ofTable (ht : t.isDual = false) : (Query.ofTable t c).RealTables := by
  intro u hu
  rw [Query.occurrences_ofTable, List.mem_singleton] at hu
  rw [hu, ht]

theorem Query.isPlain_ofTable (hc : c.Direct) : (Query.ofTable t c).isPlain = true := by
  rw [Query.ofTable, Query.isPlain, hc.distinct, hc.grouped]
  rfl

theorem Query.isFlat_ofTable : (Query.ofTable t c).isFlat = true := rfl

theorem Query.trace_ofTable (src : Source) : (Query.ofTable t c).trace src =
    ((Trace.unit.cross (src.trace t)).kept c.condition).project c.projection := by
  rw [Query.ofTable, Query.trace, FromItem.traceList_cons, FromItem.traceList_nil, FromItem.trace]

/-- The result has the rows of the trace in their order. -/
theorem Query.runOn_ofTable {src : Source} (ht : t.isDual = false) (hc : c.Direct) {r : Relation}
    (h : (Query.ofTable t c).runOn src = .ok r) :
    r = ((Query.ofTable t c).trace src).relation := by
  rw [Query.ofTable, Query.runOn, FromItem.runListOn_cons, FromItem.runOn] at h
  obtain ⟨source, hs, h⟩ := bind_eq_ok.mp h
  obtain ⟨table, htable, hs⟩ := bind_eq_ok.mp hs
  rw [FromItem.runListOn_nil, Except.ok.injEq] at hs
  rw [Relation.select_eq] at h
  obtain ⟨kept, hk, h⟩ := bind_eq_ok.mp h
  obtain ⟨-, rfl⟩ := Relation.filtered_eq_ok_iff.mp hk
  obtain ⟨rows, hrows, rfl⟩ := Relation.selectKept_plain hc.distinct hc.grouped h
  rw [Query.trace_ofTable, Trace.relation_project, Trace.relation_kept, Trace.relation_cross,
    Trace.relation_unit, ← Relation.fromSource_trace ht htable, hs, Relation.applyTail_empty, hrows]

/-- The rows of the trace have one stamp each, of the table. -/
theorem Query.stamps_ofTable {src : Source} {z : Traced}
    (hz : z ∈ ((Query.ofTable t c).trace src).rows) : ∃ i, z.stamps = [(t, i)] := by
  rw [Query.trace_ofTable] at hz
  obtain ⟨x, hx, row, rfl⟩ := Trace.mem_project hz
  obtain ⟨u, hu, y, hy, rfl⟩ := Trace.mem_cross.mp (Trace.mem_kept hx)
  rw [Trace.unit, List.mem_singleton] at hu
  subst hu
  unfold Source.trace at hy
  split at hy
  · obtain ⟨row, -, rfl⟩ := List.mem_map.mp hy
    exact ⟨_, rfl⟩
  · cases hy

/-- What is up to some marks in the trace stands before what is not. -/
theorem Query.increasing_ofTable {db : Catalog} (hdb : db.Valid) (s : Marks) :
    ((Query.ofTable t c).trace db.source).rows.Pairwise fun x y =>
      s.upTo y = true → s.upTo x = true := by
  have hsource : (db.source.trace t).rows.Pairwise fun x y => s.upTo y = true → s.upTo x = true := by
    unfold Source.trace Catalog.source
    cases ht : db.get? t.name with
    | none => exact .nil
    | some table =>
        refine List.pairwise_map.mpr ((hdb.get? ht).1.increasing.imp ?_)
        intro x y hlt hy
        simp only [Marks.upTo, Stamped.within, List.all_cons, List.all_nil, Bool.and_true] at hy ⊢
        cases hm : s.get? t with
        | none => simp [Marks.admits, hm]
        | some m =>
            rw [Marks.admits_none hm, decide_eq_true_eq] at hy ⊢
            exact Int64.le_of_lt (Int64.lt_of_lt_of_le hlt hy)
  rw [Query.trace_ofTable]
  refine List.pairwise_map.mpr (List.Pairwise.filter _ ?_)
  have hcross : (Trace.unit.cross (db.source.trace t)).rows =
      (db.source.trace t).rows.map fun y => Traced.append ⟨⟨[], []⟩, []⟩ y := List.flatMap_singleton _ _
  rw [hcross]
  exact List.pairwise_map.mpr hsource

end

end Sql

section
variable {t : TableRef} {c : Clauses} {db : Catalog}

/-- What is written of a delivery: the rows that it sees, in the order of the table. -/
theorem Delivery.Of.lines_ofTable {d : Delivery} (h : d.Of (Query.ofTable t c) db)
    (ht : t.isDual = false) (hc : c.Direct) (shape : Shape) :
    d.lines shape = (((Query.ofTable t c).trace db.source).rows.filter d.sees).map fun z =>
      shape.line ((Query.ofTable t c).trace db.source).relation.columnNames z.row := by
  have hreal := Query.realTables_ofTable (c := c) ht
  have hrun := h.gave.runOn (isInner_of_isPlain.1 _ (Query.isPlain_ofTable hc)) hreal h.advance
  have hidled : (Query.ofTable t c).idled d.advance = Query.ofTable t c := rfl
  have htrace := (trace_seen db d).1 _ hreal
  rw [hidled] at hrun htrace
  have hresult := Query.runOn_ofTable ht hc hrun
  rw [htrace] at hresult
  rw [Delivery.lines, hresult]
  exact Trace.map_relation_rows _ _

theorem Round.Of.sent_eq {r : Round} {q : Query} (h : r.Of q db [t]) : ∃ result, r.sent = [(t, result)] := by
  obtain ⟨e, he, rfl⟩ := List.map_eq_singleton_iff.mp h.tables
  exact ⟨e.2, he⟩

/-- The query of a round sees what is new in it. -/
theorem Round.Of.sees_ofTable {r : Round} (h : r.Of (Query.ofTable t c) db [t]) (ht : t.isDual = false)
    (result : Relation) {z : Traced} (hz : z ∈ ((Query.ofTable t c).trace db.source).rows) :
    (r.delivery (t, result)).sees z = (r.marks.upTo z && !r.former.upTo z) := by
  obtain ⟨i, hi⟩ := Query.stamps_ofTable hz
  have hin : t.isIn (Query.ofTable t c).tables = true := by
    rw [Query.tables_ofTable ht]
    exact TableRef.isIn_of_mem (List.mem_singleton.mpr rfl)
  obtain ⟨f, hf⟩ := Option.isSome_iff_exists.mp
    (Marks.get?_isSome_iff.mpr (h.former.exists_mark hin))
  have hactive : z.isActive t = true := by
    have h := Query.isActive_iff db.source Query.isFlat_ofTable z hz t hin
    rw [h, hi]
    exact TableRef.isIn_of_mem (List.mem_singleton.mpr rfl)
  rw [Delivery.sees, Round.delivery, hf, Option.getD_some, Option.all_some, hactive,
    Bool.and_true, Marks.upTo, Marks.upTo, Stamped.within, Stamped.within, Stamped.within, hi]
  simp only [List.all_cons, List.all_nil, Bool.and_true]
  rw [Marks.admits_some, Marks.admits_none hf, TableRef.same_refl, Bool.not_true, Bool.false_or]
  congr 1
  rw [Bool.eq_iff_iff, decide_eq_true_eq, Bool.not_eq_true', decide_eq_false_iff_not, Int64.not_le]

/-- The first round and rounds of changes, one behind the other, write what is up to the last marks. -/
theorem Round.lines_ofTable (hdb : db.Valid) (ht : t.isDual = false) (hc : c.Direct) (shape : Shape)
    {first : Marks} {rs : List Round} (hchain : Chained first rs)
    (hrs : ∀ r ∈ rs, r.Of (Query.ofTable t c) db [t]) :
    let rows := ((Query.ofTable t c).trace db.source).rows
    let line := fun z : Traced =>
      shape.line ((Query.ofTable t c).trace db.source).relation.columnNames z.row
    (rows.filter first.upTo).map line ++ (rs.flatMap deliveries).flatMap (·.lines shape) =
      (rows.filter (marksAfter first rs).upTo).map line := by
  intro rows line
  induction rs generalizing first with
  | nil => exact List.append_nil _
  | cons r rs ih =>
      obtain ⟨rfl, hchain⟩ := hchain
      have hr := hrs r (by simp)
      obtain ⟨result, he⟩ := hr.sent_eq
      have hmono : ∀ z ∈ rows, r.former.upTo z = true → r.marks.upTo z = true := by
        intro z hz
        have hof : r.Of (Query.ofTable t c) db (Query.ofTable t c).tables := by
          rw [Query.tables_ofTable ht]
          exact hr
        apply hof.upTo_of_former
        obtain ⟨i, hi⟩ := Query.stamps_ofTable hz
        rw [hi, Query.tables_ofTable ht]
        simp [TableRef.isIn]
      have hlines : (r.deliveries).flatMap (·.lines shape) =
          (rows.filter fun z => r.marks.upTo z && !r.former.upTo z).map line := by
        rw [deliveries, he, List.map_singleton, List.flatMap_singleton,
          (hr.deliveries _ (by simp [deliveries, he])).lines_ofTable ht hc]
        congr 1
        exact List.filter_congr fun z hz => hr.sees_ofTable ht result hz
      rw [List.flatMap_cons, List.flatMap_append, hlines, ← List.append_assoc, ← List.map_append,
        filter_append_filter (Query.increasing_ofTable hdb _) hmono, marksAfter_cons]
      exact ih hchain fun x hx => hrs x (by simp [hx])

/-- The last of the deliveries has the marks behind all rounds. -/
theorem Round.exists_last {q : Query} {first : Marks} {result : Relation} {rs : List Round}
    (hrs : ∀ r ∈ rs, r.Of q db [t]) : ∃ (before : List Delivery) (d : Delivery),
      ⟨first, none, result⟩ :: rs.flatMap deliveries = before ++ [d] ∧ d.marks = marksAfter first rs := by
  rcases List.eq_nil_or_concat rs with rfl | ⟨rest, r, rfl⟩
  · exact ⟨[], _, rfl, rfl⟩
  · rw [List.concat_eq_append] at hrs ⊢
    obtain ⟨last, he⟩ := (hrs r (by simp)).sent_eq
    refine ⟨⟨first, none, result⟩ :: rest.flatMap deliveries, r.delivery (t, last), ?_,
      (marksAfter_concat _ _ _).symm⟩
    rw [List.flatMap_append, List.flatMap_singleton, deliveries, he, List.map_singleton]
    rfl

/-- In a run on one table a round under way has had its query or is not in the output yet. -/
theorem History.Of.rounds_ofTable {h : History} (k : h.Of (Query.ofTable t c) db)
    (ht : t.isDual = false) : ∃ rs : List Round, Round.Chained h.marks rs ∧
      (∀ r ∈ rs, r.Of (Query.ofTable t c) db [t]) ∧
      h.deliveries = ⟨h.marks, none, h.result⟩ :: rs.flatMap Round.deliveries := by
  have hrounds := k.rounds
  rw [Query.tables_ofTable ht] at hrounds
  have hquiet : h.all.flatMap Round.deliveries = h.rounds.flatMap Round.deliveries →
      ∃ rs : List Round, Round.Chained h.marks rs ∧ (∀ r ∈ rs, r.Of (Query.ofTable t c) db [t]) ∧
        h.deliveries = ⟨h.marks, none, h.result⟩ :: rs.flatMap Round.deliveries :=
    fun hd => ⟨h.rounds, k.complete_chained, hrounds, by rw [History.deliveries, hd]⟩
  cases hcur : h.current with
  | none => exact hquiet (by rw [History.all, hcur, Option.toList_none, List.append_nil])
  | some r =>
      obtain ⟨ts, hts, hr⟩ := k.current r hcur
      rw [Query.tables_ofTable ht] at hts
      rcases List.prefix_cons_iff.mp hts with rfl | ⟨us, rfl, hus⟩
      · apply hquiet
        have hnone : r.sent = [] := List.map_eq_nil_iff.mp hr.tables
        rw [History.all_of_current hcur, List.flatMap_append, List.flatMap_singleton, Round.deliveries,
          hnone, List.map_nil, List.append_nil]
      · rw [List.prefix_nil.mp hus] at hr
        refine ⟨h.all, k.chained, ?_, rfl⟩
        rw [History.all_of_current hcur, List.forall_mem_append, List.forall_mem_singleton]
        exact ⟨hrounds, hr⟩

end

namespace Run

open World Log

/-- A run on one table that has not failed has written, line by line and in this order, what the query
gives on the table up to the mark of its last data query; its rows stand in the order of their row
times. -/
theorem delivers_in_order {env : Surroundings} {t : TableRef} {c : Clauses} (ht : t.isDual = false)
    (hc : c.Direct) (hr : (Query.ofTable t c).ReadsItself)
    (he : env.Spares fun k => k = Catalog.key t.name) {log : Bytes}
    (hl : Recorded (fun _ => False) log) {sink : Sink} {shape : Shape} {n : Nat} {p : Progress}
    {w : World} (hrun : (steps (host env) shape (Query.ofTable t c) (n + 1) Run.start).run
      (World.start log sink) = (p, w)) (hwell : p.Well) :
    ∃ (m : Int64) (a : Option Advance) (earlier probes : List String) (table : Table) (r : Relation),
      w.executed = earlier ++ ((Query.ofTable t c).bounded ⟨[(t, m)]⟩ a).display :: probes ∧
        (∀ sql ∈ probes, sql = t.probe) ∧
        w.db.get? t.name = some table ∧
        table.rows.Pairwise (fun x y => table.stamp x < table.stamp y) ∧
        (Query.ofTable t c).run (w.db.cut ⟨[(t, m)]⟩) = .ok r ∧
        w.sink.content = sink.content ++ String.join (r.rows.map (shape.line r.columnNames)) := by
  have hspares : env.Spares (Query.ofTable t c).guarded := by
    intro k
    refine (he k).mono fun x hx => ?_
    obtain ⟨u, hu, rfl⟩ := hx
    rw [Query.tables_ofTable ht, List.mem_singleton] at hu
    rw [hu]
  have hf : Follows env (Query.ofTable t c) := ⟨hspares, hr.stable⟩
  have hreal := Query.realTables_ofTable (c := c) ht
  have hplain := Query.isPlain_ofTable (t := t) hc
  have hsep := isSeparate_of_isFlat.1 _ (Query.isFlat_ofTable (t := t) (c := c))
  obtain ⟨h, hex⟩ := steps_explained hf hl hrun hwell
  have hdb := steps_valid hf hl hrun hwell
  obtain ⟨rs, hchain, hrs, hds⟩ := hex.of.rounds_ofTable ht
  have hrs' : ∀ r ∈ rs, r.Of (Query.ofTable t c) w.db (Query.ofTable t c).tables := by
    rw [Query.tables_ofTable ht]
    exact hrs
  obtain ⟨before, d, hlast, hmarks⟩ :=
    Round.exists_last hrs
  rw [← hds] at hlast
  have htracks := (hex.of.deliveries d (by simp [hlast])).gave.tracks
  obtain ⟨m, hm⟩ : ∃ m, d.marks = ⟨[(t, m)]⟩ := by
    have htables := htracks.tables
    rw [Query.tables_ofTable ht] at htables
    obtain ⟨e, he, hee⟩ := List.map_eq_singleton_iff.mp htables
    exact ⟨e.2, by rw [← hee, ← he]⟩
  have hexecuted := hex.executed
  rw [hlast, List.map_append, List.map_singleton, Delivery.text, hm] at hexecuted
  obtain ⟨earlier, probes, hearlier, hprobes⟩ := hexecuted.last
  obtain ⟨table, htable, -⟩ := htracks.reached (t, m) (by rw [hm]; exact List.mem_singleton.mpr rfl)
  obtain ⟨r, hr⟩ := (settled_of_rounds hreal hplain hsep hex.of.first hchain hrs').succeeds
  refine ⟨m, d.advance, earlier, probes, table, r, hearlier, fun sql hsql => ?_, htable,
    (hdb.get? htable).1.increasing, ?_, ?_⟩
  · obtain ⟨u, hu, rfl⟩ := hprobes sql hsql
    rw [Query.tables_ofTable ht, List.mem_singleton] at hu
    rw [hu]
  · have hagree : Marks.Agree ⟨[(t, m)]⟩ := by
      intro x hx y hy _
      rw [List.mem_singleton.mp hx, List.mem_singleton.mp hy]
    rw [hm] at htracks
    rw [← hmarks, hm] at hr
    rw [Query.run_eq_runOn, ← hr]
    exact Query.runOn_congr fun u hu => (view_none_eq htracks.exactly hagree w.db hu).symm
  · have hresult := Query.runOn_ofTable ht hc hr
    rw [(trace_upTo w.db _).1 _ hreal] at hresult
    have hfirst := hex.of.first.lines_ofTable ht hc shape
    have hsees : Delivery.sees ⟨h.marks, none, h.result⟩ = h.marks.upTo := by
      funext z
      simp [Delivery.sees, Marks.upTo]
    rw [hsees] at hfirst
    rw [hex.content, History.lines, hds, List.flatMap_cons, hfirst,
      Round.lines_ofTable hdb ht hc shape hchain hrs, hresult]
    rw [Trace.map_relation_rows]
    rfl

/-- `SELECT v FROM t`, and a row comes before the first check. -/
def readingsRun : Progress × World :=
  (steps (host (.adding 2 sampleAddition)) .array
    (Query.ofTable ⟨"t", none⟩ (.ofColumns [⟨none, "v"⟩])) (3 + 1) Run.start).run
      (World.start sampleLog (.empty none))

theorem readingsRun_eq : (readingsRun.1, readingsRun.2.sink.content) =
    (.running ⟨.check, ⟨[(⟨"t", none⟩, 20)]⟩, 5, ⟨2, 2, 2⟩⟩, "[1]\n[2]\n") := by decide +kernel

theorem delivers_in_order_readings :
    readingsRun.2.sink.content = "[1]\n[2]\n" ∧ ∃ (m : Int64) (r : Relation),
      (Query.ofTable ⟨"t", none⟩ (.ofColumns [⟨none, "v"⟩])).run
          (readingsRun.2.db.cut ⟨[(⟨"t", none⟩, m)]⟩) = .ok r ∧
        readingsRun.2.sink.content = "" ++ String.join (r.rows.map (Shape.line .array r.columnNames)) := by
  obtain ⟨hp, hcontent⟩ := Prod.mk.inj readingsRun_eq
  have hread : (Query.ofTable ⟨"t", none⟩ (.ofColumns [⟨none, "v"⟩])).ReadsItself :=
    Query.readsItself_ofColumns (by simp) ⟨trivial, trivial⟩ rfl
  have hrun : (steps (host (.adding 2 sampleAddition)) .array
      (Query.ofTable ⟨"t", none⟩ (.ofColumns [⟨none, "v"⟩])) (3 + 1) Run.start).run
        (World.start sampleLog (.empty none)) = (readingsRun.1, readingsRun.2) := (Prod.eta _).symm
  obtain ⟨m, -, -, -, -, r, -, -, -, -, hr, hlines⟩ := delivers_in_order (by decide +kernel)
    ⟨rfl, by decide⟩ hread (Surroundings.adding_spares 2 (sampleAddition_recorded _))
    sampleLog_recorded hrun (by rw [hp]; intro why h; cases h)
  exact ⟨hcontent, m, r, hr, hlines⟩

end Run

end Rowtime
