import Rowtime.Proofs.World

/-!
# What a run observes

The marks that a run finds by its probes lie between two databases: each is the
greatest row time of its table at some moment between them. The rows that it writes
are those of its query on the database at the end.
-/
namespace Rowtime

open Log Sql

namespace Marks

/-- The marks of some occurrences, none above the greatest row time of its table. -/
structure Tracks (s : Marks) (ts : List TableRef) (db : Catalog) : Prop where
  tables : s.entries.map (·.1) = ts
  positive : ∀ e ∈ s.entries, 0 ≤ e.2
  reached : ∀ e ∈ s.entries, ∃ t, db.get? e.1.name = some t ∧ e.2 ≤ t.maxRowtime

/-- No mark is below the greatest row time of its table. -/
def Reaches (s : Marks) (db : Catalog) : Prop :=
  ∀ e ∈ s.entries, ∀ t, db.get? e.1.name = some t → t.maxRowtime ≤ e.2

theorem Tracks.grows {s : Marks} {ts : List TableRef} {db db' : Catalog} (h : s.Tracks ts db)
    (hg : ∀ t ∈ ts, db.GrowsAt db' t.name) : s.Tracks ts db' := by
  refine ⟨h.tables, h.positive, fun e he => ?_⟩
  obtain ⟨t, ht, hm⟩ := h.reached e he
  have hmem : e.1 ∈ ts := by
    rw [← h.tables]
    exact List.mem_map_of_mem he
  obtain ⟨t', ht', hg'⟩ := hg e.1 hmem t ht
  exact ⟨t', ht', Int64.le_trans hm hg'.greatest⟩

theorem Reaches.grows {s : Marks} {db db' : Catalog} (h : s.Reaches db')
    (hg : ∀ e ∈ s.entries, db.GrowsAt db' e.1.name) : s.Reaches db := by
  intro e he t ht
  obtain ⟨t', ht', hg'⟩ := hg e he t ht
  exact Int64.le_trans hg'.greatest (h e he t' ht')

theorem putEntry_new {t : TableRef} {mark : Int64} {es : List (TableRef × Int64)}
    (h : ∀ e ∈ es, e.1.same t = false) : putEntry t mark es = es ++ [(t, mark)] := by
  induction es with
  | nil => rfl
  | cons e es ih =>
      obtain ⟨u, n⟩ := e
      have hu : u.same t = false := h (u, n) (by simp)
      rw [putEntry, hu, ih fun e he => h e (by simp [he])]
      rfl

end Marks

namespace World

variable {env : Surroundings} {spared : String → Prop}

/-- What is there after a number of statements. -/
structure AfterAll (spared : String → Prop) (w : World) (sqls : List String) (id : UInt64)
    (v : World) : Prop where
  grew : Grew spared w v
  executed : v.executed = w.executed ++ sqls
  ready : v.Ready id

theorem AfterAll.trans {w v u : World} {a b : List String} {id id' : UInt64}
    (h : AfterAll spared w a id v) (k : AfterAll spared v b id' u) :
    AfterAll spared w (a ++ b) id' u :=
  ⟨h.grew.trans k.grew, by rw [k.executed, h.executed, List.append_assoc], k.ready⟩

end World

namespace Run

open World

variable {env : Surroundings} {spared : String → Prop}

/-- The answer to a probe of a table that is there is its greatest row time. -/
theorem probe_found {w v : World} {id : UInt64} {t : TableRef}
    (hv : ((host env).execute id t.probe).run w = (Engine.answer (probeQuery t.name) v.db, v))
    (hvalid : v.db.Valid) {table : Table} (ht : v.db.get? t.name = some table) :
    (probe (host env) id t).run w = (.ok table.maxRowtime, v) := by
  have hrun : Engine.answer (probeQuery t.name) v.db =
      .ok ⟨[Text.lower "COALESCE"], [[.integer table.maxRowtime]], .select 1⟩ := by
    rw [Engine.answer, probe_run hvalid ht, ok_bind]
    rfl
  rw [probe, run_bind, hv]
  simp only [hrun]
  rfl

/-- A probe finds the greatest row time of the table. -/
theorem probe_spec {w w' : World} {id : UInt64} (h : w.Ready id) (henv : env.Spares spared)
    {t : TableRef} (hd : t.isDual = false) {mark : Int64}
    (hp : (probe (host env) id t).run w = (.ok mark, w')) :
    (∃ table, w'.db.get? t.name = some table ∧ mark = table.maxRowtime) ∧ w'.sink = w.sink ∧
      After spared w t.probe id w' := by
  obtain ⟨v, hv, hsink, -, hafter⟩ := execute_query h henv (parse_probe t)
  have hvalid : v.db.Valid := hafter.ready.recorded.valid
  cases hg : v.db.get? t.name with
  | none =>
      have hrun : Engine.answer (probeQuery t.name) v.db = .error (.tableNotFound t.name) := by
        rw [Engine.answer, probe_run_missing hg hd, error_bind]
      rw [probe, run_bind, hv] at hp
      simp only [hrun] at hp
      exact absurd (Prod.ext_iff.mp hp).1 (by simp)
  | some table =>
      rw [probe_found hv hvalid hg] at hp
      change (Except.ok table.maxRowtime, v) = _ at hp
      simp only [Prod.mk.injEq, Except.ok.injEq] at hp
      obtain ⟨rfl, rfl⟩ := hp
      exact ⟨⟨table, hg, rfl⟩, hsink, hafter⟩

/-- The probes find marks between the database before and the one behind them. -/
theorem probeAll_spec (henv : env.Spares spared) {ts : List TableRef}
    (hd : ∀ t ∈ ts, t.isDual = false) (hs : ∀ t ∈ ts, spared (Catalog.key t.name)) {found marks : Marks}
    (ha : TableRef.Apart (found.entries.map (·.1) ++ ts)) {w w' : World} {id id' : UInt64}
    (h : w.Ready id) (hp : (probeAll (host env) id found ts).run w = ((.ok marks, id'), w')) :
    ∃ new : Marks, marks.entries = found.entries ++ new.entries ∧ new.Tracks ts w'.db ∧
      new.Reaches w.db ∧ w'.sink = w.sink ∧ AfterAll spared w (ts.map TableRef.probe) id' w' := by
  induction ts generalizing found w id with
  | nil =>
      change ((Except.ok found, id), w) = _ at hp
      simp only [Prod.mk.injEq, Except.ok.injEq] at hp
      obtain ⟨⟨rfl, rfl⟩, rfl⟩ := hp
      exact ⟨.empty, by simp [Marks.empty], ⟨rfl, by simp [Marks.empty], by simp [Marks.empty]⟩,
        by simp [Marks.Reaches, Marks.empty], rfl, .refl spared w, by simp, h⟩
  | cons t ts ih =>
      rw [probeAll, run_bind] at hp
      generalize hx : (probe (host env) id t).run w = x at hp
      obtain ⟨r, v⟩ := x
      cases r with
      | error why =>
          change ((Except.error why, id + 1), v) = _ at hp
          simp at hp
      | ok mark =>
          obtain ⟨⟨table, ht, rfl⟩, hsink, hafter⟩ := probe_spec h henv (hd t (by simp)) hx
          have hput : (found.put t table.maxRowtime).entries =
              found.entries ++ [(t, table.maxRowtime)] := by
            refine Marks.putEntry_new fun e he => ?_
            exact (List.pairwise_append.mp ha).2.2 e.1 (List.mem_map_of_mem he) t (by simp)
          have ha' : TableRef.Apart ((found.put t table.maxRowtime).entries.map (·.1) ++ ts) := by
            rw [hput, List.map_append, List.append_assoc]
            exact ha
          obtain ⟨new, hmarks, htracks, hreaches, hsink', hall⟩ := ih (fun u hu => hd u (by simp [hu]))
            (fun u hu => hs u (by simp [hu])) ha' hafter.ready hp
          have hspared := hs t (by simp)
          have hbefore : w.db.GrowsAt v.db t.name := hafter.grew.growsAt h.recorded hspared
          have hbehind : v.db.GrowsAt w'.db t.name :=
            hall.grew.growsAt hafter.ready.recorded hspared
          have hnew : ∀ e ∈ new.entries, w.db.GrowsAt v.db e.1.name := fun e he =>
            hafter.grew.growsAt h.recorded (hs e.1 (by
              have := List.mem_map_of_mem (f := Prod.fst) he
              rw [htracks.tables] at this
              simp [this]))
          refine ⟨⟨(t, table.maxRowtime) :: new.entries⟩, ?_, ⟨?_, ?_, ?_⟩, ?_, hsink'.trans hsink, ?_⟩
          · rw [hmarks, hput, List.append_assoc]
            rfl
          · rw [List.map_cons, htracks.tables]
          · rw [List.forall_mem_cons]
            exact ⟨(hafter.ready.recorded.valid.get? ht).1.maxRowtime_nonneg, htracks.positive⟩
          · rw [List.forall_mem_cons]
            obtain ⟨table', ht', hg⟩ := hbehind table ht
            exact ⟨⟨table', ht', hg.greatest⟩, htracks.reached⟩
          · unfold Marks.Reaches
            rw [List.forall_mem_cons]
            refine ⟨fun table₀ ht₀ => ?_, hreaches.grows hnew⟩
            obtain ⟨table', ht', hg⟩ := hbefore table₀ ht₀
            rw [ht, Option.some_inj] at ht'
            exact ht' ▸ hg.greatest
          · exact ⟨hafter.grew.trans hall.grew, by
              rw [hall.executed, hafter.executed, List.append_assoc]; rfl, hall.ready⟩

/-- The marks of the tables of a query. -/
theorem probeAll_tables (henv : env.Spares spared) {q : Query}
    (hs : ∀ t ∈ q.tables, spared (Catalog.key t.name)) {marks : Marks} {w w' : World} {id id' : UInt64}
    (h : w.Ready id) (hp : (probeAll (host env) id .empty q.tables).run w = ((.ok marks, id'), w')) :
    marks.Tracks q.tables w'.db ∧ marks.Reaches w.db ∧ w'.sink = w.sink ∧
      AfterAll spared w (q.tables.map TableRef.probe) id' w' := by
  have ha : TableRef.Apart (Marks.empty.entries.map (·.1) ++ q.tables) :=
    TableRef.apart_distinct q.occurrences
  obtain ⟨new, hmarks, htracks, hreaches, hsink, hall⟩ := probeAll_spec henv
    (fun t ht => TableRef.isDual_of_mem_distinct ht) hs ha h hp
  have hnew : marks = new := by
    obtain ⟨es⟩ := marks
    obtain ⟨fs⟩ := new
    exact congrArg Marks.mk hmarks
  exact hnew ▸ ⟨htracks, hreaches, hsink, hall⟩

/-- The rows that are written are those of the query on the database at that moment. -/
theorem deliver_spec {w w' : World} {id : UInt64} (h : w.Ready id) (henv : env.Spares spared)
    {shape : Shape} {sql : String} {q : Query} (hq : parseStatement sql = .ok (.query q)) {n : Nat}
    (hp : (deliver (host env) shape id sql).run w = (.ok n, w')) :
    ∃ r, q.run w'.db = .ok r ∧ n = r.rows.length ∧
      w'.sink.content = w.sink.content ++ String.join (r.rows.map (shape.line r.columnNames)) ∧
      After spared w sql id w' := by
  obtain ⟨v, hv, hsink, -, hafter⟩ := execute_query h henv hq
  rw [deliver, run_bind, hv] at hp
  cases hr : q.run v.db with
  | error why =>
      have hrun : Engine.answer q v.db = .error why := by rw [Engine.answer, hr, error_bind]
      simp only [hrun] at hp
      exact absurd (Prod.ext_iff.mp hp).1 (by simp)
  | ok r =>
      have hrun : Engine.answer q v.db = .ok (.ofRelation r) := by rw [Engine.answer, hr, ok_bind]
      simp only [hrun, run_bind] at hp
      generalize hx : (writeRows (host env).write shape _ _).run v = x at hp
      obtain ⟨⟨k, rest⟩, u⟩ := x
      cases k with
      | error why =>
          change (Except.error (FollowFault.output why), u) = _ at hp
          simp at hp
      | ok k =>
          change (Except.ok k, u) = _ at hp
          simp only [Prod.mk.injEq, Except.ok.injEq] at hp
          obtain ⟨rfl, rfl⟩ := hp
          obtain ⟨hk, hu⟩ := writeRows_ok hx
          refine ⟨r, ?_, hk, ?_, ?_⟩
          · rw [hu]
            exact hr
          · rw [hu]
            change v.sink.content ++ _ = _
            rw [hsink]
            rfl
          · rw [hu]
            exact ⟨hafter.grew, hafter.executed, hafter.ready.recorded, hafter.ready.inStep,
              hafter.ready.fresh⟩

end Run

end Rowtime
