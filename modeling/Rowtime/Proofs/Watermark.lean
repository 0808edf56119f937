import Rowtime.Follow.Rounds
import Rowtime.Proofs.World
import Rowtime.Proofs.Written

/-!
# The marks that are recorded

A tracker asks an engine of a site for the mark of one table after the other, each time
under a new execution number. The engine then sees what all engines have written, the
text of the probe is read whatever the name of the table is, and its answer is one row
with one value. So every table that is there gets the mark that it has: the greatest row
time stored in it, which is zero while there is no row.
-/
namespace Rowtime

open Log Sql

/-- The greatest row time stored in a table, or zero where no row is. -/
structure Table.Highest (t : Table) (mark : Int64) : Prop where
  vacant : t.rows = [] → mark = 0
  stored : t.rows ≠ [] → ∃ row ∈ t.rows, row[t.rowtimeIndex]? = some (.integer mark)
  bounds : ∀ row ∈ t.rows, ∃ i, row[t.rowtimeIndex]? = some (.integer i) ∧ i ≤ mark

theorem Table.Valid.highest {t : Table} (h : t.Valid) : t.Highest t.maxRowtime := by
  constructor
  · intro hrows
    rw [h.greatest, hrows]
    rfl
  · intro hrows
    have hlast := List.getLast_mem hrows
    refine ⟨t.rows.getLast hrows, hlast, ?_⟩
    rw [h.greatest, List.getLast?_eq_some_getLast hrows]
    exact (h.stamped _ hlast).1
  · intro row hrow
    exact ⟨t.stamp row, (h.stamped row hrow).1, h.stamp_le hrow⟩

/-- The mark of the table with a name. -/
def Catalog.highest (db : Catalog) (name : String) : Int64 :=
  ((db.get? name).map (·.maxRowtime)).getD 0

theorem Catalog.highest_of_get? {db : Catalog} {name : String} {t : Table}
    (h : db.get? name = some t) : db.highest name = t.maxRowtime := by
  rw [highest, h]
  rfl

theorem Catalog.highest_congr {a b : TableRef} (h : a.same b = true) (db : Catalog) :
    db.highest a.name = db.highest b.name := by
  rw [highest, highest, Catalog.get?_congr (TableRef.key_of_same h)]

/-! ## Marks that are put one after the other -/

namespace Marks

theorem find?_putEntry (t u : TableRef) (mark : Int64) (es : List (TableRef × Int64)) :
    ((putEntry t mark es).find? fun e => e.1.same u).map (·.2) =
      if t.same u then some mark else (es.find? fun e => e.1.same u).map (·.2) := by
  induction es with
  | nil =>
      rw [putEntry]
      cases htu : t.same u <;> simp [htu]
  | cons e es ih =>
      obtain ⟨v, m⟩ := e
      rw [putEntry]
      cases hvt : v.same t with
      | true =>
          have hvu : v.same u = t.same u := TableRef.same_congr hvt u
          cases htu : t.same u <;> simp [hvu, htu]
      | false =>
          cases hvu : v.same u with
          | true =>
              -- An entry for the one cannot be an entry for the other as well.
              have htu : t.same u = false := by
                rw [TableRef.same_comm t u, ← TableRef.same_congr hvu t, hvt]
              simp [hvu, htu]
          | false => simpa [hvu] using ih

theorem get?_put (s : Marks) (t u : TableRef) (mark : Int64) :
    (s.put t mark).get? u = if t.same u then some mark else s.get? u :=
  find?_putEntry t u mark s.entries

/-- Marks that equal occurrences share are found again, whatever was there before. -/
theorem get?_putAll (mark : TableRef → Int64)
    (hmark : ∀ a b : TableRef, a.same b = true → mark a = mark b) {ts : List TableRef} {s : Marks}
    {u : TableRef} (h : u ∈ ts ∨ s.get? u = some (mark u)) :
    (ts.foldl (fun s t => s.put t (mark t)) s).get? u = some (mark u) := by
  induction ts generalizing s with
  | nil => exact h.resolve_left List.not_mem_nil
  | cons t ts ih =>
      rw [List.foldl_cons]
      apply ih
      rw [get?_put]
      cases htu : t.same u with
      | true => exact .inr (congrArg some (hmark t u htu))
      | false =>
          rcases h with h | h
          · rcases List.mem_cons.mp h with rfl | h
            · rw [TableRef.same_refl] at htu
              cases htu
            · exact .inl h
          · exact .inr h

end Marks

/-! ## Probes at a site -/

/-- A query is answered on the tables that an engine sees, and nothing is written. -/
theorem Engine.execute_seen (e : Engine) (now : Int64) (id : UInt64) (log : Bytes) {sql : String}
    {q : Query} (hq : parseStatement sql = .ok (.query q)) :
    (e.execute now id log sql).result = answer q (e.enter id log).catalog ∧
      (e.execute now id log sql).log = log ∧
      (e.execute now id log sql).engine = e.enter id log := by
  unfold execute
  rw [hq]
  simp only [executeStatement, Engine.decide, Statement.plan, answer]
  cases q.run (e.enter id log).catalog with
  | error why => exact ⟨rfl, rfl, rfl⟩
  | ok r => exact ⟨rfl, rfl, rfl⟩

theorem Engine.lastExecution_enter (e : Engine) (id : UInt64) (log : Bytes) :
    (e.enter id log).lastExecution = some id := by
  unfold enter
  split
  · assumption
  · rfl

namespace Site

theorem lower_coalesce : Text.lower "COALESCE" = "coalesce" := by decide +kernel

/-- The answer to a probe of a table. -/
def probed (t : Table) : Outcome := ⟨["coalesce"], [[.integer t.maxRowtime]], .select 1⟩

/-- A tracker on one engine of a site. It writes nothing and does not wait. -/
def host (clock : UInt64 → Int64) (n : Nat) : Host (StateM Site) :=
  ⟨fun id sql s => s.execute (clock id) n (some id) sql, fun _ => pure (.ok ()), pure true⟩

variable {s : Site} {n : Nat} {id : UInt64}

/-- The answer to a probe of a table that is seen is one row with one value, the mark of the table. -/
theorem InStep.probe (h : s.InStep) (hr : Recorded (fun _ => False) s.log) (now : Int64)
    {t : TableRef} {table : Table} (ht : (s.view n (some id)).get? t.name = some table) :
    ∃ s', s.execute now n (some id) t.probe = (.ok (probed table), s') ∧ s'.log = s.log ∧
      s'.InStep ∧ (s'.client n).engine.lastExecution = some id := by
  have hentered := (h.client n).entered id
  obtain ⟨hresult, hlog, hengine⟩ :=
    (s.client n).engine.execute_seen now id s.log (parse_probe t)
  have hanswer : Engine.answer (probeQuery t.name) ((s.client n).engine.enter id s.log).catalog =
      .ok (probed table) := by
    rw [Engine.answer, probe_run (hentered.valid hr) ht, ok_bind, lower_coalesce]
    rfl
  have hexecute : s.execute now n (some id) t.probe =
      (((s.client n).engine.execute now id s.log t.probe).result,
        { s with log := ((s.client n).engine.execute now id s.log t.probe).log }.put n
          ⟨((s.client n).engine.execute now id s.log t.probe).engine, id⟩) := rfl
  rw [hexecute, hresult, hanswer, hlog, hengine]
  refine ⟨_, rfl, rfl, ?_, ?_⟩
  · refine h.put ⟨[], (List.append_nil _).symm, ?_⟩
    rw [List.append_nil]
    exact hentered
  · rw [client_put]
    exact Engine.lastExecution_enter _ id s.log

/-- What the tracker records for one table. -/
theorem run_probe {clock : UInt64 → Int64} {t : TableRef} {table : Table} {s' : Site}
    (h : s.execute (clock id) n (some id) t.probe = (.ok (probed table), s')) :
    (Run.probe (host clock n) id t).run s = (.ok table.maxRowtime, s') := by
  have hexecute : ((host clock n).execute id t.probe).run s = (.ok (probed table), s') := h
  rw [Run.probe, World.run_bind, hexecute]
  rfl

/-- Under new numbers the tracker records the marks of the log for all tables. -/
theorem InStep.probeAll (h : s.InStep) (hr : Recorded (fun _ => False) s.log)
    (hid : (s.client n).engine.lastExecution ≠ some id) (clock : UInt64 → Int64) {ts : List TableRef}
    (hts : ∀ t ∈ ts, ∃ table, (database s.log).get? t.name = some table) (found : Marks) :
    ∃ id' s', (Run.probeAll (host clock n) id found ts).run s =
        ((.ok (ts.foldl (fun m t => m.put t ((database s.log).highest t.name)) found), id'), s') ∧
      s'.log = s.log := by
  induction ts generalizing s id found with
  | nil => exact ⟨id, s, rfl, rfl⟩
  | cons t ts ih =>
      obtain ⟨table, ht⟩ := hts t List.mem_cons_self
      have hseen : (s.view n (some id)).get? t.name = some table := by
        rw [h.view_eq hid]
        exact ht
      obtain ⟨v, hv, hlog, hin, hlast⟩ := h.probe hr (clock id) hseen
      have hdb : database v.log = database s.log := by rw [hlog]
      have hrest : ∀ u ∈ ts, ∃ table, (database v.log).get? u.name = some table := by
        rw [hdb]
        exact fun u hu => hts u (List.mem_cons_of_mem t hu)
      have hnext : (v.client n).engine.lastExecution ≠ some (id + 1) := by
        rw [hlast]
        simp
      obtain ⟨id', s', hrun, hlog'⟩ := ih hin (by rw [hlog]; exact hr) hnext hrest
        (found.put t table.maxRowtime)
      refine ⟨id', s', ?_, hlog'.trans hlog⟩
      rw [hdb] at hrun
      rw [Run.probeAll, World.run_bind, run_probe hv, List.foldl_cons, Catalog.highest_of_get? ht]
      exact hrun

/-- Every mark is the true one. At a site where only engines write, whatever has happened there, a
probe of a table that the engine sees is read whatever its name is, its answer is one row with one
value, and the tracker takes this for the mark: the greatest row time stored in the table, or zero.
Under a new number the engine sees all that is in the log, and so the tracker records the marks of
all tables that it is to watch. -/
theorem marks_recorded {events : List Event} (hb : ∀ event ∈ events, event.ByEngine) (n : Nat)
    (id : UInt64) (clock : UInt64 → Int64) :
    (∀ (t : TableRef) (table : Table), ((run events).view n (some id)).get? t.name = some table →
      parseStatement t.probe = .ok (.query (probeQuery t.name)) ∧
        ((run events).execute (clock id) n (some id) t.probe).1 = .ok (probed table) ∧
        ((Run.probe (host clock n) id t).run (run events)).1 = .ok table.maxRowtime ∧
        table.Highest table.maxRowtime) ∧
      (((run events).client n).engine.lastExecution ≠ some id →
        (run events).view n (some id) = database (run events).log ∧
          ∀ ts : List TableRef,
            (∀ t ∈ ts, ∃ table, (database (run events).log).get? t.name = some table) →
            ∃ marks, ((Run.probeAll (host clock n) id .empty ts).run (run events)).1.1 = .ok marks ∧
              ∀ t ∈ ts, marks.get? t =
                ((database (run events).log).get? t.name).map (·.maxRowtime)) := by
  have hin := run_inStep events
  have hrecorded := run_recorded hb
  constructor
  · intro t table ht
    obtain ⟨s', hs', -⟩ := hin.probe hrecorded (clock id) ht
    have hvalid := (((hin.client n).entered id).valid hrecorded).get? ht
    exact ⟨parse_probe t, congrArg Prod.fst hs', congrArg Prod.fst (run_probe hs'), hvalid.1.highest⟩
  · intro hid
    refine ⟨hin.view_eq hid, fun ts hts => ?_⟩
    obtain ⟨id', s', hrun, -⟩ := hin.probeAll hrecorded hid clock hts .empty
    refine ⟨_, congrArg (fun r => r.1.1) hrun, fun t ht => ?_⟩
    obtain ⟨table, htable⟩ := hts t ht
    rw [htable, Option.map_some, ← Catalog.highest_of_get? htable]
    exact Marks.get?_putAll (fun u => (database (run events).log).highest u.name)
      (fun _ _ hs => Catalog.highest_congr hs _) (.inl ht)

/-! ### Names that are no plain words -/

/-- Tables with a quote and a blank, with a reserved word and with no letter of ASCII in their names;
the last one has no rows. Another engine has written a row that the first one has not read. -/
def oddHistory : List Event :=
  [.executed 10 0 none "CREATE TABLE \"a \"\"b\" (v INTEGER)",
    .executed 20 0 none "INSERT INTO \"A \"\"B\" VALUES (1), (2)",
    .executed 30 0 none "CREATE TABLE \"select\" (v TEXT, rowtime BIGINT NOT NULL)",
    .executed 40 0 none "CREATE TABLE \"É\" (v INTEGER)",
    .executed 50 1 none "INSERT INTO \"Select\" VALUES ('x', 7)"]

theorem marks_recorded_odd :
    (∀ event ∈ oddHistory, event.ByEngine) ∧
      ((run oddHistory).client 0).engine.lastExecution ≠ some 9 ∧
      ∃ marks, ((Run.probeAll (host (fun _ => 60) 0) 9 .empty
          [⟨"a \"B", none⟩, ⟨"SELECT", some "x"⟩, ⟨"é", none⟩]).run (run oddHistory)).1.1 = .ok marks ∧
        marks.get? ⟨"a \"B", none⟩ = some 21 ∧ marks.get? ⟨"SELECT", some "x"⟩ = some 7 ∧
        marks.get? ⟨"é", none⟩ = some 0 := by
  have hb : ∀ event ∈ oddHistory, event.ByEngine := by
    intro event he
    simp only [oddHistory, List.mem_cons, List.not_mem_nil, or_false] at he
    rcases he with rfl | rfl | rfl | rfl | rfl <;> trivial
  have hid : ((run oddHistory).client 0).engine.lastExecution ≠ some 9 := by decide +kernel
  have hmarks : ([⟨"a \"B", none⟩, ⟨"SELECT", some "x"⟩, ⟨"é", none⟩] : List TableRef).map (fun t =>
      ((database (run oddHistory).log).get? t.name).map (·.maxRowtime)) =
        [some 21, some 7, some 0] := by
    decide +kernel
  simp only [List.map_cons, List.map_nil, List.cons.injEq, and_true] at hmarks
  obtain ⟨hquoted, hreserved, hletter⟩ := hmarks
  have hthere : ∀ t ∈ ([⟨"a \"B", none⟩, ⟨"SELECT", some "x"⟩, ⟨"é", none⟩] : List TableRef),
      ∃ table, (database (run oddHistory).log).get? t.name = some table := by
    have hfound : ∀ {name : String} {mark : Int64},
        ((database (run oddHistory).log).get? name).map (·.maxRowtime) = some mark →
        ∃ table, (database (run oddHistory).log).get? name = some table := fun h =>
      (Option.map_eq_some_iff.mp h).imp fun _ => And.left
    intro t ht
    simp only [List.mem_cons, List.not_mem_nil, or_false] at ht
    rcases ht with rfl | rfl | rfl
    · exact hfound hquoted
    · exact hfound hreserved
    · exact hfound hletter
  obtain ⟨marks, hrun, hget⟩ :=
    ((marks_recorded hb 0 9 fun _ => 60).2 hid).2 _ hthere
  refine ⟨hb, hid, marks, hrun, ?_, ?_, ?_⟩
  · rw [hget _ (by simp), hquoted]
  · rw [hget _ (by simp), hreserved]
  · rw [hget _ (by simp), hletter]

end Site

end Rowtime
