import Rowtime.Proofs.Replicas
import Rowtime.Proofs.Tailing

/-!
# Sites where only engines write

The log of such a site consists of frames that engines have recorded, whatever the
statements were, under whatever numbers they ran, and however the frames of several
engines follow one another. So do the whole frames of every part of it at the
front, and the database of each part is valid.

`Engine.Effect` says what a statement does to an engine and to the log.
-/
namespace Rowtime

open Log Sql

/-! ## The rows of an INSERT -/

namespace Table

variable {t : Table} {now : Int64} {rows : List Row}

theorem fillAll_nil_eq_ok {named : Option (List Nat)} :
    t.fillAll now named [] = .ok rows ↔ rows = [] := by
  rw [fillAll, Except.ok.injEq]
  exact eq_comm

theorem fillAll_cons {named : Option (List Nat)} {values : Row} {tuples : List Row} :
    t.fillAll now named (values :: tuples) =
      t.fill now named values >>= fun row => t.insert row >>= fun t' =>
        (row :: ·) <$> t'.fillAll now named tuples := by
  rw [fillAll]
  cases t.fill now named values with
  | error e => rfl
  | ok row =>
      rw [ok_bind]
      cases hi : t.insert row with
      | error e => simp only [hi]; rfl
      | ok t' => simp only [hi, ok_bind]; rfl

/-- A tuple is filled in and tried, and the others are on the table with its row. -/
theorem fillAll_cons_eq_ok {named : Option (List Nat)} {values : Row} {tuples : List Row} :
    t.fillAll now named (values :: tuples) = .ok rows ↔
      ∃ row t' rest, t.fill now named values = .ok row ∧ t.insert row = .ok t' ∧
        t'.fillAll now named tuples = .ok rest ∧ rows = row :: rest := by
  rw [fillAll_cons]
  constructor
  · intro h
    obtain ⟨row, hrow, h⟩ := bind_eq_ok.mp h
    obtain ⟨t', ht, h⟩ := bind_eq_ok.mp h
    obtain ⟨rest, hrest, rfl⟩ := map_eq_ok.mp h
    exact ⟨row, t', rest, hrow, ht, hrest, rfl⟩
  · rintro ⟨row, t', rest, hrow, ht, hrest, rfl⟩
    rw [hrow, ok_bind, ht, ok_bind, hrest]
    rfl

theorem prepare_eq_fillAll {names : Option (List String)} {tuples : List Row}
    (h : t.prepare now names tuples = .ok rows) :
    ∃ named, t.fillAll now named tuples = .ok rows := by
  unfold prepare at h
  split at h
  · exact ⟨none, h⟩
  · split at h
    · simp at h
    · exact ⟨_, h⟩

end Table

/-! ## What is recorded is read -/

/-- The whole frames at the front of a recorded log are recorded, wherever the front is cut. -/
theorem Recorded.take {spared : String → Prop} {log : Bytes} (h : Recorded spared log) (n : Nat) :
    Recorded spared (settled (log.take n)) := by
  obtain ⟨es, hes, rfl⟩ := h
  have hframes := frames_shown (fun e he => (hes e he).2.1)
    (List.take_prefix n (es.flatMap Entry.frame))
  refine ⟨shownWithin ((es.flatMap Entry.frame).take n).length es, fun e he => ?_, ?_⟩
  · exact hes e (mem_of_mem_shownWithin he)
  · rw [settled, hframes, List.flatMap_map]
    rfl

namespace Engine

/-- What is read of what was recorded. -/
theorem record_operations {ops : List Operation} (hr : ∀ op ∈ ops, Recordable op) (e : Engine)
    (now : Int64) (log : Bytes) :
    ∃ done more, done <+: ops ∧ ((e.record now log ops).1 = none → done = ops) ∧
      (e.record now log ops).2.2 = log ++ more ∧ Whole more ∧
      operations more = done.map Operation.plain := by
  obtain ⟨es, hes, hpart, hall, hlog⟩ := e.record_entries now log ops
  have hfits : ∀ x ∈ es, x.Fits := fun x hx =>
    Recordable.fits (hr _ (hpart.subset (List.mem_map_of_mem hx))) (hes x hx)
  refine ⟨_, _, hpart, hall, hlog, whole_entries hes, ?_⟩
  rw [operations_entries hfits, List.map_map]
  rfl

/-- What can become of the text of a statement: it is refused or answered and nothing is written,
or operations of its plan are written. If these are not all of them the statement fails and the
engine holds what it saw; if they are it holds the database of the log. -/
inductive Effect (e : Engine) (now : Int64) (id : UInt64) (log : Bytes) (sql : String)
    (x : Executed) : Prop
  | refused {why : Fault} (result : x.result = .error why) (unwritten : x.log = log)
      (catalog : x.engine.catalog = e.catalog ∨ x.engine.catalog = (e.enter id log).catalog)
  | answered {s : Statement} {o : Outcome} (parsed : parseStatement sql = .ok s)
      (plan : s.plan now (e.enter id log).catalog = .ok (.answer o)) (unwritten : x.log = log)
      (catalog : x.engine.catalog = (e.enter id log).catalog)
  | broken {s : Statement} {ops : List Operation} {o : Outcome} {done : List Operation}
      {more : Bytes} {why : Fault} (parsed : parseStatement sql = .ok s)
      (plan : s.plan now (e.enter id log).catalog = .ok (.record ops o)) (part : done <+: ops)
      (whole : Whole more) (operations : operations more = done.map Operation.plain)
      (result : x.result = .error why) (written : x.log = log ++ more)
      (catalog : x.engine.catalog = (e.enter id log).catalog)
  | recorded {s : Statement} {ops : List Operation} {o : Outcome} {more : Bytes}
      (parsed : parseStatement sql = .ok s)
      (plan : s.plan now (e.enter id log).catalog = .ok (.record ops o))
      (whole : Whole more) (operations : operations more = ops.map Operation.plain)
      (result : x.result = .ok o) (written : x.log = log ++ more)
      (catalog : x.engine.catalog = database (log ++ more))

theorem InStep.effect {e : Engine} {log : Bytes} (h : e.InStep log) (now : Int64) (id : UInt64)
    (sql : String) : Effect e now id log sql (e.execute now id log sql) := by
  unfold execute
  split
  · exact .refused rfl rfl (.inl rfl)
  · rename_i s hs
    unfold executeStatement Engine.decide
    simp only
    cases hp : s.plan now (e.enter id log).catalog with
    | error why => exact .refused rfl rfl (.inr rfl)
    | ok p =>
        cases p with
        | answer o => exact .answered hs hp rfl rfl
        | record ops o =>
            obtain ⟨done, more, hdone, hall, hlog, hwhole, hops⟩ := record_operations
              (fun op hm => ⟨now, (e.enter id log).catalog, s, ops, o, hp, hm⟩)
              (e.enter id log) now log
            have hcatalog : ((e.enter id log).record now log ops).2.1.catalog =
                (e.enter id log).catalog := by
              obtain ⟨n, hengine⟩ := (e.enter id log).record_engine now log ops
              rw [hengine]
            obtain ⟨more', hlog', hin⟩ := (h.entered id).recorded now ops
            simp only [carryOut]
            split
            · rename_i e' log' hrec
              rw [hrec] at hall hlog hlog' hin
              obtain rfl : log' = log ++ more := hlog
              rw [← hlog'] at hin
              obtain rfl := hall rfl
              exact .recorded hs hp hwhole hops rfl rfl hin.caughtUp.1
            · rename_i why e' log' hrec
              rw [hrec] at hlog hcatalog
              exact .broken hs hp hdone hwhole hops rfl hlog hcatalog

end Engine

namespace Site

/-- A statement of an engine, a part of one, or no writing at all. -/
def Event.ByEngine : Event → Prop
  | .recorded _ _ op => Recordable op
  | .appeared _ => False
  | _ => True

theorem after_recorded {s : Site} (h : Recorded (fun _ => False) s.log) {event : Event}
    (hb : event.ByEngine) : Recorded (fun _ => False) (s.after event).log := by
  cases event with
  | opened n => exact h
  | executed now n id sql =>
      obtain ⟨more, hlog, hmore⟩ := (s.client n).engine.execute_recorded now
        (id.getD ((s.client n).lastId + 1)) s.log sql
      have hafter : (s.after (.executed now n id sql)).log = s.log ++ more := hlog
      rw [hafter]
      exact h.append hmore
  | begun n id => exact h
  | recorded now n op =>
      obtain ⟨more, hlog, hmore⟩ := Engine.record_recorded
        (fun o ho => List.mem_singleton.mp ho ▸ hb) (s.client n).engine now s.log
      have hafter : (s.after (.recorded now n op)).log = s.log ++ more := hlog
      rw [hafter]
      exact h.append hmore
  | refreshed n => exact h
  | appeared more => exact hb.elim

/-- All frames in the log were recorded. -/
theorem run_recorded {events : List Event} (hb : ∀ event ∈ events, event.ByEngine) :
    Recorded (fun _ => False) (run events).log := by
  have hfrom : ∀ s : Site, Recorded (fun _ => False) s.log →
      Recorded (fun _ => False) (events.foldl after s).log := by
    induction events with
    | nil => exact fun s h => h
    | cons event events ih =>
        exact fun s h => ih (fun e he => hb e (List.mem_cons_of_mem _ he)) (s.after event)
          (after_recorded h (hb event List.mem_cons_self))
  exact hfrom empty .nil

end Site

/-! ## What every reachable database is -/

/-- What an engine holds of a recorded log is valid. -/
theorem Engine.InStep.valid {e : Engine} {log : Bytes} (h : e.InStep log)
    {spared : String → Prop} (hr : Recorded spared log) : e.catalog.Valid := by
  obtain ⟨-, -, hcatalog⟩ := Site.inStep_iff.mp h
  rw [hcatalog, ← database_settled]
  exact (hr.take _).valid

/-- The row time column is the only one of its name, and the only primary key. -/
def Table.SoleKey (t : Table) : Prop :=
  ∀ i c, t.columns[i]? = some c →
    (c.isRowtime = true ↔ i = t.rowtimeIndex) ∧ (c.primaryKey = true ↔ i = t.rowtimeIndex)

theorem Table.Valid.soleKey {t : Table} (h : t.Valid) : t.SoleKey := by
  intro i c hc
  obtain ⟨d, hd, hrow, -, -, hkey, -⟩ := h.rowtime
  refine ⟨⟨h.rowtime_only hc, ?_⟩, ⟨fun hk => ?_, ?_⟩⟩
  · rintro rfl
    rw [hc, Option.some.injEq] at hd
    rwa [hd]
  · exact h.rowtime_only hc (h.onlyKey c (List.mem_of_getElem? hc) hk)
  · rintro rfl
    rw [hc, Option.some.injEq] at hd
    rwa [hd]

namespace Site

/-- What can be had at a site: the database of a part of its log at the front, or what one of its
engines holds. -/
def Holds (s : Site) (db : Catalog) : Prop :=
  (∃ n, db = database (s.log.take n)) ∨ ∃ x ∈ s.clients, db = x.2.engine.catalog

/-- However many engines write, whatever they write and however their frames alternate, every table
stands under its own name, its row time is its only key, rows are complete, in order and up to the
greatest row time, and no constraint of a column is broken. -/
theorem databases_valid {events : List Event} (hb : ∀ event ∈ events, event.ByEngine)
    {db : Catalog} (hdb : (run events).Holds db) :
    db.Valid ∧ ∀ e ∈ db.entries, e.2.SoleKey := by
  have hvalid : db.Valid := by
    rcases hdb with ⟨n, rfl⟩ | ⟨x, hx, rfl⟩
    · rw [← database_settled]
      exact ((run_recorded hb).take n).valid
    · exact (run_inStep events x hx).valid (run_recorded hb)
  exact ⟨hvalid, fun e he => (hvalid.tables e he).soleKey⟩

/-- Two engines whose frames alternate. The rows of the second one were planned before those of the
first were written: one comes too late, and one repeats a value. -/
def interleavedHistory : List Event :=
  [.executed 10 1 none "CREATE TABLE t (v INTEGER UNIQUE)", .begun 2 7,
    .executed 20 1 none "INSERT INTO t VALUES (1), (2)",
    .recorded 15 2 (.insert "t" [.integer 15, .integer 3]),
    .recorded 30 1 (.insert "t" [.integer 30, .integer 4]),
    .recorded 35 2 (.insert "t" [.integer 35, .integer 4]),
    .recorded 40 2 (.insert "t" [.integer 40, .integer 5])]

theorem recordable_sample {row : Row} (h : samples.prepare 0 none [row] = .ok [row]) :
    Recordable (.insert "t" row) := by
  refine ⟨0, ⟨[("t", samples)]⟩, .insert "t" none [row], [.insert "t" row],
    .command (.insert 1), ?_, List.mem_singleton.mpr rfl⟩
  have ht : (⟨[("t", samples)]⟩ : Catalog).table "t" = .ok samples := by decide +kernel
  rw [Statement.plan, planInsert, ht, ok_bind, h]
  rfl

theorem interleavedHistory_byEngine : ∀ event ∈ interleavedHistory, event.ByEngine := by
  intro event he
  simp only [interleavedHistory, List.mem_cons, List.not_mem_nil, or_false] at he
  rcases he with rfl | rfl | rfl | rfl | rfl | rfl | rfl
  · trivial
  · trivial
  · trivial
  all_goals exact recordable_sample (by decide +kernel)

/-- The last frame is not yet there in full. -/
theorem databases_valid_interleaved :
    (∀ event ∈ interleavedHistory, event.ByEngine) ∧
      ∃ db t, (run interleavedHistory).Holds db ∧ db.get? "t" = some t ∧
        t.rows = [[.integer 20, .integer 1], [.integer 21, .integer 2],
          [.integer 30, .integer 4]] ∧
        db.Valid ∧ ∀ e ∈ db.entries, e.2.SoleKey := by
  have hholds : (run interleavedHistory).Holds
      (database ((run interleavedHistory).log.take
        ((run interleavedHistory).log.length - 1))) := .inl ⟨_, rfl⟩
  have ht : ((database ((run interleavedHistory).log.take
      ((run interleavedHistory).log.length - 1))).get? "t").map Table.rows =
      some [[.integer 20, .integer 1], [.integer 21, .integer 2], [.integer 30, .integer 4]] := by
    decide +kernel
  obtain ⟨t, hget, hrows⟩ := Option.map_eq_some_iff.mp ht
  exact ⟨interleavedHistory_byEngine, _, t, hholds, hget, hrows,
    databases_valid interleavedHistory_byEngine hholds⟩

/-! ## What a statement sees -/

/-- The tables that an engine sees when it runs a statement. -/
def view (s : Site) (n : Nat) (id : Option UInt64) : Catalog :=
  ((s.client n).engine.enter (id.getD ((s.client n).lastId + 1)) s.log).catalog

/-- The table, the named columns and the tuples of an INSERT. -/
def insertOf? (sql : String) : Option (String × Option (List String) × List Row) :=
  match parseStatement sql with
  | .ok (.insert name names tuples) => some (name, names, tuples)
  | _ => none

theorem insertOf?_eq_some {sql name : String} {names : Option (List String)} {tuples : List Row} :
    insertOf? sql = some (name, names, tuples) ↔
      parseStatement sql = .ok (.insert name names tuples) := by
  unfold insertOf?
  split
  · rename_i n ns ts hs
    simp [hs]
  · rename_i hno
    simp only [reduceCtorEq, false_iff]
    exact hno name names tuples

/-- What becomes of a statement at a site. -/
def statement (s : Site) (now : Int64) (n : Nat) (id : Option UInt64) (sql : String) : Executed :=
  (s.client n).engine.execute now (id.getD ((s.client n).lastId + 1)) s.log sql

theorem client_put (s : Site) (n : Nat) (c : Client) : (s.put n c).client n = c := by
  simp [client, put]

/-- Under a number other than that of the statement before, the tables of the log are seen. -/
theorem InStep.view_eq {s : Site} (h : s.InStep) {n : Nat} {id : Option UInt64}
    (hid : (s.client n).engine.lastExecution ≠ some (id.getD ((s.client n).lastId + 1))) :
    s.view n id = database s.log := by
  rw [view, Engine.enter, if_neg hid]
  exact (h.client n).caughtUp.1

end Site

end Rowtime
