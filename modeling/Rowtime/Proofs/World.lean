import Rowtime.Follow.Rounds
import Rowtime.Proofs.Probe
import Rowtime.Proofs.Recorded

/-!
# A run among other engines

A run executes its statements on an engine of its own. Other engines append to the
same log whenever they like: the surroundings say what is appended at each moment,
what time it is then, and whether a wait lasts. A moment passes before every
statement and in every wait, so what is appended stands between any two statements
or inside a wait. The world also keeps the texts of the statements that were
executed.

The world is ready for a statement when the log is one that engines write, the
engine is in step with it, and the number of the statement is a new one. A query
in a ready world is answered on the database of the log as it is at that moment.
-/
namespace Rowtime

open Log Sql

/-- The line of a row. -/
def Shape.line (shape : Shape) (columns : List String) (row : Row) : String :=
  (shape.record columns row).text ++ "\n"

/-- What happens around a run, moment by moment. -/
structure Surroundings where
  clock : Nat → Int64
  writes : Nat → Bytes
  lasts : Nat → Bool

/-- Nothing is appended that drops a spared table. -/
def Surroundings.Spares (env : Surroundings) (spared : String → Prop) : Prop :=
  ∀ k, Recorded spared (env.writes k)

/-- The log, the engine of the run, its output, the texts of its statements, and the moments that
have passed. -/
structure World where
  log : Bytes
  engine : Engine
  sink : Sink
  executed : List String
  moment : Nat

namespace World

/-- A run that is about to begin on a log. -/
def start (log : Bytes) (sink : Sink) : World := ⟨log, .start log, sink, [], 0⟩

/-- A moment passes, and others append what they have to append. -/
def pass (env : Surroundings) (w : World) : World :=
  { w with log := w.log ++ env.writes w.moment, moment := w.moment + 1 }

/-- Executes a statement on the engine of the run. -/
def execute (env : Surroundings) (id : UInt64) (sql : String) :
    StateM World (Except Fault Outcome) := fun w =>
  let v := w.pass env
  let x := v.engine.execute (env.clock w.moment) id v.log sql
  (x.result, { v with log := x.log, engine := x.engine, executed := v.executed ++ [sql] })

/-- Takes a piece of output. -/
def take (piece : String) : StateM World (Except String Unit) := fun w =>
  let r := (Sink.write piece).run w.sink
  (r.1, { w with sink := r.2 })

/-- A wait. -/
def wait (env : Surroundings) : StateM World Bool := fun w => (env.lasts w.moment, w.pass env)

/-- The host of a run in its surroundings. -/
def host (env : Surroundings) : Host (StateM World) := ⟨execute env, take, wait env⟩

/-- The world with a text behind the output. -/
def emit (w : World) (text : String) : World :=
  { w with sink := { w.sink with content := w.sink.content ++ text } }

theorem emit_empty (w : World) : w.emit "" = w := by
  rw [emit, String.append_empty]

theorem emit_emit (w : World) (a b : String) : (w.emit a).emit b = w.emit (a ++ b) := by
  rw [emit, emit, emit, String.append_assoc]

/-- What the log says. -/
abbrev db (w : World) : Catalog := database w.log

/-- The world is ready for a statement under a number. -/
structure Ready (w : World) (id : UInt64) : Prop where
  recorded : Recorded (fun _ => False) w.log
  inStep : w.engine.InStep w.log
  fresh : w.engine.lastExecution ≠ some id

theorem start_ready {log : Bytes} (h : Recorded (fun _ => False) log) (sink : Sink) (id : UInt64) :
    (start log sink).Ready id :=
  ⟨h, Engine.start_inStep log, by simp [start, Engine.start, Engine.catchUp, Engine.blank]⟩

/-- Only entries that drop no spared table were added to the log. -/
def Grew (spared : String → Prop) (w v : World) : Prop :=
  ∃ more, v.log = w.log ++ more ∧ Recorded spared more

theorem Grew.refl (spared : String → Prop) (w : World) : Grew spared w w :=
  ⟨[], (List.append_nil _).symm, .nil⟩

theorem Grew.trans {spared : String → Prop} {w v u : World} (h : Grew spared w v)
    (k : Grew spared v u) : Grew spared w u := by
  obtain ⟨a, ha, hra⟩ := h
  obtain ⟨b, hb, hrb⟩ := k
  exact ⟨a ++ b, by rw [hb, ha, List.append_assoc], hra.append hrb⟩

/-- A spared table grows. -/
theorem Grew.growsAt {spared : String → Prop} {w v : World} (h : Grew spared w v)
    (hw : Recorded (fun _ => False) w.log) {name : String} (hs : spared (Catalog.key name)) :
    w.db.GrowsAt v.db name := by
  obtain ⟨more, he, hr⟩ := h
  unfold World.db
  rw [he]
  exact hr.grows hw.whole hs

section
variable {env : Surroundings} {spared : String → Prop}

theorem pass_grew (henv : env.Spares spared) (w : World) : Grew spared w (w.pass env) :=
  ⟨env.writes w.moment, rfl, henv w.moment⟩

theorem Ready.pass {w : World} {id : UInt64} (h : w.Ready id) (henv : env.Spares spared) :
    (w.pass env).Ready id :=
  ⟨h.recorded.append ((henv w.moment).mono fun _ hk => hk.elim), h.inStep.append _, h.fresh⟩

/-- What is there after a statement, besides its result. -/
structure After (spared : String → Prop) (w : World) (sql : String) (id : UInt64) (v : World) :
    Prop where
  grew : Grew spared w v
  executed : v.executed = w.executed ++ [sql]
  ready : v.Ready (id + 1)

/-- A query is answered on the database of the log. -/
theorem execute_query {w : World} {id : UInt64} (h : w.Ready id) (henv : env.Spares spared)
    {sql : String} {q : Query} (hq : parseStatement sql = .ok (.query q)) :
    ∃ v, ((host env).execute id sql).run w = (Engine.answer q v.db, v) ∧ v.sink = w.sink ∧
      v.log = w.log ++ env.writes w.moment ∧ After spared w sql id v := by
  have hp := h.pass henv
  obtain ⟨hr, hl, hs, hx⟩ := Engine.execute_query hp.inStep hp.fresh hq
    (env.clock w.moment)
  refine ⟨((host env).execute id sql).run w |>.2, Prod.ext ?_ rfl, rfl, hl, ?_, rfl, ?_⟩
  · change _ = Engine.answer q (database ((w.pass env).engine.execute _ id (w.pass env).log sql).log)
    rw [hl]
    exact hr
  · obtain ⟨more, he, hm⟩ := pass_grew henv w
    exact ⟨more, hl.trans he, hm⟩
  · have hlog : ((((host env).execute id sql).run w).2).log = (w.pass env).log := hl
    refine ⟨?_, ?_, ?_⟩
    · rw [hlog]
      exact hp.recorded
    · rw [hlog]
      exact hs
    · change ((w.pass env).engine.execute _ id (w.pass env).log sql).engine.lastExecution ≠ _
      rw [hx]
      simp

theorem run_bind {σ α β : Type} (x : StateM σ α) (f : α → StateM σ β) (s : σ) :
    (x >>= f).run s = (f (x.run s).1).run (x.run s).2 := rfl

/-! ## Output -/

theorem write_ok {p : String} {w w' : World} (h : ((host env).write p).run w = (.ok (), w')) :
    w' = w.emit p := by
  have hsink : (Sink.write p).run w.sink = if w.sink.accepts p then
      (.ok (), { w.sink with content := w.sink.content ++ p }) else (.error Sink.closed, w.sink) := rfl
  change (((Sink.write p).run w.sink).1, { w with sink := ((Sink.write p).run w.sink).2 }) = _ at h
  rw [hsink] at h
  split at h
  · exact (Prod.ext_iff.mp h).2.symm
  · exact absurd (Prod.ext_iff.mp h).1 (by simp)

/-- Pieces that are all accepted are appended. -/
theorem writePieces_ok {ps : List String} {w w' : World}
    (h : (writePieces (host env).write ps).run w = (.ok (), w')) : w' = w.emit (String.join ps) := by
  induction ps generalizing w with
  | nil =>
      rw [String.join_nil, emit_empty]
      exact (Prod.ext_iff.mp h).2.symm
  | cons p ps ih =>
      rw [writePieces, run_bind] at h
      generalize hx : ((host env).write p).run w = x at h
      obtain ⟨r, v⟩ := x
      cases r with
      | error why => exact absurd (Prod.ext_iff.mp h).1 (by simp)
      | ok u =>
          rw [ih h, write_ok hx, emit_emit, String.join_cons]

theorem join_linePieces (shape : Shape) (columns : List String) (row : Row) :
    String.join (shape.linePieces columns row) = shape.line columns row := by
  rw [Shape.linePieces, String.join_append, String.join_cons, String.join_nil, String.append_empty]
  rfl

/-- Rows that are all accepted are appended, one line each. -/
theorem writeRows_ok {shape : Shape} {columns : List String} {rows rest : List Row} {n : Nat}
    {w w' : World} (h : (writeRows (host env).write shape columns rows).run w = ((.ok n, rest), w')) :
    n = rows.length ∧ w' = w.emit (String.join (rows.map (shape.line columns))) := by
  induction rows generalizing w n rest with
  | nil =>
      change ((Except.ok 0, []), w) = _ at h
      simp only [Prod.mk.injEq, Except.ok.injEq] at h
      rw [← h.2, List.map_nil, String.join_nil, emit_empty]
      exact ⟨h.1.1.symm, rfl⟩
  | cons row rows ih =>
      rw [writeRows, run_bind] at h
      generalize hx : (writePieces (host env).write (shape.linePieces columns row)).run w = x at h
      obtain ⟨r, v⟩ := x
      cases r with
      | error why =>
          change ((Except.error why, rows), v) = _ at h
          simp at h
      | ok u =>
          simp only [run_bind] at h
          generalize hy : (writeRows (host env).write shape columns rows).run v = y at h
          obtain ⟨⟨k, tail⟩, v'⟩ := y
          change ((k.map (· + 1), tail), v') = _ at h
          cases k with
          | error why => simp [Except.map] at h
          | ok k =>
              simp only [Except.map, Prod.mk.injEq, Except.ok.injEq] at h
              obtain ⟨⟨hn, -⟩, rfl⟩ := h
              obtain ⟨hk, hv⟩ := ih hy
              refine ⟨by rw [List.length_cons, ← hn, hk], ?_⟩
              rw [hv, writePieces_ok hx, emit_emit, List.map_cons, String.join_cons, join_linePieces]

end

end World

/-! ## A table to which a row is added -/

/-- The log of an engine that has created a table and put one row into it. -/
def Log.sampleLog : Bytes :=
  (Entry.mk 1 0 (.create "t" samples)).frame ++
    (Entry.mk 2 0 (.insert "t" [.integer 10, .integer 1])).frame

/-- What another engine appends for one more row. -/
def Log.sampleAddition : Bytes := (Entry.mk 3 0 (.insert "t" [.integer 20, .integer 2])).frame

theorem Log.recordable_insert {row : Row}
    (h : Statement.plan 0 ⟨[("t", samples)]⟩ (.insert "t" none [row]) =
      .ok (.record [.insert "t" row] (.command (.insert 1)))) : Recordable (.insert "t" row) :=
  ⟨0, _, _, _, _, h, List.mem_singleton.mpr rfl⟩

theorem Log.sampleLog_recorded : Recorded (fun _ => False) sampleLog := by
  have hcreate : Recordable (.create "t" samples) :=
    ⟨0, .empty, .createTable "t" [⟨"v", .integer, true, false, false, none⟩] false,
      [.create "t" samples], .command .createTable, rfl, List.mem_singleton.mpr rfl⟩
  have hinsert : Recordable (.insert "t" [.integer 10, .integer 1]) :=
    recordable_insert rfl
  apply Recorded.append
  · exact .frame hcreate (by decide +kernel) fun _ hk => hk.elim
  · exact .frame hinsert (by decide +kernel) fun _ hk => hk.elim

theorem Log.sampleAddition_recorded (spared : String → Prop) : Recorded spared sampleAddition := by
  have hinsert : Recordable (.insert "t" [.integer 20, .integer 2]) :=
    recordable_insert rfl
  exact .frame hinsert (by decide +kernel) fun _ _ => id

/-- Something is appended at one moment only, and every wait lasts. -/
def Surroundings.adding (moment : Nat) (more : Bytes) : Surroundings :=
  ⟨fun _ => 0, fun k => if k = moment then more else [], fun _ => true⟩

theorem Surroundings.adding_spares {spared : String → Prop} (moment : Nat) {more : Bytes}
    (h : Recorded spared more) : (adding moment more).Spares spared := by
  intro k
  change Recorded spared (if k = moment then more else [])
  split
  · exact h
  · exact .nil

end Rowtime
