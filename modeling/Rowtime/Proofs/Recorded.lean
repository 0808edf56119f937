import Rowtime.Engine.Basic
import Rowtime.Proofs.Codec
import Rowtime.Proofs.Torn

/-!
# Logs written by engines

An engine records only what the plan of a statement asks for, one frame after the
other. Whatever tables an engine saw when it planned, the tables that it creates
are new ones; so the database that such a log denotes is valid. An engine that
reads the log is in step with it when its catalog is the database of the part
that it has read. A query under a new execution number then runs on the database
of the whole log, and writes nothing.
-/
namespace Rowtime

open Log Sql

/-- The plan of an INSERT. -/
theorem planInsert_spec {now : Int64} {db : Catalog} {name : String} {names : Option (List String)}
    {tuples : List Row} {p : Plan} (h : planInsert now db name names tuples = .ok p) :
    ∃ t rows, db.get? name = some t ∧ t.prepare now names tuples = .ok rows ∧
      p = .record (rows.map (Operation.insert t.name)) (.command (.insert rows.length)) := by
  rw [planInsert] at h
  obtain ⟨t, ht, h⟩ := bind_eq_ok.mp h
  obtain ⟨rows, hrows, h⟩ := bind_eq_ok.mp h
  rw [Catalog.table] at ht
  split at ht
  · rename_i t' hget
    rw [Except.ok.injEq] at ht
    subst ht
    exact ⟨t', rows, hget, hrows, (pure_eq_ok.mp h).symm⟩
  · simp at ht

/-- What a plan that writes can be. -/
theorem plan_cases {now : Int64} {db : Catalog} {s : Statement} {ops : List Operation} {o : Outcome}
    (h : s.plan now db = .ok (.record ops o)) :
    (∃ name columns t, ops = [.create name t] ∧ Table.create name columns = .ok t) ∨
      (∃ name, ops = [.drop name]) ∨
      ∃ name names tuples t rows, s = .insert name names tuples ∧ db.get? name = some t ∧
        t.prepare now names tuples = .ok rows ∧ ops = rows.map (Operation.insert t.name) ∧
        o = .command (.insert rows.length) := by
  cases s with
  | createTable name defs ifNotExists =>
      rw [Statement.plan, planCreate] at h
      split at h
      · split at h <;> simp at h
      · obtain ⟨columns, -, h⟩ := bind_eq_ok.mp h
        obtain ⟨t, ht, h⟩ := bind_eq_ok.mp h
        simp only [pure_eq_ok, Plan.record.injEq] at h
        exact .inl ⟨name, columns, t, h.1.symm, ht⟩
  | dropTable name ifExists =>
      rw [Statement.plan, planDrop] at h
      split at h
      · split at h <;> simp at h
      · simp only [Except.ok.injEq, Plan.record.injEq] at h
        exact .inr (.inl ⟨name, h.1.symm⟩)
  | insert name names tuples =>
      obtain ⟨t, rows, hget, hrows, hplan⟩ := planInsert_spec h
      rw [Plan.record.injEq] at hplan
      exact .inr (.inr ⟨name, names, tuples, t, rows, rfl, hget, hrows, hplan⟩)
  | showTables => simp [Statement.plan] at h
  | query q =>
      rw [Statement.plan] at h
      obtain ⟨r, -, h⟩ := bind_eq_ok.mp h
      simp at h

/-- An operation in the plan of a statement, on whatever tables an engine sees. -/
def Recordable (op : Operation) : Prop :=
  ∃ (now : Int64) (db : Catalog) (s : Statement) (ops : List Operation) (o : Outcome),
    s.plan now db = .ok (.record ops o) ∧ op ∈ ops

/-- Frames that engines have written, none of which drops a spared table. -/
def Recorded (spared : String → Prop) (log : Bytes) : Prop :=
  ∃ es : List Entry,
    (∀ e ∈ es, Recordable e.operation ∧ e.encode.length < 2 ^ 32 ∧
      ∀ k, spared k → ¬e.operation.Drops k) ∧
    log = es.flatMap Entry.frame

/-- The tables that are planned are new ones. -/
theorem Recordable.create {name : String} {t : Table} (h : Recordable (.create name t)) :
    t.name = name ∧ t.Valid ∧ t.rows = [] := by
  obtain ⟨now, db, s, ops, o, hp, hm⟩ := h
  rcases plan_cases hp with ⟨n, columns, u, rfl, hu⟩ | ⟨n, rfl⟩ |
    ⟨n, names, tuples, u, rows, -, -, -, rfl, -⟩
  · rw [List.mem_singleton, Operation.create.injEq] at hm
    obtain ⟨rfl, rfl⟩ := hm
    obtain ⟨hv, hn, hr⟩ := Table.create_spec hu
    exact ⟨hn, hv, hr⟩
  · simp at hm
  · simp at hm

/-- The position of the row time fits into a count, since each column takes a byte at least. -/
theorem Recordable.index_lt {name : String} {t : Table} (h : Recordable (.create name t))
    (hl : (Operation.create name t).encode.length < 2 ^ 64) : t.rowtimeIndex < 2 ^ 64 := by
  obtain ⟨c, hc, -⟩ := h.create.2.1.rowtime
  obtain ⟨hi, -⟩ := List.getElem?_eq_some_iff.mp hc
  have hcols := length_le_flatMap Column.encode_pos t.columns
  simp only [Operation.encode, Table.encode, encodeList, List.length_append] at hl
  omega

/-- What engines record can be written and read. -/
theorem Recordable.fits {e : Entry} (h : Recordable e.operation)
    (hl : e.encode.length < 2 ^ 32) : e.Fits := by
  refine ⟨hl, ?_⟩
  cases ho : e.operation with
  | create name t =>
      rw [Entry.encode, ho, List.length_append] at hl
      rw [ho] at h
      exact h.index_lt (by omega)
  | drop name => trivial
  | insert name row => trivial

/-- What is read of it creates new tables only. -/
theorem Recordable.sound {op : Operation} (h : Recordable op) : op.plain.Sound := by
  cases op with
  | create name t =>
      obtain ⟨hn, hv, hr⟩ := h.create
      exact ⟨hn, hv.plain hr⟩
  | drop name => trivial
  | insert name row => trivial

namespace Recorded

variable {spared : String → Prop}

theorem nil : Recorded spared [] := ⟨[], by simp, rfl⟩

theorem append {log more : Bytes} (h : Recorded spared log) (k : Recorded spared more) :
    Recorded spared (log ++ more) := by
  obtain ⟨es, he, rfl⟩ := h
  obtain ⟨fs, hf, rfl⟩ := k
  refine ⟨es ++ fs, fun e hm => ?_, by rw [List.flatMap_append]⟩
  rcases List.mem_append.mp hm with hm | hm
  · exact he e hm
  · exact hf e hm

theorem mono {spared' : String → Prop} (hs : ∀ k, spared' k → spared k) {log : Bytes}
    (h : Recorded spared log) : Recorded spared' log := by
  obtain ⟨es, he, rfl⟩ := h
  exact ⟨es, fun e hm => ⟨(he e hm).1, (he e hm).2.1, fun k hk => (he e hm).2.2 k (hs k hk)⟩, rfl⟩

theorem whole {log : Bytes} (h : Recorded spared log) : Whole log := by
  obtain ⟨es, he, rfl⟩ := h
  exact whole_entries fun e hm => (he e hm).2.1

theorem sound {log : Bytes} (h : Recorded spared log) {op : Operation}
    (ho : op ∈ operations log) : op.Sound ∧ ∀ k, spared k → ¬op.Drops k := by
  obtain ⟨es, he, rfl⟩ := h
  rw [operations_entries fun e hm => (he e hm).1.fits (he e hm).2.1] at ho
  obtain ⟨e, hm, rfl⟩ := List.mem_map.mp ho
  obtain ⟨hrec, -, hspared⟩ := he e hm
  exact ⟨hrec.sound, fun k hk hd => hspared k hk (Operation.drops_plain.mp hd)⟩

/-- The database of a log that engines have written is valid. -/
theorem valid {log : Bytes} (h : Recorded spared log) : (database log).Valid :=
  replay_valid Catalog.empty_valid fun _ _ ho => (h.sound ho).1.2

/-- The frame of one entry that an engine writes. -/
theorem frame {e : Entry} (hr : Recordable e.operation) (hl : e.encode.length < 2 ^ 32)
    (hs : ∀ k, spared k → ¬e.operation.Drops k) : Recorded spared e.frame := by
  refine ⟨[e], fun x hx => ?_, by simp⟩
  rw [List.mem_singleton] at hx
  exact hx ▸ ⟨hr, hl, hs⟩

/-- A spared table grows while engines write. -/
theorem grows {log more : Bytes} (h : Whole log) (k : Recorded spared more) {name : String}
    (hs : spared (Catalog.key name)) : (database log).GrowsAt (database (log ++ more)) name := by
  rw [database_append h]
  exact replay_grows fun op ho => (k.sound ho).2 _ hs

end Recorded

/-! ## What an engine writes -/

namespace Engine

/-- Operations are written one after the other, up to the first that is refused. -/
theorem record_entries (e : Engine) (now : Int64) (log : Bytes) (ops : List Operation) :
    ∃ es : List Entry, (∀ x ∈ es, x.encode.length < 2 ^ 32) ∧
      es.map (·.operation) <+: ops ∧
      ((e.record now log ops).1 = none → es.map (·.operation) = ops) ∧
      (e.record now log ops).2.2 = log ++ es.flatMap Entry.frame := by
  induction ops generalizing e log with
  | nil => exact ⟨[], by simp, List.prefix_refl [], fun _ => rfl, (List.append_nil log).symm⟩
  | cons op ops ih =>
      unfold record Cursor.append
      simp only
      split
      · rename_i log' c happ
        split at happ
        · rename_i hl
          rw [Prod.mk.injEq, Except.ok.injEq] at happ
          obtain ⟨rfl, rfl⟩ := happ
          obtain ⟨es, hes, hpart, hall, hlog⟩ := ih { e with cursor := _ }
            (log ++ (e.cursor.nextEntry (seconds now) op).frame)
          refine ⟨e.cursor.nextEntry (seconds now) op :: es,
            List.forall_mem_cons.mpr ⟨hl, hes⟩, ?_, ?_, ?_⟩
          · exact List.cons_prefix_cons.mpr ⟨rfl, hpart⟩
          · exact fun hnone => congrArg (op :: ·) (hall hnone)
          · rw [hlog, List.flatMap_cons, List.append_assoc]
        · simp at happ
      · exact ⟨[], by simp, List.nil_prefix, fun hnone => by simp at hnone,
          (List.append_nil log).symm⟩

/-- Writing gives numbers, and leaves the engine as it is otherwise. -/
theorem record_engine (e : Engine) (now : Int64) (log : Bytes) (ops : List Operation) :
    ∃ n, (e.record now log ops).2.1 = { e with cursor := ⟨e.cursor.offset, n⟩ } := by
  induction ops generalizing e log with
  | nil => exact ⟨e.cursor.sequence, rfl⟩
  | cons op ops ih =>
      unfold record Cursor.append
      simp only
      split
      · rename_i log' c happ
        split at happ
        · rw [Prod.mk.injEq] at happ
          obtain ⟨-, rfl⟩ := happ
          exact ih _ _
        · simp at happ
      · rename_i c happ
        split at happ
        · simp at happ
        · rw [Prod.mk.injEq] at happ
          obtain ⟨-, rfl⟩ := happ
          exact ⟨_, rfl⟩

theorem record_recorded {ops : List Operation} (hr : ∀ op ∈ ops, Recordable op) (e : Engine)
    (now : Int64) (log : Bytes) :
    ∃ more, (e.record now log ops).2.2 = log ++ more ∧ Recorded (fun _ => False) more := by
  obtain ⟨es, hes, hpart, -, hlog⟩ := e.record_entries now log ops
  refine ⟨_, hlog, es, fun x hx => ⟨hr _ (hpart.subset ?_), hes x hx, fun _ hk => hk.elim⟩, rfl⟩
  exact List.mem_map_of_mem hx

/-- A statement adds recorded frames to the log, or nothing. -/
theorem execute_recorded (e : Engine) (now : Int64) (id : UInt64) (log : Bytes) (sql : String) :
    ∃ more, (e.execute now id log sql).log = log ++ more ∧ Recorded (fun _ => False) more := by
  have hsame : ∃ more, log = log ++ more ∧ Recorded (fun _ => False) more := ⟨[], by simp, .nil⟩
  unfold execute
  split
  · exact hsame
  · rename_i s _
    unfold executeStatement Engine.decide
    simp only
    cases hp : s.plan now (e.enter id log).catalog with
    | error why => exact hsame
    | ok p =>
        cases p with
        | answer o => exact hsame
        | record ops o =>
            have hrec := record_recorded
              (fun op hm => ⟨now, (e.enter id log).catalog, s, ops, o, hp, hm⟩)
              (e.enter id log) now log
            simp only [carryOut]
            split
            · rename_i heq
              rw [heq] at hrec
              exact hrec
            · rename_i heq
              rw [heq] at hrec
              exact hrec

/-! ## What an engine reads -/

/-- The catalog of the engine is the database of the part of the log that it has read. -/
def InStep (e : Engine) (log : Bytes) : Prop :=
  ∃ past rest, log = past ++ rest ∧ Whole past ∧ e.cursor.offset = past.length ∧
    e.catalog = database past

theorem blank_inStep (log : Bytes) : blank.InStep log := by
  refine ⟨[], log, rfl, .nil, rfl, ?_⟩
  rw [database, operations_nil]
  rfl

theorem InStep.append {e : Engine} {log : Bytes} (h : e.InStep log) (more : Bytes) :
    e.InStep (log ++ more) := by
  obtain ⟨past, rest, rfl, hw, ho, hc⟩ := h
  exact ⟨past, rest ++ more, by rw [List.append_assoc], hw, ho, hc⟩

theorem InStep.congr {e e' : Engine} {log : Bytes} (h : e.InStep log)
    (hc : e'.catalog = e.catalog) (ho : e'.cursor.offset = e.cursor.offset) : e'.InStep log := by
  obtain ⟨past, rest, hlog, hw, hoff, hcat⟩ := h
  exact ⟨past, rest, hlog, hw, ho.trans hoff, hc.trans hcat⟩

/-- Catching up with any log: what is torn at its end is left for later. -/
theorem InStep.caughtUp {e : Engine} {log : Bytes} (h : e.InStep log) :
    (e.catchUp log).catalog = database log ∧
      (e.catchUp log).cursor.offset = (settled log).length ∧ (e.catchUp log).InStep log := by
  obtain ⟨past, rest, rfl, hp, ho, hc⟩ := h
  have hunread : e.cursor.unread (past ++ rest) = rest := by
    rw [Cursor.unread, ho, List.drop_left]
  have hsettled : settled (past ++ rest) = past ++ settled rest := by
    obtain ⟨ps, hps, rfl⟩ := hp
    rw [settled, frames_append hps, List.flatMap_append]
    rfl
  have hcat : (e.catchUp (past ++ rest)).catalog = database (past ++ rest) := by
    rw [database_append hp, ← hc]
    unfold catchUp Cursor.read
    rw [hunread]
    rfl
  have hoff : (e.catchUp (past ++ rest)).cursor.offset = (settled (past ++ rest)).length := by
    rw [hsettled, List.length_append, ← ho, settled, ← framesSize_eq]
    unfold catchUp Cursor.read
    rw [hunread]
  refine ⟨hcat, hoff, settled (past ++ rest), torn (past ++ rest), ?_, settled_whole _, hoff, ?_⟩
  · exact (settled_append_torn _).symm
  · rw [hcat, database_settled]

theorem start_inStep (log : Bytes) : (start log).InStep log :=
  (blank_inStep log).caughtUp.2.2

/-- The result of a query. -/
def answer (q : Query) (db : Catalog) : Except Fault Outcome :=
  q.run db >>= fun r => .ok (.ofRelation r)

/-- A query under a new number is answered on the database of the log, and leaves it alone. -/
theorem execute_query {e : Engine} {log : Bytes} (h : e.InStep log)
    {id : UInt64} (hid : e.lastExecution ≠ some id) {sql : String} {q : Query}
    (hq : parseStatement sql = .ok (.query q)) (now : Int64) :
    (e.execute now id log sql).result = answer q (database log) ∧
      (e.execute now id log sql).log = log ∧
      (e.execute now id log sql).engine.InStep log ∧
      (e.execute now id log sql).engine.lastExecution = some id := by
  obtain ⟨hcat, -, hin⟩ := h.caughtUp
  have hstep : (e.enter id log).InStep log := by
    rw [enter, if_neg hid]
    exact hin
  have hcatalog : (e.enter id log).catalog = database log := by
    rw [enter, if_neg hid]
    exact hcat
  have hlast : (e.enter id log).lastExecution = some id := by
    rw [enter, if_neg hid]
  unfold execute
  rw [hq]
  simp only [executeStatement, Engine.decide, Statement.plan, hcatalog]
  cases hr : q.run (database log) with
  | error why => exact ⟨by simp [answer, hr], rfl, hstep, hlast⟩
  | ok r => exact ⟨by simp [answer, hr, carryOut], rfl, hstep, hlast⟩

end Engine

end Rowtime
