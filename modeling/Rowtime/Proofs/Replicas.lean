import Rowtime.Engine.Site
import Rowtime.Proofs.Recorded

/-!
# Engines that share a log agree

At a site engines are opened and reopened, run statements, catch up, and bytes of
any kind appear at the end of the log. A statement need not run in one go: between
its beginning and each of its writes anything else can happen. Whatever happens, an
engine has read whole frames from the front of the log, and its catalog is the
database of these; this is `Engine.InStep`. So the offset decides what an engine
holds, and an engine that catches up holds what a newly opened one does.
-/
namespace Rowtime

open Log

namespace Engine

theorem InStep.entered {e : Engine} {log : Bytes} (h : e.InStep log) (id : UInt64) :
    (e.enter id log).InStep log := by
  unfold enter
  split
  · exact h
  · exact h.caughtUp.2.2.congr rfl rfl

/-- Writing adds to the log, and the writer reads nothing. -/
theorem InStep.recorded {e : Engine} {log : Bytes} (h : e.InStep log) (now : Int64)
    (ops : List Operation) :
    ∃ more, (e.record now log ops).2.2 = log ++ more ∧
      (e.record now log ops).2.1.InStep (log ++ more) := by
  obtain ⟨es, -, -, -, hlog⟩ := e.record_entries now log ops
  obtain ⟨n, hn⟩ := e.record_engine now log ops
  refine ⟨_, hlog, ?_⟩
  rw [hn]
  exact (h.append _).congr rfl rfl

theorem InStep.carriedOut {e : Engine} {log : Bytes} (h : e.InStep log) (now : Int64) (p : Plan) :
    ∃ more, (e.carryOut now log p).log = log ++ more ∧
      (e.carryOut now log p).engine.InStep (log ++ more) := by
  cases p with
  | answer o => exact ⟨[], (List.append_nil _).symm, h.append []⟩
  | record ops o =>
      obtain ⟨more, hlog, hin⟩ := h.recorded now ops
      rw [carryOut]
      split
      · rename_i e' log' hr
        rw [hr] at hlog hin
        obtain rfl : log' = log ++ more := hlog
        exact ⟨more, rfl, hin.caughtUp.2.2⟩
      · rename_i why e' log' hr
        rw [hr] at hlog hin
        exact ⟨more, hlog, hin⟩

/-- A statement of any kind and outcome leaves an engine in step. -/
theorem InStep.executed {e : Engine} {log : Bytes} (h : e.InStep log) (now : Int64) (id : UInt64)
    (sql : String) :
    ∃ more, (e.execute now id log sql).log = log ++ more ∧
      (e.execute now id log sql).engine.InStep (log ++ more) := by
  unfold execute
  split
  · exact ⟨[], (List.append_nil _).symm, h.append []⟩
  · rename_i s _
    have hentered := h.entered id
    unfold executeStatement Engine.decide
    simp only
    cases s.plan now (e.enter id log).catalog with
    | error why => exact ⟨[], (List.append_nil _).symm, hentered.append []⟩
    | ok p => exact hentered.carriedOut now p

end Engine

namespace Site

/-- What can happen at a site. The two middle ones are parts of statements. -/
inductive Event where
  | opened (n : Nat)
  | executed (now : Int64) (n : Nat) (id : Option UInt64) (sql : String)
  | begun (n : Nat) (id : UInt64)
  | recorded (now : Int64) (n : Nat) (op : Operation)
  | refreshed (n : Nat)
  | appeared (more : Bytes)

/-- The site after an event. -/
def after (s : Site) : Event → Site
  | .opened n => s.reopen n
  | .executed now n id sql => (s.execute now n id sql).2
  | .begun n id => s.put n ⟨(s.client n).engine.enter id s.log, id⟩
  | .recorded now n op =>
    let r := (s.client n).engine.record now s.log [op]
    { s with log := r.2.2 }.put n ⟨r.2.1, (s.client n).lastId⟩
  | .refreshed n => (s.refresh n).2
  | .appeared more => { s with log := s.log ++ more }

/-- The site after a history that begins with an empty log and no engine. -/
def run (events : List Event) : Site := events.foldl after empty

/-- All engines of the site are in step with its log. -/
def InStep (s : Site) : Prop := ∀ x ∈ s.clients, x.2.engine.InStep s.log

theorem empty_inStep : empty.InStep := by
  intro x hx
  simp [empty] at hx

theorem opened_inStep (s : Site) : s.opened.engine.InStep s.log :=
  Engine.start_inStep s.log

theorem InStep.client {s : Site} (h : s.InStep) (n : Nat) : (s.client n).engine.InStep s.log := by
  unfold Site.client
  cases hf : s.clients.find? fun c => c.1 = n with
  | none => exact s.opened_inStep
  | some x => exact h x (List.mem_of_find?_eq_some hf)

/-- One engine acts, which adds to the log at most; the others have not read that yet. -/
theorem InStep.put {s : Site} (h : s.InStep) {log : Bytes} {n : Nat} {c : Client}
    (hc : ∃ more, log = s.log ++ more ∧ c.engine.InStep (s.log ++ more)) :
    ({ s with log := log }.put n c).InStep := by
  obtain ⟨more, rfl, hc⟩ := hc
  intro x hx
  rcases List.mem_cons.mp hx with rfl | hx
  · exact hc
  · exact (h x (List.mem_filter.mp hx).1).append more

theorem after_inStep {s : Site} (h : s.InStep) (event : Event) : (s.after event).InStep := by
  have hsame : ∀ {n : Nat} {c : Client}, c.engine.InStep s.log → (s.put n c).InStep :=
    fun hc => h.put ⟨[], (List.append_nil _).symm, hc.append []⟩
  cases event with
  | opened n => exact hsame s.opened_inStep
  | executed now n id sql => exact h.put ((h.client n).executed now _ sql)
  | begun n id => exact hsame ((h.client n).entered id)
  | recorded now n op => exact h.put ((h.client n).recorded now [op])
  | refreshed n => exact hsame (h.client n).caughtUp.2.2
  | appeared more => exact fun x hx => (h x hx).append more

theorem run_inStep (events : List Event) : (run events).InStep := by
  have hfrom : ∀ s : Site, s.InStep → (events.foldl after s).InStep := by
    induction events with
    | nil => exact fun s h => h
    | cons event events ih => exact fun s h => ih (s.after event) (after_inStep h event)
  exact hfrom empty empty_inStep

/-- What being in step says of the bytes that an engine has read. -/
theorem inStep_iff {e : Engine} {log : Bytes} :
    e.InStep log ↔ e.cursor.offset ≤ log.length ∧ Whole (log.take e.cursor.offset) ∧
      e.catalog = database (log.take e.cursor.offset) := by
  constructor
  · rintro ⟨past, rest, rfl, hw, ho, hc⟩
    rw [ho, List.take_left]
    refine ⟨?_, hw, hc⟩
    rw [List.length_append]
    omega
  · rintro ⟨hle, hw, hc⟩
    refine ⟨log.take e.cursor.offset, log.drop e.cursor.offset, ?_, hw, ?_, hc⟩
    · exact (List.take_append_drop _ _).symm
    · rw [List.length_take]
      omega

/-- At every moment an engine has read whole frames, and its catalog is the database of the bytes
that it has read. So engines with the same offset have the same catalog, and one that catches up
has what a new one has. -/
theorem replicas_agree (events : List Event) {x : Nat × Client}
    (hx : x ∈ (run events).clients) :
    (x.2.engine.cursor.offset ≤ (run events).log.length ∧
        Whole ((run events).log.take x.2.engine.cursor.offset) ∧
        x.2.engine.catalog = database ((run events).log.take x.2.engine.cursor.offset)) ∧
      (∀ y ∈ (run events).clients, y.2.engine.cursor.offset = x.2.engine.cursor.offset →
        y.2.engine.catalog = x.2.engine.catalog) ∧
      (x.2.engine.catchUp (run events).log).catalog = (Engine.start (run events).log).catalog ∧
      (x.2.engine.catchUp (run events).log).cursor.offset =
        (Engine.start (run events).log).cursor.offset := by
  have hin := run_inStep events x hx
  have hread := inStep_iff.mp hin
  obtain ⟨hcat, hoff, -⟩ := hin.caughtUp
  obtain ⟨hcat', hoff', -⟩ := (Engine.blank_inStep (run events).log).caughtUp
  refine ⟨hread, ?_, hcat.trans hcat'.symm, hoff.trans hoff'.symm⟩
  intro y hy ho
  have hother := inStep_iff.mp (run_inStep events y hy)
  rw [hother.2.2, ho, hread.2.2]

/-- Two engines that write between each other's statements, a statement that fails, one under a
number that was used before, and a frame that is torn and completed by the next. -/
def sharedHistory : List Event :=
  [.opened 1, .executed 10 1 none "CREATE TABLE t (v INTEGER)", .opened 2, .begun 2 7,
    .executed 20 1 none "INSERT INTO t VALUES (1), (2)",
    .recorded 15 2 (.insert "t" [.integer 15, .null]), .executed 25 2 (some 7) "SELECT w FROM t",
    .appeared [3, 0], .appeared [0, 0, 9, 9, 9, 1], .refreshed 1]

theorem replicas_agree_shared :
    ∃ x ∈ (run sharedHistory).clients, ∃ y ∈ (run sharedHistory).clients,
      x.2.engine.cursor.offset ≠ y.2.engine.cursor.offset ∧
        x.2.engine.catalog = database ((run sharedHistory).log.take x.2.engine.cursor.offset) ∧
        (y.2.engine.catchUp (run sharedHistory).log).catalog =
          (Engine.start (run sharedHistory).log).catalog := by
  have hx : (run sharedHistory).clients[0]?.isSome := by decide +kernel
  have hy : (run sharedHistory).clients[1]?.isSome := by decide +kernel
  obtain ⟨x, hx⟩ := Option.isSome_iff_exists.mp hx
  obtain ⟨y, hy⟩ := Option.isSome_iff_exists.mp hy
  have hne : ((run sharedHistory).clients[0]?.map (·.2.engine.cursor.offset)) ≠
      ((run sharedHistory).clients[1]?.map (·.2.engine.cursor.offset)) := by decide +kernel
  rw [hx, hy] at hne
  have hmx := List.mem_of_getElem? hx
  have hmy := List.mem_of_getElem? hy
  refine ⟨x, hmx, y, hmy, ?_, (replicas_agree sharedHistory hmx).1.2.2,
    (replicas_agree sharedHistory hmy).2.2.1⟩
  intro he
  simp [he] at hne

end Site

end Rowtime
