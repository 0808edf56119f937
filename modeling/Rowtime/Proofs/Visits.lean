import Rowtime.Proofs.Watermark

/-!
# Under one number

While an engine works under one number, other engines write, also in the middle of its
statements. What it holds does not change by that, nor by its own queries, its own faults and
writes that break off. It changes when a write of its own succeeds: then the engine catches up
with the log, and what others have written until then comes with what it has written itself.

So under one number the engine holds what it held at first, or all that was in the log when
its last write was done.
-/
namespace Rowtime

open Log Sql

/-- Under the number of the statement before an engine does not catch up. -/
theorem Engine.enter_same {e : Engine} {id : UInt64} (h : e.lastExecution = some id) (log : Bytes) :
    e.enter id log = e := if_pos h

/-- The number of a statement stays with the engine. -/
theorem Engine.lastExecution_execute {e : Engine} {id : UInt64} (h : e.lastExecution = some id)
    (now : Int64) (log : Bytes) (sql : String) :
    (e.execute now id log sql).engine.lastExecution = some id := by
  unfold execute
  split
  · exact h
  · rename_i s _
    unfold executeStatement Engine.decide
    simp only [enter_same h]
    cases s.plan now e.catalog with
    | error why => exact h
    | ok p =>
        cases p with
        | answer o => exact h
        | record ops o =>
            obtain ⟨n, hn⟩ := e.record_engine now log ops
            have hlast : (e.record now log ops).2.1.lastExecution = some id := by
              rw [hn]
              exact h
            simp only [carryOut]
            split
            · rename_i hrec
              rw [hrec] at hlast
              exact hlast
            · rename_i hrec
              rw [hrec] at hlast
              exact hlast

namespace Site

variable {s : Site} {n m : Nat} {c : Client} {id : UInt64}

/-! ## The client of an engine -/

/-- The engine with a number has been opened. -/
def Has (s : Site) (n : Nat) (c : Client) : Prop :=
  (s.clients.find? fun x => x.1 = n).map (·.2) = some c

theorem Has.client (h : s.Has n c) : s.client n = c := by
  rw [Site.client, show (s.clients.find? fun x => x.1 = n).map (·.2) = some c from h]
  rfl

/-- An engine with a statement behind it has been opened. -/
theorem has_client (h : (s.client n).engine.lastExecution = some id) : s.Has n (s.client n) := by
  unfold Has
  unfold client at h ⊢
  cases hf : s.clients.find? fun x => x.1 = n with
  | none =>
      rw [hf] at h
      exact absurd h (by simp [opened, Engine.start, Engine.blank, Engine.catchUp])
  | some x => rfl

theorem has_put (s : Site) (n : Nat) (c : Client) : (s.put n c).Has n c := by
  simp [Has, put]

theorem Has.put (h : s.Has n c) (hm : m ≠ n) (d : Client) : (s.put m d).Has n c := by
  have hfilter : (s.clients.filter fun x => x.1 ≠ m).find? (fun x => x.1 = n) =
      s.clients.find? fun x => x.1 = n := by
    rw [List.find?_filter]
    congr 1
    funext x
    by_cases hx : x.1 = n
    · simp [hx, Ne.symm hm]
    · simp [hx]
  unfold Has Site.put
  rw [List.find?_cons_of_neg (by simpa using hm), hfilter]
  exact h

/-- The engine that acts in an event. -/
def Event.actor? : Event → Option Nat
  | .opened n | .executed _ n _ _ | .begun n _ | .recorded _ n _ | .refreshed n => some n
  | .appeared _ => none

/-- What others do leaves an engine as it is. -/
theorem Has.after (h : s.Has n c) {event : Event} (hn : event.actor? ≠ some n) :
    (s.after event).Has n c := by
  cases event with
  | appeared more => exact h
  | opened m => exact h.put (fun he => hn (congrArg some he)) _
  | executed now m i sql =>
      exact Has.put (s := { s with log := _ }) h (fun he => hn (congrArg some he)) _
  | begun m i => exact h.put (fun he => hn (congrArg some he)) _
  | recorded now m op =>
      exact Has.put (s := { s with log := _ }) h (fun he => hn (congrArg some he)) _
  | refreshed m => exact h.put (fun he => hn (congrArg some he)) _

/-- The log only grows. -/
theorem after_log (s : Site) (event : Event) : ∃ more, (s.after event).log = s.log ++ more := by
  cases event with
  | opened n => exact ⟨[], (List.append_nil _).symm⟩
  | executed now n id sql =>
      obtain ⟨more, hlog, -⟩ := (s.client n).engine.execute_recorded now
        (id.getD ((s.client n).lastId + 1)) s.log sql
      exact ⟨more, hlog⟩
  | begun n id => exact ⟨[], (List.append_nil _).symm⟩
  | recorded now n op =>
      obtain ⟨es, -, -, -, hlog⟩ := (s.client n).engine.record_entries now s.log [op]
      exact ⟨_, hlog⟩
  | refreshed n => exact ⟨[], (List.append_nil _).symm⟩
  | appeared more => exact ⟨more, rfl⟩

theorem run_concat (events : List Event) (event : Event) :
    run (events ++ [event]) = (run events).after event := by
  rw [run, List.foldl_append]
  rfl

theorem run_log (events more : List Event) :
    ∃ bytes, (run (events ++ more)).log = (run events).log ++ bytes := by
  induction more using List.reverseRecOn with
  | nil => exact ⟨[], by rw [List.append_nil, List.append_nil]⟩
  | append_singleton more event ih =>
      obtain ⟨bytes, hbytes⟩ := ih
      obtain ⟨rest, hrest⟩ := (run (events ++ more)).after_log event
      refine ⟨bytes ++ rest, ?_⟩
      rw [← List.append_assoc, run_concat, hrest, hbytes, List.append_assoc]

/-! ## What an engine does under one number -/

/-- The engine acts under the number, if it is the one that acts. Its statements may be whole or in
parts, and what others do is left open. -/
def Event.Under (n : Nat) (id : UInt64) : Event → Prop
  | .opened m => m ≠ n
  | .executed _ m i _ => m = n → i = some id
  | .begun m i => m = n → i = id
  | _ => True

/-- The engine catches up: a statement of its own is one that writes, and it succeeds; or the last
part of such a statement is done. -/
def CatchesUp (s : Site) (n : Nat) : Event → Prop
  | .executed now m i sql => m = n ∧ ∃ st ops o, parseStatement sql = .ok st ∧
      st.plan now (s.view n i) = .ok (.record ops o) ∧ (s.execute now n i sql).1 = .ok o
  | .refreshed m => m = n
  | _ => False

theorem CatchesUp.actor {event : Event} (h : s.CatchesUp n event) : event.actor? = some n := by
  cases event with
  | executed now m i sql => exact congrArg some h.1
  | refreshed m => exact congrArg some h
  | opened m => exact h.elim
  | begun m i => exact h.elim
  | recorded now m op => exact h.elim
  | appeared more => exact h.elim

/-- What a statement under the number leaves. -/
theorem executed_under (hs : s.InStep) (hid : (s.client n).engine.lastExecution = some id)
    (now : Int64) (sql : String) :
    (s.CatchesUp n (.executed now n (some id) sql) ∧
        ((s.client n).engine.execute now id s.log sql).engine.catalog =
          database ((s.client n).engine.execute now id s.log sql).log) ∨
      (¬s.CatchesUp n (.executed now n (some id) sql) ∧
        ((s.client n).engine.execute now id s.log sql).engine.catalog =
          (s.client n).engine.catalog) := by
  have hentered := Engine.enter_same hid s.log
  have hresult : (s.execute now n (some id) sql).1 =
      ((s.client n).engine.execute now id s.log sql).result := rfl
  have hfailed : ∀ {why : Fault}, ((s.client n).engine.execute now id s.log sql).result =
      .error why → ¬s.CatchesUp n (.executed now n (some id) sql) := by
    rintro why hwhy ⟨-, st, ops, o, -, -, hok⟩
    rw [hresult, hwhy] at hok
    cases hok
  cases (hs.client n).effect now id sql with
  | refused result unwritten catalog =>
      exact .inr ⟨hfailed result, by simpa [hentered] using catalog⟩
  | answered parsed plan unwritten catalog =>
      refine .inr ⟨?_, by rw [catalog, hentered]⟩
      rintro ⟨-, st, ops, o, hst, hp, -⟩
      rw [parsed, Except.ok.injEq] at hst
      subst hst
      cases plan.symm.trans hp
  | broken parsed plan part whole operations result written catalog =>
      exact .inr ⟨hfailed result, by rw [catalog, hentered]⟩
  | recorded parsed plan whole operations result written catalog =>
      exact .inl ⟨⟨rfl, _, _, _, parsed, plan, result⟩, by rw [catalog, written]⟩

/-- Under one number an engine keeps what it holds, or it holds all that is in the log. -/
theorem after_under (hs : s.InStep) (h : s.Has n c) (hid : c.engine.lastExecution = some id)
    {event : Event} (he : event.Under n id) :
    ∃ c', (s.after event).Has n c' ∧ c'.engine.lastExecution = some id ∧
      ((s.CatchesUp n event ∧ c'.engine.catalog = database (s.after event).log) ∨
        (¬s.CatchesUp n event ∧ c'.engine.catalog = c.engine.catalog)) := by
  -- Only what the engine does itself can change what it holds.
  by_cases hn : event.actor? = some n
  · obtain rfl := h.client
    cases event with
    | appeared more => cases hn
    | opened m => exact absurd (Option.some.inj hn) he
    | executed now m i sql =>
        obtain rfl : m = n := Option.some.inj hn
        obtain rfl := he rfl
        exact ⟨_, has_put _ _ _, Engine.lastExecution_execute hid now s.log sql,
          executed_under hs hid now sql⟩
    | begun m i =>
        obtain rfl : m = n := Option.some.inj hn
        obtain rfl := he rfl
        have hentered := Engine.enter_same hid s.log
        refine ⟨_, has_put _ _ _, ?_, .inr ⟨fun hcatch => hcatch, ?_⟩⟩
        · rw [hentered]
          exact hid
        · rw [hentered]
    | recorded now m op =>
        obtain rfl : m = n := Option.some.inj hn
        obtain ⟨k, hk⟩ := (s.client m).engine.record_engine now s.log [op]
        refine ⟨_, has_put _ _ _, ?_, .inr ⟨fun hcatch => hcatch, ?_⟩⟩
        · rw [hk]
          exact hid
        · rw [hk]
    | refreshed m =>
        obtain rfl : m = n := Option.some.inj hn
        exact ⟨_, has_put _ _ _, hid, .inl ⟨rfl, (hs.client m).caughtUp.1⟩⟩
  · exact ⟨c, h.after hn, hid, .inr ⟨fun hcatch => hn hcatch.actor, rfl⟩⟩

variable {events more : List Event}

/-- In none of some more events an engine catches up. -/
def Quiet (events : List Event) (n : Nat) (more : List Event) : Prop :=
  ∀ before event rest, more = before ++ event :: rest →
    ¬(run (events ++ before)).CatchesUp n event

theorem Quiet.nil : Quiet events n [] := fun before event rest he => by simp at he

theorem Quiet.concat {event : Event} (h : Quiet events n more)
    (he : ¬(run (events ++ more)).CatchesUp n event) : Quiet events n (more ++ [event]) := by
  intro before e rest hsplit
  rcases List.eq_nil_or_concat' rest with rfl | ⟨rest, x, rfl⟩
  · obtain ⟨rfl, hlast⟩ := List.append_inj' hsplit rfl
    exact List.singleton_inj.mp hlast ▸ he
  · rw [← List.cons_append, ← List.append_assoc] at hsplit
    exact h before e rest (List.append_inj' hsplit rfl).1

/-- Under one number an engine keeps what it holds behind the last event in which it catches up. -/
theorem run_under (h : (run events).Has n c) (hid : c.engine.lastExecution = some id)
    (hm : ∀ event ∈ more, event.Under n id) :
    ∃ c', (run (events ++ more)).Has n c' ∧ c'.engine.lastExecution = some id ∧
      ∃ seen unseen, more = seen ++ unseen ∧ Quiet (events ++ seen) n unseen ∧
        ((seen = [] ∧ c'.engine.catalog = c.engine.catalog) ∨
          ∃ before event, seen = before ++ [event] ∧ (run (events ++ before)).CatchesUp n event ∧
            c'.engine.catalog = database (run (events ++ seen)).log) := by
  induction more using List.reverseRecOn with
  | nil =>
      rw [List.append_nil]
      exact ⟨c, h, hid, [], [], rfl, .nil, .inl ⟨rfl, rfl⟩⟩
  | append_singleton more event ih =>
      rw [List.forall_mem_append, List.forall_mem_singleton] at hm
      obtain ⟨d, hd, hlast, seen, unseen, rfl, hquiet, hseen⟩ := ih hm.1
      obtain ⟨c', hc', hlast', hcatch⟩ := after_under (run_inStep _) hd hlast hm.2
      rw [← List.append_assoc, run_concat]
      refine ⟨c', hc', hlast', ?_⟩
      rcases hcatch with ⟨hcatch, hcatalog⟩ | ⟨hno, hsame⟩
      · refine ⟨seen ++ unseen ++ [event], [], (List.append_nil _).symm, .nil,
          .inr ⟨_, event, rfl, hcatch, ?_⟩⟩
        rw [hcatalog, ← run_concat, List.append_assoc]
      · refine ⟨seen, unseen ++ [event], List.append_assoc _ _ _, hquiet.concat ?_, ?_⟩
        · rwa [List.append_assoc]
        · rwa [hsame]

/-- Whatever happens at a site while an engine works under one number, whoever writes: as long as no
write of its own succeeds it holds what it held. Behind one that succeeded it holds this with all
that was added to the log until then, by whomever, and keeps it up to its next one. -/
theorem stable_between_writes (hid : ((run events).client n).engine.lastExecution = some id)
    (hm : ∀ event ∈ more, event.Under n id) :
    ∃ seen unseen, more = seen ++ unseen ∧ Quiet (events ++ seen) n unseen ∧
      ((seen = [] ∧ ((run (events ++ more)).client n).engine.catalog =
          ((run events).client n).engine.catalog) ∨
        ∃ before event, seen = before ++ [event] ∧ (run (events ++ before)).CatchesUp n event ∧
          ((run (events ++ more)).client n).engine.catalog =
            replay ((run events).client n).engine.catalog
              (operations ((run (events ++ seen)).log.drop
                ((run events).client n).engine.cursor.offset))) := by
  obtain ⟨c', hc', -, seen, unseen, hsplit, hquiet, hseen⟩ := run_under (has_client hid) hid hm
  rw [hc'.client]
  refine ⟨seen, unseen, hsplit, hquiet, hseen.imp_right ?_⟩
  rintro ⟨before, event, hlast, hcatch, hcatalog⟩
  refine ⟨before, event, hlast, hcatch, ?_⟩
  obtain ⟨bytes, hbytes⟩ := run_log events seen
  obtain ⟨past, rest, hlog, hwhole, hoffset, hpast⟩ := (run_inStep events).client n
  rw [hcatalog, hbytes, hlog, hoffset, hpast, List.append_assoc, List.drop_left,
    database_append hwhole]

/-- An engine that has read a table under the number 7. -/
def visitedHistory : List Event :=
  [.executed 10 0 none "CREATE TABLE t (v INTEGER)", .executed 10 1 (some 7) "SELECT v FROM t"]

/-- Another one writes before a statement of the engine, and in the middle of it. -/
def foreignWrites : List Event :=
  [.executed 20 0 none "INSERT INTO t VALUES (20, 1)", .begun 1 7,
    .recorded 25 0 (.insert "t" [.integer 25, .null]), .refreshed 0]

theorem stable_between_writes_foreign :
    ((run visitedHistory).client 1).engine.lastExecution = some 7 ∧
      (∀ event ∈ foreignWrites, event.Under 1 7) ∧
      ((run (visitedHistory ++ foreignWrites)).client 1).engine.catalog =
        ((run visitedHistory).client 1).engine.catalog := by
  have hid : ((run visitedHistory).client 1).engine.lastExecution = some 7 := by decide +kernel
  have hunder : ∀ event ∈ foreignWrites, event.Under 1 7 := by
    simp [foreignWrites, Event.Under]
  refine ⟨hid, hunder, ?_⟩
  obtain ⟨seen, unseen, hsplit, -, ⟨-, hsame⟩ | ⟨before, event, rfl, hcatch, -⟩⟩ :=
    stable_between_writes hid hunder
  · exact hsame
  · have hm : event ∈ foreignWrites := by simp [hsplit]
    simp only [foreignWrites, List.mem_cons, List.not_mem_nil, or_false] at hm
    obtain rfl | rfl | rfl | rfl := hm
    · exact absurd hcatch.1 (by decide)
    · exact hcatch.elim
    · exact hcatch.elim
    · exact absurd hcatch (by decide : ¬(0 = 1))

/-- A row of another engine comes with a table that the engine creates under the same number. -/
theorem view_overtaken :
    ((run (visitedHistory ++ [.executed 20 0 none "INSERT INTO t VALUES (20, 1)"])).execute 20 1
        (some 7) "SELECT v FROM t").1 = .ok ⟨["v"], [], .select 0⟩ ∧
      ((run (visitedHistory ++ [.executed 20 0 none "INSERT INTO t VALUES (20, 1)",
        .executed 20 1 (some 7) "CREATE TABLE u (w INTEGER)"])).execute 20 1
          (some 7) "SELECT v FROM t").1 = .ok ⟨["v"], [[.integer 1]], .select 1⟩ := by
  decide +kernel

end Site

end Rowtime
