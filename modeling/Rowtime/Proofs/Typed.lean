import Rowtime.Proofs.Written

/-!
# Stored values and the types of their columns

A value is cast when its row is planned, on the table that the engine sees, and it
is not looked at again when the row is applied. So a stored value is of the type of
its column as long as every INSERT sees a table with the column types that the table
of this name has in the log. An engine that runs statements under one number can
miss that a table was dropped and created with other types; then it stores values
of the old types in the new table.
-/
namespace Rowtime

open Log Sql

/-! ## Values of a type -/

theorem Decimal.roundTo_scale (d : Decimal) (places : Nat) : (d.roundTo places).scale ≤ places := by
  unfold roundTo
  split
  · assumption
  · cases h : ofParts? d.negative (Binary64.roundDiv d.coeff (Nat.pow 10 (d.scale - places))) places
      with
    | none => exact Nat.zero_le _
    | some e =>
        unfold ofParts? at h
        split at h
        · split at h
          · rw [Option.some.injEq] at h
            subst h
            exact Nat.le_refl _
          · simp at h
        · simp at h

namespace Value

/-- Whether a value may stand in a column of a type: it is NULL, or of the kind that the type
stores and no longer than the type allows. -/
def isOf : SqlType → Value → Bool
  | _, .null => true
  | .smallInt, .smallInt _ => true
  | .integer, .integer _ | .bigInt, .integer _ => true
  | .real, .real _ => true
  | .numeric _ s, .numeric d => d.scale ≤ s.toNat
  | .text, .text _ => true
  | .varchar n, .text s => s.length ≤ n.toNat
  | .char n, .char s => s.length == n.toNat
  | .boolean, .boolean _ => true
  | .date, .date _ => true
  | .timestamp, .timestamp _ => true
  | .timestampTz, .timestampTz _ => true
  | .uuid, .uuid _ => true
  | .json, .json _ => true
  | .bytea, .bytea _ => true
  | _, _ => false

theorem isOf_plain (t : SqlType) (v : Value) : v.plain.isOf t = v.isOf t := by
  cases v with
  | numeric d => cases t <;> rfl
  | _ => rfl

theorem orCannotStore_eq_ok {t : SqlType} {s : String} {o : Option Value} {w : Value} :
    orCannotStore t s o = .ok w ↔ o = some w := by
  cases o <;> simp [orCannotStore]

theorem length_padTo {n : Nat} {s : String} (h : s.length ≤ n) : (padTo n s).length = n := by
  rw [padTo, String.length_ofList, List.length_append, List.length_replicate, String.length_toList]
  omega

theorem fit_isOf {t : SqlType} {v w : Value} (h : fit t v = .ok w) : w.isOf t = true := by
  have hread : ∀ {α : Type} {s : String} {o : Option α} {f : α → Value},
      orCannotStore t s (o.map f) = .ok w → (∀ a, (f a).isOf t = true) → w.isOf t = true := by
    intro α s o f hw hf
    obtain ⟨a, -, rfl⟩ := Option.map_eq_some_iff.mp (orCannotStore_eq_ok.mp hw)
    exact hf a
  cases t with
  | varchar n =>
      simp only [fit] at h
      split at h
      · simp at h
      · rw [Except.ok.injEq] at h
        subst h
        simpa [isOf] using ‹¬n.toNat < _›
  | char n =>
      simp only [fit] at h
      split at h
      · simp at h
      · rw [Except.ok.injEq] at h
        subst h
        simpa [isOf] using length_padTo (Nat.le_of_not_lt ‹¬n.toNat < _›)
  | numeric p s =>
      simp only [fit] at h
      split at h
      · rename_i d hd
        rw [Except.ok.injEq] at h
        subst h
        simpa [isOf] using d.roundTo_scale s.toNat
      · simp at h
  | json =>
      simp only [fit] at h
      split at h
      · rw [Except.ok.injEq] at h
        subst h
        rfl
      · split at h
        · rw [Except.ok.injEq] at h
          subst h
          rfl
        · simp at h
      · simp at h
  | text =>
      simp only [fit, Except.ok.injEq] at h
      subst h
      rfl
  | smallInt | integer | bigInt | real | boolean =>
      simp only [fit] at h
      split at h
      · rw [Except.ok.injEq] at h
        subst h
        rfl
      · simp at h
  | date | timestamp | timestampTz | uuid | bytea =>
      simp only [fit] at h
      split at h
      · rw [Except.ok.injEq] at h
        subst h
        rfl
      · exact hread h fun _ => rfl
      · simp at h

/-- A value that was cast is of the type. -/
theorem cast_isOf {t : SqlType} {v w : Value} (h : v.cast t = .ok w) : w.isOf t = true := by
  unfold cast at h
  split at h
  · rw [Except.ok.injEq] at h
    subst h
    cases t <;> rfl
  · split at h
    · exact fit_isOf h
    · simp at h

end Value

/-! ## Rows, tables and catalogs -/

/-- Whether a row has a value of each type, one for each and no more. -/
def rowOf : List SqlType → Row → Bool
  | [], [] => true
  | t :: ts, v :: vs => v.isOf t && rowOf ts vs
  | _, _ => false

theorem rowOf_plain (ts : List SqlType) (row : Row) : rowOf ts (plainRow row) = rowOf ts row := by
  induction ts generalizing row with
  | nil => cases row <;> rfl
  | cons t ts ih =>
      cases row with
      | nil => rfl
      | cons v vs =>
          change (v.plain.isOf t && rowOf ts (plainRow vs)) = (v.isOf t && rowOf ts vs)
          rw [Value.isOf_plain, ih]

namespace Table

/-- The types of the columns. -/
def types (t : Table) : List SqlType := t.columns.map (·.type)

/-- Every stored value is of the type of its column. -/
def Typed (t : Table) : Prop := ∀ row ∈ t.rows, rowOf t.types row = true

instance (t : Table) : Decidable t.Typed :=
  inferInstanceAs (Decidable (∀ row ∈ t.rows, rowOf t.types row = true))

theorem fillFrom_rowOf {t : Table} {now : Int64} {given : Nat → Option Value} {i : Nat}
    {cs : List Column} {row : Row} (h : t.fillFrom now given i cs = .ok row) :
    rowOf (cs.map (·.type)) row = true := by
  induction cs generalizing i row with
  | nil =>
      rw [fillFrom, Except.ok.injEq] at h
      subst h
      rfl
  | cons c cs ih =>
      rw [fillFrom] at h
      split at h
      · simp at h
      · rename_i v hv
        obtain ⟨rest, hrest, rfl⟩ := map_eq_ok.mp h
        rw [List.map_cons, rowOf, Value.cast_isOf hv, ih hrest]
        rfl

theorem fill_rowOf {t : Table} {now : Int64} {named : Option (List Nat)} {values row : Row}
    (h : t.fill now named values = .ok row) : rowOf t.types row = true := by
  unfold fill at h
  simp only at h
  split at h
  · simp at h
  · exact fillFrom_rowOf h

theorem insert_types {t t' : Table} {row : Row} (h : t.insert row = .ok t') :
    t'.types = t.types := by
  obtain ⟨-, -, i, -, -, -, rfl⟩ := insert_spec h
  rfl

/-- The rows of an INSERT are of the types of the table that it is planned on. -/
theorem fillAll_rowOf {t : Table} {now : Int64} {named : Option (List Nat)} {tuples rows : List Row}
    (h : t.fillAll now named tuples = .ok rows) : ∀ row ∈ rows, rowOf t.types row = true := by
  induction tuples generalizing t rows with
  | nil =>
      rw [fillAll_nil_eq_ok.mp h]
      simp
  | cons values tuples ih =>
      obtain ⟨row, t', rest, hrow, ht, hrest, rfl⟩ := fillAll_cons_eq_ok.mp h
      refine List.forall_mem_cons.mpr ⟨fill_rowOf hrow, ?_⟩
      rw [← insert_types ht]
      exact ih hrest

theorem Typed.insert {t t' : Table} {row : Row} (h : t.Typed) (hr : rowOf t.types row = true)
    (hi : t.insert row = .ok t') : t'.Typed := by
  obtain ⟨-, -, i, -, -, -, rfl⟩ := insert_spec hi
  intro r hm
  rcases List.mem_append.mp hm with hm | hm
  · exact h r hm
  · rw [List.mem_singleton] at hm
    exact hm ▸ hr

end Table

/-- Every table is typed. -/
def Catalog.Typed (db : Catalog) : Prop := ∀ e ∈ db.entries, e.2.Typed

instance (db : Catalog) : Decidable db.Typed :=
  inferInstanceAs (Decidable (∀ e ∈ db.entries, e.2.Typed))

namespace Log

theorem applyOrSkip_typed {db : Catalog} (h : db.Typed) {op : Operation}
    (hcreate : ∀ name t, op = .create name t → t.Typed)
    (hinsert : ∀ name row t, op = .insert name row → db.get? name = some t →
      rowOf t.types row = true) : (op.applyOrSkip db).Typed := by
  have hset : ∀ name {t : Table}, t.Typed → (db.set name t).Typed := by
    intro name t ht e he
    rcases Catalog.mem_insertEntry he with rfl | he
    · exact ht
    · exact h e he
  rcases applyOrSkip_cases db op with he | ⟨name, t, rfl, -, he⟩ | ⟨name, rfl, he⟩ |
    ⟨name, row, t, t', rfl, ht, hi, he⟩ <;> rw [he]
  · exact h
  · exact hset _ (hcreate name t rfl)
  · exact fun e he => h e (List.mem_filter.mp he).1
  · exact hset _ ((h _ (Catalog.mem_of_get? ht)).insert (hinsert name row t rfl ht) hi)

/-- Rows that are of the types of their table are added to it, or passed over. -/
theorem replay_inserts_typed {name : String} {types : List SqlType} {rows : List Row}
    (hrows : ∀ row ∈ rows, rowOf types row = true) {db : Catalog} (h : db.Typed)
    (ht : ∀ t, db.get? name = some t → t.types = types) :
    (replay db (rows.map (Operation.insert name))).Typed := by
  induction rows generalizing db with
  | nil => exact h
  | cons row rows ih =>
      rw [List.map_cons, replay_cons]
      refine ih (fun r hr => hrows r (List.mem_cons_of_mem _ hr)) ?_ ?_
      · refine applyOrSkip_typed h (fun _ _ he => by simp at he) fun n r t he hget => ?_
        rw [Operation.insert.injEq] at he
        obtain ⟨rfl, rfl⟩ := he
        rw [ht t hget]
        exact hrows row List.mem_cons_self
      · intro t' hget'
        rcases applyOrSkip_cases db (.insert name row) with he | ⟨n, t, ho, -⟩ | ⟨n, ho, -⟩ |
          ⟨n, r, t, u, ho, hget, hi, he⟩
        · rw [he] at hget'
          exact ht t' hget'
        · simp at ho
        · simp at ho
        · rw [Operation.insert.injEq] at ho
          obtain ⟨rfl, rfl⟩ := ho
          rw [he, Catalog.get?_set, if_pos rfl, Option.some.injEq] at hget'
          rw [← hget', Table.insert_types hi]
          exact ht t hget

end Log

/-! ## Sites -/

theorem Engine.InStep.entered_catalog {e : Engine} {log : Bytes} (h : e.InStep log) (id : UInt64) :
    (e.enter id log).catalog = e.catalog ∨ (e.enter id log).catalog = database log := by
  unfold enter
  split
  · exact .inl rfl
  · exact .inr h.caughtUp.1

namespace Site

/-- Whether an event writes no part of a statement and nothing foreign, and the table that an INSERT
sees has the column types of the one that the log has under this name, if both are there. -/
def checked (s : Site) : Event → Bool
  | .executed _ n id sql =>
    match insertOf? sql with
    | some (name, _, _) =>
      match (s.view n id).get? name, (database s.log).get? name with
      | some t, some u => t.types == u.types
      | _, _ => true
    | none => true
  | .recorded .. => false
  | .appeared _ => false
  | _ => true

/-- Under a number other than that of the statement before, every statement is checked. -/
theorem InStep.checked_of_new {s : Site} (h : s.InStep) {n : Nat} {id : Option UInt64}
    (hid : (s.client n).engine.lastExecution ≠ some (id.getD ((s.client n).lastId + 1)))
    (now : Int64) (sql : String) : s.checked (.executed now n id sql) = true := by
  rw [checked, h.view_eq hid]
  split
  · split
    · rename_i t u ht hu
      rw [ht, Option.some.injEq] at hu
      simp [hu]
    · rfl
  · rfl

/-- Every stored value is of the type of its column, in the database of the log and in what the
engines hold; and the log is one that engines have written. -/
structure Typed (s : Site) : Prop where
  inStep : s.InStep
  recorded : Recorded (fun _ => False) s.log
  log : (database s.log).Typed
  held : ∀ x ∈ s.clients, x.2.engine.catalog.Typed

theorem Typed.client {s : Site} (h : s.Typed) (n : Nat) : (s.client n).engine.catalog.Typed := by
  unfold Site.client
  cases hf : s.clients.find? fun c => c.1 = n with
  | none =>
      change (Engine.start s.log).catalog.Typed
      rw [Engine.start, (Engine.blank_inStep s.log).caughtUp.1]
      exact h.log
  | some x => exact h.held x (List.mem_of_find?_eq_some hf)

theorem Typed.entered {s : Site} (h : s.Typed) (n : Nat) (id : UInt64) :
    ((s.client n).engine.enter id s.log).catalog.Typed := by
  rcases (h.inStep.client n).entered_catalog id with he | he <;> rw [he]
  · exact h.client n
  · exact h.log

/-- An engine that only reads. -/
theorem Typed.put {s : Site} (h : s.Typed) {n : Nat} {c : Client} (hs : (s.put n c).InStep)
    (hc : c.engine.catalog.Typed) : (s.put n c).Typed := by
  refine ⟨hs, h.recorded, h.log, fun x hx => ?_⟩
  rcases List.mem_cons.mp hx with rfl | hx
  · exact hc
  · exact h.held x (List.mem_filter.mp hx).1

/-- The operations that a checked statement writes keep the database typed. -/
theorem Typed.written {s : Site} (h : s.Typed) {now : Int64} {n : Nat} {id : Option UInt64}
    {sql : String} (hc : s.checked (.executed now n id sql) = true) {st : Statement}
    (hst : parseStatement sql = .ok st) {ops done : List Operation} {o : Outcome}
    (hp : st.plan now (s.view n id) = .ok (.record ops o)) (hd : done <+: ops) :
    (replay (database s.log) (done.map Operation.plain)).Typed := by
  -- A plan of one operation is carried out in full or not at all.
  have hone : ∀ op, ops = [op] → (op.plain.applyOrSkip (database s.log)).Typed →
      (replay (database s.log) (done.map Operation.plain)).Typed := by
    rintro op rfl hop
    rcases List.prefix_cons_iff.mp hd with rfl | ⟨rest, rfl, hrest⟩
    · exact h.log
    · rw [List.prefix_nil.mp hrest]
      exact hop
  rcases plan_cases hp with ⟨name, columns, t, hops, ht⟩ | ⟨name, hops⟩ |
    ⟨name, names, tuples, t, rows, rfl, hget, hrows, rfl, -⟩
  · refine hone _ hops (applyOrSkip_typed h.log (fun n u he => ?_) fun _ _ _ he _ => by cases he)
    cases he
    intro row hrow
    rw [Table.plain, (Table.create_spec ht).2.2] at hrow
    simp at hrow
  · refine hone _ hops (applyOrSkip_typed h.log (fun _ _ he => ?_) fun _ _ _ he _ => ?_)
    · cases he
    · cases he
  · obtain ⟨part, hpart, rfl⟩ := List.prefix_map_iff.mp hd
    have hkey : Catalog.key t.name = Catalog.key name :=
      ((((h.inStep.client n).entered _).valid h.recorded).get? hget).2
    have hplain : (part.map (Operation.insert t.name)).map Operation.plain =
        (part.map plainRow).map (Operation.insert t.name) := by
      rw [List.map_map, List.map_map]
      rfl
    obtain ⟨named, hfilled⟩ := Table.prepare_eq_fillAll hrows
    have htyped : ∀ row ∈ part.map plainRow, rowOf t.types row = true := by
      intro row hrow
      obtain ⟨r, hr, rfl⟩ := List.mem_map.mp hrow
      rw [rowOf_plain]
      exact Table.fillAll_rowOf hfilled r (hpart.subset hr)
    rw [hplain]
    refine replay_inserts_typed htyped h.log fun u hu => ?_
    rw [Catalog.get?_congr hkey] at hu
    simp only [checked, insertOf?_eq_some.mpr hst, hget, hu, beq_iff_eq] at hc
    exact hc.symm

/-- A checked statement leaves a typed log, and its engine holds typed tables. -/
theorem Typed.executed {s : Site} (h : s.Typed) {now : Int64} {n : Nat} {id : Option UInt64}
    {sql : String} (hc : s.checked (.executed now n id sql) = true) :
    (database (s.statement now n id sql).log).Typed ∧
      (s.statement now n id sql).engine.catalog.Typed := by
  have hview : (s.view n id).Typed := h.entered n _
  unfold statement
  cases (h.inStep.client n).effect now (id.getD ((s.client n).lastId + 1)) sql with
  | refused _ unwritten catalog =>
      rw [unwritten]
      refine ⟨h.log, ?_⟩
      rcases catalog with catalog | catalog <;> rw [catalog]
      · exact h.client n
      · exact hview
  | answered _ _ unwritten catalog =>
      rw [unwritten, catalog]
      exact ⟨h.log, hview⟩
  | broken parsed plan part whole operations _ written catalog =>
      rw [written, catalog, database_append h.recorded.whole, operations]
      exact ⟨h.written hc parsed plan part, hview⟩
  | recorded parsed plan whole operations _ written catalog =>
      rw [written, catalog, database_append h.recorded.whole, operations]
      have := h.written hc parsed plan (List.prefix_refl _)
      exact ⟨this, this⟩

end Site

end Rowtime
