import Rowtime.Proofs.Written

/-!
# A refused statement writes nothing

Whatever can be wrong with a statement is found before its first operation is
recorded: the text is parsed, a plan is made on the tables that the engine sees, and
only then are the operations of the plan recorded. Recording itself fails for an
operation whose entry is too long for the four bytes of its length, and for nothing
else. So a statement that is refused leaves the log as it was, and of the engine it
changes at most how far it has caught up.

The tuples of an INSERT are tried one after the other on a copy of the table; the
first one that does not fit refuses all of them, whatever came before it.
-/
namespace Rowtime

open Log Sql

/-! ## Tuples that are tried one after the other -/

namespace Table

variable {t t' : Table} {now : Int64} {named : Option (List Nat)} {why : Fault}

/-- The positions of the columns that an INSERT names. -/
def located (t : Table) : Option (List String) → Except Fault (Option (List Nat))
  | none => .ok none
  | some names =>
    match t.positionsOf [] names with
    | .error e => .error e
    | .ok is => .ok (some is)

/-- The table with the row of one tuple more. -/
def offer (t : Table) (now : Int64) (named : Option (List Nat)) (values : Row) :
    Except Fault Table := do
  let row ← t.fill now named values
  t.insert row

/-- The table with the rows of several tuples, each of which fits behind those before it. -/
def offerAll (t : Table) (now : Int64) (named : Option (List Nat)) :
    List Row → Except Fault Table
  | [] => .ok t
  | values :: rest => do
    let t' ← t.offer now named values
    offerAll t' now named rest

theorem prepare_eq {names : Option (List String)} {tuples : List Row} :
    t.prepare now names tuples =
      t.located names >>= fun named => t.fillAll now named tuples := by
  cases names with
  | none => rfl
  | some names =>
      rw [prepare, located]
      cases t.positionsOf [] names with
      | error e => rfl
      | ok is => rfl

/-- A tuple that does not fit refuses itself and all that follow. -/
theorem fillAll_of_offer_error {values : Row} {rest : List Row}
    (h : t.offer now named values = .error why) :
    t.fillAll now named (values :: rest) = .error why := by
  rw [offer] at h
  rw [fillAll_cons]
  cases hrow : t.fill now named values with
  | error e =>
      rw [hrow, error_bind, Except.error.injEq] at h
      rw [error_bind, h]
  | ok row =>
      rw [hrow, ok_bind] at h
      rw [ok_bind, h]
      rfl

/-- Behind a tuple that fits, the others decide. -/
theorem fillAll_of_offer_ok {values : Row} {rest : List Row}
    (h : t.offer now named values = .ok t') :
    t.fillAll now named (values :: rest) = .error why ↔
      t'.fillAll now named rest = .error why := by
  obtain ⟨row, hrow, ht⟩ := bind_eq_ok.mp h
  rw [fillAll_cons, hrow, ok_bind, ht, ok_bind]
  cases t'.fillAll now named rest with
  | error e => rfl
  | ok rows => simp [Functor.map, Except.map]

/-- Tuples are refused exactly when one of them does not fit behind those before it. -/
theorem fillAll_eq_error {tuples : List Row} :
    t.fillAll now named tuples = .error why ↔
      ∃ before values rest t', tuples = before ++ values :: rest ∧
        t.offerAll now named before = .ok t' ∧ t'.offer now named values = .error why := by
  constructor
  · intro h
    induction tuples generalizing t with
    | nil => simp [fillAll] at h
    | cons values rest ih =>
        cases ho : t.offer now named values with
        | error e =>
            rw [fillAll_of_offer_error ho, Except.error.injEq] at h
            exact ⟨[], values, rest, t, rfl, rfl, h ▸ ho⟩
        | ok t₁ =>
            obtain ⟨before, last, rest', t', rfl, hbefore, hlast⟩ :=
              ih ((fillAll_of_offer_ok ho).mp h)
            refine ⟨values :: before, last, rest', t', rfl, ?_, hlast⟩
            rw [offerAll, ho, ok_bind]
            exact hbefore
  · rintro ⟨before, values, rest, t', rfl, hbefore, hvalues⟩
    induction before generalizing t with
    | nil =>
        rw [offerAll, Except.ok.injEq] at hbefore
        subst hbefore
        exact fillAll_of_offer_error hvalues
    | cons first before ih =>
        obtain ⟨t₁, hfirst, hrest⟩ := bind_eq_ok.mp hbefore
        apply (fillAll_of_offer_ok hfirst).mpr
        exact ih hrest

end Table

/-- The plan of an INSERT of which a tuple does not fit. -/
theorem planInsert_refused {now : Int64} {db : Catalog} {name : String}
    {names : Option (List String)} {named : Option (List Nat)} {t t' : Table}
    {before rest : List Row} {values : Row} {why : Fault} (hget : db.get? name = some t)
    (hnamed : t.located names = .ok named) (hbefore : t.offerAll now named before = .ok t')
    (hvalues : t'.offer now named values = .error why) :
    planInsert now db name names (before ++ values :: rest) = .error why := by
  have htable : db.table name = .ok t := by
    rw [Catalog.table, hget]
  have hfilled : t.fillAll now named (before ++ values :: rest) = .error why := by
    rw [Table.fillAll_eq_error]
    exact ⟨before, values, rest, t', rfl, hbefore, hvalues⟩
  rw [planInsert, htable, ok_bind, Table.prepare_eq, hnamed, ok_bind, hfilled]
  rfl

/-! ## Short entries are never refused -/

/-- Whether the entry of an operation fits behind four bytes of length. -/
def Log.Operation.Short (op : Operation) : Prop := (Entry.mk 0 0 op).encode.length < 2 ^ 32

instance (op : Operation) : Decidable op.Short := by
  unfold Operation.Short
  infer_instance

/-- Number and time take the same place in every entry. -/
theorem Log.Operation.Short.encode_lt {op : Operation} (h : op.Short) (n time : UInt64) :
    (Entry.mk n time op).encode.length < 2 ^ 32 := by
  unfold Operation.Short at h
  simp only [Entry.encode, encodeWord, List.length_append, encodeNat_length] at h ⊢
  exact h

/-- The operations of a plan. -/
def Plan.operations : Plan → List Operation
  | .answer _ => []
  | .record ops _ => ops

namespace Engine

variable {e : Engine} {now : Int64} {id : UInt64} {log : Bytes} {sql : String} {why : Fault}

theorem record_short {ops : List Operation} (h : ∀ op ∈ ops, op.Short) :
    (e.record now log ops).1 = none := by
  induction ops generalizing e log with
  | nil => rfl
  | cons op ops ih =>
      have hl : (e.cursor.nextEntry (seconds now) op).encode.length < Nat.pow 2 32 :=
        (h op List.mem_cons_self).encode_lt _ _
      simp only [record, Cursor.append, if_pos hl]
      apply ih
      exact fun o ho => h o (List.mem_cons_of_mem _ ho)

/-- The operations that an engine is asked to record for a statement. -/
def asked (e : Engine) (now : Int64) (id : UInt64) (log : Bytes) (sql : String) :
    List Operation :=
  match parseStatement sql with
  | .error _ => []
  | .ok s =>
    match s.plan now (e.enter id log).catalog with
    | .error _ => []
    | .ok p => p.operations

/-- A plan whose entries are short is carried out. -/
theorem carryOut_short {p : Plan} (h : ∀ op ∈ p.operations, op.Short) :
    (e.carryOut now log p).result ≠ .error why := by
  cases p with
  | answer o => simp [carryOut]
  | record ops o =>
      have hrec : (e.record now log ops).1 = none := record_short h
      rw [carryOut]
      split
      · simp
      · rename_i fault e' log' heq
        rw [heq] at hrec
        simp at hrec

/-- A statement for which there is no plan has done nothing but to enter. -/
theorem execute_unplanned {s : Statement} (hs : parseStatement sql = .ok s)
    (hp : s.plan now (e.enter id log).catalog = .error why) :
    e.execute now id log sql = ⟨.error why, e.enter id log, log⟩ := by
  unfold execute
  rw [hs]
  simp only [executeStatement, Engine.decide, hp]

/-- What a refused statement has done: nothing at all, or it has entered. -/
theorem execute_refused (hshort : ∀ op ∈ e.asked now id log sql, op.Short)
    (h : (e.execute now id log sql).result = .error why) :
    (e.execute now id log sql).log = log ∧
      ((e.execute now id log sql).engine = e ∨
        (e.execute now id log sql).engine = e.enter id log) := by
  cases hs : parseStatement sql with
  | error fault =>
      rw [execute, hs]
      exact ⟨rfl, .inl rfl⟩
  | ok s =>
      cases hp : s.plan now (e.enter id log).catalog with
      | error fault =>
          rw [execute_unplanned hs hp]
          exact ⟨rfl, .inr rfl⟩
      | ok p =>
          simp only [asked, hs, hp] at hshort
          simp only [execute, hs, executeStatement, Engine.decide, hp] at h
          exact absurd h (carryOut_short hshort)

end Engine

/-! ## Sites -/

namespace Site

/-- The operations that an engine is asked to record for a statement. -/
def asked (s : Site) (now : Int64) (n : Nat) (id : Option UInt64) (sql : String) :
    List Operation :=
  (s.client n).engine.asked now (id.getD ((s.client n).lastId + 1)) s.log sql

/-- After a statement that is refused the log is what it was, and the engine holds the database of
the part of the log that it has read: what it had read before, or what a catch-up reads. An INSERT
is refused when one of its tuples does not fit behind those before it, and then none of its rows is
anywhere. -/
theorem refused_unwritten (events : List Event) (now : Int64) (n : Nat) (id : Option UInt64)
    (sql : String) :
    (∀ why, (∀ op ∈ (run events).asked now n id sql, op.Short) →
      ((run events).execute now n id sql).1 = .error why →
      ((run events).execute now n id sql).2.log = (run events).log ∧
      ∃ e, (((run events).execute now n id sql).2.client n).engine = e ∧
        e.catalog = database ((run events).log.take e.cursor.offset) ∧
        (e.catalog = ((run events).client n).engine.catalog ∧
            e.cursor = ((run events).client n).engine.cursor ∨
          e.catalog = (((run events).client n).engine.catchUp (run events).log).catalog ∧
            e.cursor = (((run events).client n).engine.catchUp (run events).log).cursor)) ∧
    ∀ name names tuples t named before values rest t' why,
      parseStatement sql = .ok (.insert name names tuples) →
      ((run events).view n id).get? name = some t → t.located names = .ok named →
      tuples = before ++ values :: rest → t.offerAll now named before = .ok t' →
      t'.offer now named values = .error why →
      ((run events).execute now n id sql).1 = .error why ∧
        ((run events).execute now n id sql).2.log = (run events).log ∧
        (((run events).execute now n id sql).2.client n).engine.catalog =
          (run events).view n id := by
  have hclient : ((run events).execute now n id sql).2.client n =
      ⟨((run events).statement now n id sql).engine, _⟩ := client_put _ _ _
  have hin := (run_inStep events).client n
  constructor
  · intro why hshort hwhy
    obtain ⟨hlog, hengine⟩ := Engine.execute_refused hshort hwhy
    refine ⟨hlog, ((run events).statement now n id sql).engine, by rw [hclient], ?_⟩
    rcases hengine with hengine | hengine
    · rw [statement, hengine]
      exact ⟨(inStep_iff.mp hin).2.2, .inl ⟨rfl, rfl⟩⟩
    · rw [statement, hengine]
      refine ⟨(inStep_iff.mp (hin.entered _)).2.2, ?_⟩
      unfold Engine.enter
      split
      · exact .inl ⟨rfl, rfl⟩
      · exact .inr ⟨rfl, rfl⟩
  · intro name names tuples t named before values rest t' why hs hget hnamed htuples hbefore hvalues
    subst htuples
    have hplan : planInsert now _ name names (before ++ values :: rest) = .error why :=
      planInsert_refused hget hnamed hbefore hvalues
    have hexecuted : (run events).statement now n id sql = ⟨.error why, _, (run events).log⟩ :=
      Engine.execute_unplanned hs hplan
    rw [hclient, hexecuted]
    exact ⟨congrArg Executed.result hexecuted, congrArg Executed.log hexecuted, rfl⟩

/-- A table with a unique column, and a row that engine 1 has not read. -/
def uniqueHistory : List Event :=
  [.executed 10 1 none "CREATE TABLE t (v INTEGER UNIQUE)",
    .executed 20 2 (some 7) "INSERT INTO t VALUES (1)"]

/-- The third tuple repeats a value of the row that was not read before. -/
theorem refused_unwritten_third :
    ((run uniqueHistory).execute 30 1 (some 9) "INSERT INTO t VALUES (2), (3), (1), (4)").1 =
        .error (.unique "v" "1") ∧
      ((run uniqueHistory).execute 30 1 (some 9)
        "INSERT INTO t VALUES (2), (3), (1), (4)").2.log = (run uniqueHistory).log ∧
      (((run uniqueHistory).execute 30 1 (some 9)
        "INSERT INTO t VALUES (2), (3), (1), (4)").2.client 1).engine.catalog =
          (((run uniqueHistory).client 1).engine.catchUp (run uniqueHistory).log).catalog := by
  have hs : parseStatement "INSERT INTO t VALUES (2), (3), (1), (4)" = .ok (.insert "t" none
      ([[.integer 2], [.integer 3]] ++ [.integer 1] :: [[.integer 4]])) :=
    insertOf?_eq_some.mp (by decide +kernel)
  have hget : ((run uniqueHistory).view 1 (some 9)).get? "t" = some
      ⟨"t", [.rowtime, ⟨"v", .integer, true, false, true, none⟩],
        [[.integer 20, .integer 1]], 0, 20⟩ := by decide +kernel
  have hbefore : Table.offerAll ⟨"t", [.rowtime, ⟨"v", .integer, true, false, true, none⟩],
      [[.integer 20, .integer 1]], 0, 20⟩ 30 none [[.integer 2], [.integer 3]] = .ok
        ⟨"t", [.rowtime, ⟨"v", .integer, true, false, true, none⟩],
          [[.integer 20, .integer 1], [.integer 30, .integer 2], [.integer 31, .integer 3]],
          0, 31⟩ := by decide +kernel
  have hvalues : Table.offer ⟨"t", [.rowtime, ⟨"v", .integer, true, false, true, none⟩],
      [[.integer 20, .integer 1], [.integer 30, .integer 2], [.integer 31, .integer 3]],
      0, 31⟩ 30 none [.integer 1] = .error (.unique "v" "1") := by decide +kernel
  obtain ⟨hany, hinsert⟩ := refused_unwritten uniqueHistory 30 1 (some 9)
    "INSERT INTO t VALUES (2), (3), (1), (4)"
  obtain ⟨hresult, hlog, hview⟩ := hinsert _ _ _ _ _ _ _ _ _ _ hs hget rfl rfl hbefore hvalues
  obtain ⟨-, e, he, -, hunread | hread⟩ := hany _ (by decide +kernel) hresult
  · -- The engine sees a row that it had not read.
    rw [← he, hview] at hunread
    exact absurd hunread.1 (by decide +kernel)
  · rw [he]
    exact ⟨hresult, hlog, hread.1⟩

end Site

end Rowtime
