import Rowtime.Proofs.Databases
import Rowtime.Proofs.Sources

/-!
# A query reads no table that it does not list

The tables of a query are listed without repetitions and without the one-row table.
An occurrence that is left out equals a listed one but for the case of ASCII letters,
so the catalog finds the same table for both; or it is the one-row table, whose name
may be that of a table of the catalog. What a query gives therefore depends on the
tables under the listed names and under the name of the one-row table, and on nothing
else, be it a result or a fault.
-/
namespace Rowtime

open Text Sql

/-- Two catalogs hold the same table under a name, or neither holds one. -/
def Catalog.AgreeAt (db db' : Catalog) (name : String) : Prop := db.get? name = db'.get? name

namespace Catalog.AgreeAt

variable {db db' : Catalog}

/-- The case of ASCII letters in a name does not matter. -/
theorem congr {name name' : String} (h : db.AgreeAt db' name) (hs : sameName name name' = true) :
    db.AgreeAt db' name' := by
  have hkey := Catalog.key_of_sameName hs
  calc db.get? name' = db.get? name := (Catalog.get?_congr hkey db).symm
    _ = db'.get? name := h
    _ = db'.get? name' := Catalog.get?_congr hkey db'

/-- An occurrence that is not listed finds what a listed one finds, or what the one-row table finds. -/
theorem occurrence {q : Query} (hl : ∀ t ∈ q.tables, db.AgreeAt db' t.name)
    (hd : db.AgreeAt db' dualName) {t : TableRef} (ht : t ∈ q.occurrences) :
    db.AgreeAt db' t.name := by
  cases hdual : t.isDual with
  | true => exact hd.congr (sameName_symm hdual)
  | false =>
      have hlisted : t.isIn q.tables = true := by
        rw [Query.tables, TableRef.isIn_distinct, TableRef.isIn_of_mem ht, hdual]
        rfl
      obtain ⟨u, hu, hsame⟩ := TableRef.isIn_iff.mp hlisted
      exact (hl u hu).congr (TableRef.same_name hsame)

end Catalog.AgreeAt

/-- Discovery is complete. On two catalogs that agree under the names that a query lists and under
that of the one-row table, the query gives the same columns and rows, or the same fault. -/
theorem Sql.Query.run_agrees {q : Query} {db db' : Catalog}
    (hl : ∀ t ∈ q.tables, db.AgreeAt db' t.name) (hd : db.AgreeAt db' dualName) :
    q.run db = q.run db' := by
  have hsource : ∀ t ∈ q.occurrences, db.source t = db'.source t :=
    fun _ ht => Catalog.AgreeAt.occurrence hl hd ht
  calc q.run db = q.runOn db.source := q.run_eq_runOn db
    _ = q.runOn db'.source := Query.runOn_congr hsource
    _ = q.run db' := (q.run_eq_runOn db').symm

/-! ## One table under two spellings -/

/-- `SELECT v FROM (T, dual) UNION ALL (SELECT s.v FROM (SELECT v FROM t JOIN U ON TRUE) s)`. -/
def spelledQuery : Query :=
  .union
    (.select [.paren [.table "T" none, .table "dual" none]]
      ⟨false, [.expr (.column ⟨none, "v"⟩) none], none, [], none⟩ .empty)
    (.paren (.select [.subquery (.select
          [.join .inner (.table "t" none) (.table "U" none) (some (.literal (.boolean true)))]
          ⟨false, [.expr (.column ⟨none, "v"⟩) none], none, [], none⟩ .empty) (some "s")]
      ⟨false, [.expr (.column ⟨some "s", "v"⟩) none], none, [], none⟩ .empty))
    true .empty

/-- A table with one declared column and one row for each of the given values. -/
def listing (name column : String) (rows : List Row) (last : Int64) : Table :=
  ⟨name, [.rowtime, ⟨column, .integer, true, false, false, none⟩], rows, 0, last⟩

/-- Two catalogs that differ in a table that the query does not read. -/
def spelledCatalog (unread : List Row) : Catalog :=
  ⟨[("r", listing "R" "v" unread 1), ("t", listing "t" "v" [[.integer 1, .integer 10]] 1),
    ("u", listing "u" "w" [[.integer 5, .integer 50], [.integer 6, .null]] 6)]⟩

theorem run_agrees_spelled :
    spelledQuery.tables = [⟨"T", none⟩, ⟨"U", none⟩] ∧
      spelledCatalog [] ≠ spelledCatalog [[.integer 1, .null]] ∧
      spelledQuery.run (spelledCatalog []) =
        .ok ⟨[⟨none, "v"⟩], [[.integer 10], [.integer 10], [.integer 10]]⟩ ∧
      spelledQuery.run (spelledCatalog [[.integer 1, .null]]) =
        spelledQuery.run (spelledCatalog []) := by
  have htables : spelledQuery.tables = [⟨"T", none⟩, ⟨"U", none⟩] := by decide +kernel
  have hlisted : ∀ t ∈ spelledQuery.tables,
      (spelledCatalog [[.integer 1, .null]]).AgreeAt (spelledCatalog []) t.name := by
    intro t ht
    rw [htables, List.mem_cons, List.mem_singleton] at ht
    unfold Catalog.AgreeAt
    rcases ht with rfl | rfl <;> decide +kernel
  have hdual : (spelledCatalog [[.integer 1, .null]]).AgreeAt (spelledCatalog []) dualName := by
    unfold Catalog.AgreeAt
    decide +kernel
  exact ⟨htables, by decide +kernel, by decide +kernel, Query.run_agrees hlisted hdual⟩

end Rowtime
