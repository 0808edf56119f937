import Rowtime.Proofs.Bounded

/-!
# The query within marks is the query on the past

Tables are cut to their marks. A query within the marks of its tables, run on the
tables as they are, gives what the query itself gives on the tables as they were.
-/
namespace Rowtime

open Text Sql

namespace Marks

/-- The marks are those of the occurrences in a list, and of no others. -/
def Exactly (s : Marks) (ts : List TableRef) : Prop := ∀ t, (s.get? t).isSome = t.isIn ts

/-- Occurrences of one table have equal marks. -/
def Agree (s : Marks) : Prop :=
  ∀ e ∈ s.entries, ∀ e' ∈ s.entries,
    Catalog.key e.1.name = Catalog.key e'.1.name → e.2 = e'.2

theorem exactly_of_map {s : Marks} {ts : List TableRef} (h : s.entries.map (·.1) = ts) :
    s.Exactly ts := by
  intro t
  rw [Bool.eq_iff_iff, get?_isSome_iff, TableRef.isIn_iff, ← h]
  simp

theorem Agree.functional {s : Marks} (h : s.Agree) : s.Functional :=
  fun e he e' he' hs => h e he e' he' (TableRef.key_of_same hs)

/-- The mark of the table with a key. -/
def ofKey? (s : Marks) (k : String) : Option Int64 :=
  (s.entries.find? fun e => Catalog.key e.1.name == k).map (·.2)

theorem Agree.ofKey? {s : Marks} (h : s.Agree) {e : TableRef × Int64} (he : e ∈ s.entries) :
    s.ofKey? (Catalog.key e.1.name) = some e.2 := by
  unfold Marks.ofKey?
  cases hf : s.entries.find? fun e' => Catalog.key e'.1.name == Catalog.key e.1.name with
  | none =>
      have hne := List.find?_eq_none.mp hf e he
      simp at hne
  | some e' =>
      have hk := List.find?_some hf
      rw [beq_iff_eq] at hk
      rw [Option.map_some, h e' (List.mem_of_find?_eq_some hf) e he hk]

end Marks

/-- The catalog with every table that has a mark cut to the rows up to it. -/
def Catalog.cut (db : Catalog) (s : Marks) : Catalog :=
  ⟨db.entries.map fun e => (e.1, match s.ofKey? e.1 with
    | some m => e.2.within fun i => decide (i ≤ m)
    | none => e.2)⟩

theorem Catalog.get?_cut (db : Catalog) (s : Marks) (name : String) :
    (db.cut s).get? name = (db.get? name).map fun t => match s.ofKey? (key name) with
      | some m => t.within fun i => decide (i ≤ m)
      | none => t := by
  unfold Catalog.get? Catalog.cut
  rw [List.find?_map, Option.map_map, Option.map_map]
  cases hf : db.entries.find? ((fun e => e.1 == key name) ∘ fun e => (e.1, match s.ofKey? e.1 with
      | some m => e.2.within fun i => decide (i ≤ m)
      | none => e.2)) with
  | none =>
      have : db.entries.find? (fun e => e.1 == key name) = none := hf
      rw [this]
      rfl
  | some e =>
      have hfind : db.entries.find? (fun e => e.1 == key name) = some e := hf
      have hk := List.find?_some hfind
      rw [beq_iff_eq] at hk
      rw [hfind]
      simp only [Option.map_some, Function.comp_apply, hk]

/-- A cut catalog is valid. -/
theorem Catalog.Valid.cut {db : Catalog} (h : db.Valid) (s : Marks) : (db.cut s).Valid := by
  constructor
  · intro e he
    obtain ⟨e', he', rfl⟩ := List.mem_map.mp he
    simp only
    split <;> exact h.keyed e' he'
  · intro e he
    obtain ⟨e', he', rfl⟩ := List.mem_map.mp he
    simp only
    split
    · exact (h.tables e' he').within _
    · exact h.tables e' he'

theorem Marks.Exactly.not_dual {s : Marks} {q : Query} (h : s.Exactly q.tables)
    {e : TableRef × Int64} (he : e ∈ s.entries) : e.1.isDual = false := by
  have hin := h e.1
  rw [Marks.get?_isSome_iff.mpr ⟨e, he, TableRef.same_refl e.1⟩, Query.tables,
    TableRef.isIn_distinct] at hin
  cases hd : e.1.isDual <;> simp_all

/-- The view of a catalog through upper marks alone is the cut catalog. -/
theorem view_none_eq {s : Marks} {q : Query} (hs : s.Exactly q.tables) (ha : s.Agree) (db : Catalog)
    {t : TableRef} (ht : t ∈ q.occurrences) : db.view s none t = (db.cut s).source t := by
  unfold Catalog.view Catalog.source
  rw [Catalog.get?_cut]
  congr 1
  funext table
  have hin := hs t
  rw [Query.tables, TableRef.isIn_distinct, TableRef.isIn_of_mem ht, Bool.true_and] at hin
  cases hd : t.isDual with
  | true =>
      have hnone : s.ofKey? (Catalog.key t.name) = none := by
        rw [Marks.ofKey?, Option.map_eq_none_iff, List.find?_eq_none]
        intro e he hk
        rw [beq_iff_eq] at hk
        have := sameName_dual_of_key hd hk
        rw [show sameName e.1.name dualName = e.1.isDual from rfl, hs.not_dual he] at this
        simp at this
      rw [hnone]
      rfl
  | false =>
      rw [hd, Bool.not_false] at hin
      obtain ⟨e, he, het⟩ := Marks.get?_isSome_iff.mp hin
      have hkey := ha.ofKey? he
      rw [TableRef.key_of_same het] at hkey
      have hadm : s.admits none t = fun i => decide (i ≤ e.2) := by
        funext i
        simp [Marks.admits, ha.functional.get? he het]
      rw [hkey, hadm]
      rfl

/-- A query without outer joins, within the marks of its tables, gives on the tables as they are
what the query gives on the tables cut to their marks. -/
theorem bounded_run_cut {db : Catalog} (hdb : db.Valid) {q : Query} (hq : q.isInner = true)
    {s : Marks} (hs : s.Exactly q.tables) (ha : s.Agree) {r : Relation}
    (h : (q.bounded s none).run db = .ok r) : q.run (db.cut s) = .ok r := by
  have hview := Query.bounded_run hdb ha.functional (by simp) hq h
  rw [idled_none.1 q] at hview
  rw [Query.run_eq_runOn, ← hview]
  exact Query.runOn_congr fun t ht => (view_none_eq hs ha db ht).symm

/-! ## A table read twice -/

/-- A table with one declared column and two rows. -/
def readings : Catalog :=
  Log.replay .empty
    [.create "t" ⟨"t", [.rowtime, ⟨"v", .integer, true, false, false, none⟩], [], 0, 0⟩,
      .insert "t" [.integer 1, .integer 10], .insert "t" [.integer 2, .integer 20]]

theorem readings_valid : readings.Valid := by
  refine Log.replay_valid Catalog.empty_valid ?_
  have hcreate : Table.create "t" [⟨"v", .integer, true, false, false, none⟩] =
      .ok ⟨"t", [.rowtime, ⟨"v", .integer, true, false, false, none⟩], [], 0, 0⟩ := by
    decide +kernel
  intro name t hm
  simp only [List.mem_cons, Log.Operation.create.injEq, reduceCtorEq, List.not_mem_nil,
    or_false] at hm
  rw [hm.2]
  exact (Table.create_spec hcreate).1

/-- `SELECT v FROM t, (SELECT v FROM t x) y`. -/
def pairsQuery : Query :=
  .select [.table "t" none,
      .subquery (.select [.table "t" (some "x")]
        ⟨false, [.expr (.column ⟨none, "v"⟩) (some "w")], none, [], none⟩ .empty) (some "y")]
    ⟨false, [.expr (.column ⟨none, "v"⟩) none, .allOf "y"], none, [], none⟩ .empty

theorem bounded_run_cut_pairs :
    readings.Valid ∧ pairsQuery.isInner = true ∧
      pairsQuery.run (readings.cut ⟨[(⟨"t", none⟩, 1), (⟨"t", some "x"⟩, 1)]⟩) =
        .ok ⟨[⟨none, "v"⟩, ⟨none, "w"⟩], [[.integer 10, .integer 10]]⟩ := by
  have hi : pairsQuery.isInner = true := by decide
  refine ⟨readings_valid, hi, bounded_run_cut readings_valid hi (Marks.exactly_of_map ?_) ?_ ?_⟩
  · decide +kernel
  · intro e he e' he' _
    simp only [List.mem_cons, List.not_mem_nil, or_false] at he he'
    rcases he with rfl | rfl <;> rcases he' with rfl | rfl <;> rfl
  · decide +kernel

end Rowtime
