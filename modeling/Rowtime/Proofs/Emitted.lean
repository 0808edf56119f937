import Rowtime.Proofs.Copies
import Rowtime.Proofs.Past

/-!
# No row is lost

The first round and the complete rounds of changes of a plain and separate query write
every row that the query has on the tables up to the last marks, at least as often as it
is there: each of these rows is orderly, and so some delivery sees it.

Where a subquery reads the occurrence of a table that it is joined with, this fails. The
lower bound of the occurrence then stands in both, so that an old row of one is never
combined with a new row of the other.
-/
namespace Rowtime

open Sql

theorem sublist_flatMap_replicate {α β : Type} {xs : List α} {p : α → Bool} {k : α → Nat}
    (f : α → β) (h : ∀ x ∈ xs, p x = true → 0 < k x) :
    ((xs.filter p).map f).Sublist (xs.flatMap fun x => List.replicate (k x) (f x)) := by
  induction xs with
  | nil => exact .slnil
  | cons x xs ih =>
      have hrest := ih fun y hy => h y (by simp [hy])
      rw [List.flatMap_cons, List.filter_cons]
      cases hx : p x with
      | false => exact hrest.trans (List.sublist_append_right _ _)
      | true =>
          obtain ⟨n, hn⟩ := Nat.exists_eq_succ_of_ne_zero (Nat.pos_iff_ne_zero.mp (h x (by simp) hx))
          rw [if_pos rfl, List.map_cons, hn, List.replicate_succ, List.cons_append]
          exact (hrest.trans (List.sublist_append_right _ _)).cons_cons _

theorem Marks.Tracks.exactly {s : Marks} {ts : List TableRef} {db : Catalog} (h : s.Tracks ts db) :
    s.Exactly ts :=
  Marks.exactly_of_map h.tables

namespace History

variable {h : History} {q : Query} {db : Catalog}

theorem Of.tracks_last (k : h.Of q db) : h.last.Tracks q.tables db := by
  unfold History.last
  rcases List.eq_nil_or_concat h.rounds with hnil | ⟨rest, r, hconcat⟩
  · rw [hnil]
    exact k.first.gave.tracks
  · rw [List.concat_eq_append] at hconcat
    rw [hconcat, Round.marksAfter_concat]
    exact (k.rounds r (by simp [hconcat])).marks

/-- The deliveries of the complete rounds. -/
def settledDeliveries (h : History) : List Delivery :=
  ⟨h.marks, none, h.result⟩ :: h.rounds.flatMap Round.deliveries

theorem settledDeliveries_rows (h : History) :
    h.settledDeliveries.flatMap (fun d => d.result.rows) = h.result.rows ++ h.rounds.flatMap Round.rows := by
  rw [settledDeliveries, List.flatMap_cons, List.flatMap_assoc]
  simp only [← Round.rows_eq]

/-- What a query has on the tables up to the last marks was written by the complete rounds. -/
theorem Of.rows_subperm (k : h.Of q db) (hq : q.RealTables) (hp : q.isPlain = true)
    (hs : q.isSeparate = true) {r : Relation} (hr : q.runOn (db.view h.last none) = .ok r) :
    r.rows.Subperm (h.result.rows ++ h.rounds.flatMap Round.rows) := by
  have hcover := cover_of_rounds hq k.first k.complete_chained k.rounds
  have horderly := (k.settled_last hq hp hs).orderly
  rw [(trace_upTo db h.last).1 q hq] at horderly
  have hrows : r.rows.Perm (((q.trace db.source).rows.filter h.last.upTo).map (·.row)) :=
    ((runOn_upTo db h.last).1 q hp hq r hr).rows
  have hseen : ∀ z ∈ (q.trace db.source).rows, h.last.upTo z = true →
      0 < h.settledDeliveries.countP fun d => d.sees z := by
    intro z hz hup
    obtain ⟨d, hd, hsee, -⟩ := hcover.sees z (horderly z (List.mem_filter.mpr ⟨hz, hup⟩))
      (fun e he => hq.isIn (((trace_from _).1 q z hz).stamps e he)) hup
    exact List.countP_pos_iff.mpr ⟨d, hd, hsee⟩
  rw [← h.settledDeliveries_rows]
  refine .trans ?_ (deliveries_perm hp hq hcover.deliveries).symm.subperm
  exact hrows.subperm.trans (sublist_flatMap_replicate _ hseen).subperm

end History

namespace Run

open World Log

/-- A run of a plain and separate query that has not failed has written all rows of the query on the
tables up to the marks of its last complete round. -/
theorem rows_emitted {env : Surroundings} {q : Query} (hr : q.ReadsItself) (hp : q.isPlain = true)
    (hs : q.isSeparate = true) (hq : q.RealTables) (he : env.Spares q.guarded) {log : Bytes}
    (hl : Recorded (fun _ => False) log) {sink : Sink} {shape : Shape} {n : Nat} {p : Progress}
    {w : World}
    (hrun : (steps (host env) shape q (n + 1) Run.start).run (World.start log sink) = (p, w))
    (hwell : p.Well) : ∃ h : History, h.Explains q shape sink w ∧
      ∃ r, q.runOn (w.db.view h.last none) = .ok r ∧
        (h.last.Agree → q.run (w.db.cut h.last) = .ok r) ∧
        (∀ d ∈ h.deliveries, d.result.columns = r.columns) ∧
        r.rows.Subperm (h.result.rows ++ h.rounds.flatMap Round.rows) := by
  obtain ⟨h, hex⟩ := steps_explained ⟨he, hr.stable⟩ hl hrun hwell
  obtain ⟨r, hr⟩ := (hex.of.settled_last hq hp hs).succeeds
  have hcolumns : r.columns = (q.trace w.db.source).columns :=
    ((runOn_upTo w.db h.last).1 q hp hq r hr).columns
  refine ⟨h, hex, r, hr, ?_, fun d hd => ?_, hex.of.rows_subperm hq hp hs hr⟩
  · intro ha
    rw [Query.run_eq_runOn, ← hr]
    exact Query.runOn_congr fun t ht => (view_none_eq hex.of.tracks_last.exactly ha w.db ht).symm
  · rw [hcolumns]
    exact ((hex.of.deliveries d hd).like hp hq).columns

/-! ### A table that is joined with a subquery on itself -/

/-- `SELECT t.v, s.v FROM t JOIN (SELECT v FROM t) AS s ON TRUE`, where the table in the subquery may
have an alias. -/
def withItself (al : Option String) : Query :=
  .select [.join .inner (.table "t" none)
      (.subquery (.select [.table "t" al] (.ofColumns [⟨none, "v"⟩]) .empty) (some "s"))
      (some (.literal (.boolean true)))]
    (.ofColumns [⟨some "t", "v"⟩, ⟨some "s", "v"⟩]) .empty

theorem withItself_readsItself (al : Option String) : (withItself al).ReadsItself := by
  have hinner : (Query.select [.table "t" al] (.ofColumns [⟨none, "v"⟩]) .empty).ReadsItself :=
    Query.readsItself_ofColumns (by simp) ⟨trivial, trivial⟩ rfl
  apply Query.readsItself_ofColumns (by simp)
  · refine ⟨⟨trivial, ⟨hinner.stable.1, rfl⟩, fun h => (by cases h), ?_⟩, trivial⟩
    rintro e ⟨⟩
    exact trivial
  · rfl

/-- The table has an alias in the subquery, and a row comes in the first wait. -/
def apartRun : Progress × World :=
  (steps (host (.adding 3 sampleAddition)) .array (withItself (some "x")) (4 + 1) Run.start).run
    (World.start sampleLog (.empty none))

theorem apartRun_eq : (apartRun.1, apartRun.2.sink.content) =
    (.running ⟨.check, ⟨[(⟨"t", none⟩, 20), (⟨"t", some "x"⟩, 20)]⟩, 8, ⟨2, 3, 5⟩⟩,
      "[1,1]\n[2,1]\n[2,2]\n[1,2]\n[2,2]\n") := by decide +kernel

theorem rows_emitted_apart :
    apartRun.2.sink.content = "[1,1]\n[2,1]\n[2,2]\n[1,2]\n[2,2]\n" ∧
      ∃ h : History, h.Explains (withItself (some "x")) .array (.empty none) apartRun.2 ∧
        ∃ r, (withItself (some "x")).runOn (apartRun.2.db.view h.last none) = .ok r ∧
          r.rows.Subperm (h.result.rows ++ h.rounds.flatMap Round.rows) := by
  obtain ⟨hp, hcontent⟩ := Prod.mk.inj apartRun_eq
  have hreal : (withItself (some "x")).RealTables := by
    unfold Query.RealTables
    decide +kernel
  have hrun : (steps (host (.adding 3 sampleAddition)) .array (withItself (some "x")) (4 + 1)
      Run.start).run (World.start sampleLog (.empty none)) = (apartRun.1, apartRun.2) :=
    (Prod.eta _).symm
  obtain ⟨h, hex, r, hr, -, -, hsub⟩ := rows_emitted (withItself_readsItself _) (by decide)
    (by decide +kernel) hreal (Surroundings.adding_spares 3 (sampleAddition_recorded _))
    sampleLog_recorded hrun (by rw [hp]; intro why h; cases h)
  exact ⟨hcontent, h, hex, r, hr, hsub⟩

/-- The table has no alias in the subquery, and a row comes before the first check. -/
def sharedRun : Progress × World :=
  (steps (host (.adding 2 sampleAddition)) .array (withItself none) (3 + 1) Run.start).run
    (World.start sampleLog (.empty none))

/-- `SELECT t.v, dual.v FROM t, dual`. -/
def withDual : Query :=
  .select [.table "t" none, .table "dual" none]
    (.ofColumns [⟨some "t", "v"⟩, ⟨some "dual", "v"⟩]) .empty

/-- The log of an engine that has stored a table under the name `dual` beside the other one. -/
def dualLog : Bytes :=
  sampleLog ++ ((Entry.mk 3 0 (.create "dual" ⟨"dual", samples.columns, [], 0, 0⟩)).frame ++
    (Entry.mk 4 0 (.insert "dual" [.integer 10, .integer 1])).frame)

/-- What another engine appends for one more row of each table. -/
def dualAddition : Bytes :=
  (Entry.mk 5 0 (.insert "dual" [.integer 20, .integer 2])).frame ++
    (Entry.mk 6 0 (.insert "t" [.integer 20, .integer 2])).frame

theorem recordable_insertDual {row : Row}
    (h : Statement.plan 0 ⟨[("dual", ⟨"dual", samples.columns, [], 0, 0⟩)]⟩
      (.insert "dual" none [row]) = .ok (.record [.insert "dual" row] (.command (.insert 1)))) :
    Recordable (.insert "dual" row) :=
  ⟨0, _, _, _, _, h, List.mem_singleton.mpr rfl⟩

theorem dualLog_recorded : Recorded (fun _ => False) dualLog := by
  have hcreate : Recordable (.create "dual" ⟨"dual", samples.columns, [], 0, 0⟩) :=
    ⟨0, .empty, .createTable "dual" [⟨"v", .integer, true, false, false, none⟩] false,
      [.create "dual" ⟨"dual", samples.columns, [], 0, 0⟩], .command .createTable, rfl,
      List.mem_singleton.mpr rfl⟩
  have hinsert : Recordable (.insert "dual" [.integer 10, .integer 1]) := recordable_insertDual rfl
  refine sampleLog_recorded.append (.append ?_ ?_)
  · exact .frame hcreate (by decide +kernel) fun _ hk => hk.elim
  · exact .frame hinsert (by decide +kernel) fun _ hk => hk.elim

theorem dualAddition_recorded (spared : String → Prop) : Recorded spared dualAddition := by
  have hdual : Recordable (.insert "dual" [.integer 20, .integer 2]) := recordable_insertDual rfl
  have hinsert : Recordable (.insert "t" [.integer 20, .integer 2]) := recordable_insert rfl
  refine .append ?_ ?_
  · exact .frame hdual (by decide +kernel) fun _ _ => id
  · exact .frame hinsert (by decide +kernel) fun _ _ => id

theorem withDual_readsItself : withDual.ReadsItself :=
  Query.readsItself_ofColumns (by simp) ⟨trivial, trivial, trivial⟩ rfl

/-- Each table gets a row before the first check. -/
def dualRun : Progress × World :=
  (steps (host (.adding 2 dualAddition)) .array withDual (3 + 1) Run.start).run
    (World.start dualLog (.empty none))

/-- The combinations of the old row with the new one are lost, and with a table that is stored under
the name `dual` the combination of the old row with its new one. -/
theorem rows_lost_shared :
    ((withItself none).ReadsItself ∧ (withItself none).isPlain = true ∧
      (Surroundings.adding 2 sampleAddition).Spares (withItself none).guarded ∧
      Recorded (fun _ => False) sampleLog ∧
      (sharedRun.1, sharedRun.2.sink.content, (withItself none).run
          (sharedRun.2.db.cut ⟨[(⟨"t", none⟩, 20)]⟩)) =
        (.running ⟨.check, ⟨[(⟨"t", none⟩, 20)]⟩, 5, ⟨2, 2, 2⟩⟩, "[1,1]\n[2,2]\n",
          .ok ⟨[⟨none, "v"⟩, ⟨none, "v"⟩],
            [[.integer 1, .integer 1], [.integer 1, .integer 2], [.integer 2, .integer 1],
              [.integer 2, .integer 2]]⟩)) ∧
      withDual.ReadsItself ∧ withDual.isPlain = true ∧
      (Surroundings.adding 2 dualAddition).Spares withDual.guarded ∧
      Recorded (fun _ => False) dualLog ∧
      (dualRun.1, dualRun.2.sink.content, withDual.run
          (dualRun.2.db.cut ⟨[(⟨"t", none⟩, 20)]⟩)) =
        (.running ⟨.check, ⟨[(⟨"t", none⟩, 20)]⟩, 5, ⟨2, 2, 3⟩⟩, "[1,1]\n[2,1]\n[2,2]\n",
          .ok ⟨[⟨none, "v"⟩, ⟨none, "v"⟩],
            [[.integer 1, .integer 1], [.integer 1, .integer 2], [.integer 2, .integer 1],
              [.integer 2, .integer 2]]⟩) :=
  ⟨⟨withItself_readsItself none, by decide,
      Surroundings.adding_spares 2 (sampleAddition_recorded _), sampleLog_recorded,
      by decide +kernel⟩,
    withDual_readsItself, by decide, Surroundings.adding_spares 2 (dualAddition_recorded _),
    dualLog_recorded, by decide +kernel⟩

end Run

end Rowtime
