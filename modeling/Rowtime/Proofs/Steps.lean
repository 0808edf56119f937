import Mathlib.Data.List.Pairwise
import Rowtime.Proofs.BoundedText
import Rowtime.Proofs.Observed

/-!
# What a step of a run does

The rows that a query within bounds gives are, without outer joins, those of the query
through its windows, and later rows of the tables do not change them: no mark is above
what its table had reached. A run between two steps is standing well when its world is
ready and its marks are such marks, the new ones of a round not below the former ones.
`Move` lists what a step can do that does not fail; everything about a whole run
follows from it by induction over the steps.
-/
namespace Rowtime

open Log Sql

/-! ## Windows on growing tables -/

/-- Later rows are not in a window that ends at what the table had reached. -/
theorem Table.Grows.within {t t' : Table} (h : t.Grows t') {p : Int64 → Bool}
    (hp : ∀ i, p i = true → i ≤ t.maxRowtime) : t'.within p = t.within p := by
  obtain ⟨added, hrows, hadded⟩ := h.rows
  have hadded' : added.filter (fun row => p (t.stamp row)) = [] := by
    rw [List.filter_eq_nil_iff]
    intro row hrow hpass
    have hle := hp _ hpass
    have hlt := hadded row hrow
    rw [Int64.le_iff_toInt_le] at hle
    rw [Int64.lt_iff_toInt_lt] at hlt
    omega
  have hfilter : (t'.rows.filter fun row => p (t.stamp row)) =
      t.rows.filter fun row => p (t.stamp row) := by
    rw [hrows, List.filter_append, hadded', List.append_nil]
  simp only [Table.within, h.stamp, h.name, h.columns, h.index, hfilter]

theorem Marks.Tracks.exists_mark {s : Marks} {ts : List TableRef} {db : Catalog} (h : s.Tracks ts db)
    {t : TableRef} (ht : t.isIn ts = true) : ∃ e ∈ s.entries, e.1.same t = true := by
  obtain ⟨u, hu, hs⟩ := TableRef.isIn_iff.mp ht
  rw [← h.tables] at hu
  obtain ⟨e, he, rfl⟩ := List.mem_map.mp hu
  exact ⟨e, he, hs⟩

theorem Marks.Tracks.functional {s : Marks} {ts : List TableRef} {db : Catalog} (h : s.Tracks ts db)
    (ha : TableRef.Apart ts) : s.Functional := by
  rw [← h.tables, TableRef.Apart, List.pairwise_map] at ha
  intro e he e' he' hs
  by_contra hne
  have : Std.Symm fun x y : TableRef × Int64 => x.1.same y.1 = false :=
    ⟨fun x y hxy => by rw [TableRef.same_comm, hxy]⟩
  have hapart := ha.forall he he' fun h => hne (congrArg Prod.snd h)
  rw [hs] at hapart
  cases hapart

theorem Marks.Tracks.legible {s : Marks} {ts : List TableRef} {db : Catalog} (h : s.Tracks ts db) :
    s.Legible := by
  intro e he
  have := Int64.le_iff_toInt_le.mp (h.positive e he)
  change (-9223372036854775808 : Int) < e.2.toInt
  have hz : (0 : Int64).toInt = 0 := rfl
  omega

/-- The windows of a query on growing tables show the same rows. -/
theorem Marks.Tracks.view_grows {s : Marks} {ts : List TableRef} {db db' : Catalog}
    (h : s.Tracks ts db) (ha : TableRef.Apart ts) (a : Option Advance) {t : TableRef}
    (ht : t.isIn ts = true) (hd : t.isDual = false) (hg : db.GrowsAt db' t.name) :
    db'.view s a t = db.view s a t := by
  obtain ⟨e, he, hs⟩ := h.exists_mark ht
  obtain ⟨table, htable, hm⟩ := h.reached e he
  rw [Catalog.get?_congr (TableRef.key_of_same hs)] at htable
  obtain ⟨table', htable', hgrows⟩ := hg table htable
  unfold Catalog.view
  rw [htable, htable', Option.map_some, Option.map_some, hd]
  simp only [Bool.false_eq_true, if_false]
  rw [hgrows.within fun i hi => ?_]
  exact Int64.le_trans (((Marks.admits_iff (h.functional ha)).mp hi).1 e he hs) hm

/-! ## What is written -/

namespace Sql

/-- The keys of the tables that a query reads. -/
def Query.guarded (q : Query) (k : String) : Prop := ∃ t ∈ q.tables, Catalog.key t.name = k

theorem Query.guarded_key {q : Query} {t : TableRef} (ht : t ∈ q.tables) :
    q.guarded (Catalog.key t.name) := ⟨t, ht, rfl⟩

/-- No table in the query is the one-row table. -/
def Query.RealTables (q : Query) : Prop := ∀ t ∈ q.occurrences, t.isDual = false

theorem Query.RealTables.isIn {q : Query} (h : q.RealTables) {t : TableRef} (ht : t ∈ q.occurrences) :
    t.isIn q.tables = true := by
  rw [Query.tables, TableRef.isIn_distinct, TableRef.isIn_of_mem ht, h t ht]
  rfl

/-- What a query within bounds gave on a database from which the tables have only grown. The
database had reached the marks. -/
def Query.Gave (q : Query) (db : Catalog) (s : Marks) (a : Option Advance) (r : Relation) : Prop :=
  ∃ before : Catalog, before.Valid ∧ s.Tracks q.tables before ∧
    (∀ t ∈ q.tables, before.GrowsAt db t.name) ∧ (q.bounded s a).run before = .ok r

theorem Query.Gave.tracks {q : Query} {db : Catalog} {s : Marks} {a : Option Advance} {r : Relation}
    (h : q.Gave db s a r) : s.Tracks q.tables db := by
  obtain ⟨before, -, hs, hg, -⟩ := h
  exact hs.grows hg

theorem Query.Gave.grows {q : Query} {db db' : Catalog} {s : Marks} {a : Option Advance}
    {r : Relation} (h : q.Gave db s a r) (hg : ∀ t ∈ q.tables, db.GrowsAt db' t.name) :
    q.Gave db' s a r := by
  obtain ⟨before, hv, hs, hb, hr⟩ := h
  exact ⟨before, hv, hs, fun t ht => (hb t ht).trans (hg t ht), hr⟩

/-- Later rows of the tables of a query are in none of its windows. -/
theorem Query.RealTables.view_grows {q : Query} (hq : q.RealTables) {db db' : Catalog} {s : Marks}
    (hs : s.Tracks q.tables db) (hg : ∀ t ∈ q.tables, db.GrowsAt db' t.name) (a : Option Advance)
    {t : TableRef} (ht : t ∈ q.occurrences) : db'.view s a t = db.view s a t := by
  have hin := hq.isIn ht
  obtain ⟨u, hu, hsame⟩ := TableRef.isIn_iff.mp hin
  refine hs.view_grows (TableRef.apart_distinct _) a hin (hq t ht) ?_
  intro table htable
  rw [← Catalog.get?_congr (TableRef.key_of_same hsame)] at htable
  obtain ⟨table', htable', hgrows⟩ := hg u hu table htable
  rw [Catalog.get?_congr (TableRef.key_of_same hsame)] at htable'
  exact ⟨table', htable', hgrows⟩

/-- What a query without outer joins gave is what it gives through its windows, also on the grown
tables. -/
theorem Query.Gave.runOn {q : Query} {db : Catalog} {s : Marks} {a : Option Advance} {r : Relation}
    (h : q.Gave db s a r) (hi : q.isInner = true) (hq : q.RealTables)
    (ha : ∀ y ∈ a, y.table ∈ q.tables) : (q.idled a).runOn (db.view s a) = .ok r := by
  obtain ⟨before, hv, hs, hg, hr⟩ := h
  have hmark : ∀ y, a = some y → (s.get? y.table).isSome = true := fun y hy =>
    Marks.get?_isSome_iff.mpr (hs.exists_mark (TableRef.isIn_of_mem (ha y hy)))
  rw [← Query.bounded_run hv (hs.functional (TableRef.apart_distinct _)) hmark hi hr]
  refine Query.runOn_congr fun t ht => ?_
  rw [(occurrences_idled a).1 q] at ht
  exact hq.view_grows hs hg a ht

end Sql

/-- A data query of a run: the marks, the table that advances, and the result. -/
structure Delivery where
  marks : Marks
  advance : Option Advance
  result : Relation

namespace Delivery

/-- The lines that are written. -/
def lines (d : Delivery) (shape : Shape) : List String :=
  d.result.rows.map (shape.line d.result.columnNames)

/-- The text of the data query. -/
def text (d : Delivery) (q : Query) : String := (q.bounded d.marks d.advance).display

/-- The result is what the query gave. -/
structure Of (d : Delivery) (q : Query) (db : Catalog) : Prop where
  gave : q.Gave db d.marks d.advance d.result
  advance : ∀ y ∈ d.advance, y.table ∈ q.tables

theorem Of.grows {d : Delivery} {q : Query} {db db' : Catalog} (h : d.Of q db)
    (hg : ∀ t ∈ q.tables, db.GrowsAt db' t.name) : d.Of q db' :=
  ⟨h.gave.grows hg, h.advance⟩

end Delivery

/-- The marks of some occurrences are not below former ones. -/
def Marks.NotBelow (s former : Marks) : Prop :=
  ∀ t m, former.get? t = some m → ∃ m', s.get? t = some m' ∧ m ≤ m'

theorem Marks.Tracks.notBelow {s former : Marks} {ts : List TableRef} (ha : TableRef.Apart ts)
    {db db' : Catalog} (h : s.Tracks ts db') (hr : s.Reaches db) (hf : former.Tracks ts db) :
    s.NotBelow former := by
  intro t m hm
  obtain ⟨e, he, hs, rfl⟩ := Marks.exists_of_get? hm
  obtain ⟨table, ht, hle⟩ := hf.reached e he
  have hmem : e.1 ∈ s.entries.map (·.1) := by
    rw [h.tables, ← hf.tables]
    exact List.mem_map_of_mem he
  obtain ⟨e', he', heq⟩ := List.mem_map.mp hmem
  rw [← heq] at hs ht
  exact ⟨e'.2, (h.functional ha).get? he' hs, Int64.le_trans hle (hr e' he' table ht)⟩

namespace Run

open World

/-- The query for a table of a round of changes. -/
def advanceOf (r : Run) (t : TableRef) : Advance := ⟨t, (r.former.get? t).getD 0⟩

/-- A run between two steps, in its world. -/
structure Standing (q : Query) (r : Run) (w : World) : Prop where
  ready : w.Ready r.nextId
  former : r.phase ≠ .first → r.former.Tracks q.tables w.db
  changes : ∀ marks pending, r.phase = .changes marks pending →
    marks.Tracks q.tables w.db ∧ marks.NotBelow r.former ∧ ∀ t ∈ pending, t ∈ q.tables

/-- What a step does that does not fail. -/
inductive Move (shape : Shape) (q : Query) (r : Run) (w : World) (r' : Run) (w' : World) : Prop
  | began (result : Relation) (phase : r.phase = .first)
      (phase' : r'.phase = .idle ∨ r'.phase = .check)
      (gave : (Delivery.mk r'.former none result).Of q w'.db)
      (content : w'.sink.content =
        w.sink.content ++ String.join ((Delivery.mk r'.former none result).lines shape))
      (executed : w'.executed = w.executed ++
        (q.tables.map TableRef.probe ++ [(Delivery.mk r'.former none result).text q]))
  | waited (phase : r.phase = .idle) (phase' : r'.phase = .check) (former : r'.former = r.former)
      (content : w'.sink.content = w.sink.content) (executed : w'.executed = w.executed)
  | unchanged (phase : r.phase = .check) (phase' : r'.phase = .idle) (former : r'.former = r.former)
      (content : w'.sink.content = w.sink.content)
      (executed : w'.executed = w.executed ++ q.tables.map TableRef.probe)
  | changed (marks : Marks) (phase : r.phase = .check) (phase' : r'.phase = .changes marks q.tables)
      (former : r'.former = r.former) (content : w'.sink.content = w.sink.content)
      (executed : w'.executed = w.executed ++ q.tables.map TableRef.probe)
  | advanced (marks : Marks) (t : TableRef) (pending : List TableRef) (result : Relation)
      (phase : r.phase = .changes marks (t :: pending)) (phase' : r'.phase = .changes marks pending)
      (former : r'.former = r.former)
      (gave : (Delivery.mk marks (some (r.advanceOf t)) result).Of q w'.db)
      (content : w'.sink.content = w.sink.content ++
        String.join ((Delivery.mk marks (some (r.advanceOf t)) result).lines shape))
      (executed : w'.executed =
        w.executed ++ [(Delivery.mk marks (some (r.advanceOf t)) result).text q])
  | finished (marks : Marks) (phase : r.phase = .changes marks []) (phase' : r'.phase = .check)
      (former : r'.former = marks) (content : w'.sink.content = w.sink.content)
      (executed : w'.executed = w.executed)

/-- What a run asks of its query and of what is around it. -/
structure Follows (env : Surroundings) (q : Query) : Prop where
  spares : env.Spares q.guarded
  stable : q.Stable

section
variable {env : Surroundings} {shape : Shape} {q : Query}

theorem Follows.growsAt (_ : Follows env q) {w w' : World} (hw : Recorded (fun _ => False) w.log)
    (hg : Grew q.guarded w w') : ∀ t ∈ q.tables, w.db.GrowsAt w'.db t.name :=
  fun _ ht => hg.growsAt hw (Query.guarded_key ht)

/-- The text of a query within bounds is run as that query, and its lines are written. -/
theorem deliver_bounded (hf : Follows env q) {w w' : World} {id : UInt64} (hw : w.Ready id)
    {marks : Marks} (hm : marks.Tracks q.tables w.db) {a : Option Advance}
    (ha : ∀ y ∈ a, y.table ∈ q.tables ∧ 0 ≤ y.former) {n : Nat}
    (hp : (deliver (host env) shape id (q.bounded marks a).display).run w = (.ok n, w')) :
    ∃ r, n = r.rows.length ∧ (Delivery.mk marks a r).Of q w'.db ∧
      w'.sink.content = w.sink.content ++ String.join ((Delivery.mk marks a r).lines shape) ∧
      After q.guarded w ((Delivery.mk marks a r).text q) id w' := by
  have hlegible : ∀ y ∈ a, LegibleLiteral (.integer y.former) := by
    intro y hy
    have := Int64.le_iff_toInt_le.mp (ha y hy).2
    change (-9223372036854775808 : Int) < y.former.toInt
    have hz : (0 : Int64).toInt = 0 := rfl
    omega
  obtain ⟨r, hr, hn, hcontent, hafter⟩ :=
    deliver_spec hw hf.spares (hf.stable.parse_bounded hm.legible hlegible) hp
  have htracks := hm.grows (hf.growsAt hw.recorded hafter.grew)
  exact ⟨r, hn, ⟨⟨w'.db, hafter.ready.recorded.valid, htracks, fun t _ => .refl _ _, hr⟩,
    fun y hy => (ha y hy).1⟩, hcontent, hafter⟩

end

end Run

/-- A step ends well in a run: it goes on with it, or it was cancelled where it stands. -/
def Progress.At (p : Progress) (r : Run) : Prop := p = .running r ∨ ∃ t, p = .cancelled t

/-- A run has not failed. -/
def Progress.Well (p : Progress) : Prop := ∀ why, p ≠ .failed why

namespace Run

open World

section
variable {env : Surroundings} {shape : Shape} {q : Query}

theorem firstRound_spec (hf : Follows env q) {r : Run} {w w' : World} (hs : Standing q r w)
    (hphase : r.phase = .first) {p : Progress}
    (hp : (firstRound (host env) shape q r).run w = (p, w')) (hwell : p.Well) :
    ∃ r', p = .running r' ∧ Standing q r' w' ∧ Grew q.guarded w w' ∧ Move shape q r w r' w' := by
  rw [firstRound, run_bind] at hp
  generalize hx : (probeAll (host env) r.nextId .empty q.tables).run w = x at hp
  obtain ⟨⟨found, id⟩, v⟩ := x
  cases found with
  | error why => exact absurd (Prod.ext_iff.mp hp).1.symm (hwell why)
  | ok marks =>
      obtain ⟨htracks, -, hsink, hall⟩ :=
        probeAll_tables hf.spares (fun t ht => Query.guarded_key ht) hs.ready hx
      simp only [run_bind] at hp
      generalize hy : (deliver (host env) shape id (q.bounded marks none).display).run v = y at hp
      obtain ⟨n, u⟩ := y
      cases n with
      | error why => exact absurd (Prod.ext_iff.mp hp).1.symm (hwell why)
      | ok n =>
          obtain ⟨result, hn, hgave, hcontent, hafter⟩ :=
            deliver_bounded hf hall.ready htracks (by simp) hy
          change (Progress.running ⟨if n = 0 then .idle else .check, marks, id + 1,
            r.totals.addRound.addQuery n⟩, u) = _ at hp
          simp only [Prod.mk.injEq] at hp
          obtain ⟨rfl, rfl⟩ := hp
          have hphase' : (if n = 0 then Phase.idle else .check) = .idle ∨
              (if n = 0 then Phase.idle else .check) = .check := by
            split
            · exact Or.inl rfl
            · exact Or.inr rfl
          refine ⟨_, rfl, ⟨hafter.ready, fun _ => htracks.grows
            (hf.growsAt hall.ready.recorded hafter.grew), ?_⟩, hall.grew.trans hafter.grew,
            .began result hphase hphase' hgave (by rw [hcontent, hsink]) ?_⟩
          · intro ms pending he
            rcases hphase' with h | h <;> rw [h] at he <;> cases he
          · rw [hafter.executed, hall.executed, List.append_assoc]

theorem check_spec (hf : Follows env q) {r : Run} {w w' : World} (hs : Standing q r w)
    (hphase : r.phase = .check) {p : Progress} (hp : (check (host env) q r).run w = (p, w'))
    (hwell : p.Well) :
    ∃ r', p = .running r' ∧ Standing q r' w' ∧ Grew q.guarded w w' ∧ Move shape q r w r' w' := by
  rw [check, run_bind] at hp
  generalize hx : (probeAll (host env) r.nextId .empty q.tables).run w = x at hp
  obtain ⟨⟨found, id⟩, v⟩ := x
  cases found with
  | error why => exact absurd (Prod.ext_iff.mp hp).1.symm (hwell why)
  | ok marks =>
      obtain ⟨htracks, hreaches, hsink, hall⟩ :=
        probeAll_tables hf.spares (fun t ht => Query.guarded_key ht) hs.ready hx
      have hformer := hs.former (by rw [hphase]; exact Phase.noConfusion)
      have hgrown := hformer.grows (hf.growsAt hs.ready.recorded hall.grew)
      by_cases hsame : marks.same r.former = true
      · simp only [if_pos hsame] at hp
        change (Progress.running { r with phase := .idle, nextId := id }, v) = _ at hp
        simp only [Prod.mk.injEq] at hp
        obtain ⟨rfl, rfl⟩ := hp
        exact ⟨_, rfl, ⟨hall.ready, fun _ => hgrown, fun ms pending he => (by cases he)⟩, hall.grew,
          .unchanged hphase rfl rfl (by rw [hsink]) hall.executed⟩
      · simp only [if_neg hsame] at hp
        change (Progress.running
          { r with phase := .changes marks q.tables, nextId := id, totals := r.totals.addRound }, v) =
          _ at hp
        simp only [Prod.mk.injEq] at hp
        obtain ⟨rfl, rfl⟩ := hp
        refine ⟨_, rfl, ⟨hall.ready, fun _ => hgrown, fun ms pending he => ?_⟩, hall.grew,
          .changed marks hphase rfl rfl (by rw [hsink]) hall.executed⟩
        cases he
        exact ⟨htracks, htracks.notBelow (TableRef.apart_distinct _) hreaches hformer, fun t ht => ht⟩

theorem advanceOf_former {r : Run} {db : Catalog} {ts : List TableRef} (h : r.former.Tracks ts db)
    (t : TableRef) : 0 ≤ (r.advanceOf t).former := by
  change 0 ≤ (r.former.get? t).getD 0
  cases hg : r.former.get? t with
  | none => exact Int64.le_refl 0
  | some m =>
      obtain ⟨e, he, -, rfl⟩ := Marks.exists_of_get? hg
      exact h.positive e he

theorem advance_spec (hf : Follows env q) {r : Run} {w w' : World} (hs : Standing q r w)
    {marks : Marks} {t : TableRef} {pending : List TableRef}
    (hphase : r.phase = .changes marks (t :: pending)) {p : Progress}
    (hp : (advance (host env) shape q r marks t pending).run w = (p, w')) (hwell : p.Well) :
    ∃ r', p.At r' ∧ Standing q r' w' ∧ Grew q.guarded w w' ∧ Move shape q r w r' w' := by
  obtain ⟨htracks, hbelow, hpending⟩ := hs.changes marks _ hphase
  have hformer := hs.former (by rw [hphase]; exact Phase.noConfusion)
  rw [advance, run_bind] at hp
  generalize hx : (deliver (host env) shape r.nextId
    (q.bounded marks (some ⟨t, (r.former.get? t).getD 0⟩)).display).run w = x at hp
  obtain ⟨n, v⟩ := x
  cases n with
  | error why => exact absurd (Prod.ext_iff.mp hp).1.symm (hwell why)
  | ok n =>
      have ha : ∀ y ∈ some (r.advanceOf t), y.table ∈ q.tables ∧ 0 ≤ y.former := by
        intro y hy
        rw [Option.mem_some_iff] at hy
        exact hy ▸ ⟨hpending t (by simp), advanceOf_former hformer t⟩
      obtain ⟨result, hn, hgave, hcontent, hafter⟩ := deliver_bounded hf hs.ready htracks ha hx
      -- the run that goes on, wherever the log has got to meanwhile
      have hgoes : ∀ u : World, u.Ready (r.nextId + 1) → Grew q.guarded v u → u.sink = v.sink →
          u.executed = v.executed →
          Standing q { r with
            phase := .changes marks pending, nextId := r.nextId + 1, totals := r.totals.addQuery n } u ∧
            Grew q.guarded w u ∧ Move shape q r w { r with
              phase := .changes marks pending, nextId := r.nextId + 1,
              totals := r.totals.addQuery n } u := by
        intro u hu hg hsink hexecuted
        have hall := hafter.grew.trans hg
        have hgrows := hf.growsAt hs.ready.recorded hall
        refine ⟨⟨hu, fun _ => hformer.grows hgrows, fun ms ts he => ?_⟩, hall,
          .advanced marks t pending result hphase rfl rfl
            (hgave.grows (hf.growsAt hafter.ready.recorded hg)) (by rw [hsink, hcontent]) ?_⟩
        · cases he
          exact ⟨htracks.grows hgrows, hbelow, fun t ht => hpending t (by simp [ht])⟩
        · rw [hexecuted, hafter.executed]
      by_cases hzero : n = 0
      · simp only [if_pos hzero, run_bind] at hp
        have hwait : (host env).wait.run v = (env.lasts v.moment, v.pass env) := rfl
        rw [hwait] at hp
        have hu := hgoes (v.pass env) (hafter.ready.pass hf.spares) (pass_grew hf.spares v) rfl rfl
        cases hl : env.lasts v.moment with
        | true =>
            rw [hl] at hp
            change (Progress.running _, v.pass env) = _ at hp
            simp only [Prod.mk.injEq] at hp
            obtain ⟨rfl, rfl⟩ := hp
            exact ⟨_, Or.inl rfl, hu⟩
        | false =>
            rw [hl] at hp
            change (Progress.cancelled _, v.pass env) = _ at hp
            simp only [Prod.mk.injEq] at hp
            obtain ⟨rfl, rfl⟩ := hp
            exact ⟨_, Or.inr ⟨_, rfl⟩, hu⟩
      · simp only [if_neg hzero] at hp
        change (Progress.running _, v) = _ at hp
        simp only [Prod.mk.injEq] at hp
        obtain ⟨rfl, rfl⟩ := hp
        exact ⟨_, Or.inl rfl, hgoes v hafter.ready (.refl _ v) rfl rfl⟩

/-- A step that does not fail is one of the moves, and leaves a run that is standing. -/
theorem step_spec (hf : Follows env q) {r : Run} {w w' : World} (hs : Standing q r w) {p : Progress}
    (hp : (step (host env) shape q r).run w = (p, w')) (hwell : p.Well) :
    ∃ r', p.At r' ∧ Standing q r' w' ∧ Grew q.guarded w w' ∧ Move shape q r w r' w' := by
  rw [step] at hp
  cases hphase : r.phase with
  | first =>
      rw [hphase] at hp
      obtain ⟨r', hr, h⟩ := firstRound_spec hf hs hphase hp hwell
      exact ⟨r', Or.inl hr, h⟩
  | idle =>
      rw [hphase] at hp
      have hwait : (host env).wait.run w = (env.lasts w.moment, w.pass env) := rfl
      simp only [run_bind, hwait] at hp
      have hg := pass_grew hf.spares w
      have hgoes : Standing q { r with phase := .check } (w.pass env) ∧ Grew q.guarded w (w.pass env) ∧
          Move shape q r w { r with phase := .check } (w.pass env) :=
        ⟨⟨hs.ready.pass hf.spares, fun _ => (hs.former (by rw [hphase]; exact Phase.noConfusion)).grows
          (hf.growsAt hs.ready.recorded hg), fun ms pending he => (by cases he)⟩, hg,
          .waited hphase rfl rfl rfl rfl⟩
      cases hl : env.lasts w.moment with
      | true =>
          rw [hl] at hp
          change (Progress.running _, w.pass env) = _ at hp
          simp only [Prod.mk.injEq] at hp
          obtain ⟨rfl, rfl⟩ := hp
          exact ⟨_, Or.inl rfl, hgoes⟩
      | false =>
          rw [hl] at hp
          change (Progress.cancelled _, w.pass env) = _ at hp
          simp only [Prod.mk.injEq] at hp
          obtain ⟨rfl, rfl⟩ := hp
          exact ⟨_, Or.inr ⟨_, rfl⟩, hgoes⟩
  | check =>
      rw [hphase] at hp
      obtain ⟨r', hr, h⟩ := check_spec hf hs hphase hp hwell
      exact ⟨r', Or.inl hr, h⟩
  | changes marks pending =>
      rw [hphase] at hp
      cases pending with
      | nil =>
          change (Progress.running { r with phase := .check, former := marks }, w) = _ at hp
          simp only [Prod.mk.injEq] at hp
          obtain ⟨rfl, rfl⟩ := hp
          exact ⟨_, Or.inl rfl, ⟨hs.ready, fun _ => (hs.changes marks [] hphase).1,
            fun ms pending he => (by cases he)⟩, .refl _ w, .finished marks hphase rfl rfl rfl rfl⟩
      | cons t pending => exact advance_spec hf hs hphase hp hwell

/-- What every move keeps holds wherever a run gets to without failing. -/
theorem steps_spec (hf : Follows env q) {P : Run → World → Prop}
    (hmove : ∀ r w r' w', Standing q r w → Standing q r' w' → Grew q.guarded w w' →
      Move shape q r w r' w' → P r w → P r' w')
    (n : Nat) {r : Run} {w w' : World} (hs : Standing q r w) (hP : P r w) {p : Progress}
    (hp : (steps (host env) shape q n r).run w = (p, w')) (hwell : p.Well) :
    ∃ r', p.At r' ∧ Standing q r' w' ∧ P r' w' := by
  induction n generalizing r w with
  | zero =>
      change (Progress.running r, w) = _ at hp
      simp only [Prod.mk.injEq] at hp
      obtain ⟨rfl, rfl⟩ := hp
      exact ⟨r, Or.inl rfl, hs, hP⟩
  | succ n ih =>
      rw [steps, run_bind] at hp
      generalize hx : (step (host env) shape q r).run w = x at hp
      obtain ⟨p₁, v⟩ := x
      cases p₁ with
      | running r₁ =>
          obtain ⟨r', hr', hs', hg, hm⟩ := step_spec hf hs hx fun why h => (by cases h)
          rcases hr' with h | ⟨t, h⟩
          · cases h
            exact ih hs' (hmove _ _ _ _ hs hs' hg hm hP) hp
          · cases h
      | cancelled t =>
          change (Progress.cancelled t, v) = _ at hp
          simp only [Prod.mk.injEq] at hp
          obtain ⟨rfl, rfl⟩ := hp
          obtain ⟨r', hr', hs', hg, hm⟩ := step_spec hf hs hx hwell
          exact ⟨r', hr', hs', hmove _ _ _ _ hs hs' hg hm hP⟩
      | failed why =>
          change (Progress.failed why, v) = _ at hp
          simp only [Prod.mk.injEq] at hp
          exact absurd hp.1.symm (hwell why)

theorem start_standing {log : Bytes} (h : Recorded (fun _ => False) log) (sink : Sink) :
    Standing q Run.start (World.start log sink) :=
  ⟨start_ready h sink 1, fun hp => absurd rfl hp, fun ms pending he => (by cases he)⟩

/-- The tables are valid wherever a run gets to without failing. -/
theorem steps_valid (hf : Follows env q) {log : Bytes} (hl : Recorded (fun _ => False) log)
    {sink : Sink} {n : Nat} {p : Progress} {w : World}
    (hp : (steps (host env) shape q n Run.start).run (World.start log sink) = (p, w))
    (hwell : p.Well) : w.db.Valid := by
  obtain ⟨r, -, hs, -⟩ := steps_spec hf (P := fun _ _ => True) (fun _ _ _ _ _ _ _ _ _ => trivial) n
    (start_standing hl sink) trivial hp hwell
  exact hs.ready.recorded.valid

end

end Run

end Rowtime
