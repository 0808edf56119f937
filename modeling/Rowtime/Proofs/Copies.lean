import Rowtime.Proofs.Coverage

/-!
# How often a row is delivered

A flat query reads tables directly. Each of its rows has one stamp for every table in
its branch, and the queries that see it in a round of changes are those for the tables
whose stamps are new: the row is delivered once for each of them. The first round
delivers every row up to its marks once.
-/
namespace Rowtime

open Sql

/-! ## Counting -/

/-- What several filters find in a list is each element as often as filters pass it. -/
theorem flatMap_filter_perm {α β ε : Type} (es : List ε) (xs : List α) (p : ε → α → Bool) (f : α → β) :
    (es.flatMap fun e => (xs.filter (p e)).map f).Perm
      (xs.flatMap fun x => List.replicate (es.countP fun e => p e x) (f x)) := by
  induction es with
  | nil => simp
  | cons e es ih =>
      have hhead : (xs.filter (p e)).map f = xs.flatMap fun x => if p e x then [f x] else [] := by
        clear ih
        induction xs with
        | nil => rfl
        | cons x xs ih =>
            rw [List.flatMap_cons, ← ih]
            cases hx : p e x <;> simp [hx]
      have hcount : ∀ x, List.replicate ((e :: es).countP fun e => p e x) (f x) =
          (if p e x then [f x] else []) ++ List.replicate (es.countP fun e => p e x) (f x) := by
        intro x
        rw [List.countP_cons]
        cases p e x with
        | false => rfl
        | true => exact List.replicate_succ
      rw [List.flatMap_cons, hhead]
      simp only [hcount]
      exact (ih.append_left _).trans (List.flatMap_append_perm _ _ _)

theorem countP_or {α : Type} {p p' : α → Bool} {xs : List α}
    (h : ∀ x ∈ xs, p x = true → p' x = false) :
    xs.countP (fun x => p x || p' x) = xs.countP p + xs.countP p' := by
  induction xs with
  | nil => rfl
  | cons x xs ih =>
      rw [List.countP_cons, List.countP_cons, List.countP_cons, ih fun y hy => h y (by simp [hy])]
      cases hx : p x with
      | false => simp only [Bool.false_or, Bool.false_eq_true, if_false]; omega
      | true =>
          rw [h x (by simp) hx]
          simp only [Bool.true_or, Bool.false_eq_true, if_true, if_false]
          omega

/-- Among occurrences that differ one is equal to each of them. -/
theorem TableRef.Apart.countP_same {ts : List TableRef} (h : Apart ts) {u : TableRef}
    (hu : u.isIn ts = true) : ts.countP (fun t => t.same u) = 1 := by
  induction ts with
  | nil => cases hu
  | cons t ts ih =>
      obtain ⟨ht, hts⟩ := List.pairwise_cons.mp h
      rw [List.countP_cons]
      cases hs : t.same u with
      | true =>
          have hnone : ts.countP (fun t => t.same u) = 0 := by
            rw [List.countP_eq_zero]
            intro v hv hsame
            have hfalse := ht v hv
            rw [TableRef.same_trans hs (TableRef.same_symm hsame)] at hfalse
            cases hfalse
          rw [hnone]
          rfl
      | false =>
          refine ih hts ?_
          obtain ⟨v, hv, hsame⟩ := TableRef.isIn_iff.mp hu
          rcases List.mem_cons.mp hv with rfl | hv
          · rw [hs] at hsame
            cases hsame
          · exact TableRef.isIn_iff.mpr ⟨v, hv, hsame⟩

/-- Entries of occurrences that differ, counted by the occurrences or by the entries. -/
theorem TableRef.Apart.countP_any {ts : List TableRef} (h : Apart ts) {es : List (TableRef × Int64)}
    (hes : Apart (es.map (·.1))) (hin : ∀ e ∈ es, e.1.isIn ts = true) (p : TableRef × Int64 → Bool) :
    ts.countP (fun t => es.any fun e => t.same e.1 && p e) = es.countP p := by
  induction es with
  | nil => exact List.countP_eq_zero.mpr fun _ _ => Bool.false_ne_true
  | cons e es ih =>
      obtain ⟨he, hrest⟩ := List.pairwise_cons.mp hes
      have hhead : ts.countP (fun t => t.same e.1 && p e) = if p e = true then 1 else 0 := by
        cases p e with
        | false => simp
        | true => simpa using h.countP_same (hin e (by simp))
      have hdisjoint : ∀ t ∈ ts, (t.same e.1 && p e) = true →
          (es.any fun e => t.same e.1 && p e) = false := by
        intro t _ ht
        rw [Bool.and_eq_true] at ht
        rw [List.any_eq_false]
        intro e' he' hp
        rw [Bool.and_eq_true] at hp
        have hfalse := he e'.1 (List.mem_map_of_mem he')
        rw [TableRef.same_trans (TableRef.same_symm ht.1) hp.1] at hfalse
        cases hfalse
      simp only [List.any_cons]
      rw [countP_or hdisjoint, hhead, ih hrest fun x hx => hin x (by simp [hx]), List.countP_cons,
        Nat.add_comm]

/-! ## Flat queries -/

namespace Sql

mutual

/-- Whether a query reads tables directly, without subqueries. -/
def Query.isFlat : Query → Bool
  | .select source _ _ => FromItem.isFlatList source
  | .union l r _ _ => l.isFlat && r.isFlat
  | .paren q => q.isFlat

/-- Whether a source item has no subqueries. -/
def FromItem.isFlat : FromItem → Bool
  | .table _ _ => true
  | .subquery _ _ => false
  | .paren items => FromItem.isFlatList items
  | .join _ l r _ => l.isFlat && r.isFlat

/-- Whether all source items have no subqueries. -/
def FromItem.isFlatList : List FromItem → Bool
  | [] => true
  | x :: r => x.isFlat && FromItem.isFlatList r

end

theorem FromItem.isFlatList_iff {xs : List FromItem} :
    FromItem.isFlatList xs = true ↔ ∀ x ∈ xs, x.isFlat = true := by
  induction xs with
  | nil => simp [FromItem.isFlatList]
  | cons x xs ih => simp [FromItem.isFlatList, ih]

theorem FromItem.isSeparateList_of_flat {xs : List FromItem}
    (h : ∀ x ∈ xs, x.inner = [] ∧ x.isSeparate = true) :
    FromItem.innerList xs = [] ∧ FromItem.isSeparateList xs = true := by
  induction xs with
  | nil => exact ⟨rfl, rfl⟩
  | cons x xs ih =>
      obtain ⟨hi, hs⟩ := ih fun y hy => h y (by simp [hy])
      obtain ⟨hxi, hxs⟩ := h x (by simp)
      rw [FromItem.innerList, FromItem.isSeparateList, hi, hs, hxi, hxs]
      exact ⟨rfl, rfl⟩

/-- A flat query is separate. -/
theorem isSeparate_of_isFlat : (∀ q : Query, q.isFlat = true → q.isSeparate = true) ∧
    ∀ x : FromItem, x.isFlat = true → x.inner = [] ∧ x.isSeparate = true := by
  apply Query.induct
  · intro source c t ih h
    rw [Query.isFlat, FromItem.isFlatList_iff] at h
    rw [Query.isSeparate]
    exact (FromItem.isSeparateList_of_flat fun x hx => ih x hx (h x hx)).2
  · intro l r all t hl hr h
    rw [Query.isFlat, Bool.and_eq_true] at h
    rw [Query.isSeparate, hl h.1, hr h.2]
    rfl
  · intro q hq h
    rw [Query.isFlat] at h
    rw [Query.isSeparate]
    exact hq h
  · intro name a _
    exact ⟨rfl, rfl⟩
  · intro q a _ h
    cases h
  · intro xs ih h
    rw [FromItem.isFlat, FromItem.isFlatList_iff] at h
    rw [FromItem.inner, FromItem.isSeparate]
    exact FromItem.isSeparateList_of_flat fun x hx => ih x hx (h x hx)
  · intro k l r on hl hr h
    rw [FromItem.isFlat, Bool.and_eq_true] at h
    obtain ⟨hli, hls⟩ := hl h.1
    obtain ⟨hri, hrs⟩ := hr h.2
    rw [FromItem.inner, FromItem.isSeparate, hli, hls, hri, hrs]
    exact ⟨rfl, rfl⟩

end Sql

/-- The row has one stamp for every occurrence and passed no union. -/
structure Traced.Direct (z : Traced) (ts : List TableRef) : Prop where
  stamps : z.stamps.map (·.1) = ts
  choices : z.choices = []

theorem Traced.Direct.append {x y : Traced} {ts us : List TableRef} (hx : x.Direct ts)
    (hy : y.Direct us) : (x.append y).Direct (ts ++ us) := by
  constructor
  · change (x.stamps ++ y.stamps).map (·.1) = _
    rw [List.map_append, hx.stamps, hy.stamps]
  · change x.choices ++ y.choices = _
    rw [hx.choices, hy.choices]
    rfl

theorem Traced.Direct.isActive {z : Traced} {ts : List TableRef} (h : z.Direct ts) (t : TableRef) :
    z.isActive t = true := by
  rw [Traced.isActive, h.choices]
  rfl

namespace Sql

/-- A row of a flat source has a stamp for every occurrence. -/
theorem FromItem.trace_direct (src : Source) {x : FromItem} (h : x.isFlat = true) :
    ∀ z ∈ (x.trace src).rows, z.Direct x.occurrences := by
  have hlist : ∀ xs : List FromItem, (∀ x ∈ xs, ∀ z ∈ (x.trace src).rows, z.Direct x.occurrences) →
      ∀ (acc : Trace) ts, (∀ z ∈ acc.rows, z.Direct ts) →
        ∀ z ∈ (FromItem.traceList src acc xs).rows, z.Direct (ts ++ FromItem.occurrencesList xs) := by
    intro xs ih
    induction xs with
    | nil =>
        intro acc ts h
        rw [FromItem.traceList_nil, FromItem.occurrencesList, List.append_nil]
        exact h
    | cons x xs hxs =>
        intro acc ts h
        rw [FromItem.traceList_cons, FromItem.occurrencesList, ← List.append_assoc]
        apply hxs fun y hy => ih y (by simp [hy])
        intro z hz
        obtain ⟨y, hy, y', hy', rfl⟩ := Trace.mem_cross.mp hz
        exact (h y hy).append (ih x (by simp) y' hy')
  have hunit : ∀ z ∈ Trace.unit.rows, z.Direct [] := by
    intro z hz
    rw [Trace.unit, List.mem_singleton] at hz
    exact hz ▸ ⟨rfl, rfl⟩
  refine (Query.induct (P := fun _ => True)
    (S := fun x => x.isFlat = true → ∀ z ∈ (x.trace src).rows, z.Direct x.occurrences)
    (fun _ _ _ _ => trivial) (fun _ _ _ _ _ _ => trivial) (fun _ _ => trivial) ?_ ?_ ?_ ?_).2 x h
  · intro name a _ z hz
    rw [FromItem.trace, Source.trace] at hz
    split at hz
    · obtain ⟨row, -, rfl⟩ := List.mem_map.mp hz
      exact ⟨rfl, rfl⟩
    · cases hz
  · intro q a _ h
    cases h
  · intro xs ih h
    rw [FromItem.isFlat, FromItem.isFlatList_iff] at h
    rw [FromItem.trace, FromItem.occurrences]
    exact hlist xs (fun x hx => ih x hx (h x hx)) .unit [] hunit
  · intro k l r on hl hr h z hz
    rw [FromItem.isFlat, Bool.and_eq_true] at h
    rw [FromItem.trace] at hz
    obtain ⟨x, hx, y, hy, rfl⟩ := Trace.mem_cross.mp (Trace.mem_kept hz)
    rw [FromItem.occurrences]
    exact (hl h.1 x hx).append (hr h.2 y hy)

/-- A row of a flat query passed no idle branch exactly if it comes from the advancing table. -/
theorem Query.isActive_iff (src : Source) {q : Query} (h : q.isFlat = true) : ∀ z ∈ (q.trace src).rows,
    ∀ t : TableRef, t.isIn q.tables = true → z.isActive t = t.isIn (z.stamps.map (·.1)) := by
  refine (Query.induct (P := fun q => q.isFlat = true → ∀ z ∈ (q.trace src).rows,
    ∀ t : TableRef, t.isIn q.tables = true → z.isActive t = t.isIn (z.stamps.map (·.1)))
    (S := fun _ => True) ?_ ?_ ?_ (fun _ _ => trivial) (fun _ _ _ => trivial) (fun _ _ => trivial)
    (fun _ _ _ _ _ _ => trivial)).1 q h
  · intro source c t _ h z hz u hu
    rw [Query.trace] at hz
    obtain ⟨x, hx, row, rfl⟩ := Trace.mem_project hz
    rw [Query.isFlat] at h
    have hdirect := FromItem.trace_direct src (x := .paren source) (by rwa [FromItem.isFlat]) x
      (by rw [FromItem.trace]; exact Trace.mem_kept hx)
    have hin := Query.isIn_occurrences hu
    rw [Query.occurrences, ← FromItem.occurrences, ← hdirect.stamps] at hin
    exact (hdirect.isActive u).trans hin.symm
  · intro l r all t hl hr h z hz u hu
    rw [Query.isFlat, Bool.and_eq_true] at h
    have hbranch : ∀ (branch : Query) (x : Traced), x.From branch.occurrences branch.occurrences →
        (u.isIn branch.tables = true → x.isActive u = u.isIn (x.stamps.map (·.1))) →
        (x.through (Query.union l r all t).tables branch.tables).isActive u =
          u.isIn (x.stamps.map (·.1)) := by
      intro branch x hx ih
      have hactive : (x.through (Query.union l r all t).tables branch.tables).isActive u =
          ((!u.isIn (Query.union l r all t).tables || u.isIn branch.tables) && x.isActive u) := rfl
      rw [hactive, hu, Bool.not_true, Bool.false_or]
      cases hb : u.isIn branch.tables with
      | true => rw [ih hb, Bool.true_and]
      | false =>
          rw [Bool.false_and, eq_comm, Bool.eq_false_iff]
          intro hin
          rw [Query.tables, TableRef.isIn_distinct, Bool.and_eq_true] at hu
          rw [Query.tables, TableRef.isIn_distinct, hu.2, Bool.and_true] at hb
          rw [isIn_of_subset hin fun v hv => ?_] at hb
          · cases hb
          · obtain ⟨e, he, rfl⟩ := List.mem_map.mp hv
            exact hx.stamps e he
    rw [Query.trace] at hz
    rcases Trace.mem_append.mp hz with hz | hz
    · obtain ⟨x, hx, rfl⟩ := Trace.mem_through hz
      exact hbranch l x ((trace_from src).1 l x hx) (hl h.1 x hx u)
    · obtain ⟨x, hx, rfl⟩ := Trace.mem_through hz
      exact hbranch r x ((trace_from src).1 r x hx) (hr h.2 x hx u)
  · intro q hq h
    rw [Query.isFlat] at h
    rw [Query.trace, Query.tables, Query.occurrences]
    exact hq h

end Sql

/-! ## The copies of a row -/

/-- The number of row times that are above the marks of their tables. -/
def Traced.fresh (z : Traced) (s : Marks) : Nat :=
  z.stamps.countP fun e => decide ((s.get? e.1).getD 0 < e.2)

/-- How often a round of changes delivers a row: once for each of its new row times, if it is up to
the marks. -/
def Round.copies (r : Round) (z : Traced) : Nat :=
  if r.marks.upTo z then z.fresh r.former else 0

/-- The query for a table sees a row up to the marks that comes from a new row of the table. -/
theorem Round.sees_eq {r : Round} {z : Traced} (hz : z.Orderly) {e : TableRef × Relation}
    (hactive : z.isActive e.1 = e.1.isIn (z.stamps.map (·.1))) :
    (r.delivery e).sees z = (r.marks.upTo z && z.stamps.any fun x =>
      e.1.same x.1 && decide ((r.former.get? x.1).getD 0 < x.2)) := by
  have hwithin : z.within (r.marks.admits (some ⟨e.1, (r.former.get? e.1).getD 0⟩)) =
      (r.marks.upTo z && z.stamps.all fun x =>
        !e.1.same x.1 || decide ((r.former.get? x.1).getD 0 < x.2)) := by
    rw [Marks.upTo, Stamped.within, Stamped.within, Bool.eq_iff_iff, Bool.and_eq_true,
      List.all_eq_true, List.all_eq_true, List.all_eq_true, ← forall₂_and]
    refine forall₂_congr fun x _ => ?_
    rw [Marks.admits_some, Bool.and_eq_true]
    cases hs : e.1.same x.1 with
    | false => simp
    | true => rw [r.former.get?_congr hs]
  rw [Delivery.sees, Round.delivery, hwithin, Option.all_some, hactive, Bool.and_assoc]
  congr 1
  rw [Bool.eq_iff_iff, Bool.and_eq_true, List.all_eq_true, List.any_eq_true]
  constructor
  · rintro ⟨hall, hin⟩
    obtain ⟨u, hu, hs⟩ := TableRef.isIn_iff.mp hin
    obtain ⟨x, hx, rfl⟩ := List.mem_map.mp hu
    have hnew := hall x hx
    rw [TableRef.same_symm hs, Bool.not_true, Bool.false_or] at hnew
    exact ⟨x, hx, by rw [TableRef.same_symm hs, hnew]; rfl⟩
  · rintro ⟨x, hx, hnew⟩
    rw [Bool.and_eq_true] at hnew
    refine ⟨fun y hy => ?_, ?_⟩
    · cases hs : e.1.same y.1 with
      | false => rfl
      | true =>
          -- the row has one stamp only for the table
          rw [hz.eq_of_same hy hx (TableRef.same_trans (TableRef.same_symm hs) hnew.1), hnew.2]
          rfl
    · exact TableRef.isIn_iff.mpr ⟨x.1, List.mem_map_of_mem hx, TableRef.same_symm hnew.1⟩

/-- A round of changes sees an orderly row once for each of its new row times. -/
theorem Round.Of.countP_sees {r : Round} {q : Query} {db : Catalog} (h : r.Of q db q.tables)
    {z : Traced} (hz : r.marks.upTo z = true → z.Orderly)
    (hin : ∀ e ∈ z.stamps, e.1.isIn q.tables = true)
    (hactive : ∀ t : TableRef, t.isIn q.tables = true → z.isActive t = t.isIn (z.stamps.map (·.1))) :
    (r.sent.countP fun e => (r.delivery e).sees z) = r.copies z := by
  rw [Round.copies]
  cases hup : r.marks.upTo z with
  | false =>
      refine List.countP_eq_zero.mpr fun e _ hsee => ?_
      rw [Delivery.sees, Bool.and_eq_true] at hsee
      rw [Marks.upTo, Stamped.within, List.all_eq_false] at hup
      obtain ⟨x, hx, hnot⟩ := hup
      have hadmits := List.all_eq_true.mp hsee.1 x hx
      rw [Round.delivery, Marks.admits_some, Bool.and_eq_true] at hadmits
      exact hnot hadmits.1
  | true =>
      have hsees : ∀ e ∈ r.sent, (r.delivery e).sees z = true ↔
          (z.stamps.any fun x => e.1.same x.1 && decide ((r.former.get? x.1).getD 0 < x.2)) = true := by
        intro e he
        have het : e.1.isIn q.tables = true := TableRef.isIn_of_mem (h.tables ▸ List.mem_map_of_mem he)
        rw [Round.sees_eq (hz hup) (hactive e.1 het), hup, Bool.true_and]
      rw [List.countP_congr hsees, if_pos rfl, Traced.fresh,
        ← TableRef.Apart.countP_any (TableRef.apart_distinct q.occurrences) (hz hup).apart hin,
        ← Query.tables, ← h.tables, List.countP_map]
      rfl

/-- A delivery has the rows that it sees. -/
theorem Delivery.Of.like {d : Delivery} {q : Query} {db : Catalog} (h : d.Of q db)
    (hp : q.isPlain = true) (hq : q.RealTables) :
    d.result.Like ((q.trace db.source).part d.sees).relation :=
  (runOn_seen db d).1 q hp hq _ (h.gave.runOn (isInner_of_isPlain.1 q hp) hq h.advance)

/-- Several deliveries have each row as often as they see it. -/
theorem deliveries_perm {q : Query} {db : Catalog} (hp : q.isPlain = true) (hq : q.RealTables)
    {ds : List Delivery} (hds : ∀ d ∈ ds, d.Of q db) :
    (ds.flatMap fun d => d.result.rows).Perm ((q.trace db.source).rows.flatMap fun z =>
      List.replicate (ds.countP fun d => d.sees z) z.row) := by
  refine .trans ?_ (flatMap_filter_perm ds (q.trace db.source).rows Delivery.sees (·.row))
  exact List.Perm.flatMap_left ds fun d hd => ((hds d hd).like hp hq).rows

namespace Round

variable {r : Round} {q : Query} {db : Catalog}

theorem rows_eq (r : Round) : r.rows = r.deliveries.flatMap fun d => d.result.rows := by
  rw [Round.deliveries, List.flatMap_map]
  rfl

/-- The rows of a complete round are the rows of the query, each as often as it has new row times. -/
theorem Of.rows_perm (h : r.Of q db q.tables) (hp : q.isPlain = true) (hf : q.isFlat = true)
    (hq : q.RealTables) (hs : q.Settled db r.marks) :
    r.rows.Perm ((q.trace db.source).rows.flatMap fun z => List.replicate (r.copies z) z.row) := by
  rw [r.rows_eq]
  refine (deliveries_perm hp hq h.deliveries).trans (.of_eq ?_)
  have horderly := hs.orderly
  rw [(trace_upTo db r.marks).1 q hq] at horderly
  refine List.flatMap_congr fun z hz => ?_
  congr 1
  rw [Round.deliveries, List.countP_map]
  exact h.countP_sees (fun hup => horderly z (List.mem_filter.mpr ⟨hz, hup⟩))
    (fun e he => hq.isIn (((trace_from _).1 q z hz).stamps e he)) (Query.isActive_iff _ hf z hz)

theorem fresh_eq_zero_iff {s : Marks} {z : Traced} (h : ∀ e ∈ z.stamps, (s.get? e.1).isSome = true) :
    z.fresh s = 0 ↔ s.upTo z = true := by
  rw [Traced.fresh, List.countP_eq_zero, Marks.upTo, Stamped.within, List.all_eq_true]
  refine forall₂_congr fun e he => ?_
  obtain ⟨m, hm⟩ := Option.isSome_iff_exists.mp (h e he)
  rw [Marks.admits_none hm, hm, Option.getD_some, decide_eq_true_eq, decide_eq_true_eq, Int64.not_lt]

theorem Of.marked (h : r.Of q db q.tables) {t : TableRef} (ht : t.isIn q.tables = true) :
    (r.former.get? t).isSome = true :=
  Marks.get?_isSome_iff.mpr (h.former.exists_mark ht)

/-- A round delivers the rows that were not all below its former marks. -/
theorem Of.copies_pos_iff (h : r.Of q db q.tables) {z : Traced}
    (hin : ∀ e ∈ z.stamps, e.1.isIn q.tables = true) :
    0 < r.copies z ↔ r.marks.upTo z = true ∧ r.former.upTo z = false := by
  rw [copies, ← Bool.not_eq_true, ← fresh_eq_zero_iff fun e he => h.marked (hin e he)]
  cases r.marks.upTo z with
  | false => simp
  | true =>
      rw [if_pos rfl]
      simp only [true_and]
      omega

/-- What was up to the former marks is up to the new ones. -/
theorem Of.upTo_of_former (h : r.Of q db q.tables) {z : Traced}
    (hin : ∀ e ∈ z.stamps, e.1.isIn q.tables = true) (hz : r.former.upTo z = true) :
    r.marks.upTo z = true := by
  rw [Marks.upTo, Stamped.within, List.all_eq_true] at hz ⊢
  intro e he
  obtain ⟨m, hm⟩ := Option.isSome_iff_exists.mp (h.marked (hin e he))
  obtain ⟨m', hm', hle⟩ := h.notBelow _ _ hm
  have hbelow := hz e he
  rw [Marks.admits_none hm, decide_eq_true_eq] at hbelow
  rw [Marks.admits_none hm', decide_eq_true_eq]
  exact Int64.le_trans hbelow hle

/-- A row up to the last marks is up to the first ones or is delivered in one round only. -/
theorem once {first : Marks} {rs : List Round} (hchain : Chained first rs)
    (hrs : ∀ r ∈ rs, r.Of q db q.tables) {z : Traced}
    (hin : ∀ e ∈ z.stamps, e.1.isIn q.tables = true) :
    (if first.upTo z then 1 else 0) + rs.countP (fun r => decide (0 < r.copies z)) =
      if (marksAfter first rs).upTo z then 1 else 0 := by
  induction rs generalizing first with
  | nil => rfl
  | cons r rs ih =>
      obtain ⟨rfl, hchain⟩ := hchain
      have hr := hrs r (by simp)
      have hrest := ih hchain fun x hx => hrs x (by simp [hx])
      have hpos := hr.copies_pos_iff hin
      have hmono := hr.upTo_of_former hin
      rw [marksAfter_cons, ← hrest, List.countP_cons]
      cases hf : r.former.upTo z with
      | true =>
          rw [hmono hf]
          simp only [hpos, hf, Bool.true_eq_false, and_false, decide_false, Bool.false_eq_true,
            if_false, if_true]
          omega
      | false =>
          simp only [hpos, hf, and_true, decide_eq_true_eq, Bool.false_eq_true, if_false]
          omega

end Round

namespace Run

open World Log

/-- The rows of a plain flat query over the tables as they are at the end of a run: the first round
wrote each of them once that was up to its marks, each complete round of changes wrote those up to
its marks once for every row time above the former mark of its table, and exactly one round wrote
each row up to the last marks. -/
theorem copies_delivered {env : Surroundings} {q : Query} (hr : q.ReadsItself)
    (hp : q.isPlain = true) (hf : q.isFlat = true) (hq : q.RealTables) (he : env.Spares q.guarded)
    {log : Bytes} (hl : Recorded (fun _ => False) log) {sink : Sink} {shape : Shape} {n : Nat}
    {p : Progress} {w : World}
    (hrun : (steps (host env) shape q (n + 1) Run.start).run (World.start log sink) = (p, w))
    (hwell : p.Well) : ∃ h : History, h.Explains q shape sink w ∧
      (∀ d ∈ h.deliveries, d.result.columns = (q.trace w.db.source).columns) ∧
      h.result.rows.Perm (((q.trace w.db.source).rows.filter h.marks.upTo).map (·.row)) ∧
      (∀ r ∈ h.rounds, r.rows.Perm
        ((q.trace w.db.source).rows.flatMap fun z => List.replicate (r.copies z) z.row)) ∧
      ∀ z ∈ (q.trace w.db.source).rows,
        (if h.marks.upTo z then 1 else 0) + h.rounds.countP (fun r => decide (0 < r.copies z)) =
          if h.last.upTo z then 1 else 0 := by
  obtain ⟨h, hex⟩ := steps_explained ⟨he, hr.stable⟩ hl hrun hwell
  have hsep := isSeparate_of_isFlat.1 q hf
  refine ⟨h, hex, fun d hd => ((hex.of.deliveries d hd).like hp hq).columns, ?_, fun r hr => ?_,
    fun z hz => ?_⟩
  · have hfirst := (hex.of.first.like hp hq).rows
    have hsees : Delivery.sees ⟨h.marks, none, h.result⟩ = h.marks.upTo := by
      funext z
      simp [Delivery.sees, Marks.upTo]
    rw [hsees] at hfirst
    exact hfirst
  · exact (hex.of.rounds r hr).rows_perm hp hf hq (hex.of.settled_round hq hp hsep hr)
  · exact Round.once hex.of.complete_chained hex.of.rounds fun e he =>
      hq.isIn (((trace_from _).1 q z hz).stamps e he)

/-- `SELECT x.v, y.v FROM t AS x JOIN t AS y`. -/
def selfJoin : Query :=
  .select [.join .inner (.table "t" (some "x")) (.table "t" (some "y")) none]
    (.ofColumns [⟨some "x", "v"⟩, ⟨some "y", "v"⟩]) .empty

/-- A table is joined with itself, and a row comes between the first round and the next check. -/
def selfJoinRun : Progress × World :=
  (steps (host (.adding 5 sampleAddition)) .array selfJoin (6 + 1) Run.start).run
    (World.start sampleLog (.empty none))

theorem selfJoinRun_eq : (selfJoinRun.1, selfJoinRun.2.sink.content) =
    (.running ⟨.check, ⟨[(⟨"t", some "x"⟩, 20), (⟨"t", some "y"⟩, 20)]⟩, 10, ⟨2, 3, 5⟩⟩,
      "[1,1]\n[2,1]\n[2,2]\n[1,2]\n[2,2]\n") := by decide +kernel

theorem copies_delivered_selfJoin :
    selfJoinRun.2.sink.content = "[1,1]\n[2,1]\n[2,2]\n[1,2]\n[2,2]\n" ∧
      ∃ h : History, h.Explains selfJoin .array (.empty none) selfJoinRun.2 ∧
        ∀ r ∈ h.rounds, r.rows.Perm ((selfJoin.trace selfJoinRun.2.db.source).rows.flatMap fun z =>
          List.replicate (r.copies z) z.row) := by
  obtain ⟨hp, hcontent⟩ := Prod.mk.inj selfJoinRun_eq
  have hread : selfJoin.ReadsItself :=
    Query.readsItself_ofColumns (by simp)
      ⟨⟨trivial, ⟨trivial, rfl⟩, fun _ => rfl, by simp⟩, trivial⟩ rfl
  have hreal : selfJoin.RealTables := by
    unfold Query.RealTables
    decide +kernel
  have hrun : (steps (host (.adding 5 sampleAddition)) .array selfJoin (6 + 1) Run.start).run
      (World.start sampleLog (.empty none)) = (selfJoinRun.1, selfJoinRun.2) := (Prod.eta _).symm
  obtain ⟨h, hex, -, -, hcopies, -⟩ := copies_delivered hread (by decide) (by decide) hreal
    (Surroundings.adding_spares 5 (sampleAddition_recorded _)) sampleLog_recorded hrun
    (by rw [hp]; intro why h; cases h)
  exact ⟨hcontent, h, hex, hcopies⟩

end Run

end Rowtime
