import Rowtime.Proofs.Joins
import Rowtime.Proofs.Steps

/-!
# The first round

Where the sources of each SELECT have different names, a bound looks at one column. In
every row of the source it finds there a row time of the table, or NULL where an outer
join has padded the row. Marks that no table exceeds therefore refuse padded rows and no
others. So the first round writes what the query gives, unless a row that satisfies the
condition of a SELECT is padded in one of the tables of that SELECT.
-/
namespace Rowtime

open Text Log Sql

/-! ## Names of sources -/

/-- No two of the names are the same. -/
def Differing (names : List String) : Prop := names.Pairwise fun a b => sameName a b = false

instance (names : List String) : Decidable (Differing names) :=
  inferInstanceAs (Decidable (List.Pairwise _ _))

namespace Sql

mutual

/-- The names of the sources in a source item. -/
def FromItem.labels : FromItem → List String
  | .table name al => [al.getD name]
  | .subquery _ al => al.toList
  | .paren items => FromItem.labelsList items
  | .join _ l r _ => l.labels ++ r.labels

/-- The names of the sources in a list of source items. -/
def FromItem.labelsList : List FromItem → List String
  | [] => []
  | x :: r => x.labels ++ FromItem.labelsList r

end

mutual

/-- The sources of each SELECT have different names. -/
def Query.Labelled : Query → Prop
  | .select source _ _ => Differing (FromItem.labelsList source) ∧ FromItem.LabelledList source
  | .union l r _ _ => l.Labelled ∧ r.Labelled
  | .paren q => q.Labelled

/-- The sources of each SELECT in a source item have different names. -/
def FromItem.Labelled : FromItem → Prop
  | .table _ _ => True
  | .subquery q _ => q.Labelled
  | .paren items => FromItem.LabelledList items
  | .join _ l r _ => l.Labelled ∧ r.Labelled

/-- The sources of each SELECT in a list of source items have different names. -/
def FromItem.LabelledList : List FromItem → Prop
  | [] => True
  | x :: r => x.Labelled ∧ FromItem.LabelledList r

end

theorem FromItem.labelledList_iff {xs : List FromItem} :
    FromItem.LabelledList xs ↔ ∀ x ∈ xs, x.Labelled := by
  induction xs with
  | nil => simp [FromItem.LabelledList]
  | cons x xs ih => simp [FromItem.LabelledList, ih]

end Sql

/-! ## Padded rows -/

/-- A row has NULL for the row time of an occurrence. -/
def TableRef.PaddedIn (t : TableRef) (columns : List Binding) (row : Row) : Prop :=
  (Expr.column ⟨some t.qualifier, rowtimeName⟩).eval (.ofRow columns row) = .ok .null

instance (t : TableRef) (columns : List Binding) (row : Row) : Decidable (t.PaddedIn columns row) :=
  inferInstanceAs (Decidable (_ = _))

namespace Sql

mutual

/-- No row that satisfies the condition of a SELECT is padded in a table of that SELECT. -/
def Query.Unpadded (db : Catalog) : Query → Prop
  | .select source c _ => FromItem.UnpaddedList db source ∧
    ∀ full, FromItem.runList db .unit source = .ok full → ∀ row ∈ full.rows,
      holdsIn c.condition (.ofRow full.columns row) = .ok true →
        ∀ t ∈ scopeTables source, ¬t.PaddedIn full.columns row
  | .union l r _ _ => l.Unpadded db ∧ r.Unpadded db
  | .paren q => q.Unpadded db

/-- No row that satisfies the condition of a SELECT in a source item is padded in a table of that
SELECT. -/
def FromItem.Unpadded (db : Catalog) : FromItem → Prop
  | .table _ _ => True
  | .subquery q _ => q.Unpadded db
  | .paren items => FromItem.UnpaddedList db items
  | .join _ l r _ => l.Unpadded db ∧ r.Unpadded db

/-- The same for a list of source items. -/
def FromItem.UnpaddedList (db : Catalog) : List FromItem → Prop
  | [] => True
  | x :: r => x.Unpadded db ∧ FromItem.UnpaddedList db r

end

theorem FromItem.unpaddedList_iff {db : Catalog} {xs : List FromItem} :
    FromItem.UnpaddedList db xs ↔ ∀ x ∈ xs, x.Unpadded db := by
  induction xs with
  | nil => simp [FromItem.UnpaddedList]
  | cons x xs ih => simp [FromItem.UnpaddedList, ih]

end Sql

/-! ## What a bound looks at -/

namespace Relation

/-- The row times of an occurrence stand in one column: in each row the row time is one of the table
or padded. -/
structure StampedAt (db : Catalog) (t : TableRef) (r : Relation) (i : Nat) : Prop where
  column : ∃ b, r.columns[i]? = some b ∧ b.fits ⟨some t.qualifier, rowtimeName⟩ = true
  only : ∀ j b, r.columns[j]? = some b → b.fits ⟨some t.qualifier, rowtimeName⟩ = true → j = i
  stamps : ∃ table, db.get? t.name = some table ∧ ∀ row ∈ r.rows,
    row[i]? = some .null ∨ ∃ n, row[i]? = some (.integer n) ∧ n ≤ table.maxRowtime

/-- A relation whose columns carry some names, with the row times of some occurrences. -/
structure Dated (db : Catalog) (names : List String) (ts : List TableRef) (r : Relation) : Prop where
  width : r.Rectangular
  named : ∀ b ∈ r.columns, ∀ q ∈ b.qualifier, q ∈ names
  qualifiers : ∀ t ∈ ts, t.qualifier ∈ names
  stamped : ∀ t ∈ ts, t.isDual = false → ∃ i, r.StampedAt db t i

section
variable {db : Catalog} {t : TableRef} {a b r : Relation} {i : Nat}

theorem Beside.length_left (ha : a.Rectangular) {l : Row} (hl : l ∈ a.rows ∨ l = a.padding) :
    l.length = a.columns.length := by
  rcases hl with hl | rfl
  · exact ha l hl
  · exact List.length_replicate

theorem padding_getElem? (h : i < a.columns.length) : a.padding[i]? = some .null := by
  rw [padding, List.getElem?_replicate, if_pos h]

theorem StampedAt.lt (h : a.StampedAt db t i) : i < a.columns.length := by
  obtain ⟨c, hc, -⟩ := h.column
  exact (List.getElem?_eq_some_iff.mp hc).1

/-- Padding has NULL in every column. -/
theorem StampedAt.stamps_padded (h : a.StampedAt db t i) : ∃ table, db.get? t.name = some table ∧
    ∀ row, row ∈ a.rows ∨ row = a.padding →
      row[i]? = some .null ∨ ∃ n, row[i]? = some (.integer n) ∧ n ≤ table.maxRowtime := by
  obtain ⟨table, ht, hrows⟩ := h.stamps
  refine ⟨table, ht, fun row hrow => ?_⟩
  rcases hrow with hrow | rfl
  · exact hrows row hrow
  · exact Or.inl (padding_getElem? h.lt)

theorem StampedAt.left (h : a.StampedAt db t i) (ha : a.Rectangular) (hr : Beside a b r)
    (hb : ∀ c ∈ b.columns, c.fits ⟨some t.qualifier, rowtimeName⟩ = false) : r.StampedAt db t i := by
  have hi := h.lt
  obtain ⟨table, ht, hrows⟩ := h.stamps_padded
  constructor
  · obtain ⟨c, hc, hf⟩ := h.column
    exact ⟨c, by rw [hr.columns, List.getElem?_append_left hi, hc], hf⟩
  · intro j c hc hf
    rw [hr.columns] at hc
    rcases Nat.lt_or_ge j a.columns.length with hj | hj
    · rw [List.getElem?_append_left hj] at hc
      exact h.only j c hc hf
    · rw [List.getElem?_append_right hj] at hc
      rw [hb c (List.mem_of_getElem? hc)] at hf
      cases hf
  · refine ⟨table, ht, fun row hrow => ?_⟩
    obtain ⟨l, x, rfl, hl, -⟩ := hr.rows row hrow
    rw [List.getElem?_append_left (by rw [Beside.length_left ha hl]; exact hi)]
    exact hrows l hl

theorem StampedAt.right (h : b.StampedAt db t i) (ha : a.Rectangular) (hr : Beside a b r)
    (hfit : ∀ c ∈ a.columns, c.fits ⟨some t.qualifier, rowtimeName⟩ = false) :
    r.StampedAt db t (a.columns.length + i) := by
  obtain ⟨table, ht, hrows⟩ := h.stamps_padded
  constructor
  · obtain ⟨c, hc, hf⟩ := h.column
    refine ⟨c, ?_, hf⟩
    rw [hr.columns, List.getElem?_append_right (by omega), Nat.add_sub_cancel_left, hc]
  · intro j c hc hf
    rw [hr.columns] at hc
    rcases Nat.lt_or_ge j a.columns.length with hj | hj
    · rw [List.getElem?_append_left hj] at hc
      rw [hfit c (List.mem_of_getElem? hc)] at hf
      cases hf
    · rw [List.getElem?_append_right hj] at hc
      have := h.only _ c hc hf
      omega
  · refine ⟨table, ht, fun row hrow => ?_⟩
    obtain ⟨l, x, rfl, hl, hx⟩ := hr.rows row hrow
    have hlen := Beside.length_left ha hl
    rw [List.getElem?_append_right (by omega), hlen, Nat.add_sub_cancel_left]
    exact hrows x hx

end

namespace Dated

variable {db : Catalog} {names names' : List String} {ts us : List TableRef} {a b r : Relation}

theorem unit : Relation.unit.Dated db [] [] :=
  ⟨unit_rectangular, fun _ hb => absurd hb List.not_mem_nil, fun _ ht => absurd ht List.not_mem_nil,
    fun _ ht => absurd ht List.not_mem_nil⟩

theorem ofTable (hdb : db.Valid) {t : TableRef} {table : Table} (ht : db.get? t.name = some table) :
    (Relation.ofTable t.qualifier table).Dated db [t.qualifier] [t] := by
  have hv := (hdb.get? ht).1
  refine ⟨ofTable_rectangular hv.width, ?_, ?_, ?_⟩
  · intro b hb q hq
    obtain ⟨c, -, rfl⟩ := List.mem_map.mp hb
    exact List.mem_singleton.mpr (Option.some.inj hq).symm
  · intro u hu
    rw [List.mem_singleton.mp hu]
    exact List.mem_singleton.mpr rfl
  · intro u hu _
    rw [List.mem_singleton] at hu
    subst hu
    refine ⟨table.rowtimeIndex, hv.exists_rowtime _, ?_, table, ht, ?_⟩
    · intro j b hb hf
      simp only [Relation.ofTable, List.getElem?_map, Option.map_eq_some_iff] at hb
      obtain ⟨c, hc, rfl⟩ := hb
      refine hv.rowtime_only hc ?_
      simp only [Binding.fits, Bool.and_eq_true] at hf
      exact hf.1
    · intro row hrow
      exact Or.inr ⟨_, (hv.stamped row hrow).1, hv.stamp_le hrow⟩

/-- A subquery shows the row times of no table. -/
theorem qualified (h : r.Rectangular) (q : Option String) : (r.qualified q).Dated db q.toList [] := by
  refine ⟨qualified_rectangular h, ?_, fun _ ht => absurd ht List.not_mem_nil,
    fun _ ht => absurd ht List.not_mem_nil⟩
  intro b hb p hp
  obtain ⟨c, -, rfl⟩ := List.mem_map.mp hb
  exact Option.mem_toList.mpr hp

/-- Columns under other names do not fit. -/
theorem fits_eq_false (h : a.Dated db names ts) {q : String}
    (hq : ∀ x ∈ names, sameName x q = false) {name : String} :
    ∀ c ∈ a.columns, c.fits ⟨some q, name⟩ = false := by
  intro c hc
  have hno : c.hasQualifier q = false := by
    unfold Binding.hasQualifier
    cases hown : c.qualifier with
    | none => rfl
    | some own => exact hq own (h.named c hc own hown)
  simp [Binding.fits, hno]

theorem beside (ha : a.Dated db names ts) (hb : b.Dated db names' us)
    (hd : Differing (names ++ names')) (hr : Beside a b r) (hw : r.Rectangular) :
    r.Dated db (names ++ names') (ts ++ us) := by
  have hapart := (List.pairwise_append.mp hd).2.2
  refine ⟨hw, ?_, ?_, ?_⟩
  · intro c hc q hq
    rw [hr.columns] at hc
    rcases List.mem_append.mp hc with hc | hc
    · exact List.mem_append_left _ (ha.named c hc q hq)
    · exact List.mem_append_right _ (hb.named c hc q hq)
  · intro t ht
    rcases List.mem_append.mp ht with ht | ht
    · exact List.mem_append_left _ (ha.qualifiers t ht)
    · exact List.mem_append_right _ (hb.qualifiers t ht)
  · intro t ht hdual
    rcases List.mem_append.mp ht with ht | ht
    · obtain ⟨i, hi⟩ := ha.stamped t ht hdual
      refine ⟨i, hi.left ha.width hr (hb.fits_eq_false fun x hx => ?_)⟩
      rw [sameName_comm]
      exact hapart _ (ha.qualifiers t ht) x hx
    · obtain ⟨i, hi⟩ := hb.stamped t ht hdual
      exact ⟨_, hi.right ha.width hr (ha.fits_eq_false fun x hx =>
        hapart x hx _ (hb.qualifiers t ht))⟩

end Dated

theorem eval_column_of_resolve {columns : List Binding} {c : ColumnRef} {i : Nat}
    (h : resolve columns c = .ok i) {row : Row} {v : Value} (hv : row[i]? = some v) :
    (Expr.column c).eval (.ofRow columns row) = .ok v := by
  rw [Expr.eval]
  change resolve columns c >>= _ = _
  rw [h, ok_bind]
  change Except.ok (row[i]?.getD .null) = .ok v
  rw [hv]
  rfl

/-- A bound that no row time of the table exceeds is true, or unknown on a padded row. -/
theorem StampedAt.truthAt_bound {db : Catalog} {t u : TableRef} {r : Relation} {i : Nat}
    (h : r.StampedAt db t i) (hu : u.same t = true) {m : Int64}
    (hm : ∀ table, db.get? t.name = some table → table.maxRowtime ≤ m) {row : Row}
    (hrow : row ∈ r.rows) :
    (u.bound .le m).truthAt (.ofRow r.columns row) = .ok (some true) ∨
      (u.bound .le m).truthAt (.ofRow r.columns row) = .ok none ∧ t.PaddedIn r.columns row := by
  obtain ⟨b, hb, hf⟩ := h.column
  have ht := resolve_ok hb hf h.only
  have hres : resolve r.columns ⟨some u.qualifier, rowtimeName⟩ = .ok i :=
    resolve_ok hb (by rw [fits_congr hu, hf]) fun j b' hb' hf' =>
      h.only j b' hb' (by rw [← fits_congr hu, hf'])
  have htruth : ∀ v, row[i]? = some v → (u.bound .le m).truthAt (.ofRow r.columns row) =
      (Value.operate .le v (.integer m) >>= Value.truth) := by
    intro v hv
    have hcolumn := eval_column_of_resolve hres hv
    unfold TableRef.bound Expr.truthAt
    rw [Expr.eval, hcolumn]
    · rfl
    · simp
    · simp
  obtain ⟨table, htable, hrows⟩ := h.stamps
  rcases hrows row hrow with hnull | ⟨n, hn, hle⟩
  · exact Or.inr ⟨htruth _ hnull, eval_column_of_resolve ht hnull⟩
  · left
    rw [htruth _ hn, truth_operate_le, decide_eq_true (Int64.le_trans hle (hm table htable))]

/-- Bounds that no table exceeds leave a condition as it is, unless rows that satisfy it are padded. -/
theorem Dated.filtered_bound {db : Catalog} {names : List String} {source : List FromItem}
    {full kept : Relation} (h : full.Dated db names (FromItem.scopeList source)) {s : Marks}
    (hs : s.Reaches db) {condition : Option Expr}
    (hp : ∀ row ∈ full.rows, holdsIn condition (.ofRow full.columns row) = .ok true →
      ∀ t ∈ scopeTables source, ¬t.PaddedIn full.columns row)
    (hk : Relation.filtered condition full = .ok kept) :
    Relation.filtered ((s.restrict (scopeTables source)).bound none condition) full = .ok kept := by
  obtain ⟨hsucc, rfl⟩ := filtered_eq_ok_iff.mp hk
  have hrow : ∀ row ∈ full.rows,
      holdsIn ((s.restrict (scopeTables source)).bound none condition) (.ofRow full.columns row) =
        holdsIn condition (.ofRow full.columns row) := by
    intro row hrow
    obtain ⟨holds, hholds⟩ := hsucc row hrow
    have hbounds : ∀ e ∈ (s.restrict (scopeTables source)).uppers,
        e.truthAt (.ofRow full.columns row) = .ok (some true) ∨
          e.truthAt (.ofRow full.columns row) = .ok none ∧
            ∃ t ∈ scopeTables source, t.PaddedIn full.columns row := by
      intro e he
      obtain ⟨m, hm, rfl⟩ := List.mem_map.mp he
      obtain ⟨hm, hin⟩ := Marks.mem_restrict.mp hm
      obtain ⟨t, ht, hsame⟩ := TableRef.isIn_iff.mp hin
      obtain ⟨i, hi⟩ := h.stamped t (TableRef.mem_of_mem_distinct ht)
        (TableRef.isDual_of_mem_distinct ht)
      have hsame' := TableRef.same_symm hsame
      have hmark : ∀ table, db.get? t.name = some table → table.maxRowtime ≤ m.2 := by
        intro table htable
        rw [← Catalog.get?_congr (TableRef.key_of_same hsame')] at htable
        exact hs m hm table htable
      exact (hi.truthAt_bound hsame' hmark hrow).imp_right fun hnone => ⟨hnone.1, t, ht, hnone.2⟩
    rw [hholds]
    refine holdsIn_untouched (fun e he => ?_) hholds fun htrue e he => ?_
    · exact (hbounds e he).symm.imp_left And.left
    · rcases hbounds e he with hb | ⟨-, t, ht, hpad⟩
      · exact hb
      · exact absurd hpad (hp row hrow (htrue ▸ hholds) t ht)
  refine filtered_eq_ok_iff.mpr ⟨fun row hr => ?_, ?_⟩
  · rw [hrow row hr]
    exact hsucc row hr
  · rw [kept, kept, Relation.mk.injEq]
    refine ⟨rfl, List.filter_congr fun row hr => ?_⟩
    rw [passes, passes, hrow row hr]

end Relation

/-! ## Queries -/

namespace Sql

/-- Within marks that no table exceeds a source item gives what it gives without them, and shows row
times. -/
def FromItem.Kept (db : Catalog) (s : Marks) (x : FromItem) : Prop :=
  ∀ r, x.runOn db.source = .ok r →
    (x.bounded s none).runOn db.source = .ok r ∧ r.Dated db x.labels x.scope

section
variable {db : Catalog} {s : Marks}

theorem FromItem.runListOn_kept {xs : List FromItem}
    (h : ∀ x ∈ xs, Differing x.labels → x.Kept db s) {names : List String} {ts : List TableRef}
    {acc full : Relation} (hacc : acc.Dated db names ts)
    (hd : Differing (names ++ FromItem.labelsList xs))
    (hf : FromItem.runListOn db.source acc xs = .ok full) :
    FromItem.runListOn db.source acc (FromItem.boundedList s none xs) = .ok full ∧
      full.Dated db (names ++ FromItem.labelsList xs) (ts ++ FromItem.scopeList xs) := by
  induction xs generalizing names ts acc with
  | nil =>
      rw [FromItem.runListOn_nil, Except.ok.injEq] at hf
      subst hf
      rw [FromItem.boundedList, FromItem.runListOn_nil, FromItem.labelsList, FromItem.scopeList,
        List.append_nil, List.append_nil]
      exact ⟨rfl, hacc⟩
  | cons x xs ih =>
      rw [FromItem.labelsList, ← List.append_assoc] at hd ⊢
      rw [FromItem.runListOn_cons] at hf
      obtain ⟨b, hb, hf⟩ := bind_eq_ok.mp hf
      have hpre : Differing (names ++ x.labels) := (List.pairwise_append.mp hd).1
      obtain ⟨hb', hdated⟩ := h x (by simp) (List.pairwise_append.mp hpre).2.1 b hb
      have hcross := hacc.beside hdated hpre (.cross acc b)
        (Relation.cross_rectangular hacc.width hdated.width)
      rw [FromItem.boundedList, FromItem.runListOn_cons, hb', ok_bind, FromItem.scopeList,
        ← List.append_assoc]
      exact ih (fun y hy => h y (by simp [hy])) hcross hd hf

theorem fromSource_dated (hdb : db.Valid) {t : TableRef} {r : Relation}
    (h : Relation.fromSource db.source t = .ok r) : r.Dated db [t.qualifier] [t] := by
  unfold Relation.fromSource Catalog.source at h
  cases hg : db.get? t.name with
  | some table =>
      simp only [hg, Except.ok.injEq] at h
      exact h ▸ .ofTable hdb hg
  | none =>
      simp only [hg] at h
      split at h
      · rename_i hdual
        rw [Except.ok.injEq] at h
        subst h
        refine ⟨Relation.unit_rectangular, fun _ hb => absurd hb List.not_mem_nil, ?_, ?_⟩
        · intro u hu
          rw [List.mem_singleton.mp hu]
          exact List.mem_singleton.mpr rfl
        · intro u hu hu'
          rw [List.mem_singleton.mp hu, hdual] at hu'
          cases hu'
      · cases h

/-- Marks that no table exceeds do not change a query of which no row is padded. -/
theorem bounded_kept (hdb : db.Valid) (hs : s.Reaches db) :
    (∀ q : Query, q.Labelled → q.Unpadded db → ∀ r, q.runOn db.source = .ok r →
      (q.bounded s none).runOn db.source = .ok r) ∧
      ∀ x : FromItem, x.Labelled → x.Unpadded db → Differing x.labels → x.Kept db s := by
  have hunit : Relation.unit.Dated db [] [] := .unit
  refine Query.induct ?_ ?_ ?_ ?_ ?_ ?_ ?_
  · intro source c t ih hl hu r hr
    rw [Query.Labelled, FromItem.labelledList_iff] at hl
    rw [Query.Unpadded, FromItem.unpaddedList_iff] at hu
    rw [Query.runOn] at hr
    obtain ⟨full, hf, hr⟩ := bind_eq_ok.mp hr
    obtain ⟨hf', hdated⟩ := FromItem.runListOn_kept
      (fun x hx => ih x hx (hl.2 x hx) (hu.1 x hx)) hunit hl.1 hf
    rw [Relation.select_eq] at hr
    obtain ⟨kept, hk, hr⟩ := bind_eq_ok.mp hr
    rw [← FromItem.runList_eq fun x _ => (run_eq db).2 x] at hf
    have hk' := hdated.filtered_bound hs (hu.2 full hf) hk
    rw [Query.bounded, Query.runOn, hf', ok_bind, Relation.select_eq]
    simp only [hk', ok_bind]
    exact hr
  · intro l r all t hl hr hlab hu v hv
    rw [Query.Labelled] at hlab
    rw [Query.Unpadded] at hu
    rw [Query.runOn] at hv
    obtain ⟨x, hx, hv⟩ := bind_eq_ok.mp hv
    obtain ⟨y, hy, hv⟩ := bind_eq_ok.mp hv
    rw [Query.bounded, Query.runOn]
    change ((Query.bounded s none l).runOn db.source >>= fun a =>
      (Query.bounded s none r).runOn db.source >>= fun b => Relation.union all t a b) = .ok v
    rw [hl hlab.1 hu.1 x hx, ok_bind, hr hlab.2 hu.2 y hy, ok_bind]
    exact hv
  · intro q hq hlab hu r hr
    rw [Query.runOn] at hr
    rw [Query.bounded, Query.runOn]
    exact hq hlab hu r hr
  · intro name al _ _ _ r hr
    rw [FromItem.bounded]
    refine ⟨hr, ?_⟩
    rw [FromItem.runOn] at hr
    rw [FromItem.labels, FromItem.scope]
    exact fromSource_dated hdb hr
  · intro q al hq hlab hu _ r hr
    rw [FromItem.runOn] at hr
    obtain ⟨v, hv, hr⟩ := bind_eq_ok.mp hr
    rw [pure_eq_ok] at hr
    subst hr
    rw [FromItem.bounded, FromItem.runOn, hq hlab hu v hv, FromItem.labels, FromItem.scope]
    exact ⟨rfl, .qualified (Query.runOn_rectangular (source_rectangular hdb) hv) al⟩
  · intro xs ih hlab hu hd r hr
    rw [FromItem.Labelled, FromItem.labelledList_iff] at hlab
    rw [FromItem.Unpadded, FromItem.unpaddedList_iff] at hu
    rw [FromItem.labels] at hd
    rw [FromItem.runOn] at hr
    rw [FromItem.bounded, FromItem.runOn, FromItem.labels, FromItem.scope]
    exact FromItem.runListOn_kept (fun x hx => ih x hx (hlab x hx) (hu x hx)) hunit hd hr
  · intro k l r on hl hr hlab hu hd v hv
    rw [FromItem.labels] at hd
    obtain ⟨hdl, hdr, -⟩ := List.pairwise_append.mp hd
    rw [FromItem.runOn] at hv
    obtain ⟨x, hx, hv⟩ := bind_eq_ok.mp hv
    obtain ⟨y, hy, hv⟩ := bind_eq_ok.mp hv
    obtain ⟨hx', hdx⟩ := hl hlab.1 hu.1 hdl x hx
    obtain ⟨hy', hdy⟩ := hr hlab.2 hu.2 hdr y hy
    rw [FromItem.bounded, FromItem.runOn, hx', ok_bind, hy', ok_bind, FromItem.labels, FromItem.scope]
    exact ⟨hv, hdx.beside hdy hd (.join hv) (Relation.join_rectangular hdx.width hdy.width hv)⟩

end

end Sql

/-! ## A run to which nobody writes -/

/-- Nobody writes. -/
def Surroundings.Quiet (env : Surroundings) : Prop := ∀ k, env.writes k = []

theorem Surroundings.Quiet.spares {env : Surroundings} (h : env.Quiet) (spared : String → Prop) :
    env.Spares spared := by
  intro k
  rw [h k]
  exact .nil

/-- Nobody else is there, and every wait lasts. -/
def Surroundings.alone : Surroundings := ⟨fun _ => 0, fun _ => [], fun _ => true⟩

theorem Surroundings.alone_quiet : alone.Quiet := fun _ => rfl

namespace Sql

/-- A query that gives a result finds its tables. -/
theorem runOn_finds {src : Source} :
    (∀ q : Query, ∀ r, q.runOn src = .ok r →
      ∀ t ∈ q.occurrences, t.isDual = false → ∃ table, src t = some table) ∧
      ∀ x : FromItem, ∀ r, x.runOn src = .ok r →
        ∀ t ∈ x.occurrences, t.isDual = false → ∃ table, src t = some table := by
  have hlist : ∀ xs : List FromItem, (∀ x ∈ xs, ∀ r, x.runOn src = .ok r →
      ∀ t ∈ x.occurrences, t.isDual = false → ∃ table, src t = some table) →
      ∀ acc r, FromItem.runListOn src acc xs = .ok r →
        ∀ t ∈ FromItem.occurrencesList xs, t.isDual = false → ∃ table, src t = some table := by
    intro xs ih
    induction xs with
    | nil => exact fun _ _ _ t ht => absurd ht List.not_mem_nil
    | cons x xs hxs =>
        intro acc r h t ht
        rw [FromItem.runListOn_cons] at h
        obtain ⟨b, hb, h⟩ := bind_eq_ok.mp h
        rw [FromItem.occurrencesList] at ht
        rcases List.mem_append.mp ht with ht | ht
        · exact ih x (by simp) b hb t ht
        · exact hxs (fun y hy => ih y (by simp [hy])) _ r h t ht
  refine Query.induct ?_ ?_ ?_ ?_ ?_ ?_ ?_
  · intro source c t ih r h
    rw [Query.runOn] at h
    obtain ⟨full, hf, -⟩ := bind_eq_ok.mp h
    exact hlist source ih _ full hf
  · intro l r all t hl hr u h
    rw [Query.runOn] at h
    obtain ⟨x, hx, h⟩ := bind_eq_ok.mp h
    obtain ⟨y, hy, -⟩ := bind_eq_ok.mp h
    rw [Query.occurrences, List.forall_mem_append]
    exact ⟨hl x hx, hr y hy⟩
  · intro q hq r h
    exact hq r h
  · intro name al r h t ht hdual
    rw [FromItem.occurrences, List.mem_singleton] at ht
    subst ht
    rw [FromItem.runOn, Relation.fromSource] at h
    cases hs : src ⟨name, al⟩ with
    | some table => exact ⟨table, rfl⟩
    | none =>
        rw [hs, hdual] at h
        cases h
  · intro q al hq r h
    rw [FromItem.runOn] at h
    obtain ⟨v, hv, -⟩ := bind_eq_ok.mp h
    exact hq v hv
  · intro xs ih r h
    exact hlist xs ih _ r h
  · intro k l r on hl hr u h
    rw [FromItem.runOn] at h
    obtain ⟨x, hx, h⟩ := bind_eq_ok.mp h
    obtain ⟨y, hy, -⟩ := bind_eq_ok.mp h
    rw [FromItem.occurrences, List.forall_mem_append]
    exact ⟨hl x hx, hr y hy⟩

end Sql

namespace World

variable {env : Surroundings}

/-- Output without a limit takes every piece. -/
theorem writePieces_unlimited {w : World} (hw : w.sink.limit = none) (ps : List String) :
    (writePieces (host env).write ps).run w = (.ok (), w.emit (String.join ps)) := by
  induction ps generalizing w with
  | nil =>
      rw [String.join_nil, emit_empty]
      rfl
  | cons p ps ih =>
      have haccepts : w.sink.accepts p = true := by rw [Sink.accepts, hw]
      have hwrite : ((host env).write p).run w = (.ok (), w.emit p) := by
        change (((Sink.write p).run w.sink).1, { w with sink := ((Sink.write p).run w.sink).2 }) = _
        have hsink : (Sink.write p).run w.sink =
            (.ok (), { w.sink with content := w.sink.content ++ p }) := by
          change (if w.sink.accepts p then _ else _) = _
          rw [if_pos haccepts]
        rw [hsink]
        rfl
      rw [writePieces, run_bind, hwrite]
      change (writePieces (host env).write ps).run (w.emit p) = _
      rw [ih (w := w.emit p) hw, emit_emit, String.join_cons]

theorem writeRows_unlimited {w : World} (hw : w.sink.limit = none) (shape : Shape)
    (columns : List String) (rows : List Row) :
    (writeRows (host env).write shape columns rows).run w =
      ((.ok rows.length, []), w.emit (String.join (rows.map (shape.line columns)))) := by
  induction rows generalizing w with
  | nil =>
      rw [List.map_nil, String.join_nil, emit_empty]
      rfl
  | cons row rows ih =>
      rw [writeRows, run_bind, writePieces_unlimited hw, join_linePieces]
      simp only [run_bind]
      rw [ih (w := w.emit (shape.line columns row)) hw, emit_emit, List.map_cons, String.join_cons]
      rfl

/-- A query leaves the log alone where nobody writes. -/
theorem execute_quiet {w : World} {id : UInt64} (h : w.Ready id) (henv : env.Quiet) {sql : String}
    {q : Query} (hq : parseStatement sql = .ok (.query q)) :
    ∃ v, ((host env).execute id sql).run w = (Engine.answer q v.db, v) ∧ v.sink = w.sink ∧
      v.log = w.log ∧ v.executed = w.executed ++ [sql] ∧ v.Ready (id + 1) := by
  obtain ⟨v, hv, hsink, hlog, hafter⟩ := execute_query h (henv.spares fun _ => False) hq
  rw [henv, List.append_nil] at hlog
  exact ⟨v, hv, hsink, hlog, hafter.executed, hafter.ready⟩

end World

namespace Run

open World

variable {env : Surroundings}

theorem probeAll_quiet (henv : env.Quiet) {ts : List TableRef} (found : Marks) {w : World}
    {id : UInt64} (h : w.Ready id) (ht : ∀ t ∈ ts, ∃ table, w.db.get? t.name = some table) :
    ∃ marks id' v, (probeAll (host env) id found ts).run w = ((.ok marks, id'), v) ∧
      v.log = w.log := by
  induction ts generalizing found w id with
  | nil => exact ⟨found, id, w, rfl, rfl⟩
  | cons t ts ih =>
      obtain ⟨v, hv, -, hlog, -, hready⟩ := execute_quiet h henv (parse_probe t)
      obtain ⟨table, htable⟩ := ht t (by simp)
      have hdb : v.db = w.db := congrArg database hlog
      rw [← hdb] at htable
      have hprobe := probe_found hv hready.recorded.valid htable
      obtain ⟨marks, id', u, hrest, hu⟩ := ih (found.put t table.maxRowtime) hready
        fun x hx => by
          rw [hdb]
          exact ht x (by simp [hx])
      refine ⟨marks, id', u, ?_, hu.trans hlog⟩
      rw [probeAll, run_bind, hprobe]
      exact hrest

theorem deliver_quiet (henv : env.Quiet) {w : World} {id : UInt64} (h : w.Ready id)
    (hw : w.sink.limit = none) (shape : Shape) {sql : String} {q : Query}
    (hq : parseStatement sql = .ok (.query q)) {r : Relation} (hr : q.run w.db = .ok r) :
    ∃ v, (deliver (host env) shape id sql).run w = (.ok r.rows.length, v) ∧
      v.executed = w.executed ++ [sql] ∧
      v.sink.content = w.sink.content ++ String.join (r.rows.map (shape.line r.columnNames)) := by
  obtain ⟨v, hv, hsink, hlog, hexecuted, hready⟩ := execute_quiet h henv hq
  have hdb : v.db = w.db := congrArg database hlog
  have hanswer : Engine.answer q v.db = .ok (.ofRelation r) := by
    rw [Engine.answer, hdb, hr, ok_bind]
  have hrows : (writeRows (host env).write shape (Outcome.ofRelation r).columns
      (Outcome.ofRelation r).rows).run v = ((.ok r.rows.length, []),
        v.emit (String.join (r.rows.map (shape.line r.columnNames)))) :=
    writeRows_unlimited (by rw [hsink, hw]) shape _ _
  refine ⟨v.emit (String.join (r.rows.map (shape.line r.columnNames))), ?_, hexecuted, ?_⟩
  · rw [deliver, run_bind, hv]
    simp only [hanswer, run_bind]
    rw [hrows]
    rfl
  · rw [← hsink]
    rfl

/-- The first round of a query of which no row is padded gives what the query gives: within any marks
that no table exceeds, and so, where nobody writes, within the marks that its probes have just found. -/
theorem first_round_whole {q : Query} (hq : q.Labelled) {db : Catalog} (hdb : db.Valid)
    (hu : q.Unpadded db) {r : Relation} (hr : q.run db = .ok r) :
    (∀ s : Marks, s.Reaches db → (q.bounded s none).run db = .ok r) ∧
      ∀ (log : Bytes) (sink : Sink) (shape : Shape), q.ReadsItself → env.Quiet →
        Recorded (fun _ => False) log → database log = db → sink.limit = none →
          ∃ (r' : Run) (w : World),
            (step (host env) shape q Run.start).run (World.start log sink) = (.running r', w) ∧
              r'.former.Tracks q.tables db ∧ r'.former.Reaches db ∧
              w.executed = q.tables.map TableRef.probe ++ [(q.bounded r'.former none).display] ∧
              w.sink.content = sink.content ++ String.join (r.rows.map (shape.line r.columnNames)) := by
  have hwhole : ∀ s : Marks, s.Reaches db → (q.bounded s none).run db = .ok r := by
    intro s hs
    rw [Query.run_eq_runOn] at hr ⊢
    exact (bounded_kept hdb hs).1 q hq hu r hr
  refine ⟨hwhole, ?_⟩
  rintro log sink shape hread hquiet hl rfl hlimit
  have hready := start_ready hl sink 1
  have htables : ∀ t ∈ q.tables, ∃ table, (World.start log sink).db.get? t.name = some table := by
    intro t ht
    rw [Query.run_eq_runOn] at hr
    exact runOn_finds.1 q r hr t (TableRef.mem_of_mem_distinct ht) (TableRef.isDual_of_mem_distinct ht)
  obtain ⟨marks, id, v, hprobes, hlog⟩ := probeAll_quiet hquiet .empty hready htables
  obtain ⟨htracks, hreaches, hsink, hafter⟩ :=
    probeAll_tables (hquiet.spares fun _ => True) (fun _ _ => trivial) hready hprobes
  have hdb' : v.db = database log := congrArg database hlog
  rw [hdb'] at htracks
  have hresult : (q.bounded marks none).run v.db = .ok r := by
    rw [hdb']
    exact hwhole marks hreaches
  obtain ⟨w, hdeliver, hexecuted, hcontent⟩ := deliver_quiet hquiet hafter.ready
    (by rw [hsink]; exact hlimit) shape
    (hread.stable.parse_bounded htracks.legible (by simp)) hresult
  refine ⟨⟨if r.rows.length = 0 then .idle else .check, marks, id + 1,
    Totals.zero.addRound.addQuery r.rows.length⟩, w, ?_, htracks, hreaches, ?_, ?_⟩
  · change (firstRound (host env) shape q Run.start).run (World.start log sink) = _
    have hprobes' : (probeAll (host env) Run.start.nextId .empty q.tables).run (World.start log sink) =
      ((.ok marks, id), v) := hprobes
    rw [firstRound, run_bind, hprobes']
    simp only [run_bind, hdeliver]
    rfl
  · rw [hexecuted, hafter.executed]
    rfl
  · rw [hcontent, hsink]
    rfl

/-! ### A table beside itself -/

/-- `SELECT t.v, s.v FROM t LEFT JOIN t AS s ON t.v = s.v`, or with another comparison. -/
def besideItself (op : BinaryOp) : Query := .outerJoined (.table "t" (some "s")) op

theorem besideItself_labelled (op : BinaryOp) : (besideItself op).Labelled := by
  have hnames : Differing ["t", "s"] := by decide +kernel
  rw [besideItself, Query.outerJoined, Query.Labelled]
  exact ⟨hnames, ⟨trivial, trivial⟩, trivial⟩

theorem besideItself_readsItself {op : BinaryOp} (hop : op = .eq ∨ op = .lt) :
    (besideItself op).ReadsItself := by
  have hside : (FromItem.table "t" (some "s")).Stable := ⟨trivial, rfl⟩
  exact Query.outerJoined_readsItself hside rfl hop

/-- The only row is its own partner. -/
theorem besideItself_unpadded : (besideItself .eq).Unpadded (database sampleLog) := by
  rw [besideItself, Query.outerJoined, Query.Unpadded]
  refine ⟨⟨⟨trivial, trivial⟩, trivial⟩, fun full hf row hrow _ => ?_⟩
  have hfull : FromItem.runList (database sampleLog) .unit
      [.join .left (.table "t" none) (.table "t" (some "s"))
        (some (.binary .eq (.column ⟨some "t", "v"⟩) (.column ⟨some "s", "v"⟩)))] =
      .ok ⟨[⟨some "t", "rowtime"⟩, ⟨some "t", "v"⟩, ⟨some "s", "rowtime"⟩, ⟨some "s", "v"⟩],
        [[.integer 10, .integer 1, .integer 10, .integer 1]]⟩ := by decide +kernel
  rw [hfull, Except.ok.injEq] at hf
  subst hf
  rw [List.mem_singleton.mp hrow]
  decide +kernel

theorem first_round_whole_beside : ∃ (r' : Run) (w : World),
    (step (host .alone) .array (besideItself .eq) Run.start).run (World.start sampleLog (.empty none)) =
      (.running r', w) ∧ w.sink.content = "[1,1]\n" := by
  have hr : (besideItself .eq).run (database sampleLog) =
      .ok ⟨[⟨none, "v"⟩, ⟨none, "v"⟩], [[.integer 1, .integer 1]]⟩ := by decide +kernel
  obtain ⟨r', w, hstep, -, -, -, hcontent⟩ := (first_round_whole (besideItself_labelled .eq)
    sampleLog_recorded.valid besideItself_unpadded hr).2 sampleLog (.empty none) .array
      (besideItself_readsItself (Or.inl rfl)) Surroundings.alone_quiet sampleLog_recorded rfl rfl
  refine ⟨r', w, hstep, ?_⟩
  rw [hcontent]
  decide +kernel

/-- The only row has no greater partner: the query gives it padded, and the first round leaves it
out. -/
theorem first_round_padded :
    (besideItself .lt).Labelled ∧ (besideItself .lt).ReadsItself ∧ Surroundings.alone.Quiet ∧
      Recorded (fun _ => False) sampleLog ∧
      ((besideItself .lt).run (database sampleLog),
          ((besideItself .lt).bounded ⟨[(⟨"t", none⟩, 10), (⟨"t", some "s"⟩, 10)]⟩ none).run
            (database sampleLog),
          ((step (host .alone) .array (besideItself .lt) Run.start).run
            (World.start sampleLog (.empty none))).1,
          ((step (host .alone) .array (besideItself .lt) Run.start).run
            (World.start sampleLog (.empty none))).2.sink.content) =
        (.ok ⟨[⟨none, "v"⟩, ⟨none, "v"⟩], [[.integer 1, .null]]⟩, .ok ⟨[⟨none, "v"⟩, ⟨none, "v"⟩], []⟩,
          .running ⟨.idle, ⟨[(⟨"t", none⟩, 10), (⟨"t", some "s"⟩, 10)]⟩, 4, ⟨1, 1, 0⟩⟩, "") :=
  ⟨besideItself_labelled .lt, besideItself_readsItself (Or.inr rfl), Surroundings.alone_quiet,
    sampleLog_recorded, by decide +kernel⟩

end Run

end Rowtime
