import Rowtime.Proofs.Emitted
import Rowtime.Proofs.Joins

/-!
# No row is invented

What an outer join pads depends on rows that are not there. A query within bounds may see
fewer rows than there are up to the marks, and so it may pad where the query itself finds
a partner. While the padded side has a table of its own, the bound of this table refuses
the padded row. While it has none, nothing may be left out of it: it has no outer join,
and no subquery of it reads the table that advances. Then every row that is written is a
row of the query on the tables up to the marks.

Other padded sides make a query write rows that it does not have, and so do unions that
leave out repetitions: the copy that is left out in the result may be the only one that
is new.
-/
namespace Rowtime

open Sql

namespace Sql

/-- Whether the padded side of an outer join has a table of its own, or is the same within bounds. -/
def FromItem.isFirm (a : Option Advance) (x : FromItem) : Bool :=
  (x.scope.any fun t => !t.isDual) || x.isInner && !a.any fun y => y.table.isIn x.inner

mutual

/-- Whether a query neither groups rows nor leaves any out, and pads beside firm sides only. -/
def Query.isSound (a : Option Advance) : Query → Bool
  | .select source c t =>
    FromItem.isSoundList a source && !c.distinct && !Relation.isGrouped c t && t.isWhole
  | .union l r all t => all && t.isWhole && l.isSound a && r.isSound a
  | .paren q => q.isSound a

/-- Whether a source item is made of tables, joins that pad beside firm sides, and sound subqueries. -/
def FromItem.isSound (a : Option Advance) : FromItem → Bool
  | .table _ _ => true
  | .subquery q _ => q.isSound a
  | .paren items => FromItem.isSoundList a items
  | .join k l r _ =>
    l.isSound a && r.isSound a && (k != .left || r.isFirm a) && (k != .right || l.isFirm a)

/-- Whether all source items are. -/
def FromItem.isSoundList (a : Option Advance) : List FromItem → Bool
  | [] => true
  | x :: r => x.isSound a && FromItem.isSoundList a r

end

theorem FromItem.isSoundList_iff {a : Option Advance} {xs : List FromItem} :
    FromItem.isSoundList a xs = true ↔ ∀ x ∈ xs, x.isSound a = true := by
  induction xs with
  | nil => simp [FromItem.isSoundList]
  | cons x xs ih => simp [FromItem.isSoundList, ih]

end Sql

/-! ## Rows on which bounds hold -/

namespace Marks

/-- Every occurrence of a table has a mark. -/
def HasAll (s : Marks) (ts : List TableRef) : Prop :=
  ∀ t ∈ ts, t.isDual = false → ∃ e ∈ s.entries, e.1.same t = true

theorem HasAll.mono {s : Marks} {ts us : List TableRef} (h : s.HasAll us) (hts : ∀ t ∈ ts, t ∈ us) :
    s.HasAll ts :=
  fun t ht => h t (hts t ht)

/-- The upper bounds of some occurrences are true of every value that they could look at. -/
def HoldOn (s : Marks) (ts : List TableRef) (columns : List Binding) (row : Row) : Prop :=
  ∀ t ∈ ts, t.isDual = false → ∀ e ∈ s.entries, e.1.same t = true →
    ∀ (i : Nat) (b : Binding), columns[i]? = some b →
      b.fits ⟨some t.qualifier, rowtimeName⟩ = true → ∃ v, row[i]? = some v ∧
        (Value.operate .le v (.integer e.2) >>= Value.truth) = .ok (some true)

section
variable {s : Marks} {ts us : List TableRef} {columns columns' : List Binding} {l x : Row}

theorem HoldOn.left (h : s.HoldOn (ts ++ us) (columns ++ columns') (l ++ x))
    (hl : l.length = columns.length) : s.HoldOn ts columns l := by
  intro t ht hd e he hs i b hb hf
  obtain ⟨hi, -⟩ := List.getElem?_eq_some_iff.mp hb
  obtain ⟨v, hv, htrue⟩ := h t (by simp [ht]) hd e he hs i b
    (by rw [List.getElem?_append_left hi, hb]) hf
  rw [List.getElem?_append_left (by omega)] at hv
  exact ⟨v, hv, htrue⟩

theorem HoldOn.right (h : s.HoldOn (ts ++ us) (columns ++ columns') (l ++ x))
    (hl : l.length = columns.length) : s.HoldOn us columns' x := by
  intro t ht hd e he hs i b hb hf
  obtain ⟨v, hv, htrue⟩ := h t (by simp [ht]) hd e he hs (columns.length + i) b
    (by rw [List.getElem?_append_right (by omega), Nat.add_sub_cancel_left, hb]) hf
  rw [← hl, List.getElem?_append_right (by omega), Nat.add_sub_cancel_left] at hv
  exact ⟨v, hv, htrue⟩

theorem truthAt_le_true {t : TableRef} {m : Int64} {ctx : Context}
    (h : (t.bound .le m).truthAt ctx = .ok (some true)) :
    ∃ v, (Expr.column ⟨some t.qualifier, rowtimeName⟩).eval ctx = .ok v ∧
      (Value.operate .le v (.integer m) >>= Value.truth) = .ok (some true) := by
  unfold TableRef.bound Expr.truthAt at h
  obtain ⟨w, hw, htrue⟩ := bind_eq_ok.mp h
  rw [Expr.eval] at hw
  · obtain ⟨v, hv, ho⟩ := bind_eq_ok.mp hw
    have ho' : Value.operate .le v (.integer m) = .ok w := ho
    exact ⟨v, hv, by rw [ho', ok_bind, htrue]⟩
  · simp
  · simp

/-- True upper bounds hold. -/
theorem holdOn_of_uppers {row : Row} (hw : row.length = columns.length)
    (h : ∀ e ∈ (s.restrict (TableRef.distinct ts)).uppers,
      e.truthAt (.ofRow columns row) = .ok (some true)) : s.HoldOn ts columns row := by
  intro t ht hd e he hs i b hb hf
  have hin : e.1.isIn (TableRef.distinct ts) = true := by
    rw [TableRef.isIn_congr hs, TableRef.isIn_distinct, TableRef.isIn_of_mem ht, hd]
    rfl
  obtain ⟨v, hv, htrue⟩ := truthAt_le_true
    (h _ (List.mem_map_of_mem (mem_restrict.mpr ⟨he, hin⟩)))
  rw [Expr.eval] at hv
  obtain ⟨j, hj, hv⟩ := bind_eq_ok.mp hv
  rw [pure_eq_ok] at hv
  have hij : i = j := resolve_eq hj hb (by rw [fits_congr hs, hf])
  obtain ⟨hi, -⟩ := List.getElem?_eq_some_iff.mp hb
  have hrow : row[i]? = some row[i] := List.getElem?_eq_getElem (by omega)
  have hval : row[j]?.getD .null = v := hv
  rw [← hij, hrow, Option.getD_some] at hval
  exact ⟨row[i], hrow, hval ▸ htrue⟩

end

end Marks

/-! ## Sources -/

namespace Relation

/-- A source within bounds beside the same source up to the marks: its rows on which the bounds hold
are rows of the other. -/
structure Sound (s : Marks) (ts : List TableRef) (given wanted : Relation) : Prop where
  columns : given.columns = wanted.columns
  width : given.Rectangular
  shown : ∀ t ∈ ts, t.isDual = false → ∃ (i : Nat) (b : Binding), given.columns[i]? = some b ∧
    b.fits ⟨some t.qualifier, rowtimeName⟩ = true
  rows : ∀ row ∈ given.rows, s.HoldOn ts given.columns row → row ∈ wanted.rows

namespace Sound

variable {s : Marks} {ts us : List TableRef} {a a' b b' r r' : Relation}

theorem ofRows (hc : a.columns = a'.columns) (hw : a.Rectangular) (h : ∀ row ∈ a.rows, row ∈ a'.rows)
    (hts : ∀ t ∈ ts, t.isDual = true) : Sound s ts a a' := by
  refine ⟨hc, hw, fun t ht hd => ?_, fun row hrow _ => h row hrow⟩
  rw [hts t ht] at hd
  cases hd

theorem ofTable (hs : s.Functional) {t : TableRef} {table : Table} (hv : table.Valid) :
    Sound s [t] (.ofTable t.qualifier table)
      (.ofTable t.qualifier (if t.isDual then table else table.within (s.admits none t))) := by
  cases hd : t.isDual with
  | true => exact .ofRows rfl (ofTable_rectangular hv.width) (fun _ => id) (by simp [hd])
  | false =>
      refine ⟨rfl, ofTable_rectangular hv.width, fun u hu _ => ?_, fun row hrow hold => ?_⟩
      · rw [List.mem_singleton.mp hu]
        exact ⟨_, hv.exists_rowtime t.qualifier⟩
      · refine List.mem_filter.mpr ⟨hrow, (Marks.admits_iff hs).mpr ⟨fun e he hsame => ?_, by simp⟩⟩
        obtain ⟨c, hc, hf⟩ := hv.exists_rowtime t.qualifier
        obtain ⟨v, hv', htrue⟩ := hold t (by simp) hd e he hsame _ c hc hf
        have hstamp := (hv.stamped row hrow).1
        rw [hstamp, Option.some.injEq] at hv'
        rw [← hv', truth_operate_le] at htrue
        simpa using htrue

/-- The columns of both sides show the row times of their occurrences. -/
theorem shown_append (ha : Sound s ts a a') (hb : Sound s us b b')
    (hr : r.columns = a.columns ++ b.columns) : ∀ t ∈ ts ++ us, t.isDual = false →
      ∃ (i : Nat) (c : Binding), r.columns[i]? = some c ∧
        c.fits ⟨some t.qualifier, rowtimeName⟩ = true := by
  intro t ht hd
  rw [hr]
  rcases List.mem_append.mp ht with ht | ht
  · obtain ⟨i, c, hc, hf⟩ := ha.shown t ht hd
    obtain ⟨hi, -⟩ := List.getElem?_eq_some_iff.mp hc
    exact ⟨i, c, by rw [List.getElem?_append_left hi, hc], hf⟩
  · obtain ⟨i, c, hc, hf⟩ := hb.shown t ht hd
    exact ⟨a.columns.length + i, c,
      by rw [List.getElem?_append_right (by omega), Nat.add_sub_cancel_left, hc], hf⟩

theorem cross (ha : Sound s ts a a') (hb : Sound s us b b') :
    Sound s (ts ++ us) (a.cross b) (a'.cross b') := by
  refine ⟨by rw [Relation.cross, Relation.cross, ha.columns, hb.columns],
    cross_rectangular ha.width hb.width, shown_append ha hb rfl, fun row hrow hold => ?_⟩
  obtain ⟨l, hl, hrow⟩ := List.mem_flatMap.mp hrow
  obtain ⟨x, hx, rfl⟩ := List.mem_map.mp hrow
  have hlen := ha.width l hl
  exact List.mem_flatMap.mpr ⟨l, ha.rows l hl (hold.left hlen),
    List.mem_map_of_mem (hb.rows x hx (hold.right hlen))⟩

/-- The bound of a table refuses padding. -/
theorem not_holdOn_padding (ha : Sound s ts a a') (hs : s.HasAll ts)
    (ht : ∃ t ∈ ts, t.isDual = false) : ¬s.HoldOn ts a.columns a.padding := by
  intro hold
  obtain ⟨t, ht, hd⟩ := ht
  obtain ⟨e, he, hsame⟩ := hs t ht hd
  obtain ⟨i, c, hc, hf⟩ := ha.shown t ht hd
  obtain ⟨v, hv, htrue⟩ := hold t ht hd e he hsame i c hc hf
  obtain ⟨hi, -⟩ := List.getElem?_eq_some_iff.mp hc
  rw [padding, List.getElem?_replicate, if_pos hi, Option.some.injEq] at hv
  subst hv
  cases htrue

/-- A join is sound if each side that it pads has a table or is the same within bounds. -/
theorem join (ha : Sound s ts a a') (hb : Sound s us b b') (hts : s.HasAll ts) (hus : s.HasAll us)
    {k : JoinKind} {on : Option Expr} (hleft : k = .left → (∃ t ∈ us, t.isDual = false) ∨ b = b')
    (hright : k = .right → (∃ t ∈ ts, t.isDual = false) ∨ a = a')
    (h : Relation.join k on a b = .ok r) (h' : Relation.join k on a' b' = .ok r') :
    Sound s (ts ++ us) r r' := by
  have hc := columns_join h
  have hc' : r'.columns = a.columns ++ b.columns := by
    rw [columns_join h', ← ha.columns, ← hb.columns]
  refine ⟨hc.trans hc'.symm, join_rectangular ha.width hb.width h, shown_append ha hb hc,
    fun row hrow hold => ?_⟩
  rw [hc] at hold
  rw [mem_join_iff h', ← ha.columns, ← hb.columns]
  rcases (mem_join_iff h).mp hrow with ⟨l, hl, x, hx, hj, rfl⟩ | ⟨hk, l, hl, hnone, rfl⟩ |
    ⟨hk, x, hx, hnone, rfl⟩
  · have hlen := ha.width l hl
    exact Or.inl ⟨l, ha.rows l hl (hold.left hlen), x, hb.rows x hx (hold.right hlen), hj, rfl⟩
  · have hlen := ha.width l hl
    rcases hleft hk with hfirm | rfl
    · exact absurd (hold.right hlen) (hb.not_holdOn_padding hus hfirm)
    · exact Or.inr (Or.inl ⟨hk, l, ha.rows l hl (hold.left hlen), hnone, rfl⟩)
  · have hlen : a.padding.length = a.columns.length := List.length_replicate
    rcases hright hk with hfirm | rfl
    · exact absurd (hold.left hlen) (ha.not_holdOn_padding hts hfirm)
    · exact Or.inr (Or.inr ⟨hk, x, hb.rows x hx (hold.right hlen), hnone, rfl⟩)

/-- A row that satisfies a condition behind bounds satisfies the condition up to the marks. -/
theorem kept (h : Sound s ts a a') {y : Option Advance} {condition : Option Expr} {k : Nat} {row : Row}
    (hrow : row ∈ (Relation.kept
      (neverBy k ((s.restrict (TableRef.distinct ts)).bound y condition)) a).rows) :
    row ∈ (Relation.kept condition a').rows := by
  obtain ⟨hm, hp⟩ := List.mem_filter.mp hrow
  have htrue := eq_ok_of_passes hp
  rw [Marks.bound, neverBy_conjunction, holdsIn_conjunction_iff] at htrue
  simp only [List.forall_mem_append] at htrue
  obtain ⟨⟨⟨-, huppers⟩, hcondition⟩, -⟩ := htrue
  refine List.mem_filter.mpr ⟨h.rows row hm (Marks.holdOn_of_uppers (h.width row hm) huppers), ?_⟩
  apply passes_of_ok
  rw [← h.columns, ← holdsIn_toList, holdsIn_conjunction_iff]
  exact hcondition

end Sound

end Relation

/-! ## Queries -/

theorem Scoped.eq_of_no_tables {p : TableRef → Int64 → Bool} {ts : List TableRef} {full part : Relation}
    (h : Scoped p ts full part) (hts : ∀ t ∈ ts, t.isDual = true) : part = full := by
  obtain ⟨xs, hfull, hpart, hx⟩ := h.rows
  have hall : xs.filter (·.within p) = xs := by
    refine List.filter_eq_self.mpr fun x hxm => ?_
    have hstamps : x.stamps = [] := by
      have hcov := (hx x hxm).2.2
      rw [Marks.Covers, List.filter_eq_nil_iff.mpr fun t ht => by simp [hts t ht]] at hcov
      exact List.map_eq_nil_iff.mp hcov
    rw [Stamped.within, hstamps]
    rfl
  rw [hall, ← hfull] at hpart
  obtain ⟨columns, rows⟩ := part
  obtain ⟨columns', rows'⟩ := full
  rw [Relation.mk.injEq]
  exact ⟨h.columns, hpart⟩

namespace Sql

section
variable {db : Catalog} {s : Marks} {a : Option Advance}

/-- A side without tables of its own, outer joins and the advancing table is the same within bounds. -/
theorem FromItem.bounded_same (hdb : db.Valid) (hs : s.Functional) {x : FromItem}
    (hx : x.isInner = true) (hscope : ∀ t ∈ x.scope, t.isDual = true)
    (hread : ∀ y ∈ a, y.table.isIn x.inner = false) {r : Relation}
    (h : (x.bounded s a).runOn db.source = .ok r) : x.runOn (db.view s none) = .ok r := by
  have hnone : x.bounded s a = x.bounded s none := by
    cases a with
    | none => rfl
    | some y => exact (bounded_unread s y).2 x (hread y rfl)
  rw [hnone] at h
  obtain ⟨part, hp, hsc⟩ := (bounded_seen hdb hs (by simp)).2 x hx r h
  rw [idled_none.2 x] at hp
  rw [← hsc.eq_of_no_tables hscope, hp]

theorem FromItem.isFirm_cases (hdb : db.Valid) (hs : s.Functional) {x : FromItem}
    (hx : x.isFirm a = true) {r r' : Relation} (h : (x.bounded s a).runOn db.source = .ok r)
    (h' : x.runOn (db.view s none) = .ok r') : (∃ t ∈ x.scope, t.isDual = false) ∨ r = r' := by
  by_cases hscope : ∃ t ∈ x.scope, t.isDual = false
  · exact Or.inl hscope
  · have hdual : ∀ t ∈ x.scope, t.isDual = true := by
      intro t ht
      by_contra hd
      exact hscope ⟨t, ht, Bool.eq_false_iff.mpr hd⟩
    have hany : (x.scope.any fun t => !t.isDual) = false :=
      List.any_eq_false.mpr fun t ht => by simp [hdual t ht]
    rw [FromItem.isFirm, hany, Bool.false_or, Bool.and_eq_true, Bool.not_eq_true'] at hx
    have hread : ∀ y ∈ a, y.table.isIn x.inner = false := by
      rintro y rfl
      exact hx.2
    have hsame := FromItem.bounded_same hdb hs hx.1 hdual hread h
    rw [h', Except.ok.injEq] at hsame
    exact Or.inr hsame.symm

/-- A source item within bounds is sound beside the item up to the marks. -/
def FromItem.SoundIn (db : Catalog) (s : Marks) (a : Option Advance) (x : FromItem) : Prop :=
  ∀ r r', (x.bounded s a).runOn db.source = .ok r → x.runOn (db.view s none) = .ok r' →
    Relation.Sound s x.scope r r'

theorem FromItem.runListOn_sound {xs : List FromItem} (h : ∀ x ∈ xs, x.SoundIn db s a)
    {ts : List TableRef} {acc acc' r r' : Relation} (hacc : Relation.Sound s ts acc acc')
    (hr : FromItem.runListOn db.source acc (FromItem.boundedList s a xs) = .ok r)
    (hr' : FromItem.runListOn (db.view s none) acc' xs = .ok r') :
    Relation.Sound s (ts ++ FromItem.scopeList xs) r r' := by
  induction xs generalizing ts acc acc' with
  | nil =>
      rw [FromItem.boundedList, FromItem.runListOn_nil, Except.ok.injEq] at hr
      rw [FromItem.runListOn_nil, Except.ok.injEq] at hr'
      rw [← hr, ← hr', FromItem.scopeList, List.append_nil]
      exact hacc
  | cons x xs ih =>
      rw [FromItem.boundedList, FromItem.runListOn_cons] at hr
      rw [FromItem.runListOn_cons] at hr'
      obtain ⟨b, hb, hr⟩ := bind_eq_ok.mp hr
      obtain ⟨b', hb', hr'⟩ := bind_eq_ok.mp hr'
      rw [FromItem.scopeList, ← List.append_assoc]
      exact ih (fun y hy => h y (by simp [hy])) (hacc.cross (h x (by simp) b b' hb hb')) hr hr'

theorem fromSource_sound (hdb : db.Valid) (hs : s.Functional) {t : TableRef} {r r' : Relation}
    (h : Relation.fromSource db.source t = .ok r)
    (h' : Relation.fromSource (db.view s none) t = .ok r') : Relation.Sound s [t] r r' := by
  unfold Relation.fromSource Catalog.source at h
  unfold Relation.fromSource Catalog.view at h'
  cases hg : db.get? t.name with
  | some table =>
      simp only [hg, Except.ok.injEq] at h
      simp only [hg, Option.map_some, Except.ok.injEq] at h'
      subst h h'
      exact .ofTable hs (hdb.get? hg).1
  | none =>
      simp only [hg, Option.map_none] at h h'
      cases hd : t.isDual with
      | true =>
          simp only [hd, if_true, Except.ok.injEq] at h h'
          subst h h'
          exact .ofRows rfl Relation.unit_rectangular (fun _ => id) (by simp [hd])
      | false =>
          simp only [hd] at h
          cases h

/-- The rows of a sound query within bounds are rows of the query up to the marks. A branch of a union
that is emptied has none. -/
theorem bounded_sound (hdb : db.Valid) (hs : s.Functional) :
    (∀ q : Query, q.isSound a = true → s.HasAll q.occurrences → ∀ k r r',
      ((q.bounded s a).emptiedBy k).runOn db.source = .ok r → q.runOn (db.view s none) = .ok r' →
        r.columns = r'.columns ∧ ∀ row ∈ r.rows, row ∈ r'.rows) ∧
      ∀ x : FromItem, x.isSound a = true → s.HasAll x.occurrences → x.SoundIn db s a := by
  have hunit : Relation.Sound s [] Relation.unit Relation.unit :=
    .ofRows rfl Relation.unit_rectangular (fun _ => id) (by simp)
  refine Query.induct ?_ ?_ ?_ ?_ ?_ ?_ ?_
  · intro source c t ih hq hall k r r' hr hr'
    simp only [Query.isSound, Bool.and_eq_true, Bool.not_eq_true', FromItem.isSoundList_iff] at hq
    obtain ⟨⟨⟨hsource, hd⟩, hg⟩, ht⟩ := hq
    rw [Query.bounded, Query.emptiedBy_select, Query.runOn] at hr
    rw [Query.runOn] at hr'
    obtain ⟨full, hf, hr⟩ := bind_eq_ok.mp hr
    obtain ⟨full', hf', hr'⟩ := bind_eq_ok.mp hr'
    have hitems : ∀ x ∈ source, x.SoundIn db s a := fun x hx =>
      ih x hx (hsource x hx) (hall.mono fun t ht => FromItem.mem_occurrencesList_iff.mpr ⟨x, hx, ht⟩)
    have hsound := FromItem.runListOn_sound hitems hunit hf hf'
    rw [Relation.select_eq] at hr hr'
    obtain ⟨kept, hk, hr⟩ := bind_eq_ok.mp hr
    obtain ⟨kept', hk', hr'⟩ := bind_eq_ok.mp hr'
    obtain ⟨-, rfl⟩ := Relation.filtered_eq_ok_iff.mp hk
    obtain ⟨-, rfl⟩ := Relation.filtered_eq_ok_iff.mp hk'
    have hlike := Relation.Like.selectKept (c := { c with condition := _ }) hd hg ht hr
    have hlike' := Relation.Like.selectKept hd hg ht hr'
    have hcolumns : full.columns = full'.columns := hsound.columns
    refine ⟨?_, fun row hrow => ?_⟩
    · rw [hlike.columns, hlike'.columns]
      change Trace.outputColumns c.projection full.columns = Trace.outputColumns c.projection full'.columns
      rw [hcolumns]
    · obtain ⟨x, hx, rfl⟩ := List.mem_map.mp (hlike.rows.mem_iff.mp hrow)
      refine hlike'.rows.mem_iff.mpr (List.mem_map.mpr ⟨x, hsound.kept hx, ?_⟩)
      change Trace.outputRow c.projection (.ofRow full'.columns x) =
        Trace.outputRow c.projection (.ofRow full.columns x)
      rw [hcolumns]
  · intro l r all t hl hr hq hall k u u' hu hu'
    simp only [Query.isSound, Bool.and_eq_true] at hq
    obtain ⟨⟨⟨rfl, ht⟩, hql⟩, hqr⟩ := hq
    have hbranch : ∀ branch : Query, (∀ k r r', ((branch.bounded s a).emptiedBy k).runOn db.source = .ok r →
        branch.runOn (db.view s none) = .ok r' → r.columns = r'.columns ∧ ∀ row ∈ r.rows, row ∈ r'.rows) →
        ∀ (idle : Bool) v v', ((if idle then (branch.bounded s a).emptied
          else branch.bounded s a).emptiedBy k).runOn db.source = .ok v →
        branch.runOn (db.view s none) = .ok v' → v.columns = v'.columns ∧ ∀ row ∈ v.rows, row ∈ v'.rows := by
      intro branch hb idle v v' hv hv'
      cases idle with
      | true =>
          rw [if_pos rfl, Query.emptiedBy_emptied] at hv
          exact hb (k + 1) v v' hv hv'
      | false => exact hb k v v' hv hv'
    rw [Query.bounded, Query.emptiedBy_union, Query.runOn] at hu
    rw [Query.runOn] at hu'
    obtain ⟨x, hx, hu⟩ := bind_eq_ok.mp hu
    obtain ⟨y, hy, hu⟩ := bind_eq_ok.mp hu
    obtain ⟨x', hx', hu'⟩ := bind_eq_ok.mp hu'
    obtain ⟨y', hy', hu'⟩ := bind_eq_ok.mp hu'
    rw [Query.occurrences] at hall
    obtain ⟨hcx, hrx⟩ := hbranch l (hl hql (hall.mono fun t ht => by simp [ht])) _ x x' hx hx'
    obtain ⟨-, hry⟩ := hbranch r (hr hqr (hall.mono fun t ht => by simp [ht])) _ y y' hy hy'
    have hlike := Relation.Like.union ht hu
    have hlike' := Relation.Like.union ht hu'
    refine ⟨?_, fun row hrow => ?_⟩
    · rw [hlike.columns, hlike'.columns, Relation.append, Relation.append, hcx]
    · have hmem := hlike.rows.mem_iff.mp hrow
      rw [Relation.append, List.mem_append] at hmem
      refine hlike'.rows.mem_iff.mpr (List.mem_append.mpr ?_)
      exact hmem.imp (hrx row) (hry row)
  · intro q hq hsound hall k r r' hr hr'
    rw [Query.bounded, Query.emptiedBy_paren, Query.runOn] at hr
    rw [Query.runOn] at hr'
    exact hq hsound hall k r r' hr hr'
  · intro name al _ _ r r' hr hr'
    rw [FromItem.bounded, FromItem.runOn] at hr
    rw [FromItem.runOn] at hr'
    rw [FromItem.scope]
    exact fromSource_sound hdb hs hr hr'
  · intro q al hq hsound hall r r' hr hr'
    rw [FromItem.bounded, FromItem.runOn] at hr
    rw [FromItem.runOn] at hr'
    obtain ⟨v, hv, hr⟩ := bind_eq_ok.mp hr
    obtain ⟨v', hv', hr'⟩ := bind_eq_ok.mp hr'
    rw [pure_eq_ok] at hr hr'
    subst hr hr'
    obtain ⟨hc, hrows⟩ := hq hsound hall 0 v v' hv hv'
    rw [FromItem.scope]
    refine .ofRows ?_ ?_ hrows (by simp)
    · rw [Relation.qualified, Relation.qualified, hc]
    · exact Relation.qualified_rectangular (Query.runOn_rectangular (source_rectangular hdb) hv)
  · intro xs ih hsound hall r r' hr hr'
    rw [FromItem.isSound, FromItem.isSoundList_iff] at hsound
    rw [FromItem.bounded, FromItem.runOn] at hr
    rw [FromItem.runOn] at hr'
    rw [FromItem.scope]
    exact FromItem.runListOn_sound (fun x hx => ih x hx (hsound x hx)
      (hall.mono fun t ht => FromItem.mem_occurrencesList_iff.mpr ⟨x, hx, ht⟩)) hunit hr hr'
  · intro k l r on hl hr hsound hall u u' hu hu'
    simp only [FromItem.isSound, Bool.and_eq_true, Bool.or_eq_true, bne_iff_ne, ne_eq] at hsound
    obtain ⟨⟨⟨hsl, hsr⟩, hleft⟩, hright⟩ := hsound
    rw [FromItem.bounded, FromItem.runOn] at hu
    rw [FromItem.runOn] at hu'
    obtain ⟨x, hx, hu⟩ := bind_eq_ok.mp hu
    obtain ⟨y, hy, hu⟩ := bind_eq_ok.mp hu
    obtain ⟨x', hx', hu'⟩ := bind_eq_ok.mp hu'
    obtain ⟨y', hy', hu'⟩ := bind_eq_ok.mp hu'
    rw [FromItem.occurrences] at hall
    have hal : s.HasAll l.occurrences := hall.mono fun t ht => by simp [ht]
    have har : s.HasAll r.occurrences := hall.mono fun t ht => by simp [ht]
    have hscope : ∀ z : FromItem, s.HasAll z.occurrences → s.HasAll z.scope := fun z hz =>
      hz.mono fun t ht => FromItem.mem_occurrences_iff.mpr (Or.inl ht)
    rw [FromItem.scope]
    refine (hl hsl hal x x' hx hx').join (hr hsr har y y' hy hy') (hscope l hal) (hscope r har)
      (fun hk => ?_) (fun hk => ?_) hu hu'
    · exact FromItem.isFirm_cases hdb hs (hleft.resolve_left (not_not_intro hk)) hy hy'
    · exact FromItem.isFirm_cases hdb hs (hright.resolve_left (not_not_intro hk)) hx hx'

end

/-- What a sound query gave are rows that it has on the grown tables up to the marks. -/
theorem Query.Gave.sound {q : Query} {db : Catalog} {s : Marks} {a : Option Advance} {r : Relation}
    (h : q.Gave db s a r) (hq : q.RealTables) (hs : q.isSound a = true) {r' : Relation}
    (hr' : q.runOn (db.view s none) = .ok r') :
    r.columns = r'.columns ∧ ∀ row ∈ r.rows, row ∈ r'.rows := by
  obtain ⟨before, hv, htracks, hg, hr⟩ := h
  have hall : s.HasAll q.occurrences := fun t ht _ => htracks.exists_mark (hq.isIn ht)
  rw [Query.runOn_congr fun t ht => hq.view_grows htracks hg none ht] at hr'
  rw [Query.run_eq_runOn] at hr
  exact (bounded_sound hv (htracks.functional (TableRef.apart_distinct _))).1 q hs hall 0 r r' hr hr'

end Sql

namespace Run

open World Log

/-- In a run that has not failed every data query for which the query is sound has written rows of the
query on the tables up to its marks, if the query gives a result there. -/
theorem rows_sound {env : Surroundings} {q : Query} (hr : q.ReadsItself) (hq : q.RealTables)
    (he : env.Spares q.guarded) {log : Bytes} (hl : Recorded (fun _ => False) log) {sink : Sink}
    {shape : Shape} {n : Nat} {p : Progress} {w : World}
    (hrun : (steps (host env) shape q (n + 1) Run.start).run (World.start log sink) = (p, w))
    (hwell : p.Well) : ∃ h : History, h.Explains q shape sink w ∧ ∀ d ∈ h.deliveries,
      (d.marks.Agree → q.runOn (w.db.view d.marks none) = q.run (w.db.cut d.marks)) ∧
        (q.isSound d.advance = true → ∀ r, q.runOn (w.db.view d.marks none) = .ok r →
          d.result.columns = r.columns ∧ ∀ row ∈ d.result.rows, row ∈ r.rows) := by
  obtain ⟨h, hex⟩ := steps_explained ⟨he, hr.stable⟩ hl hrun hwell
  refine ⟨h, hex, fun d hd => ⟨fun ha => ?_, fun hs r hres => ?_⟩⟩
  · have htracks := (hex.of.deliveries d hd).gave.tracks
    rw [Query.run_eq_runOn]
    exact Query.runOn_congr fun t ht => view_none_eq htracks.exactly ha w.db ht
  · exact (hex.of.deliveries d hd).gave.sound hq hs hres

/-! ### Sides of an outer join -/

/-- `(SELECT v FROM t AS x) AS s`. -/
def derivedSide : FromItem :=
  .subquery (.select [.table "t" (some "x")] (.ofColumns [⟨none, "v"⟩]) .empty) (some "s")

/-- `(SELECT x.v FROM t AS x LEFT JOIN t AS y ON x.v < y.v) AS s`. -/
def paddedSide : FromItem :=
  .subquery (.select [.join .left (.table "t" (some "x")) (.table "t" (some "y"))
      (some (.binary .lt (.column ⟨some "x", "v"⟩) (.column ⟨some "y", "v"⟩)))]
    (.ofColumns [⟨some "x", "v"⟩]) .empty) (some "s")

/-- `SELECT v FROM t UNION SELECT v + 0.0 AS v FROM t AS x`: the branches give equal values that are
written differently. -/
def equalBranches : Query :=
  .union (.select [.table "t" none] (.ofColumns [⟨none, "v"⟩]) .empty)
    (.select [.table "t" (some "x")] ⟨false, [.expr (.binary .plus (.column ⟨none, "v"⟩)
      (.literal (.numeric (Decimal.ofInt 0)))) (some "v")], none, [], none⟩ .empty) false .empty

/-- `SELECT t.v, s.v FROM t JOIN (SELECT v FROM t) AS s ON TRUE WHERE 1 / (t.v - s.v + 1) >= 0`: an old
row is divided by zero beside the new one. -/
def dividing : Query :=
  let difference := Expr.binary .minus (.column ⟨some "t", "v"⟩) (.column ⟨some "s", "v"⟩)
  let quotient := Expr.binary .divide (.literal (.integer 1))
    (.binary .plus difference (.literal (.integer 1)))
  .select [.join .inner (.table "t" none)
      (.subquery (.select [.table "t" none] (.ofColumns [⟨none, "v"⟩]) .empty) (some "s"))
      (some (.literal (.boolean true)))]
    { Clauses.ofColumns [⟨some "t", "v"⟩, ⟨some "s", "v"⟩] with
      condition := some (.binary .ge quotient (.literal (.integer 0))) } .empty

theorem derivedSide_readsItself : (Query.outerJoined derivedSide .eq).ReadsItself := by
  have hinner : (Query.select [.table "t" (some "x")] (.ofColumns [⟨none, "v"⟩]) .empty).ReadsItself :=
    Query.readsItself_ofColumns (by simp) ⟨trivial, trivial⟩ rfl
  have hside : derivedSide.Stable := ⟨hinner.stable.1, rfl⟩
  exact Query.outerJoined_readsItself hside rfl (Or.inl rfl)

/-- A row comes in the first check of `SELECT t.v, s.v FROM t LEFT JOIN side ON t.v = s.v`. -/
def sideRun (side : FromItem) : Progress × World :=
  (steps (host (.adding 3 sampleAddition)) .array (.outerJoined side .eq) (3 + 1) Run.start).run
    (World.start sampleLog (.empty none))

theorem ownSideRun_eq :
    ((sideRun (.table "t" (some "s"))).1, (sideRun (.table "t" (some "s"))).2.sink.content) =
      (.running ⟨.changes ⟨[(⟨"t", none⟩, 20), (⟨"t", some "s"⟩, 20)]⟩ [],
        ⟨[(⟨"t", none⟩, 10), (⟨"t", some "s"⟩, 10)]⟩, 8, ⟨2, 3, 3⟩⟩, "[1,1]\n[2,2]\n[2,2]\n") := by
  decide +kernel

theorem rows_sound_own : (sideRun (.table "t" (some "s"))).2.sink.content = "[1,1]\n[2,2]\n[2,2]\n" ∧
    ∃ h : History, h.Explains (.outerJoined (.table "t" (some "s")) .eq) .array (.empty none)
        (sideRun (.table "t" (some "s"))).2 ∧
      ∀ d ∈ h.deliveries, ∀ r, (Query.outerJoined (.table "t" (some "s")) .eq).runOn
          ((sideRun (.table "t" (some "s"))).2.db.view d.marks none) = .ok r →
        ∀ row ∈ d.result.rows, row ∈ r.rows := by
  obtain ⟨hp, hcontent⟩ := Prod.mk.inj ownSideRun_eq
  have hreal : (Query.outerJoined (.table "t" (some "s")) .eq).RealTables := by
    unfold Query.RealTables
    decide +kernel
  have hsound : ∀ a, (Query.outerJoined (.table "t" (some "s")) .eq).isSound a = true := by
    intro a
    have hfirm : (FromItem.table "t" (some "s")).isFirm a = true := by
      have hscope : ((FromItem.table "t" (some "s")).scope.any fun t => !t.isDual) = true := by
        decide +kernel
      rw [FromItem.isFirm, hscope, Bool.true_or]
    have hitem : FromItem.isSoundList a [.join .left (.table "t" none) (.table "t" (some "s"))
        (some (.binary .eq (.column ⟨some "t", "v"⟩) (.column ⟨some "s", "v"⟩)))] = true := by
      simp [FromItem.isSoundList, FromItem.isSound, hfirm]
    rw [Query.outerJoined, Query.isSound, hitem]
    rfl
  have hrun : (steps (host (.adding 3 sampleAddition)) .array
      (.outerJoined (.table "t" (some "s")) .eq) (3 + 1) Run.start).run
        (World.start sampleLog (.empty none)) =
      ((sideRun (.table "t" (some "s"))).1, (sideRun (.table "t" (some "s"))).2) := (Prod.eta _).symm
  have hside : (FromItem.table "t" (some "s")).Stable := ⟨trivial, rfl⟩
  obtain ⟨h, hex, hall⟩ := rows_sound
    (Query.outerJoined_readsItself hside rfl (Or.inl rfl)) hreal
    (Surroundings.adding_spares 3 (sampleAddition_recorded _)) sampleLog_recorded hrun
    (by rw [hp]; intro why h; cases h)
  exact ⟨hcontent, h, hex, fun d hd r hr => ((hall d hd).2 (hsound _) r hr).2⟩

/-- An old row has no partner among the new rows of a subquery, an outer join inside a subquery loses
its padded rows, the second of two equal values is the only new one, a table that is stored under the
name `dual` gets the partner of a padded row later, and the whole query is refused where the new rows
are not. -/
theorem rows_invented :
    (Query.outerJoined derivedSide .eq).ReadsItself ∧
      (Surroundings.adding 3 sampleAddition).Spares (Query.outerJoined derivedSide .eq).guarded ∧
      Recorded (fun _ => False) sampleLog ∧
      ((sideRun derivedSide).1, (sideRun derivedSide).2.sink.content,
          (Query.outerJoined derivedSide .eq).run ((sideRun derivedSide).2.db.cut
            ⟨[(⟨"t", none⟩, 20), (⟨"t", some "x"⟩, 20)]⟩)) =
        (.running ⟨.changes ⟨[(⟨"t", none⟩, 20), (⟨"t", some "x"⟩, 20)]⟩ [],
          ⟨[(⟨"t", none⟩, 10), (⟨"t", some "x"⟩, 10)]⟩, 8, ⟨2, 3, 4⟩⟩,
          "[1,1]\n[2,2]\n[1,null]\n[2,2]\n",
          .ok ⟨[⟨none, "v"⟩, ⟨none, "v"⟩], [[.integer 1, .integer 1], [.integer 2, .integer 2]]⟩) ∧
      (let db := database (sampleLog ++ sampleAddition)
      let marks : Marks := ⟨[(⟨"t", none⟩, 20), (⟨"t", some "x"⟩, 20), (⟨"t", some "y"⟩, 20)]⟩
      (((Query.outerJoined paddedSide .eq).bounded marks (some ⟨⟨"t", none⟩, 10⟩)).run db,
          (Query.outerJoined paddedSide .eq).run (db.cut marks)) =
        (.ok ⟨[⟨none, "v"⟩, ⟨none, "v"⟩], [[.integer 2, .null]]⟩,
          .ok ⟨[⟨none, "v"⟩, ⟨none, "v"⟩], [[.integer 1, .integer 1], [.integer 2, .integer 2]]⟩)) ∧
      (let db := database (sampleLog ++ sampleAddition)
      let marks : Marks := ⟨[(⟨"t", none⟩, 20), (⟨"t", some "x"⟩, 20)]⟩
      ((equalBranches.bounded marks (some ⟨⟨"t", some "x"⟩, 10⟩)).run db,
          equalBranches.run (db.cut marks)) =
        (.ok ⟨[⟨none, "v"⟩], [[.numeric (Decimal.ofInt 2)]]⟩,
          .ok ⟨[⟨none, "v"⟩], [[.integer 1], [.integer 2]]⟩)) ∧
      (let q := Query.outerJoined (.table "dual" (some "s")) .eq
      let marks : Marks := ⟨[(⟨"t", none⟩, 20)]⟩
      ((q.bounded marks (some ⟨⟨"t", none⟩, 10⟩)).run (database (dualLog ++ sampleAddition)),
          q.run ((database (dualLog ++ dualAddition)).cut marks)) =
        (.ok ⟨[⟨none, "v"⟩, ⟨none, "v"⟩], [[.integer 2, .null]]⟩,
          .ok ⟨[⟨none, "v"⟩, ⟨none, "v"⟩], [[.integer 1, .integer 1], [.integer 2, .integer 2]]⟩)) ∧
      (let db := database (sampleLog ++ sampleAddition)
      let marks : Marks := ⟨[(⟨"t", none⟩, 20)]⟩
      ((dividing.bounded marks (some ⟨⟨"t", none⟩, 10⟩)).run db, dividing.run (db.cut marks)) =
        (.ok ⟨[⟨none, "v"⟩, ⟨none, "v"⟩], [[.integer 2, .integer 2]]⟩,
          .error (.typeMismatch .divisionByZero))) :=
  ⟨derivedSide_readsItself, Surroundings.adding_spares 3 (sampleAddition_recorded _),
    sampleLog_recorded, by decide +kernel, by decide +kernel, by decide +kernel, by decide +kernel,
    by decide +kernel⟩

end Run

end Rowtime
