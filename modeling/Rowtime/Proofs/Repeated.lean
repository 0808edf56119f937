import Rowtime.Proofs.Orderly

/-!
# An occurrence named twice in one source

A source that names an occurrence twice has two columns that its bounds could mean. A
bound that is evaluated fails then, so a query within bounds that gives a result has no
row in its window that reaches the bounds: the source has no rows up to the marks.
-/
namespace Rowtime

open Text Sql

/-! ## References that fit -/

theorem positionsFrom_length (c : ColumnRef) (k : Nat) (bs : List Binding) :
    (positionsFrom c k bs).length = (bs.filter (·.fits c)).length := by
  induction bs generalizing k with
  | nil => rfl
  | cons b bs ih =>
      rw [positionsFrom, List.filter_cons]
      split
      · rw [List.length_cons, List.length_cons, ih]
      · exact ih (k + 1)

/-- A reference that is resolved fits one column. -/
theorem fits_once {bs : List Binding} {c : ColumnRef} (h : Succeeds (resolve bs c)) :
    (bs.filter (·.fits c)).length = 1 := by
  obtain ⟨i, hi⟩ := h
  rw [← positionsFrom_length c 0]
  unfold resolve at hi
  split at hi
  · cases hi
  · rename_i j hj
    rw [hj]
    rfl
  · cases hi

/-- An occurrence that equals another one in its list. -/
theorem exists_twice {ts : List TableRef} (h : ¬TableRef.Apart ts) :
    ∃ t ∈ ts, 2 ≤ (ts.filter fun u => u.same t).length := by
  induction ts with
  | nil => exact absurd .nil h
  | cons x ts ih =>
      by_cases hx : ∀ u ∈ ts, x.same u = false
      · obtain ⟨t, ht, hlen⟩ := ih fun hts => h (List.pairwise_cons.mpr ⟨hx, hts⟩)
        exact ⟨t, List.mem_cons_of_mem _ ht,
          Nat.le_trans hlen ((List.sublist_cons_self x ts).filter _).length_le⟩
      · simp only [not_forall, Bool.not_eq_false] at hx
        obtain ⟨u, hu, hs⟩ := hx
        refine ⟨x, List.mem_cons_self, ?_⟩
        rw [List.filter_cons, TableRef.same_refl, if_pos rfl, List.length_cons]
        have hmem : u ∈ ts.filter fun v => v.same x :=
          List.mem_filter.mpr ⟨hu, TableRef.same_symm hs⟩
        have := List.length_pos_of_mem hmem
        omega

/-- Every table of the source has a row time. -/
def Source.HasRowtimes (src : Source) : Prop :=
  ∀ t table, src t = some table → ∃ c ∈ table.columns, c.isRowtime = true

theorem Catalog.Valid.view_hasRowtimes {db : Catalog} (h : db.Valid) (s : Marks) (a : Option Advance) :
    (db.view s a).HasRowtimes := by
  intro t table ht
  obtain ⟨table', ht', rfl⟩ := Option.map_eq_some_iff.mp ht
  obtain ⟨c, hc, hr, -⟩ := (h.get? ht').1.rowtime
  refine ⟨c, ?_, hr⟩
  split
  · exact List.mem_of_getElem? hc
  · exact List.mem_of_getElem? hc

namespace Sql

/-- The row time of an occurrence. -/
def rowtimeOf (t : TableRef) : ColumnRef := ⟨some t.qualifier, rowtimeName⟩

/-- A source has a row time column for each time that it names an occurrence. -/
theorem FromItem.columns_fit {src : Source} (hsrc : src.HasRowtimes) {u : TableRef}
    (hu : u.isDual = false) (x : FromItem) :
    ∀ r, x.runOn src = .ok r → (x.scope.filter fun t => t.same u).length ≤
      (r.columns.filter (·.fits (rowtimeOf u))).length := by
  have hlist : ∀ xs : List FromItem,
      (∀ x ∈ xs, ∀ r, x.runOn src = .ok r → (x.scope.filter fun t => t.same u).length ≤
        (r.columns.filter (·.fits (rowtimeOf u))).length) →
      ∀ acc r, FromItem.runListOn src acc xs = .ok r →
        ((FromItem.scopeList xs).filter fun t => t.same u).length ≤
          (r.columns.filter (·.fits (rowtimeOf u))).length := by
    intro xs ih
    have hgen : ∀ acc r, FromItem.runListOn src acc xs = .ok r →
        (acc.columns.filter (·.fits (rowtimeOf u))).length +
          ((FromItem.scopeList xs).filter fun t => t.same u).length ≤
            (r.columns.filter (·.fits (rowtimeOf u))).length := by
      induction xs with
      | nil =>
          intro acc r h
          rw [FromItem.runListOn_nil, Except.ok.injEq] at h
          rw [h]
          exact Nat.le_refl _
      | cons x xs hxs =>
          intro acc r h
          rw [FromItem.runListOn_cons] at h
          obtain ⟨b, hb, h⟩ := bind_eq_ok.mp h
          have hx := ih x (by simp) b hb
          have hrest := hxs (fun y hy => ih y (by simp [hy])) _ r h
          rw [Relation.cross, List.filter_append, List.length_append] at hrest
          rw [FromItem.scopeList, List.filter_append, List.length_append]
          omega
    intro acc r h
    exact Nat.le_trans (Nat.le_add_left _ _) (hgen acc r h)
  refine (Query.induct (P := fun _ => True)
    (S := fun x => ∀ r, x.runOn src = .ok r → (x.scope.filter fun t => t.same u).length ≤
      (r.columns.filter (·.fits (rowtimeOf u))).length)
    (fun _ _ _ _ => trivial) (fun _ _ _ _ _ _ => trivial) (fun _ _ => trivial) ?_ ?_ ?_ ?_).2 x
  · intro name a r h
    rw [FromItem.scope, List.filter_cons]
    cases hs : (TableRef.mk name a).same u with
    | false => exact Nat.zero_le _
    | true =>
        have hd : (TableRef.mk name a).isDual = false := by rw [TableRef.isDual_of_same hs, hu]
        rw [FromItem.runOn, Relation.fromSource] at h
        cases ht : src ⟨name, a⟩ with
        | none =>
            rw [ht, hd] at h
            cases h
        | some table =>
            rw [ht, Except.ok.injEq] at h
            obtain ⟨c, hc, hr⟩ := hsrc _ _ ht
            have hmem : (⟨some (TableRef.mk name a).qualifier, c.name⟩ : Binding) ∈
                r.columns.filter (·.fits (rowtimeOf u)) := by
              rw [List.mem_filter, ← h]
              refine ⟨List.mem_map.mpr ⟨c, hc, rfl⟩, ?_⟩
              rw [rowtimeOf, ← fits_congr hs]
              simpa [Binding.fits, Binding.hasQualifier, Column.isRowtime] using hr
            exact List.length_pos_of_mem hmem
  · intro q a _ r _
    exact Nat.zero_le _
  · intro xs ih r h
    rw [FromItem.runOn] at h
    rw [FromItem.scope]
    exact hlist xs ih _ r h
  · intro k l r on hl hr b h
    rw [FromItem.runOn] at h
    obtain ⟨x, hx, h⟩ := bind_eq_ok.mp h
    obtain ⟨y, hy, h⟩ := bind_eq_ok.mp h
    rw [Relation.join_eq] at h
    obtain ⟨parts, -, h⟩ := bind_eq_ok.mp h
    rw [Except.ok.injEq] at h
    have := hl x hx
    have := hr y hy
    rw [FromItem.scope, ← h, List.filter_append, List.filter_append, List.length_append,
      List.length_append]
    omega

/-! ## A table that is not read in the subqueries -/

/-- Bounds for a table that a query does not read are bounds without it. -/
theorem bounded_unread (s : Marks) (y : Advance) :
    (∀ q : Query, y.table.isIn q.occurrences = false → q.bounded s (some y) = q.bounded s none) ∧
      ∀ x : FromItem, y.table.isIn x.inner = false → x.bounded s (some y) = x.bounded s none := by
  have hlist : ∀ xs : List FromItem,
      (∀ x ∈ xs, y.table.isIn x.inner = false → x.bounded s (some y) = x.bounded s none) →
      y.table.isIn (FromItem.innerList xs) = false →
      FromItem.boundedList s (some y) xs = FromItem.boundedList s none xs := by
    intro xs ih h
    induction xs with
    | nil => rw [FromItem.boundedList, FromItem.boundedList]
    | cons x xs hxs =>
        rw [FromItem.innerList, TableRef.isIn_append, Bool.or_eq_false_iff] at h
        rw [FromItem.boundedList, FromItem.boundedList, ih x (by simp) h.1,
          hxs (fun z hz => ih z (by simp [hz])) h.2]
  have hsub : ∀ {ts us : List TableRef}, (∀ t ∈ ts, t ∈ us) → y.table.isIn us = false →
      y.table.isIn ts = false := by
    intro ts us hts hus
    rw [Bool.eq_false_iff, ne_eq, TableRef.isIn_iff] at hus ⊢
    rintro ⟨t, ht, hs⟩
    exact hus ⟨t, hts t ht, hs⟩
  refine Query.induct ?_ ?_ ?_ ?_ ?_ ?_ ?_
  · intro source c t ih h
    rw [Query.occurrences] at h
    have hinner := hlist source ih
      (hsub (fun t ht => FromItem.mem_occurrencesList.mpr (Or.inr ht)) h)
    have hscope := hsub (fun t ht => FromItem.mem_occurrencesList.mpr (Or.inl ht)) h
    have hnone : ((s.restrict (scopeTables source)).get? y.table).isSome = false := by
      rw [Bool.eq_false_iff, ne_eq, Marks.get?_isSome_iff]
      rintro ⟨e, he, hs⟩
      have hin := (Marks.mem_restrict.mp he).2
      rw [TableRef.isIn_congr hs, scopeTables, TableRef.isIn_distinct, hscope] at hin
      cases hin
    have hlower : (s.restrict (scopeTables source)).lower (some y) = [] := by
      rw [Marks.lower, hnone]
      rfl
    rw [Query.bounded, Query.bounded, hinner, Marks.bound, Marks.bound, hlower]
    rfl
  · intro l r all t hl hr h
    have hreads : (Query.union l r all t).reads y.table = false := by
      rw [Query.reads, Query.tables, TableRef.isIn_distinct, h]
      rfl
    rw [Query.occurrences, TableRef.isIn_append, Bool.or_eq_false_iff] at h
    have hidle : ∀ branch, isIdle (some y) (.union l r all t) branch = false := by
      intro branch
      rw [isIdle, hreads]
      rfl
    rw [Query.bounded, Query.bounded, hl h.1, hr h.2, hidle, hidle]
    rfl
  · intro q hq h
    rw [Query.occurrences] at h
    rw [Query.bounded, Query.bounded, hq h]
  · intro name al _
    rw [FromItem.bounded, FromItem.bounded]
  · intro q al hq h
    rw [FromItem.inner] at h
    rw [FromItem.bounded, FromItem.bounded, hq h]
  · intro xs ih h
    rw [FromItem.inner] at h
    rw [FromItem.bounded, FromItem.bounded, hlist xs ih h]
  · intro k l r on hl hr h
    rw [FromItem.inner, TableRef.isIn_append, Bool.or_eq_false_iff] at h
    rw [FromItem.bounded, FromItem.bounded, hl h.1, hr h.2]

end Sql

/-! ## Bounds that are evaluated -/

/-- The first condition of a conjunction is evaluated. -/
theorem succeeds_first {e : Expr} {es : List Expr} {ctx : Context}
    (h : Succeeds (holdsIn (conjunction (e :: es)) ctx)) : Succeeds (e.truthAt ctx) := by
  obtain ⟨b, hb⟩ := h
  cases ht : e.truthAt ctx with
  | ok t => exact ⟨t, rfl⟩
  | error why =>
      change (es.foldl Expr.and e).holds ctx = .ok b at hb
      rw [holds_eq, truthAt_foldl_error ht] at hb
      cases hb

/-- Every condition is evaluated that stands behind true ones. -/
theorem succeeds_of_decided {ctx : Context} {es : List Expr} {vs : List Bool}
    (hd : Decided ctx es vs) (hv : vs.all id = true) {rest : List Expr}
    (h : Succeeds (holdsIn (conjunction (es ++ rest)) ctx)) : ∀ e ∈ es, Succeeds (e.truthAt ctx) := by
  induction hd with
  | nil => exact fun e he => absurd he List.not_mem_nil
  | @cons e v es vs he hd ih =>
      rw [List.all_cons, Bool.and_eq_true, id_eq] at hv
      obtain ⟨t, ht⟩ := succeeds_first h
      rw [List.forall_mem_cons]
      refine ⟨⟨t, ht⟩, ih hv.2 ?_⟩
      cases he t ht
      rw [hv.1] at ht
      rwa [List.cons_append, holdsIn_conjunction_true ht] at h

/-- A bound is evaluated only where its row time is one column. -/
theorem fits_of_bound {columns : List Binding} {row : Row} {t : TableRef} {op : BinaryOp} {mark : Int64}
    (hop : op = .gt ∨ op = .le) (h : Succeeds ((t.bound op mark).truthAt (.ofRow columns row))) :
    (columns.filter (·.fits (rowtimeOf t))).length = 1 := by
  obtain ⟨truth, h⟩ := h
  unfold TableRef.bound Expr.truthAt at h
  obtain ⟨w, hw, -⟩ := bind_eq_ok.mp h
  have hsplit : ∃ v, (Expr.column (rowtimeOf t)).eval (.ofRow columns row) = .ok v := by
    rcases hop with rfl | rfl <;> rw [Expr.eval] at hw <;> first
      | exact (bind_eq_ok.mp hw).imp fun v hv => hv.1
      | simp
  obtain ⟨v, hv⟩ := hsplit
  rw [Expr.eval] at hv
  obtain ⟨j, hj, -⟩ := bind_eq_ok.mp hv
  exact fits_once ⟨j, hj⟩

namespace Sql

/-- A SELECT within bounds that gives a result, though its source names an occurrence twice, has no
source rows up to the marks. The bounds are upper ones, or the table that advances is that
occurrence and is not read in a subquery. -/
theorem repeated_empty {db : Catalog} (hdb : db.Valid) {s : Marks} (hs : s.Functional)
    {a : Option Advance} {source : List FromItem} {c : Clauses} {tail : Tail}
    (hi : FromItem.isInnerList source = true) {u : TableRef} (hd : u.isDual = false)
    (hu : u ∈ FromItem.scopeList source)
    (htwice : 2 ≤ ((FromItem.scopeList source).filter fun t => t.same u).length)
    (hm : (s.get? u).isSome = true) (ha : ∀ y ∈ a, y.table.same u = true)
    (hinner : u.isIn (FromItem.innerList source) = false) {r : Relation}
    (h : ((Query.select source c tail).bounded s a).runOn db.source = .ok r) :
    ∃ part, FromItem.runListOn (db.view s none) .unit source = .ok part ∧ part.rows = [] := by
  have hlist : FromItem.boundedList s a source = FromItem.boundedList s none source := by
    cases a with
    | none => rfl
    | some y =>
        have hparen := (bounded_unread s y).2 (.paren source) (by
          rw [FromItem.inner, TableRef.isIn_congr (ha y rfl), hinner])
        rw [FromItem.bounded, FromItem.bounded, FromItem.paren.injEq] at hparen
        exact hparen
  rw [Query.bounded, hlist, Query.runOn] at h
  obtain ⟨full, hfull, h⟩ := bind_eq_ok.mp h
  rw [Relation.select_eq] at h
  obtain ⟨kept, hk, -⟩ := bind_eq_ok.mp h
  obtain ⟨heval, -⟩ := Relation.filtered_eq_ok_iff.mp hk
  rw [FromItem.isInnerList_iff] at hi
  have hseen := (bounded_seen hdb hs (a := none) (by simp)).2
  have hunit : Scoped (s.admits none) [] Relation.unit Relation.unit :=
    .plain rfl Relation.unit_rectangular
  obtain ⟨part, hpart, hscoped⟩ :=
    FromItem.runListOn_seen (fun x hx => hseen x (hi x hx)) hunit hfull
  rw [FromItem.idledList_eq, List.map_congr_left fun x _ => idled_none.2 x, List.map_id'] at hpart
  rw [List.nil_append] at hscoped
  obtain ⟨xs, hfx, hpx, hx⟩ := hscoped.rows
  refine ⟨part, hpart, ?_⟩
  rw [List.eq_nil_iff_forall_not_mem]
  intro row hrow
  rw [hpx] at hrow
  obtain ⟨x, hxm, -⟩ := List.mem_map.mp hrow
  obtain ⟨hxm, hw⟩ := List.mem_filter.mp hxm
  obtain ⟨-, hloc, hcov⟩ := hx x hxm
  have hsucc := heval x.row (by rw [hfx]; exact List.mem_map_of_mem hxm)
  -- the bound of the occurrence is among those that are evaluated on this row
  have hbound : ∃ (t : TableRef) (op : BinaryOp) (mark : Int64), t.same u = true ∧ (op = .gt ∨ op = .le) ∧
      Succeeds ((t.bound op mark).truthAt (.ofRow full.columns x.row)) := by
    obtain ⟨e, he, hes⟩ := Marks.get?_isSome_iff.mp hm
    have hin : e ∈ (s.restrict (scopeTables source)).entries := by
      refine Marks.mem_restrict.mpr ⟨he, ?_⟩
      rw [TableRef.isIn_congr hes, scopeTables, TableRef.isIn_distinct, TableRef.isIn_of_mem hu, hd]
      rfl
    cases a with
    | none =>
        have htruths := Marks.truths_iff_within hs (a := none) (by simp) hcov
        rw [hw] at htruths
        refine ⟨e.1, .le, e.2, hes, Or.inr rfl, ?_⟩
        refine succeeds_of_decided (Marks.decided_bounds (s := s) (a := none) hloc hcov) htruths hsucc
          _ ?_
        exact List.mem_append_right _ (List.mem_map_of_mem hin)
    | some y =>
        have hsome : ((s.restrict (scopeTables source)).get? y.table).isSome = true :=
          Marks.get?_isSome_iff.mpr
            ⟨e, hin, TableRef.same_trans hes (TableRef.same_symm (ha y rfl))⟩
        refine ⟨y.table, .gt, y.former, ha y rfl, Or.inl rfl, ?_⟩
        simp only [Marks.bound, Marks.lower, hsome, if_true] at hsucc
        exact succeeds_first hsucc
  obtain ⟨t, op, mark, ht, hop, hb⟩ := hbound
  have honce := fits_of_bound hop hb
  have hfits := FromItem.columns_fit (hdb.view_hasRowtimes s none) (u := t)
    (by rw [TableRef.isDual_of_same ht, hd]) (.paren source) part (by rw [FromItem.runOn, hpart])
  rw [FromItem.scope, hscoped.columns, honce] at hfits
  have hsame : ((FromItem.scopeList source).filter fun v => v.same t) =
      (FromItem.scopeList source).filter fun v => v.same u :=
    List.filter_congr fun v _ => TableRef.same_congr_right ht v
  rw [hsame] at hfits
  omega

end Sql

end Rowtime
