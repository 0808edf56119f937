import Rowtime.Proofs.Rectangles
import Rowtime.Proofs.Windows

/-!
# The query within bounds is the query through windows

A query within bounds filters behind its joins, a query over a view of the
catalog filters its tables. Without outer joins both give the same: the source of
a SELECT over the catalog has the rows of the source over the view, in the same
order, and besides these only rows out of the windows, which the bounds refuse.
What the query over the view can fail on, the bounded one fails on as well.

A union branch that is emptied stays emptied over the view, so the statement is
about queries that were emptied any number of times.
-/
namespace Rowtime

open Sql

namespace Sql

mutual

/-- Whether all joins are inner or cross joins. -/
def Query.isInner : Query → Bool
  | .select source _ _ => FromItem.isInnerList source
  | .union l r _ _ => l.isInner && r.isInner
  | .paren q => q.isInner

/-- Whether all joins in a source item are inner or cross joins. -/
def FromItem.isInner : FromItem → Bool
  | .table _ _ => true
  | .subquery q _ => q.isInner
  | .paren items => FromItem.isInnerList items
  | .join k l r _ => (k == .inner || k == .cross) && l.isInner && r.isInner

/-- Whether all joins in a list of source items are inner or cross joins. -/
def FromItem.isInnerList : List FromItem → Bool
  | [] => true
  | x :: r => x.isInner && FromItem.isInnerList r

end

mutual

/-- The query with the union branches emptied that have nothing new to offer. -/
def Query.idled (a : Option Advance) : Query → Query
  | .select source c t => .select (FromItem.idledList a source) c t
  | .union l r all t =>
    let l' := Query.idled a l
    let r' := Query.idled a r
    .union (if isIdle a (.union l r all t) l then l'.emptied else l')
      (if isIdle a (.union l r all t) r then r'.emptied else r') all t
  | .paren q => .paren (Query.idled a q)

/-- The source item with idle union branches emptied. -/
def FromItem.idled (a : Option Advance) : FromItem → FromItem
  | .table name al => .table name al
  | .subquery q al => .subquery (Query.idled a q) al
  | .paren items => .paren (FromItem.idledList a items)
  | .join k l r on => .join k (FromItem.idled a l) (FromItem.idled a r) on

/-- The source items with idle union branches emptied. -/
def FromItem.idledList (a : Option Advance) : List FromItem → List FromItem
  | [] => []
  | x :: r => FromItem.idled a x :: FromItem.idledList a r

end

theorem FromItem.idledList_eq (a : Option Advance) (xs : List FromItem) :
    FromItem.idledList a xs = xs.map (FromItem.idled a) := by
  induction xs with
  | nil => rw [FromItem.idledList, List.map_nil]
  | cons x xs ih => rw [FromItem.idledList, List.map_cons, ih]

theorem FromItem.boundedList_eq (s : Marks) (a : Option Advance) (xs : List FromItem) :
    FromItem.boundedList s a xs = xs.map (FromItem.bounded s a) := by
  induction xs with
  | nil => rw [FromItem.boundedList, List.map_nil]
  | cons x xs ih => rw [FromItem.boundedList, List.map_cons, ih]

theorem FromItem.isInnerList_iff {xs : List FromItem} :
    FromItem.isInnerList xs = true ↔ ∀ x ∈ xs, x.isInner = true := by
  induction xs with
  | nil => simp [FromItem.isInnerList]
  | cons x xs ih => simp [FromItem.isInnerList, ih]

/-- When nothing advances, no branch is emptied. -/
theorem idled_none : (∀ q : Query, q.idled none = q) ∧ ∀ x : FromItem, x.idled none = x := by
  have hlist : ∀ xs : List FromItem, (∀ x ∈ xs, x.idled none = x) →
      FromItem.idledList none xs = xs := by
    intro xs ih
    rw [FromItem.idledList_eq]
    exact (List.map_congr_left ih).trans (List.map_id' xs)
  refine Query.induct ?_ ?_ ?_ ?_ ?_ ?_ ?_
  · intro source c t ih
    rw [Query.idled, hlist source ih]
  · intro l r all t hl hr
    rw [Query.idled, hl, hr]
    rfl
  · intro q hq
    rw [Query.idled, hq]
  · intro name al
    rw [FromItem.idled]
  · intro q al hq
    rw [FromItem.idled, hq]
  · intro xs ih
    rw [FromItem.idled, hlist xs ih]
  · intro k l r on hl hr
    rw [FromItem.idled, hl, hr]

/-! ## Emptied queries -/

/-- The query emptied a number of times. -/
def Query.emptiedBy : Nat → Query → Query
  | 0, q => q
  | k + 1, q => (q.emptiedBy k).emptied

/-- A condition made unsatisfiable a number of times. -/
def neverBy (k : Nat) (condition : Option Expr) : Option Expr :=
  conjunction (condition.toList ++ List.replicate k (.literal (.boolean false)))

theorem conjunction_concat (es : List Expr) (e : Expr) :
    conjunction (es ++ [e]) = some (match conjunction es with
      | none => e
      | some c => c.and e) := by
  cases es with
  | nil => rfl
  | cons x es => simp [conjunction, List.foldl_append]

@[simp] theorem conjunction_toList (condition : Option Expr) :
    conjunction condition.toList = condition := by
  cases condition <;> rfl

theorem neverBy_zero (condition : Option Expr) : neverBy 0 condition = condition := by
  simp [neverBy]

theorem neverBy_succ (k : Nat) (condition : Option Expr) :
    neverBy (k + 1) condition = some (never (neverBy k condition)) := by
  unfold neverBy
  rw [List.replicate_succ', ← List.append_assoc, conjunction_concat]
  cases conjunction (condition.toList ++ List.replicate k (.literal (.boolean false))) <;> rfl

theorem neverBy_conjunction (k : Nat) (es : List Expr) :
    neverBy k (conjunction es) =
      conjunction (es ++ List.replicate k (.literal (.boolean false))) := by
  induction k with
  | zero => rw [neverBy_zero, List.replicate_zero, List.append_nil]
  | succ k ih =>
      rw [neverBy_succ, ih, List.replicate_succ', ← List.append_assoc, conjunction_concat]
      cases conjunction (es ++ List.replicate k (.literal (.boolean false))) <;> rfl

theorem Query.emptiedBy_select (k : Nat) (source : List FromItem) (c : Clauses) (t : Tail) :
    Query.emptiedBy k (.select source c t) =
      .select source { c with condition := neverBy k c.condition } t := by
  induction k with
  | zero => rw [neverBy_zero]; rfl
  | succ k ih => rw [Query.emptiedBy, ih, Query.emptied, neverBy_succ]

theorem Query.emptiedBy_union (k : Nat) (l r : Query) (all : Bool) (t : Tail) :
    Query.emptiedBy k (.union l r all t) = .union (l.emptiedBy k) (r.emptiedBy k) all t := by
  induction k with
  | zero => rfl
  | succ k ih => rw [Query.emptiedBy, ih, Query.emptied]; rfl

theorem Query.emptiedBy_paren (k : Nat) (q : Query) :
    Query.emptiedBy k (.paren q) = .paren (q.emptiedBy k) := by
  induction k with
  | zero => rfl
  | succ k ih => rw [Query.emptiedBy, ih, Query.emptied]; rfl

theorem Query.emptiedBy_emptied (k : Nat) (q : Query) :
    q.emptied.emptiedBy k = q.emptiedBy (k + 1) := by
  induction k with
  | zero => rfl
  | succ k ih => rw [Query.emptiedBy, ih]; rfl

theorem Query.occurrences_emptied (q : Query) : q.emptied.occurrences = q.occurrences := by
  refine (Query.induct (P := fun q => q.emptied.occurrences = q.occurrences) (S := fun _ => True)
    (fun _ _ _ _ => rfl) ?_ ?_ (fun _ _ => trivial) (fun _ _ _ => trivial) (fun _ _ => trivial)
    (fun _ _ _ _ _ _ => trivial)).1 q
  · intro l r all t hl hr
    rw [Query.emptied, Query.occurrences, Query.occurrences, hl, hr]
  · intro q hq
    rw [Query.emptied, Query.occurrences, Query.occurrences, hq]

/-- Emptying idle branches leaves the occurrences alone. -/
theorem occurrences_idled (a : Option Advance) :
    (∀ q : Query, (q.idled a).occurrences = q.occurrences) ∧
      ∀ x : FromItem, (x.idled a).occurrences = x.occurrences := by
  have hlist : ∀ xs : List FromItem, (∀ x ∈ xs, (x.idled a).occurrences = x.occurrences) →
      FromItem.occurrencesList (FromItem.idledList a xs) = FromItem.occurrencesList xs := by
    intro xs ih
    induction xs with
    | nil => rw [FromItem.idledList]
    | cons x xs hxs =>
        rw [FromItem.idledList, FromItem.occurrencesList, FromItem.occurrencesList, ih x (by simp),
          hxs fun y hy => ih y (by simp [hy])]
  refine Query.induct ?_ ?_ ?_ ?_ ?_ ?_ ?_
  · intro source c t ih
    rw [Query.idled, Query.occurrences, Query.occurrences, hlist source ih]
  · intro l r all t hl hr
    have hbranch : ∀ (idle : Bool) (branch : Query), branch.occurrences =
        (if idle then branch.emptied else branch).occurrences := by
      intro idle branch
      cases idle with
      | true => rw [if_pos rfl, Query.occurrences_emptied]
      | false => rfl
    rw [Query.idled, Query.occurrences, Query.occurrences, ← hbranch, ← hbranch, hl, hr]
  · intro q hq
    rw [Query.idled, Query.occurrences, Query.occurrences, hq]
  · intro name al
    rw [FromItem.idled]
  · intro q al hq
    rw [FromItem.idled, FromItem.occurrences, FromItem.occurrences, hq]
  · intro xs ih
    rw [FromItem.idled, FromItem.occurrences, FromItem.occurrences, hlist xs ih]
  · intro k l r on hl hr
    rw [FromItem.idled, FromItem.occurrences, FromItem.occurrences, hl, hr]

end Sql

/-! ## Joins and conditions -/

namespace Relation

theorem filterM_append {α : Type} (test : α → Except Fault Bool) (xs ys : List α) :
    filterM test (xs ++ ys) =
      (filterM test xs >>= fun as => filterM test ys >>= fun bs => .ok (as ++ bs)) := by
  induction xs with
  | nil =>
      change filterM test ys = (filterM test ys >>= fun bs => .ok bs)
      cases filterM test ys <;> rfl
  | cons x xs ih =>
      rw [List.cons_append, filterM, filterM, ih]
      cases test x with
      | error e => rfl
      | ok b =>
          simp only [ok_bind]
          cases filterM test xs with
          | error e => rfl
          | ok as =>
              simp only [ok_bind]
              cases filterM test ys with
              | error e => rfl
              | ok bs => cases b <;> rfl

theorem filterM_map {α β : Type} (f : α → β) (test : β → Except Fault Bool) (xs : List α) :
    filterM test (xs.map f) =
      (filterM (fun x => test (f x)) xs >>= fun as => .ok (as.map f)) := by
  induction xs with
  | nil => rfl
  | cons x xs ih =>
      rw [List.map_cons, filterM, filterM, ih]
      cases test (f x) with
      | error e => rfl
      | ok b =>
          simp only [ok_bind]
          cases filterM (fun x => test (f x)) xs with
          | error e => rfl
          | ok as => cases b <;> rfl

theorem joins_eq (columns : List Binding) (on : Option Expr) (l r : Row) :
    joins columns on l r = holdsIn on (.ofRow columns (l ++ r)) := by
  cases on <;> rfl

theorem filtered_eq (condition : Option Expr) (source : Relation) :
    filtered condition source =
      (filterM (fun row => holdsIn condition (.ofRow source.columns row)) source.rows >>= fun rows =>
        .ok ⟨source.columns, rows⟩) := by
  cases condition with
  | none =>
      have hall : ∀ rows : List Row, filterM (fun _ => .ok true) rows = .ok rows := by
        intro rows
        induction rows with
        | nil => rfl
        | cons row rows ih => rw [filterM, ih]; rfl
      change .ok source = (filterM (fun _ => .ok true) source.rows >>= _)
      rw [hall]
      rfl
  | some w => rfl

/-- The rows on which a condition holds. -/
def kept (condition : Option Expr) (source : Relation) : Relation :=
  ⟨source.columns,
    source.rows.filter (passes fun row => holdsIn condition (.ofRow source.columns row))⟩

theorem filtered_eq_ok_iff {condition : Option Expr} {source r : Relation} :
    filtered condition source = .ok r ↔
      (∀ row ∈ source.rows, Succeeds (holdsIn condition (.ofRow source.columns row))) ∧
        r = kept condition source := by
  rw [filtered_eq]
  simp only [bind_eq_ok, filterM_eq_ok_iff, Except.ok.injEq]
  constructor
  · rintro ⟨rows, ⟨hs, rfl⟩, rfl⟩
    exact ⟨hs, rfl⟩
  · rintro ⟨hs, rfl⟩
    exact ⟨_, ⟨hs, rfl⟩, rfl⟩

/-- An inner join is a product under a condition. -/
theorem join_inner {kind : JoinKind} (hk : (kind == .inner || kind == .cross) = true)
    (on : Option Expr) (a b : Relation) : join kind on a b = filtered on (a.cross b) := by
  have hleft : (kind == .left) = false := by cases kind <;> simp_all
  have hright : (kind == .right) = false := by cases kind <;> simp_all
  rw [join_eq, filtered_eq, joinParts, hright]
  simp only [Bool.false_eq_true, if_false]
  have hrows : ∀ as : List Row,
      (collect (joinRow (a.columns ++ b.columns) on kind b.columns.length b.rows) as >>=
        fun parts => (.ok parts.flatten : Except Fault (List Row))) =
      filterM (fun row => holdsIn on (.ofRow (a.columns ++ b.columns) row))
        (as.flatMap fun l => b.rows.map fun r => l ++ r) := by
    intro as
    induction as with
    | nil => rfl
    | cons l as ih =>
        rw [List.flatMap_cons, filterM_append, ← ih, filterM_map, collect, joinRow]
        simp only [hleft, Bool.and_false, Bool.false_eq_true, if_false, joins_eq]
        cases filterM (fun r => holdsIn on (.ofRow (a.columns ++ b.columns) (l ++ r))) b.rows with
        | error e => rfl
        | ok found =>
            simp only [ok_bind]
            cases collect (joinRow (a.columns ++ b.columns) on kind b.columns.length b.rows) as with
            | error e => rfl
            | ok parts => rfl
  have h := hrows a.rows
  change _ = (filterM _ (a.rows.flatMap fun l => b.rows.map fun r => l ++ r) >>= _)
  change _ = (filterM (fun row => holdsIn on (.ofRow (a.columns ++ b.columns) row)) _ >>= _)
  rw [← h, bind_assoc]
  rfl

end Relation

/-! ## Sources over a view -/

/-- A source over the catalog beside the same source over a view: the second has the rows of the
first whose row times pass, which belong to the occurrences in the scope. -/
structure Scoped (p : TableRef → Int64 → Bool) (ts : List TableRef) (full part : Relation) :
    Prop where
  columns : part.columns = full.columns
  rows : ∃ xs : List Stamped, full.rows = xs.map (·.row) ∧
    part.rows = (xs.filter (·.within p)).map (·.row) ∧
    ∀ x ∈ xs, x.row.length = full.columns.length ∧ x.Located full.columns ∧ Marks.Covers ts x

namespace Scoped

variable {p : TableRef → Int64 → Bool}

/-- Rows without row times of their own. -/
theorem plain {ts : List TableRef} (hts : ts.filter (fun t => !t.isDual) = []) {r : Relation}
    (hr : r.Rectangular) : Scoped p ts r r := by
  refine ⟨rfl, r.rows.map fun row => ⟨row, []⟩, ?_, ?_, ?_⟩
  · simp [Function.comp_def]
  · rw [List.filter_eq_self.mpr]
    · simp [Function.comp_def]
    · intro x hx
      obtain ⟨row, -, rfl⟩ := List.mem_map.mp hx
      rfl
  · intro x hx
    obtain ⟨row, hrow, rfl⟩ := List.mem_map.mp hx
    exact ⟨hr row hrow, by intro e he; simp at he, hts.symm⟩

/-- The rows of a table. -/
theorem ofTable {t : TableRef} (ht : t.isDual = false) {table : Table} (hv : table.Valid) :
    Scoped p [t] (.ofTable t.qualifier table) (.ofTable t.qualifier (table.within (p t))) := by
  refine ⟨rfl, table.rows.map fun row => ⟨row, [(t, table.stamp row)]⟩, ?_, ?_, ?_⟩
  · simp [Relation.ofTable, Function.comp_def]
  · simp [Relation.ofTable, Function.comp_def, List.filter_map, Stamped.within]
  · intro x hx
    obtain ⟨row, hrow, rfl⟩ := List.mem_map.mp hx
    refine ⟨?_, ?_, by simp [Marks.Covers, ht]⟩
    · simpa [Relation.ofTable] using hv.width row hrow
    · intro e he
      rw [List.mem_singleton] at he
      subst he
      obtain ⟨c, hc, hr, -⟩ := hv.rowtime
      refine ⟨table.rowtimeIndex, ⟨some t.qualifier, c.name⟩, ?_, ?_, (hv.stamped row hrow).1⟩
      · simp [Relation.ofTable, hc]
      · simpa [Binding.fits, Binding.hasQualifier, Column.isRowtime] using hr

theorem located_append {columns columns' : List Binding} {x y : Stamped}
    (hx : x.Located columns) (hy : y.Located columns') (hl : x.row.length = columns.length) :
    (x.append y).Located (columns ++ columns') := by
  intro e he
  rcases List.mem_append.mp he with he | he
  · obtain ⟨i, b, hb, hf, hv⟩ := hx e he
    obtain ⟨hi, -⟩ := List.getElem?_eq_some_iff.mp hb
    refine ⟨i, b, ?_, hf, ?_⟩
    · rw [List.getElem?_append_left hi, hb]
    · change (x.row ++ y.row)[i]? = _
      rw [List.getElem?_append_left (by omega), hv]
  · obtain ⟨i, b, hb, hf, hv⟩ := hy e he
    refine ⟨columns.length + i, b, ?_, hf, ?_⟩
    · rw [List.getElem?_append_right (by omega), Nat.add_sub_cancel_left, hb]
    · change (x.row ++ y.row)[columns.length + i]? = _
      rw [← hl, List.getElem?_append_right (by omega), Nat.add_sub_cancel_left, hv]

/-- Every row beside every other. -/
theorem cross {ts us : List TableRef} {a a' b b' : Relation} (ha : Scoped p ts a a')
    (hb : Scoped p us b b') : Scoped p (ts ++ us) (a.cross b) (a'.cross b') := by
  obtain ⟨xs, hax, hax', hx⟩ := ha.rows
  obtain ⟨ys, hby, hby', hy⟩ := hb.rows
  refine ⟨by simp [Relation.cross, ha.columns, hb.columns],
    xs.flatMap fun x => ys.map fun y => x.append y, ?_, ?_, ?_⟩
  · simp only [Relation.cross, hax, hby, List.flatMap_map, List.map_flatMap, List.map_map]
    rfl
  · have hrow : ∀ x : Stamped, (ys.map fun y => x.append y).filter (·.within p) =
        if x.within p then (ys.filter (·.within p)).map fun y => x.append y else [] := by
      intro x
      rw [List.filter_map]
      have happ : ∀ y : Stamped, (x.append y).within p = (x.within p && y.within p) := fun y =>
        List.all_append
      cases hw : x.within p <;> simp [Function.comp_def, happ, hw]
    simp only [Relation.cross, hax', hby', List.filter_flatMap, hrow, List.flatMap_map,
      List.map_flatMap, List.map_map]
    clear hax hax' hx
    induction xs with
    | nil => rfl
    | cons x xs ih =>
        rw [List.flatMap_cons, ← ih, List.filter_cons]
        cases x.within p with
        | true => simp [Function.comp_def, Stamped.append]
        | false => simp
  · intro z hz
    simp only [List.mem_flatMap, List.mem_map] at hz
    obtain ⟨x, hxm, y, hym, rfl⟩ := hz
    obtain ⟨hxl, hxloc, hxc⟩ := hx x hxm
    obtain ⟨hyl, hyloc, hyc⟩ := hy y hym
    refine ⟨?_, located_append hxloc hyloc hxl, ?_⟩
    · simp [Stamped.append, Relation.cross, hxl, hyl]
    · unfold Marks.Covers at hxc hyc ⊢
      simp [Stamped.append, hxc, hyc]

/-- A condition that is evaluated on all rows can be evaluated on those in the windows. -/
theorem filtered {ts : List TableRef} {a a' f : Relation} (h : Scoped p ts a a')
    {on : Option Expr} (hf : Relation.filtered on a = .ok f) :
    ∃ f', Relation.filtered on a' = .ok f' ∧ Scoped p ts f f' := by
  obtain ⟨xs, hax, hax', hx⟩ := h.rows
  obtain ⟨hs, rfl⟩ := Relation.filtered_eq_ok_iff.mp hf
  have hs' : ∀ row ∈ a'.rows, Succeeds (holdsIn on (.ofRow a'.columns row)) := by
    intro row hrow
    rw [hax'] at hrow
    obtain ⟨x, hxm, rfl⟩ := List.mem_map.mp hrow
    rw [h.columns]
    refine hs _ ?_
    rw [hax]
    exact List.mem_map_of_mem (List.mem_filter.mp hxm).1
  refine ⟨_, Relation.filtered_eq_ok_iff.mpr ⟨hs', rfl⟩, h.columns, xs.filter fun x =>
    passes (fun row => holdsIn on (.ofRow a.columns row)) x.row, ?_, ?_, ?_⟩
  · rw [Relation.kept, hax, List.filter_map]
    rfl
  · simp only [Relation.kept]
    rw [hax', List.filter_map, List.filter_filter, List.filter_filter, h.columns]
    congr 2
    funext x
    rw [Bool.and_comm]
    rfl
  · exact fun x hxm => hx x (List.mem_filter.mp hxm).1

/-- A condition behind bounds over the catalog is the condition over the view. -/
theorem bounded {s : Marks} (hs : s.Functional) {a : Option Advance}
    (ha : ∀ y, a = some y → (s.get? y.table).isSome = true) {ts : List TableRef}
    {full part f : Relation} (h : Scoped (s.admits a) ts full part) {rest : List Expr}
    (hf : Relation.filtered (conjunction ((s.restrict (TableRef.distinct ts)).lower a ++
      (s.restrict (TableRef.distinct ts)).uppers ++ rest)) full = .ok f) :
    Relation.filtered (conjunction rest) part = .ok f := by
  obtain ⟨xs, hfx, hpx, hx⟩ := h.rows
  obtain ⟨hsucc, rfl⟩ := Relation.filtered_eq_ok_iff.mp hf
  have hkeep : ∀ x ∈ xs, ∃ b, holdsIn (conjunction ((s.restrict (TableRef.distinct ts)).lower a ++
      (s.restrict (TableRef.distinct ts)).uppers ++ rest)) (.ofRow full.columns x.row) = .ok b ∧
      (x.within (s.admits a) = true →
        holdsIn (conjunction rest) (.ofRow full.columns x.row) = .ok b) ∧
      (x.within (s.admits a) = false → b = false) := by
    intro x hxm
    obtain ⟨-, hloc, hcov⟩ := hx x hxm
    obtain ⟨b, hb⟩ := hsucc x.row (by rw [hfx]; exact List.mem_map_of_mem hxm)
    exact ⟨b, hb, Marks.holdsIn_bounds hs ha hloc hcov hb⟩
  rw [Relation.filtered_eq_ok_iff]
  constructor
  · intro row hrow
    rw [hpx] at hrow
    obtain ⟨x, hxm, rfl⟩ := List.mem_map.mp hrow
    obtain ⟨hm, hw⟩ := List.mem_filter.mp hxm
    obtain ⟨b, -, hin, -⟩ := hkeep x hm
    rw [h.columns]
    exact ⟨b, hin hw⟩
  · rw [Relation.kept, Relation.kept, h.columns, hfx, hpx, List.filter_map, List.filter_map,
      List.filter_filter]
    congr 2
    refine List.filter_congr fun x hxm => ?_
    obtain ⟨b, hb, hin, hout⟩ := hkeep x hxm
    simp only [Function.comp_apply, passes, hb]
    cases hw : x.within (s.admits a) with
    | true => simp [hin hw]
    | false => simp [hout hw]

end Scoped

/-! ## Queries -/

namespace Sql

/-- What the windows leave of a source of a catalog can be computed over the view. -/
def FromItem.Seen (db : Catalog) (s : Marks) (a : Option Advance) (x : FromItem) : Prop :=
  ∀ full, (x.bounded s a).runOn db.source = .ok full →
    ∃ part, (x.idled a).runOn (db.view s a) = .ok part ∧ Scoped (s.admits a) x.scope full part

theorem FromItem.runListOn_seen {db : Catalog} {s : Marks} {a : Option Advance}
    {xs : List FromItem} (h : ∀ x ∈ xs, x.Seen db s a) {ts : List TableRef} {acc acc' full : Relation}
    (hacc : Scoped (s.admits a) ts acc acc')
    (hf : FromItem.runListOn db.source acc (FromItem.boundedList s a xs) = .ok full) :
    ∃ part, FromItem.runListOn (db.view s a) acc' (FromItem.idledList a xs) = .ok part ∧
      Scoped (s.admits a) (ts ++ FromItem.scopeList xs) full part := by
  induction xs generalizing ts acc acc' with
  | nil =>
      rw [FromItem.boundedList, FromItem.runListOn_nil, Except.ok.injEq] at hf
      subst hf
      exact ⟨acc', by rw [FromItem.idledList, FromItem.runListOn_nil], by
        rwa [FromItem.scopeList, List.append_nil]⟩
  | cons x xs ih =>
      rw [FromItem.boundedList, FromItem.runListOn_cons] at hf
      obtain ⟨b, hb, hf⟩ := bind_eq_ok.mp hf
      obtain ⟨b', hb', hs⟩ := h x (by simp) b hb
      obtain ⟨part, hp, hsc⟩ := ih (fun y hy => h y (by simp [hy])) (hacc.cross hs) hf
      refine ⟨part, ?_, ?_⟩
      · rw [FromItem.idledList, FromItem.runListOn_cons, hb', ok_bind, hp]
      · rwa [FromItem.scopeList, ← List.append_assoc]

theorem fromSource_seen {db : Catalog} (hdb : db.Valid) (s : Marks) (a : Option Advance)
    {t : TableRef} {full : Relation} (h : Relation.fromSource db.source t = .ok full) :
    ∃ part, Relation.fromSource (db.view s a) t = .ok part ∧
      Scoped (s.admits a) [t] full part := by
  unfold Relation.fromSource Catalog.source at h
  unfold Relation.fromSource Catalog.view
  cases hg : db.get? t.name with
  | none =>
      simp only [hg] at h
      split at h
      · rename_i hd
        rw [Except.ok.injEq] at h
        subst h
        exact ⟨_, by simp [hd], .plain (by simp [hd]) Relation.unit_rectangular⟩
      · simp at h
  | some table =>
      simp only [hg, Except.ok.injEq] at h
      subst h
      have hv := (hdb.get? hg).1
      cases hd : t.isDual with
      | true => exact ⟨_, by simp, .plain (by simp [hd]) (Relation.ofTable_rectangular hv.width)⟩
      | false => exact ⟨_, by simp, .ofTable hd hv⟩

theorem source_rectangular {db : Catalog} (hdb : db.Valid) :
    db.source.Rectangular := fun _ _ ht => (hdb.get? ht).1.width

theorem bounded_seen {db : Catalog} (hdb : db.Valid) {s : Marks} (hs : s.Functional)
    {a : Option Advance} (ha : ∀ y, a = some y → (s.get? y.table).isSome = true) :
    (∀ q : Query, q.isInner = true → ∀ k r,
      ((q.bounded s a).emptiedBy k).runOn db.source = .ok r →
        ((q.idled a).emptiedBy k).runOn (db.view s a) = .ok r) ∧
      ∀ x : FromItem, x.isInner = true → x.Seen db s a := by
  have hunit : Scoped (s.admits a) [] Relation.unit Relation.unit :=
    .plain rfl Relation.unit_rectangular
  refine Query.induct ?_ ?_ ?_ ?_ ?_ ?_ ?_
  · intro source c t ih hi k r hr
    rw [Query.isInner, FromItem.isInnerList_iff] at hi
    rw [Query.bounded, Query.emptiedBy_select, Query.runOn] at hr
    obtain ⟨full, hf, hr⟩ := bind_eq_ok.mp hr
    obtain ⟨part, hp, hsc⟩ := FromItem.runListOn_seen (fun x hx => ih x hx (hi x hx)) hunit hf
    rw [List.nil_append] at hsc
    rw [Relation.select_eq] at hr
    obtain ⟨rows, hk, hr⟩ := bind_eq_ok.mp hr
    have hcond : Relation.filtered (neverBy k c.condition) part = .ok rows := by
      simp only [Marks.bound, neverBy_conjunction] at hk
      rw [List.append_assoc] at hk
      exact hsc.bounded hs ha hk
    rw [Query.idled, Query.emptiedBy_select, Query.runOn, hp, ok_bind, Relation.select_eq, hcond,
      ok_bind]
    exact hr
  · intro l r all t hl hr hi k u hu
    rw [Query.isInner, Bool.and_eq_true] at hi
    have hbranch : ∀ branch : Query, (∀ k r, ((branch.bounded s a).emptiedBy k).runOn db.source =
        .ok r → ((branch.idled a).emptiedBy k).runOn (db.view s a) = .ok r) → ∀ (idle : Bool) v,
        ((if idle then (branch.bounded s a).emptied else branch.bounded s a).emptiedBy k).runOn
          db.source = .ok v →
        ((if idle then (branch.idled a).emptied else branch.idled a).emptiedBy k).runOn
          (db.view s a) = .ok v := by
      intro branch hb idle v hv
      cases idle with
      | true =>
          rw [if_pos rfl, Query.emptiedBy_emptied] at hv ⊢
          exact hb (k + 1) v hv
      | false => exact hb k v hv
    rw [Query.bounded, Query.emptiedBy_union, Query.runOn] at hu
    obtain ⟨x, hx, hu⟩ := bind_eq_ok.mp hu
    obtain ⟨y, hy, hu⟩ := bind_eq_ok.mp hu
    rw [Query.idled, Query.emptiedBy_union, Query.runOn, hbranch l (hl hi.1) _ x hx, ok_bind,
      hbranch r (hr hi.2) _ y hy, ok_bind]
    exact hu
  · intro q hq hi k r hr
    rw [Query.isInner] at hi
    rw [Query.bounded, Query.emptiedBy_paren, Query.runOn] at hr
    rw [Query.idled, Query.emptiedBy_paren, Query.runOn]
    exact hq hi k r hr
  · intro name al _ full hf
    rw [FromItem.bounded, FromItem.runOn] at hf
    rw [FromItem.idled, FromItem.runOn, FromItem.scope]
    exact fromSource_seen hdb s a hf
  · intro q al hq hi full hf
    rw [FromItem.isInner] at hi
    rw [FromItem.bounded, FromItem.runOn] at hf
    obtain ⟨r, hr, hf⟩ := bind_eq_ok.mp hf
    rw [pure_eq_ok] at hf
    subst hf
    refine ⟨r.qualified al, ?_, ?_⟩
    · have hv : (q.idled a).runOn (db.view s a) = .ok r := hq hi 0 r hr
      rw [FromItem.idled, FromItem.runOn, hv]
      rfl
    · rw [FromItem.scope]
      exact .plain rfl (Relation.qualified_rectangular
        (Query.runOn_rectangular (source_rectangular hdb) hr))
  · intro xs ih hi full hf
    rw [FromItem.isInner, FromItem.isInnerList_iff] at hi
    rw [FromItem.bounded, FromItem.runOn] at hf
    rw [FromItem.idled, FromItem.runOn, FromItem.scope]
    exact FromItem.runListOn_seen (fun x hx => ih x hx (hi x hx)) hunit hf
  · intro k l r on hl hr hi full hf
    rw [FromItem.isInner, Bool.and_eq_true, Bool.and_eq_true] at hi
    obtain ⟨⟨hk, hil⟩, hir⟩ := hi
    rw [FromItem.bounded, FromItem.runOn] at hf
    obtain ⟨x, hx, hf⟩ := bind_eq_ok.mp hf
    obtain ⟨y, hy, hf⟩ := bind_eq_ok.mp hf
    obtain ⟨x', hx', hsx⟩ := hl hil x hx
    obtain ⟨y', hy', hsy⟩ := hr hir y hy
    rw [Relation.join_inner hk] at hf
    obtain ⟨part, hp, hsc⟩ := (hsx.cross hsy).filtered hf
    refine ⟨part, ?_, ?_⟩
    · rw [FromItem.idled, FromItem.runOn, hx', ok_bind, hy', ok_bind, Relation.join_inner hk, hp]
    · rwa [FromItem.scope]

/-- The result of a query within bounds is its result over the view. -/
theorem Query.bounded_run {db : Catalog} (hdb : db.Valid) {s : Marks} (hs : s.Functional)
    {a : Option Advance} (ha : ∀ y, a = some y → (s.get? y.table).isSome = true) {q : Query}
    (hi : q.isInner = true) {r : Relation} (h : (q.bounded s a).run db = .ok r) :
    (q.idled a).runOn (db.view s a) = .ok r := by
  rw [Query.run_eq_runOn] at h
  exact (bounded_seen hdb hs ha).1 q hi 0 r h

end Sql

end Rowtime
