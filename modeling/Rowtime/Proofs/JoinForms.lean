import Mathlib.Data.List.Rotate
import Rowtime.Proofs.Evaluation
import Rowtime.Proofs.Joins
import Rowtime.Proofs.Past

/-!
# Joins in other forms

What a reference stands for does not depend on the order in which two blocks of columns stand
beside each other, and neither does the fault if it fits none of the columns or several. A right
join is therefore the left join with the sides exchanged, up to the order of the two blocks; a left
join goes through the rows of its left side one by one; and an inner join is a product under a
condition, wherever the condition is written.
-/
namespace Rowtime

open Sql

/-! ## References beside each other -/

/-- What a reference stands for, given the values of the columns that it fits. -/
def ColumnRef.answer (c : ColumnRef) : List Value → Except Fault Value
  | [] => .error (.columnNotFound c.display)
  | [v] => .ok v
  | _ => .error (.ambiguousColumn c.display)

/-- The values of the columns that a reference fits. -/
def fitting (c : ColumnRef) (columns : List Binding) (row : Row) : List Value :=
  ((columns.zip row).filter fun p => p.1.fits c).map (·.2)

theorem positionsFrom_values (c : ColumnRef) {columns : List Binding} {row : Row}
    (h : row.length = columns.length) (before : Row) :
    (positionsFrom c before.length columns).map (fun i => (before ++ row)[i]?.getD .null) =
      fitting c columns row := by
  induction columns generalizing before row with
  | nil => rfl
  | cons b columns ih =>
      cases row with
      | nil => cases h
      | cons v row =>
          have hrest := ih (Nat.succ.inj h) (before ++ [v])
          rw [List.length_append, List.length_singleton, List.append_assoc,
            List.singleton_append] at hrest
          rw [positionsFrom, fitting, List.zip_cons_cons, List.filter_cons]
          split
          · rw [List.map_cons, List.map_cons, hrest, List.getElem?_append_right (Nat.le_refl _),
              Nat.sub_self]
            rfl
          · exact hrest

theorem lookup_eq_answer {columns : List Binding} {row : Row} (h : row.length = columns.length)
    (c : ColumnRef) : (Context.ofRow columns row).lookup c = ColumnRef.answer c (fitting c columns row) := by
  rw [← positionsFrom_values c h []]
  unfold Context.lookup resolve Context.ofRow
  rw [List.length_nil, List.nil_append]
  match positionsFrom c 0 columns with
  | [] => rfl
  | [i] => rfl
  | i :: j :: is => rfl

theorem fitting_append (c : ColumnRef) {columns columns' : List Binding} {row row' : Row}
    (h : row.length = columns.length) :
    fitting c (columns ++ columns') (row ++ row') =
      fitting c columns row ++ fitting c columns' row' := by
  rw [fitting, List.zip_append h.symm, List.filter_append, List.map_append]
  rfl

theorem answer_comm (c : ColumnRef) (xs ys : List Value) :
    ColumnRef.answer c (xs ++ ys) = ColumnRef.answer c (ys ++ xs) := by
  match xs, ys with
  | [], ys => rw [List.nil_append, List.append_nil]
  | x :: xs, [] => rw [List.nil_append, List.append_nil]
  | [x], [y] => rfl
  | [x], y :: y' :: ys => rfl
  | x :: x' :: xs, [y] => rfl
  | x :: x' :: xs, y :: y' :: ys => rfl

/-- The order of two blocks of columns does not matter to a condition. -/
theorem holds_comm {a b : List Binding} {l r : Row} (hl : l.length = a.length)
    (hr : r.length = b.length) (e : Expr) :
    e.holds (.ofRow (a ++ b) (l ++ r)) = e.holds (.ofRow (b ++ a) (r ++ l)) := by
  have hlookup : ∀ c, (Context.ofRow (a ++ b) (l ++ r)).lookup c =
      (Context.ofRow (b ++ a) (r ++ l)).lookup c := by
    intro c
    rw [lookup_eq_answer (by simp [hl, hr]), lookup_eq_answer (by simp [hl, hr]),
      fitting_append c hl, fitting_append c hr, answer_comm]
  rw [Expr.holds, Expr.holds, Expr.eval_congr hlookup fun _ => .ofRow ..]

namespace Relation

/-! ## Right joins -/

/-- The relation with its first `n` columns behind the others. -/
def rotated (n : Nat) (r : Relation) : Relation :=
  ⟨r.columns.rotate n, r.rows.map fun row => row.rotate n⟩

theorem joins_comm {a b : List Binding} {l r : Row} (hl : l.length = a.length)
    (hr : r.length = b.length) (on : Option Expr) :
    joins (a ++ b) on l r = joins (b ++ a) on r l := by
  cases on with
  | none => rfl
  | some c => exact holds_comm hl hr c

/-- One row of the right side of a right join, as a row of the left side of a left join. -/
theorem joinRowRight_eq {a b : Relation} (ha : a.Rectangular) {r : Row}
    (hr : r.length = b.columns.length) (on : Option Expr) :
    joinRowRight (a.columns ++ b.columns) on a.columns.length a.rows r =
      (joinRow (b.columns ++ a.columns) on .left a.columns.length a.rows r >>= fun rows =>
        .ok (rows.map fun row => row.rotate b.columns.length)) := by
  have hpair : ∀ l : Row, (r ++ l).rotate b.columns.length = l ++ r := fun l =>
    hr ▸ List.rotate_append_length_eq r l
  have htest : filterM (fun l => joins (a.columns ++ b.columns) on l r) a.rows =
      filterM (fun l => joins (b.columns ++ a.columns) on r l) a.rows :=
    filterM_congr fun l hl => joins_comm (ha l hl) hr on
  rw [joinRowRight, joinRow, htest]
  cases filterM (fun l => joins (b.columns ++ a.columns) on r l) a.rows with
  | error why => rfl
  | ok found =>
      cases found with
      | nil => exact congrArg (fun row => Except.ok [row]) (hpair _).symm
      | cons l found =>
          refine congrArg Except.ok ?_
          rw [List.map_map]
          exact List.map_congr_left fun l _ => (hpair l).symm

/-- A right join is the left join of the sides exchanged, with its two blocks of columns exchanged. -/
theorem join_right_eq {a b : Relation} (ha : a.Rectangular) (hb : b.Rectangular)
    (on : Option Expr) :
    join .right on a b = (join .left on b a).map (rotated b.columns.length) := by
  have hparts : joinParts .right on a b = (joinParts .left on b a >>= fun parts =>
      .ok (parts.map (List.map fun row => row.rotate b.columns.length))) := by
    have hright : (JoinKind.right == .right) = true := rfl
    have hleft : ¬(JoinKind.left == .right) = true := by decide
    rw [joinParts, joinParts, if_pos hright, if_neg hleft, ← collect_bind_ok]
    exact collect_congr fun r hr => joinRowRight_eq ha (hb r hr) on
  rw [join_eq, join_eq, hparts]
  cases joinParts .left on b a with
  | error why => rfl
  | ok parts =>
      refine congrArg Except.ok ?_
      rw [rotated, List.rotate_append_length_eq, List.map_flatten]

/-! ## Left joins -/

/-- The rows that a left join has for one row of its left side, under a test: its partners in their
order, or padding in place of a partner. -/
def leftRows (test : Row → Row → Bool) (b : Relation) (l : Row) : List Row :=
  if (b.rows.filter (test l)).isEmpty then [l ++ b.padding]
  else (b.rows.filter (test l)).map fun x => l ++ x

/-- The left join of two relations under a test, one row of the left side after the other. -/
def leftJoined (test : Row → Row → Bool) (a b : Relation) : Relation :=
  ⟨a.columns ++ b.columns, a.rows.flatMap (leftRows test b)⟩

theorem filterM_eq_filter {α : Type} {test : α → Except Fault Bool} {p : α → Bool} {as : List α}
    (h : ∀ a ∈ as, test a = .ok (p a)) : filterM test as = .ok (as.filter p) :=
  filterM_eq_ok_iff.mpr ⟨fun a ha => ⟨_, h a ha⟩,
    List.filter_congr fun a ha => (passes_of_ok (h a ha)).symm⟩

theorem joinRow_left {on : Option Expr} {columns : List Binding} {test : Row → Row → Bool}
    {b : Relation} {l : Row} (h : ∀ x ∈ b.rows, joins columns on l x = .ok (test l x)) :
    joinRow columns on .left b.columns.length b.rows l = .ok (leftRows test b l) := by
  rw [joinRow, filterM_eq_filter h, ok_bind, leftRows]
  cases b.rows.filter (test l) <;> rfl

/-- A left join has a result when its condition can be decided for all pairs of rows. -/
theorem join_left_eq_ok_iff {on : Option Expr} {a b r : Relation} :
    join .left on a b = .ok r ↔ ∃ test : Row → Row → Bool,
      (∀ l ∈ a.rows, ∀ x ∈ b.rows, joins (a.columns ++ b.columns) on l x = .ok (test l x)) ∧
        r = leftJoined test a b := by
  have hleft : ¬(JoinKind.left == .right) = true := by decide
  have hjoined : ∀ test : Row → Row → Bool,
      (∀ l ∈ a.rows, ∀ x ∈ b.rows, joins (a.columns ++ b.columns) on l x = .ok (test l x)) →
      join .left on a b = .ok (leftJoined test a b) := by
    intro test h
    rw [join_eq, joinParts, if_neg hleft, collect_eq_map fun l hl => joinRow_left (h l hl), ok_bind]
    rfl
  constructor
  · intro h
    have htest : ∀ l ∈ a.rows, ∀ x ∈ b.rows, joins (a.columns ++ b.columns) on l x =
        .ok (passes (joins (a.columns ++ b.columns) on l) x) := by
      intro l hl x hx
      rw [join_eq, joinParts, if_neg hleft] at h
      obtain ⟨parts, hparts, -⟩ := bind_eq_ok.mp h
      obtain ⟨rows, hrows⟩ := succeeds_of_collect hparts hl
      obtain ⟨found, hfound, -⟩ := bind_eq_ok.mp hrows
      exact ((filterM_eq_ok_iff.mp hfound).1 x hx).eq_passes
    exact ⟨_, htest, Except.ok.inj (h.symm.trans (hjoined _ htest))⟩
  · rintro ⟨test, h, rfl⟩
    exact hjoined test h

end Relation

namespace Sql

/-! ## Inner joins -/

theorem FromItem.runList_singleton (db : Catalog) (x : FromItem) :
    FromItem.runList db .unit [x] = x.run db := by
  rw [FromItem.runList]
  cases x.run db with
  | error why => rfl
  | ok a => rw [ok_bind, FromItem.runList, Relation.unit_cross]

theorem FromItem.runList_pair (db : Catalog) (x y : FromItem) :
    FromItem.runList db .unit [x, y] =
      (x.run db >>= fun a => y.run db >>= fun b => .ok (a.cross b)) := by
  rw [FromItem.runList]
  congr 1
  funext a
  rw [FromItem.runList, Relation.unit_cross]
  rfl

/-- The condition of an inner join may stand behind WHERE instead. -/
theorem Query.run_join_inner (db : Catalog) (l r : FromItem) (c : Expr) (clauses : Clauses)
    (t : Tail) :
    (Query.select [.join .inner l r (some c)] { clauses with condition := none } t).run db =
      (Query.select [l, r] { clauses with condition := some c } t).run db := by
  have hjoin : ∀ a b : Relation, (Relation.join .inner (some c) a b >>= fun j =>
      j.select { clauses with condition := none } t) =
        (a.cross b).select { clauses with condition := some c } t := by
    intro a b
    rw [Relation.join_inner rfl, Relation.select_eq]
    congr 1
    funext kept
    rw [Relation.select_eq]
    rfl
  rw [Query.run, Query.run, FromItem.runList_singleton, FromItem.runList_pair, FromItem.run]
  simp only [bind_assoc, hjoin, ok_bind]

/-- The join forms agree. For all relations whose rows have a value for each column, a right join is
the left join of the sides exchanged, with its blocks of columns exchanged, and fails as that does;
so it is for the relations of source items on a valid catalog, which are of this kind. A left join
has its rows one left row after the other, with the partners in their order or one padded row, and
fails where the condition cannot be decided. An inner join gives what the product gives under
the same condition, whatever is selected, fault for fault. -/
theorem join_forms_agree :
    (∀ (a b : Relation) (on : Option Expr), a.Rectangular → b.Rectangular →
      Relation.join .right on a b =
        (Relation.join .left on b a).map (Relation.rotated b.columns.length)) ∧
    (∀ (db : Catalog) (l r : FromItem) (a b : Relation) (on : Option Expr), db.Valid →
      l.run db = .ok a → r.run db = .ok b →
      (FromItem.join .right l r on).run db =
        ((FromItem.join .left r l on).run db).map (Relation.rotated b.columns.length)) ∧
    (∀ (a b j : Relation) (on : Option Expr), Relation.join .left on a b = .ok j ↔
      ∃ test : Row → Row → Bool, (∀ l ∈ a.rows, ∀ x ∈ b.rows,
        Relation.joins (a.columns ++ b.columns) on l x = .ok (test l x)) ∧
          j = Relation.leftJoined test a b) ∧
    ∀ (db : Catalog) (l r : FromItem) (c : Expr) (clauses : Clauses) (t : Tail),
      (Query.select [.join .inner l r (some c)] { clauses with condition := none } t).run db =
        (Query.select [l, r] { clauses with condition := some c } t).run db := by
  refine ⟨fun a b on ha hb => Relation.join_right_eq ha hb on, ?_,
    fun a b j on => Relation.join_left_eq_ok_iff, Query.run_join_inner⟩
  intro db l r a b on hdb hl hr
  have hrectangular : ∀ {x : FromItem} {s : Relation}, x.run db = .ok s → s.Rectangular := by
    intro x s hx
    rw [(run_eq db).2 x] at hx
    exact FromItem.runOn_rectangular (source_rectangular hdb) hx
  rw [FromItem.run, FromItem.run, hl, hr]
  exact Relation.join_right_eq (hrectangular hl) (hrectangular hr) on

/-- The rows of `readings` under a name of their own. -/
def readingsAs (name : String) : Relation :=
  ⟨[⟨some name, "rowtime"⟩, ⟨some name, "v"⟩], [[.integer 1, .integer 10], [.integer 2, .integer 20]]⟩

/-- `x.v < y.v`. -/
def smallerReading : Expr := .binary .lt (.column ⟨some "x", "v"⟩) (.column ⟨some "y", "v"⟩)

/-- Each reading beside the smaller ones, by a right join and by a left join; the first one has none. -/
theorem join_forms_agree_readings :
    readings.Valid ∧ (readingsAs "x").Rectangular ∧ (readingsAs "y").Rectangular ∧
      (FromItem.table "t" (some "x")).run readings = .ok (readingsAs "x") ∧
      (FromItem.table "t" (some "y")).run readings = .ok (readingsAs "y") ∧
      Relation.join .left (some smallerReading) (readingsAs "y") (readingsAs "x") =
        .ok ⟨(readingsAs "y").columns ++ (readingsAs "x").columns,
          [[.integer 1, .integer 10, .null, .null],
            [.integer 2, .integer 20, .integer 1, .integer 10]]⟩ ∧
      Relation.join .right (some smallerReading) (readingsAs "x") (readingsAs "y") =
        .ok ⟨(readingsAs "x").columns ++ (readingsAs "y").columns,
          [[.null, .null, .integer 1, .integer 10],
            [.integer 1, .integer 10, .integer 2, .integer 20]]⟩ ∧
      (FromItem.join .right (.table "t" (some "x")) (.table "t" (some "y"))
        (some smallerReading)).run readings =
          ((FromItem.join .left (.table "t" (some "y")) (.table "t" (some "x"))
            (some smallerReading)).run readings).map (Relation.rotated 2) ∧
      ∃ test : Row → Row → Bool, Relation.leftJoined test (readingsAs "y") (readingsAs "x") =
        ⟨(readingsAs "y").columns ++ (readingsAs "x").columns,
          [[.integer 1, .integer 10, .null, .null],
            [.integer 2, .integer 20, .integer 1, .integer 10]]⟩ := by
  have hrectangular : ∀ name, (readingsAs name).Rectangular := by
    intro name row hrow
    simp only [readingsAs, List.mem_cons, List.not_mem_nil, or_false] at hrow
    rcases hrow with rfl | rfl <;> rfl
  have hx : (FromItem.table "t" (some "x")).run readings = .ok (readingsAs "x") := by decide +kernel
  have hy : (FromItem.table "t" (some "y")).run readings = .ok (readingsAs "y") := by decide +kernel
  have hleft : Relation.join .left (some smallerReading) (readingsAs "y") (readingsAs "x") =
      .ok ⟨(readingsAs "y").columns ++ (readingsAs "x").columns,
        [[.integer 1, .integer 10, .null, .null],
          [.integer 2, .integer 20, .integer 1, .integer 10]]⟩ := by decide +kernel
  obtain ⟨hright, hitems, hpartners, -⟩ := join_forms_agree
  refine ⟨readings_valid, hrectangular "x", hrectangular "y", hx, hy, hleft, ?_,
    hitems readings _ _ _ _ _ readings_valid hx hy, ?_⟩
  · rw [hright _ _ _ (hrectangular "x") (hrectangular "y"), hleft]
    rfl
  · obtain ⟨test, -, hj⟩ := (hpartners _ _ _ _).mp hleft
    exact ⟨test, hj.symm⟩

end Sql

end Rowtime
