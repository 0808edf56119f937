import Rowtime.Follow.Marks
import Rowtime.Proofs.Databases
import Rowtime.Proofs.RoundTrip
import Rowtime.Proofs.Windows

/-!
# What a probe asks

The text of a probe is not one that the library prints: the name of the aggregate
is in lower case, and the name of the table is always in quotes. It is read all the
same, whatever the name is, and the query that is read has one answer: the greatest
row time of the table, which is zero when there is no row.
-/
namespace Rowtime

open Text Sql

/-- The greatest row time, or zero. -/
def greatestExpr : Expr :=
  .call "COALESCE" [.aggregate .max false (.column ⟨none, rowtimeName⟩), .literal (.integer 0)]

/-- The clauses of a probe. -/
def probeClauses : Clauses := ⟨false, [.expr greatestExpr none], none, [], none⟩

/-- The query of a probe. -/
def probeQuery (name : String) : Query := .select [.table name none] probeClauses .empty

namespace Sql.Parser

/-- The text of the expression in a probe. -/
def greatestChars : List Char := "COALESCE(max(rowtime), 0)".toList

theorem reads_greatest {n : Nat} (hn : 10 ≤ n) : Reads (exprAt n) 8 greatestChars greatestExpr := by
  obtain ⟨m, rfl⟩ := Nat.exists_eq_add_of_le hn
  have hcolumn : Inside (exprAt (9 + m)) "rowtime".toList (.column ⟨none, rowtimeName⟩) :=
    (readBack (.column ⟨none, rowtimeName⟩) trivial).inside trivial (by
      change 7 < 9 + m
      omega)
  have hmax : Reads (exprAt (9 + m)) 8 "max(rowtime)".toList
      (.aggregate .max false (.column ⟨none, rowtimeName⟩)) :=
    have hname : Aggregate.ofName? "max" = some .max := by decide
    .aggregateNamed hname false hcolumn (opens_column 1 ⟨none, rowtimeName⟩)
  have hinside : Inside (exprAt (10 + m)) "max(rowtime)".toList
      (.aggregate .max false (.column ⟨none, rowtimeName⟩)) := by
    rw [show 10 + m = 9 + m + 1 by omega]
    exact hmax.downTo (Nat.le_refl 1) (by omega) (Nat.le_refl 8) (.name 8 "max" "rowtime)".toList)
  have hlegible : (Expr.literal (.integer 0)).Legible := by
    change (-9223372036854775808 : Int) < Int64.toInt 0
    decide
  have hchars : (Expr.literal (.integer 0)).chars = "0".toList := by
    rw [Expr.chars, literal_integer]
    decide +kernel
  have hzero : Inside (exprAt (10 + m)) "0".toList (.literal (.integer 0)) := by
    have := (readBack _ hlegible).inside (n := 10 + m) hlegible (by
      rw [hchars]
      change 1 < 10 + m
      omega)
    rwa [hchars] at this
  have hplain : PlainCall "COALESCE" := ⟨by decide, by decide, by decide⟩
  have hargs : ∀ a ∈ [("max(rowtime)".toList, Expr.aggregate .max false (.column ⟨none, rowtimeName⟩)),
      ("0".toList, .literal (.integer 0))], Solid a.1 ∧ Inside (exprAt (10 + m)) a.1 a.2 := by
    simp only [List.forall_mem_cons, List.not_mem_nil, false_implies, implies_true, and_true]
    exact ⟨⟨solid_of_head rfl, hinside⟩, solid_of_head rfl, hzero⟩
  have hread := Reads.call hplain hargs (exprAt_refuses_close _)
  rw [hplain.upper] at hread
  have htext : greatestChars =
      "COALESCE".toList ++ '(' :: (commaList ["max(rowtime)".toList, "0".toList] ++ [')']) := by decide
  rw [htext]
  exact hread

theorem greatest_ok {rest : List Char} (hr : clear 1 rest = true) :
    ReadsTo expr (greatestChars ++ rest) greatestExpr rest := by
  have hlen : 10 ≤ (greatestChars ++ rest).length := by
    rw [List.length_append]
    exact Nat.le_trans (by decide) (Nat.le_add_right greatestChars.length _)
  obtain ⟨r, h, hl⟩ := (reads_greatest hlen).downTo (Nat.le_refl 1) (by omega) (Nat.le_refl 8)
    (.name 8 "COALESCE" "max(rowtime), 0)".toList) rest hr
  refine ⟨r, ?_, hl⟩
  rw [expr]
  exact h

/-- A quoted name is read as a table. -/
theorem quotedTable_ok (n : Nat) (name : String) :
    sourceWith (queryAt n) (sourceAt n) (Doubled.quoted '"' name).toList =
      .ok ([.table name none], []) := by
  have hhead : ∃ r, (Doubled.quoted '"' name).toList = '"' :: r := by
    rw [Doubled.quoted, String.toList_ofList]
    exact ⟨_, rfl⟩
  have hname : spaced identifier (Doubled.quoted '"' name).toList = .ok (name, []) := by
    have hread : quotedText '"' (Doubled.quoted '"' name).toList = .ok (name, []) := by
      have : quotedText '"' ((Doubled.quoted '"' name).toList ++ []) = .ok (name, []) :=
        quotedText_ok '"' name (by simp)
      rwa [List.append_nil] at this
    refine spaced_ok (r := []) ?_
    obtain ⟨r, hr⟩ := hhead
    rw [hr, skip_cons (by decide), ← hr]
    exact orElse_ok hread
  have hnone : ∀ {α : Type} {p : Parser α}, Refuses (parenthesized p) (Doubled.quoted '"' name).toList := by
    intro α p
    obtain ⟨r, hr⟩ := hhead
    rw [hr]
    exact bind_refuses (symbol_refuses rfl)
  have htable : tableItem (Doubled.quoted '"' name).toList = .ok (.table name none, []) := by
    have halias : Refuses aliasName [] := aliasName_refuses .nil (Or.inl rfl) List.not_mem_nil
    exact (bind_ok hname).trans ((bind_ok (optional_refuses halias)).trans rfl)
  have hfactor : factor n (Doubled.quoted '"' name).toList = .ok (.table name none, []) :=
    (oneOf_refuses (bind_refuses hnone)).trans ((oneOf_refuses (bind_refuses hnone)).trans htable)
  have hjoined : joinedItem (factor n) (Doubled.quoted '"' name).toList = .ok (.table name none, []) :=
    (bind_ok hfactor).trans rfl
  refine (bind_ok hjoined).trans ((bind_ok (many_refuses ?_)).trans rfl)
  exact bind_refuses (symbol_refuses rfl)

/-- The word FROM before a quoted name. -/
def fromChars (name : String) : List Char := " FROM ".toList ++ (Doubled.quoted '"' name).toList

theorem selectCore_probe (n : Nat) (name : String) :
    selectCore (sourceWith (queryAt n) (sourceAt n))
        ("SELECT ".toList ++ (greatestChars ++ fromChars name)) =
      .ok (probeQuery name, []) := by
  have hwall : Wall ["FROM"] (fromChars name) :=
    .word (w := "FROM") (by decide) (by decide) rfl
  have hsolid : Solid (Doubled.quoted '"' name).toList := by
    rw [Doubled.quoted, String.toList_ofList]
    exact solid_of_head rfl
  have hselect : keyword "SELECT" ("SELECT ".toList ++ (greatestChars ++ fromChars name)) =
      .ok ((), greatestChars ++ fromChars name) :=
    keyword_space (w := "SELECT") (t := greatestChars ++ fromChars name) rfl
  have hdistinct : present (keyword "DISTINCT") (greatestChars ++ fromChars name) =
      .ok (false, greatestChars ++ fromChars name) := present_refuses (keyword_refuses rfl)
  have hitems : ReadsTo (separated (symbol ',') selectItem) (greatestChars ++ fromChars name)
      [.expr greatestExpr none] (fromChars name) := by
    have hitem : ∀ x ∈ [()], ∀ s, Fence ["FROM"] s →
        ReadsTo selectItem (greatestChars ++ s) (.expr greatestExpr none) s := fun _ _ s hs =>
      selectItem_expr (.name 1 "COALESCE" "max(rowtime), 0)".toList) (fun _ hr => greatest_ok hr)
        none hs (by decide)
    exact list_ok (List.cons_ne_nil () []) (fun _ _ => solid_of_head rfl) hitem hwall
  obtain ⟨r, hread, hl⟩ := hitems
  have hfrom : optional (after (keyword "FROM") (sourceWith (queryAt n) (sourceAt n))) r =
      .ok (some [.table name none], []) := by
    have hafter : ReadsTo (after (keyword "FROM") (sourceWith (queryAt n) (sourceAt n))) r
        [.table name none] [] := by
      refine after_keyword ?_ hsolid (.here ?_)
      · rw [skip_of_left hl, List.append_nil]
        rfl
      · rw [List.append_nil]
        exact quotedTable_ok n name
    obtain ⟨u, hu, hu'⟩ := hafter
    have : u = [] := by rcases hu' with rfl | rfl <;> rfl
    exact optional_ok (this ▸ hu)
  refine (bind_ok hselect).trans ((bind_ok hdistinct).trans ((bind_ok hread).trans
    ((bind_ok hfrom).trans ?_)))
  refine (bind_ok (optional_refuses (after_keyword_refuses rfl))).trans ?_
  refine (bind_ok (optional_refuses (after_keywords_refuses rfl))).trans ?_
  exact (bind_ok (optional_refuses (after_keyword_refuses rfl))).trans rfl

end Sql.Parser

open Rowtime.Sql.Parser

/-- The text of a probe is read as its query. -/
theorem parse_probe (t : TableRef) : parseStatement t.probe = .ok (.query (probeQuery t.name)) := by
  have htext : t.probe.toList = "SELECT ".toList ++ (greatestChars ++ fromChars t.name) := by
    have hliteral : "SELECT COALESCE(max(rowtime), 0) FROM ".toList =
        "SELECT ".toList ++ (greatestChars ++ " FROM ".toList) := by decide
    have happend : t.probe.toList = "SELECT COALESCE(max(rowtime), 0) FROM ".toList ++
        (Doubled.quoted '"' t.name).toList := String.toList_append
    exact happend.trans ((congrArg (· ++ _) hliteral).trans
      ((List.append_assoc _ _ _).trans (congrArg _ (List.append_assoc _ _ _))))
  refine parseStatement_of_query ?_ ?_ ?_
  · rw [htext]
    exact Or.inl ⟨_, rfl⟩
  · have hname : Closes (Doubled.quoted '"' t.name).toList := by
      rw [Doubled.quoted, String.toList_ofList]
      exact ⟨_, '"', (List.cons_append (a := '"')).symm, by decide, by decide⟩
    rw [htext]
    exact ((hname.append _).append _).append _
  · rw [htext, query]
    exact queryWith_alone (orElse_ok (selectCore_probe _ t.name)) fun v hv => by
      revert v
      decide

/-! ## The answer -/

theorem Table.Valid.resolve_rowtime {t : Table} (h : t.Valid) (qualifier : Option String) :
    resolve (t.columns.map fun c => ⟨qualifier, c.name⟩) ⟨none, rowtimeName⟩ =
      .ok t.rowtimeIndex := by
  obtain ⟨c, hc, hr, -⟩ := h.rowtime
  refine resolve_ok (b := ⟨qualifier, c.name⟩) ?_ ?_ fun j b hb hf => ?_
  · rw [List.getElem?_map, hc, Option.map_some]
  · simpa [Binding.fits, Column.isRowtime] using hr
  · rw [List.getElem?_map, Option.map_eq_some_iff] at hb
    obtain ⟨d, hd, rfl⟩ := hb
    exact h.rowtime_only hd (by simpa [Binding.fits, Column.isRowtime] using hf)

theorem compare?_integer (a b : Int64) :
    (Value.integer a).compare? (.integer b) = .ok (some (Ord.compare a.toInt b.toInt)) := rfl

/-- The greatest of growing integers is the last one. -/
theorem extremeFrom_increasing {b : Int64} {is : List Int64} (h : (b :: is).Pairwise (· < ·)) :
    Value.extremeFrom .gt (some (.integer b)) (is.map Value.integer) =
      .ok (.integer (is.getLast?.getD b)) := by
  induction is generalizing b with
  | nil => rfl
  | cons i is ih =>
      have hlt : b < i := (List.pairwise_cons.mp h).1 i (by simp)
      have hgt : Ord.compare i.toInt b.toInt = .gt :=
        Int.compare_eq_gt.mpr (Int64.lt_iff_toInt_lt.mp hlt)
      rw [List.map_cons, Value.extremeFrom, compare?_integer, hgt]
      simp only [beq_self_eq_true, if_true]
      rw [ih (List.pairwise_cons.mp h).2, List.getLast?_cons]
      rfl

theorem max_increasing {is : List Int64} (h : is.Pairwise (· < ·)) :
    Value.aggregate .max (is.map Value.integer) =
      .ok ((is.getLast?.map Value.integer).getD .null) := by
  cases is with
  | nil => rfl
  | cons b is =>
      rw [List.map_cons, Value.aggregate, Value.extremeFrom, extremeFrom_increasing h,
        List.getLast?_cons]
      rfl

/-- The value of the expression in a probe over the rows of a table. -/
theorem eval_greatest {t : Table} (h : t.Valid) (qualifier : Option String) (row : Row) :
    greatestExpr.eval ⟨t.columns.map fun c => ⟨qualifier, c.name⟩, row, some t.rows⟩ =
      .ok (.integer t.maxRowtime) := by
  have hcollect : collect (fun row => (Expr.column ⟨none, rowtimeName⟩).eval
      (.ofRow (t.columns.map fun c => ⟨qualifier, c.name⟩) row)) t.rows =
      .ok (t.rows.map fun row => .integer (t.stamp row)) := by
    refine collect_eq_map fun row hrow => ?_
    rw [Expr.eval, Context.ofRow, h.resolve_rowtime qualifier, ok_bind, (h.stamped row hrow).1]
    rfl
  have hfilter : (t.rows.map fun row => Value.integer (t.stamp row)).filter (fun v => !v.isNull) =
      (t.rows.map t.stamp).map Value.integer := by
    rw [List.map_map, List.filter_eq_self.mpr]
    · rfl
    · intro v hv
      obtain ⟨row, -, rfl⟩ := List.mem_map.mp hv
      rfl
  have hincreasing : (t.rows.map t.stamp).Pairwise (· < ·) := List.pairwise_map.mpr h.increasing
  have hmax : (Expr.aggregate .max false (.column ⟨none, rowtimeName⟩)).eval
      ⟨t.columns.map fun c => ⟨qualifier, c.name⟩, row, some t.rows⟩ =
      .ok ((t.rows.getLast?.map fun row => Value.integer (t.stamp row)).getD .null) := by
    rw [Expr.eval]
    simp only [Context.members, ok_bind]
    rw [hcollect, ok_bind, hfilter]
    simp only [Bool.false_eq_true, if_false]
    rw [max_increasing hincreasing, List.getLast?_map, Option.map_map]
    rfl
  have hcall : greatestExpr.eval ⟨t.columns.map fun c => ⟨qualifier, c.name⟩, row, some t.rows⟩ =
      Expr.evalFirst [.aggregate .max false (.column ⟨none, rowtimeName⟩), .literal (.integer 0)]
        ⟨t.columns.map fun c => ⟨qualifier, c.name⟩, row, some t.rows⟩ := by
    rw [greatestExpr, Expr.eval]
    exact if_pos (by decide)
  rw [hcall, Expr.evalFirst, hmax, ok_bind, h.greatest]
  cases t.rows.getLast? with
  | none => rfl
  | some row => rfl

/-- The answer to a probe is the greatest row time of the table. -/
theorem probe_run {db : Catalog} (hdb : db.Valid) {name : String} {t : Table}
    (ht : db.get? name = some t) :
    (probeQuery name).run db = .ok ⟨[⟨none, lower "COALESCE"⟩], [[.integer t.maxRowtime]]⟩ := by
  have h := (hdb.get? ht).1
  have hsource : FromItem.runList db .unit [.table name none] = .ok (.ofTable name t) := by
    rw [FromItem.runList, FromItem.run, Relation.fromTable, ht]
    change FromItem.runList db (Relation.unit.cross (.ofTable name t)) [] = _
    rw [Relation.unit_cross, FromItem.runList]
  have hrow : Relation.outputRow probeClauses .empty [⟨none, lower "COALESCE"⟩]
      (Relation.groupContext (Relation.ofTable name t).columns t.rows) =
      .ok ⟨[.integer t.maxRowtime], []⟩ := by
    rw [Relation.outputRow, Relation.project, probeClauses, collect, Relation.itemValues,
      Relation.groupContext, Relation.ofTable, eval_greatest h]
    rfl
  have hgroup : Relation.groupOutput probeClauses .empty [⟨none, lower "COALESCE"⟩]
      (Relation.ofTable name t).columns t.rows = .ok [⟨[.integer t.maxRowtime], []⟩] := by
    rw [Relation.groupOutput_eq, hrow]
    rfl
  have hkeyed : Relation.keyedRows probeClauses .empty [⟨none, lower "COALESCE"⟩]
      (.ofTable name t) = .ok [⟨[.integer t.maxRowtime], []⟩] := by
    have hgrouped : Relation.isGrouped probeClauses .empty = true := rfl
    have hgroups : Relation.groupRows probeClauses.groupBy (.ofTable name t) = .ok [t.rows] := rfl
    rw [Relation.keyedRows, if_pos hgrouped, hgroups, ok_bind, collect, hgroup]
    rfl
  have hfiltered : Relation.filtered probeClauses.condition (.ofTable name t) =
      .ok (.ofTable name t) := rfl
  have hcolumns : Relation.outputColumns probeClauses.projection (Relation.ofTable name t).columns =
      .ok [⟨none, lower "COALESCE"⟩] := rfl
  rw [probeQuery, Query.run, hsource, ok_bind, Relation.select_eq, hfiltered, ok_bind,
    Relation.selectKept, hcolumns, ok_bind, hkeyed]
  rfl

/-- A table that is not there cannot be probed. -/
theorem probe_run_missing {db : Catalog} {name : String} (ht : db.get? name = none)
    (hd : sameName name dualName = false) : (probeQuery name).run db = .error (.tableNotFound name) := by
  have hsource : FromItem.runList db .unit [.table name none] = .error (.tableNotFound name) := by
    rw [FromItem.runList, FromItem.run, Relation.fromTable, ht]
    simp only [hd]
    rfl
  rw [probeQuery, Query.run, hsource]
  rfl

end Rowtime
