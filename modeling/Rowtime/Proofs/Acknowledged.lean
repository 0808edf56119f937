import Rowtime.Proofs.Written

/-!
# What an acknowledged INSERT leaves

The rows of an INSERT are tried one after the other on the table that the engine
sees. They are written if all of them fit, and then applied to the table that the
log has, each for itself. When the two tables are the same all rows fit again, since
what is read differs from what was tried in the signs of decimal zeros at most, and
no check looks at these. When they are not, rows that no longer fit are passed over,
and the statement is acknowledged with the number of its rows all the same.
-/
namespace Rowtime

open Log Sql

/-! ## Signs of zeros do not matter -/

namespace Table

variable {rows rows' : List Row}

theorem any_same_plain (h : rows'.map plainRow = rows.map plainRow) (i : Nat) (v : Value) :
    (rows'.any fun r => (r[i]?.map (Value.same · v.plain)).getD false) =
      rows.any fun r => (r[i]?.map (Value.same · v)).getD false := by
  have hplain : ∀ rs : List Row, (rs.any fun r => (r[i]?.map (Value.same · v)).getD false) =
      (rs.map plainRow).any fun r => (r[i]?.map (Value.same · v)).getD false := by
    intro rs
    rw [List.any_map]
    congr 1
    funext r
    simp only [Function.comp_apply, plainRow, List.getElem?_map, Option.map_map]
    congr 2
    funext w
    exact (Value.same_plain_left w v).symm
  simp only [Value.same_plain_right]
  rw [hplain rows', hplain rows, h]

theorem columnFault_plain (h : rows'.map plainRow = rows.map plainRow) {i : Nat} {c : Column}
    {v : Value} (hf : columnFault? rows i c v = none) : columnFault? rows' i c v.plain = none := by
  unfold columnFault? at hf ⊢
  rw [Value.isNull_plain, any_same_plain h]
  split
  · rename_i hn
    rwa [if_pos hn] at hf
  · rename_i hn
    rw [if_neg hn] at hf
    split
    · rename_i hu
      rw [if_pos hu] at hf
      simp at hf
    · rfl

theorem rowFault_plain (h : rows'.map plainRow = rows.map plainRow) {k : Nat} {cs : List Column}
    {row : Row} (hf : rowFault? rows k cs row = none) :
    rowFault? rows' k cs (plainRow row) = none := by
  induction cs generalizing k row with
  | nil => rfl
  | cons c cs ih =>
      cases row with
      | nil => rfl
      | cons v vs =>
          rw [rowFault?] at hf
          split at hf
          · simp at hf
          · rename_i hc
            change rowFault? rows' k (c :: cs) (v.plain :: plainRow vs) = none
            rw [rowFault?, columnFault_plain h hc]
            exact ih hf

/-- A row that passes every check is appended. -/
theorem insert_accepted {t : Table} {row : Row} {i : Int64} (hl : row.length = t.columns.length)
    (hf : rowFault? t.rows 0 t.columns row = none)
    (hr : row[t.rowtimeIndex]? = some (.integer i)) (hpos : 0 < i) (hmax : t.maxRowtime < i) :
    t.insert row = .ok { t with rows := t.rows ++ [row], maxRowtime := i } := by
  have hrowtime : t.rowtimeOf row = .ok i := by
    have hzero : ¬i.toInt ≤ 0 := by
      have := Int64.lt_iff_toInt_lt.mp hpos
      simpa using this
    have habove : ¬i.toInt ≤ t.maxRowtime.toInt := by
      have := Int64.lt_iff_toInt_lt.mp hmax
      omega
    simp [rowtimeOf, hr, hzero, habove]
  rw [insert, if_neg (by simpa using hl), hf, hrowtime]

/-- Tables that differ in the signs of decimal zeros at most. -/
structure Beside (t u : Table) : Prop where
  columns : u.columns = t.columns
  index : u.rowtimeIndex = t.rowtimeIndex
  greatest : u.maxRowtime = t.maxRowtime
  rows : u.rows.map plainRow = t.rows.map plainRow

/-- A row that fits into the one table fits, as it is read, into the other. -/
theorem Beside.insert {t t' u : Table} {row : Row} (h : t.Beside u) (hi : t.insert row = .ok t') :
    ∃ u', u.insert (plainRow row) = .ok u' ∧ u'.rows = u.rows ++ [plainRow row] ∧
      t'.Beside u' := by
  obtain ⟨hl, hf, i, hr, hpos, hmax, rfl⟩ := insert_spec hi
  have hrow : (plainRow row)[u.rowtimeIndex]? = some (.integer i) := by
    rw [plainRow, List.getElem?_map, h.index, hr]
    rfl
  have hlength : (plainRow row).length = u.columns.length := by
    rw [plainRow, List.length_map, hl, h.columns]
  have hfault : rowFault? u.rows 0 u.columns (plainRow row) = none := by
    rw [h.columns]
    exact rowFault_plain h.rows hf
  refine ⟨_, insert_accepted hlength hfault hrow hpos (h.greatest ▸ hmax), rfl, ?_⟩
  refine ⟨h.columns, h.index, rfl, ?_⟩
  rw [List.map_append, List.map_append, h.rows, List.map_singleton, List.map_singleton,
    plainRow_plainRow]

theorem Beside.refl (t : Table) : t.Beside t := ⟨rfl, rfl, rfl, rfl⟩

end Table

/-! ## Sites -/

/-- What a successful INSERT leaves: rows for all its tuples, each of which is applied to the tables
of the log. -/
theorem Engine.InStep.inserted {e : Engine} {log : Bytes} (h : e.InStep log) (hw : Whole log)
    {now : Int64} {id : UInt64} {sql name : String} {names : Option (List String)}
    {tuples : List Row} (hs : parseStatement sql = .ok (.insert name names tuples)) {o : Outcome}
    (ho : (e.execute now id log sql).result = .ok o) :
    ∃ t rows, (e.enter id log).catalog.get? name = some t ∧
      t.prepare now names tuples = .ok rows ∧ o = .command (.insert rows.length) ∧
      (e.execute now id log sql).engine.catalog =
        replay (database log) (rows.map fun row => .insert t.name (plainRow row)) := by
  cases h.effect now id sql with
  | refused result _ _ => rw [result] at ho; simp at ho
  | broken _ _ _ _ _ result _ _ => rw [result] at ho; simp at ho
  | answered parsed plan _ _ =>
      rw [hs, Except.ok.injEq] at parsed
      subst parsed
      obtain ⟨t, rows, -, -, hplan⟩ := planInsert_spec plan
      simp at hplan
  | recorded parsed plan _ operations result _ catalog =>
      rw [hs, Except.ok.injEq] at parsed
      subst parsed
      obtain ⟨t, rows, hget, hrows, hplan⟩ := planInsert_spec plan
      rw [Plan.record.injEq] at hplan
      obtain ⟨rfl, rfl⟩ := hplan
      rw [result, Except.ok.injEq] at ho
      refine ⟨t, rows, hget, hrows, ho.symm, ?_⟩
      rw [catalog, database_append hw, operations, List.map_map]
      rfl

namespace Site

end Site

end Rowtime
