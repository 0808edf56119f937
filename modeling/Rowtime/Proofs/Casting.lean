import Rowtime.Engine.Plan
import Rowtime.Proofs.Typed

/-!
# Casting twice

A cast gives a value of the type, and NULL for NULL only. The values of a type are those that the
cast to it leaves as they are, so casting twice is casting once. The default of a column is cast
when the table is created, and again for every row that leaves the column out: the rows have the
default of the column as it stands.
-/
namespace Rowtime

open Sql

namespace Value

/-- No type fits a value by making it NULL. -/
theorem fit_ne_null {t : SqlType} {v : Value} : fit t v ≠ .ok .null := by
  have hread : ∀ {α : Type} {s : String} {o : Option α} {f : α → Value},
      (∀ a, f a ≠ .null) → orCannotStore t s (o.map f) ≠ .ok .null := by
    intro α s o f hf h
    obtain ⟨a, -, ha⟩ := Option.map_eq_some_iff.mp (orCannotStore_eq_ok.mp h)
    exact hf a ha
  intro h
  cases t with
  | text => simp [fit] at h
  | smallInt | integer | bigInt | real | numeric | varchar | char | boolean =>
      simp only [fit] at h
      split at h <;> simp at h
  | json =>
      simp only [fit] at h
      split at h
      · simp at h
      · split at h <;> simp at h
      · simp at h
  | date | timestamp | timestampTz | uuid | bytea =>
      simp only [fit] at h
      split at h
      · simp at h
      · exact hread (by simp) h
      · simp at h

theorem toInt16?_toInt (i : Int16) : toInt16? i.toInt = some i := by
  have hlow := i.le_toInt
  have hhigh := i.toInt_lt
  rw [toInt16?, if_pos (by omega), Int16.ofInt_toInt]

theorem toInt16?_toInt64 (i : Int16) :
    (some i.toInt64).bind (fun j => Rowtime.toInt16? j.toInt) = some i := by
  rw [Option.bind_some, Int16.toInt_toInt64, toInt16?_toInt]

theorem padTo_self {n : Nat} {s : String} (h : s.length = n) : padTo n s = s := by
  rw [padTo, h, Nat.sub_self, List.replicate_zero, List.append_nil, String.ofList_toList]

/-- A value of a type is cast to it as it is. -/
theorem cast_of_isOf {t : SqlType} {v : Value} (h : v.isOf t = true) : v.cast t = .ok v := by
  cases t <;> cases v <;> first | (cases h; done) | rfl | skip
  case smallInt.smallInt i =>
    have hi : (smallInt i).toInt64?.bind (fun j => Rowtime.toInt16? j.toInt) = some i :=
      toInt16?_toInt64 i
    simp only [cast, isNull, read, fit, hi, Bool.false_eq_true, if_false]
  case numeric.numeric p s d =>
    have hd : d.roundTo s.toNat = d := if_pos (of_decide_eq_true h)
    change Except.ok (numeric (d.roundTo s.toNat)) = .ok (numeric d)
    rw [hd]
  case varchar.text n s =>
    exact if_neg (Nat.not_lt.mpr (of_decide_eq_true h))
  case char.char n s =>
    have hlen : s.length = n.toNat := beq_iff_eq.mp h
    refine (if_neg (Nat.not_lt.mpr hlen.le)).trans ?_
    change Except.ok (char (padTo n.toNat s)) = .ok (char s)
    rw [padTo_self hlen]

/-- The cast to a type leaves the values of the type as they are, and no others. -/
theorem cast_eq_self_iff {t : SqlType} {v : Value} : v.cast t = .ok v ↔ v.isOf t = true :=
  ⟨cast_isOf, cast_of_isOf⟩

/-- A cast gives NULL for NULL only. -/
theorem cast_isNull {t : SqlType} {v w : Value} (h : v.cast t = .ok w) : w.isNull = v.isNull := by
  unfold cast at h
  split at h
  · rename_i hv
    cases h
    exact hv.symm
  · rename_i hv
    split at h
    · rw [Bool.not_eq_true] at hv
      rw [hv]
      cases w with
      | null => exact absurd h fit_ne_null
      | _ => rfl
    · cases h

end Value

/-! ## Defaults -/

/-- The default of a column, or NULL if it has none, is cast to the type of the column as it is. -/
def Column.Settled (c : Column) : Prop :=
  (c.defaultValue.getD .null).cast c.type = .ok (c.defaultValue.getD .null)

theorem Sql.ColumnDef.column_settled {d : ColumnDef} {c : Column} (h : d.column = .ok c) :
    c.Settled := by
  unfold column at h
  split at h
  · cases h
    exact Value.cast_of_isOf rfl
  · split at h
    · cases h
    · rename_i hw
      cases h
      exact Value.cast_of_isOf (Value.cast_isOf hw)

namespace Table

/-- What holds of the declared columns and of the row time holds of the columns of the table, if it
does not depend on the constraints of a key. -/
theorem create_columns {P : Column → Prop} (hrowtime : P .rowtime)
    (hkey : ∀ c, P c → P { c with primaryKey := true, unique := true }) {name : String}
    {columns : List Column} {t : Table} (h : create name columns = .ok t)
    (hcolumns : ∀ c ∈ columns, P c) : ∀ c ∈ t.columns, P c := by
  have hall : ∀ {cs : List Column} {i : Nat}, withRowtime columns = .ok (cs, i) →
      ∀ c ∈ cs, P c := by
    intro cs i hcs
    unfold withRowtime at hcs
    split at hcs
    · cases hcs
      exact List.forall_mem_cons.mpr ⟨hrowtime, hcolumns⟩
    · split at hcs
      · cases hcs
        exact hcolumns
      · rename_i c hc
        split at hcs
        · cases hcs
        · cases hcs
          intro d hd
          rcases List.mem_or_eq_of_mem_set hd with hd | rfl
          · exact hcolumns d hd
          · exact hkey c (hcolumns c (List.mem_of_getElem? hc))
  unfold create at h
  split at h
  · cases h
  · rename_i cs i hcs
    split at h
    · cases h
    · split at h
      · cases h
      · cases h
        exact hall hcs

/-- The row time has no default, and creating a table changes no other. -/
theorem create_settled {name : String} {columns : List Column} {t : Table}
    (h : create name columns = .ok t) (hcolumns : ∀ c ∈ columns, c.Settled) :
    ∀ c ∈ t.columns, c.Settled :=
  create_columns (Value.cast_of_isOf rfl) (fun _ hc => hc) h hcolumns

/-- The values of a row that was filled in. -/
theorem fillFrom_getElem {t : Table} {now : Int64} {given : Nat → Option Value} {k : Nat}
    {cs : List Column} {row : Row} (h : t.fillFrom now given k cs = .ok row) {i : Nat} {c : Column}
    (hc : cs[i]? = some c) :
    ∃ v, row[i]? = some v ∧ (t.valueFor now (k + i) c (given (k + i))).cast c.type = .ok v := by
  induction cs generalizing k row i with
  | nil => cases hc
  | cons d cs ih =>
      rw [fillFrom] at h
      split at h
      · cases h
      · rename_i v hv
        obtain ⟨rest, hrest, rfl⟩ := map_eq_ok.mp h
        cases i with
        | zero =>
            cases hc
            exact ⟨v, rfl, hv⟩
        | succ i =>
            have hnext : k + (i + 1) = k + 1 + i := by omega
            rw [hnext]
            exact ih hrest hc

theorem given?_eq_none {is : List Nat} {i : Nat} (h : i ∉ is) (values : Row) :
    given? is values i = none := by
  unfold given?
  rw [Option.map_eq_none_iff, List.find?_eq_none]
  intro p hp hpi
  rw [decide_eq_true_eq] at hpi
  exact h (hpi ▸ (List.of_mem_zip hp).1)

/-- A row that leaves a column out has its default as it stands. -/
theorem fill_default {t : Table} {now : Int64} {named : Option (List Nat)} {values row : Row}
    (h : t.fill now named values = .ok row) {i : Nat} {c : Column} (hc : t.columns[i]? = some c)
    (hsettled : c.Settled) (hi : i ∉ t.targets named values) (hrowtime : i ≠ t.rowtimeIndex) :
    row[i]? = some (c.defaultValue.getD .null) := by
  unfold fill at h
  simp only at h
  split at h
  · cases h
  · obtain ⟨v, hv, hcast⟩ := fillFrom_getElem h hc
    have hvalue : t.valueFor now i c none = c.defaultValue.getD .null := if_neg hrowtime
    rw [Nat.zero_add, given?_eq_none hi, hvalue, hsettled] at hcast
    cases hcast
    exact hv

end Table

/-- A cast gives NULL for NULL only, otherwise a value of the type, and casting the value again
changes nothing: the values of a type are those that the cast to it leaves as they are. So in every
table that was created by its declaration, a row that leaves a column out has the default that was
stored with the column. -/
theorem Value.cast_settled :
    (∀ (v w : Value) (t : SqlType), v.cast t = .ok w →
        w.isNull = v.isNull ∧ w.isOf t = true ∧ w.cast t = .ok w) ∧
      (∀ (v : Value) (t : SqlType), v.cast t = .ok v ↔ v.isOf t = true) ∧
      ∀ (name : String) (defs : List ColumnDef) (columns : List Column) (t : Table),
        collect ColumnDef.column defs = .ok columns → Table.create name columns = .ok t →
          ∀ (now : Int64) (named : Option (List Nat)) (values row : Row) (i : Nat) (c : Column),
            t.fill now named values = .ok row → t.columns[i]? = some c →
              i ∉ t.targets named values → i ≠ t.rowtimeIndex →
                row[i]? = some (c.defaultValue.getD .null) := by
  refine ⟨fun v w t h => ?_, fun v t => cast_eq_self_iff, ?_⟩
  · exact ⟨cast_isNull h, cast_isOf h, cast_of_isOf (cast_isOf h)⟩
  · intro name defs columns t hdefs ht now named values row i c hrow hc hi hrowtime
    have hsettled : ∀ c ∈ columns, c.Settled := fun c hc => by
      obtain ⟨d, -, hd⟩ := exists_of_mem_collect hdefs hc
      exact ColumnDef.column_settled hd
    exact Table.fill_default hrow hc
      (Table.create_settled ht hsettled c (List.mem_of_getElem? hc)) hi hrowtime

/-- A default that is shorter than its column is padded. -/
def paddedDefs : List ColumnDef :=
  [⟨"v", .char 3, true, false, false, some (.text "x")⟩,
    ⟨"w", .numeric 4 1, true, false, false, none⟩]

/-- The table with the padded default. -/
def paddedTable : Table :=
  ⟨"t", [.rowtime, ⟨"v", .char 3, true, false, false, some (.char "x  ")⟩,
    ⟨"w", .numeric 4 1, true, false, false, none⟩], [], 0, 0⟩

theorem Value.cast_settled_padded :
    (Value.text "2.25").cast (.numeric 4 1) =
        .ok (.numeric ⟨false, 22, 1, by decide, by decide⟩) ∧
      (Value.numeric ⟨false, 22, 1, by decide, by decide⟩).cast (.numeric 4 1) =
        .ok (.numeric ⟨false, 22, 1, by decide, by decide⟩) ∧
      ∃ row, paddedTable.fill 20 (some [2]) [.text "2.25"] = .ok row ∧
        row[1]? = some (.char "x  ") := by
  obtain ⟨hcast, -, hdefaults⟩ := Value.cast_settled
  have hread : (Value.text "2.25").cast (.numeric 4 1) =
      .ok (.numeric ⟨false, 22, 1, by decide, by decide⟩) := by decide +kernel
  have hcolumns : collect ColumnDef.column paddedDefs = .ok (paddedTable.columns.drop 1) := by
    decide +kernel
  have hcreate : Table.create "t" (paddedTable.columns.drop 1) = .ok paddedTable := by
    decide +kernel
  have hfill : paddedTable.fill 20 (some [2]) [.text "2.25"] =
      .ok [.integer 20, .char "x  ", .numeric ⟨false, 22, 1, by decide, by decide⟩] := by
    decide +kernel
  exact ⟨hread, (hcast _ _ _ hread).2.2, _, hfill,
    hdefaults _ _ _ _ hcolumns hcreate _ _ _ _ 1 _ hfill rfl (by decide) (by decide)⟩

end Rowtime
