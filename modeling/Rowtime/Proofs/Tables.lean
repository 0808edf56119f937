import Rowtime.Proofs.Names

/-!
# What holds of every table

A table that was created by its declaration and filled row by row is `Valid`:
its columns have different names, exactly one of them is the row time, every row
has a value for each column, and row times grow from row to row up to the
greatest one. Inserting a row keeps this, and only adds behind what is there:
the table `Grows`. A later table therefore shows the same rows up to any mark
that the earlier one had reached.
-/
namespace Rowtime

open Text

namespace Table

/-- The row time of a row of the table. -/
def stamp (t : Table) (row : Row) : Int64 :=
  match row[t.rowtimeIndex]? with
  | some (.integer i) => i
  | _ => 0

/-- The row time column stands at its position and is declared as one. -/
def HasRowtime (t : Table) : Prop :=
  ∃ c, t.columns[t.rowtimeIndex]? = some c ∧ c.isRowtime = true ∧ c.type.isInt64 = true ∧
    c.nullable = false ∧ c.primaryKey = true ∧ c.unique = true

/-- What the values of a column may be: no NULL unless the column allows it, and no value twice in
a unique column. -/
def Admissible (t : Table) (i : Nat) (c : Column) : Prop :=
  (c.nullable = false → ∀ r ∈ t.rows, ∀ v, r[i]? = some v → v.isNull = false) ∧
  (c.unique = true → t.rows.Pairwise fun r s => ∀ v w, r[i]? = some v → s[i]? = some w →
    w.isNull = false → Value.same v w = false)

/-- The state of a table that was created and filled by the library. -/
structure Valid (t : Table) : Prop where
  names : t.columns.Pairwise fun a b => sameName a.name b.name = false
  rowtime : t.HasRowtime
  onlyKey : ∀ c ∈ t.columns, c.primaryKey = true → c.isRowtime = true
  width : ∀ r ∈ t.rows, r.length = t.columns.length
  stamped : ∀ r ∈ t.rows, r[t.rowtimeIndex]? = some (.integer (t.stamp r)) ∧ 0 < t.stamp r
  increasing : t.rows.Pairwise fun r s => t.stamp r < t.stamp s
  greatest : t.maxRowtime = (t.rows.getLast?.map t.stamp).getD 0
  admissible : ∀ i c, t.columns[i]? = some c → t.Admissible i c

theorem stamp_of_getElem {t : Table} {row : Row} {i : Int64}
    (h : row[t.rowtimeIndex]? = some (.integer i)) : t.stamp row = i := by
  simp [stamp, h]

/-- No row time is above the greatest. -/
theorem Valid.stamp_le {t : Table} (h : t.Valid) {r : Row} (hr : r ∈ t.rows) :
    t.stamp r ≤ t.maxRowtime := by
  rw [h.greatest]
  have hne : t.rows ≠ [] := List.ne_nil_of_mem hr
  rw [List.getLast?_eq_some_getLast hne, Option.map_some, Option.getD_some]
  rcases List.eq_nil_or_concat t.rows with he | ⟨rest, last, he⟩
  · exact absurd he hne
  · have hlast : t.rows.getLast hne = last := by simp [he]
    rw [hlast]
    have hp := h.increasing
    rw [he, List.concat_eq_append, List.pairwise_append] at hp
    rw [he, List.concat_eq_append, List.mem_append, List.mem_singleton] at hr
    rcases hr with hr | rfl
    · exact Int64.le_of_lt (hp.2.2 r hr last (by simp))
    · exact Int64.le_refl _

theorem Valid.maxRowtime_nonneg {t : Table} (h : t.Valid) : 0 ≤ t.maxRowtime := by
  rw [h.greatest]
  cases hl : t.rows.getLast? with
  | none => exact Int64.le_refl 0
  | some row => exact Int64.le_of_lt (h.stamped row (List.mem_of_getLast? hl)).2

/-- The row time column is the only one with its name. -/
theorem Valid.rowtime_only {t : Table} (h : t.Valid) {j : Nat} {d : Column}
    (hd : t.columns[j]? = some d) (hr : d.isRowtime = true) : j = t.rowtimeIndex := by
  obtain ⟨c, hc, hcr, -⟩ := h.rowtime
  obtain ⟨hj, rfl⟩ := List.getElem?_eq_some_iff.mp hd
  obtain ⟨hi, rfl⟩ := List.getElem?_eq_some_iff.mp hc
  have hsame := sameName_trans hr (sameName_symm hcr)
  have hp := List.pairwise_iff_getElem.mp h.names
  rcases Nat.lt_trichotomy j t.rowtimeIndex with hlt | he | hgt
  · exact absurd hsame (by simp [hp j _ hj hi hlt])
  · exact he
  · exact absurd (sameName_symm hsame) (by simp [hp _ j hi hj hgt])

/-! ## Creation -/

theorem repeatedName_none {seen : List String} {cs : List Column}
    (h : repeatedName? seen cs = none) :
    cs.Pairwise (fun a b => sameName a.name b.name = false) ∧
      ∀ s ∈ seen, ∀ c ∈ cs, sameName s c.name = false := by
  induction cs generalizing seen with
  | nil => simp
  | cons c r ih =>
      unfold repeatedName? at h
      split at h
      · simp at h
      · rename_i hc
        simp only [List.any_eq_true, not_exists, not_and, Bool.not_eq_true] at hc
        obtain ⟨hp, hs⟩ := ih h
        refine ⟨List.pairwise_cons.mpr ⟨hs c.name (by simp), hp⟩, ?_⟩
        intro s hm d hd
        rcases List.mem_cons.mp hd with rfl | hd
        · exact hc s hm
        · exact hs s (by simp [hm]) d hd

/-- The columns of a new table have their row time at the position that is given for it. -/
theorem withRowtime_spec {columns cs : List Column} {i : Nat}
    (h : withRowtime columns = .ok (cs, i)) :
    ∃ c, cs[i]? = some c ∧ c.isRowtime = true ∧ c.type.isInt64 = true ∧ c.nullable = false ∧
      c.primaryKey = true ∧ c.unique = true := by
  unfold withRowtime at h
  split at h
  · simp only [Except.ok.injEq, Prod.mk.injEq] at h
    obtain ⟨rfl, rfl⟩ := h
    exact ⟨Column.rowtime, rfl, by decide, rfl, rfl, rfl, rfl⟩
  · rename_i j hj
    obtain ⟨hlt, hrow, -⟩ := List.findIdx?_eq_some_iff_getElem.mp hj
    rw [List.getElem?_eq_getElem hlt] at h
    simp only at h
    split at h
    · simp at h
    · rename_i hf
      simp only [Except.ok.injEq, Prod.mk.injEq] at h
      obtain ⟨rfl, rfl⟩ := h
      unfold rowtimeFault? at hf
      split at hf
      · simp at hf
      · split at hf
        · simp at hf
        · rename_i htype hnull
          refine ⟨_, List.getElem?_set_self hlt, hrow, ?_, ?_, rfl, rfl⟩
          · simpa using htype
          · simpa using hnull

/-- A new table is valid and has no rows. -/
theorem create_spec {name : String} {columns : List Column} {t : Table}
    (h : create name columns = .ok t) : t.Valid ∧ t.name = name ∧ t.rows = [] := by
  unfold create at h
  split at h
  · simp at h
  · rename_i cs i hw
    split at h
    · simp at h
    · rename_i hpk
      split at h
      · simp at h
      · rename_i hn
        rw [Except.ok.injEq] at h
        subst h
        refine ⟨⟨(repeatedName_none hn).1, withRowtime_spec hw, ?_, by simp, by simp, by simp, rfl, ?_⟩,
          rfl, rfl⟩
        · intro c hc hk
          have := List.find?_eq_none.mp hpk c hc
          simpa [hk] using this
        · intro j c _
          exact ⟨by simp, by simp⟩

/-! ## Insertion -/

theorem columnFault_none {rows : List Row} {i : Nat} {c : Column} {v : Value}
    (h : columnFault? rows i c v = none) :
    (c.nullable = false → v.isNull = false) ∧
      (c.unique = true → c.isRowtime = false → v.isNull = false →
        ∀ r ∈ rows, ∀ w, r[i]? = some w → Value.same w v = false) := by
  unfold columnFault? at h
  cases hv : v.isNull with
  | true =>
      simp only [hv, if_true] at h
      cases hn : c.nullable <;> simp_all
  | false =>
      simp only [hv, Bool.false_eq_true, if_false] at h
      refine ⟨fun _ => rfl, fun hu hr _ r hrm w hw => ?_⟩
      simp only [hu, hr, Bool.not_false, Bool.true_and, List.any_eq_true] at h
      cases hs : Value.same w v with
      | false => rfl
      | true =>
          rw [if_pos ⟨r, hrm, by simp [hw, hs]⟩] at h
          simp at h

theorem rowFault_none {rows : List Row} {k : Nat} {cs : List Column} {row : Row}
    (h : rowFault? rows k cs row = none) {i : Nat} {c : Column} {v : Value}
    (hc : cs[i]? = some c) (hv : row[i]? = some v) : columnFault? rows (k + i) c v = none := by
  induction cs generalizing k row i with
  | nil => simp at hc
  | cons d cs ih =>
      cases row with
      | nil => simp at hv
      | cons w row =>
          unfold rowFault? at h
          split at h
          · simp at h
          · rename_i hd
            cases i with
            | zero =>
                simp only [List.getElem?_cons_zero, Option.some.injEq] at hc hv
                subst hc hv
                exact hd
            | succ i =>
                rw [List.getElem?_cons_succ] at hc hv
                have := ih h hc hv
                rwa [show k + 1 + i = k + (i + 1) by omega] at this

theorem rowtimeOf_spec {t : Table} {row : Row} {i : Int64} (h : t.rowtimeOf row = .ok i) :
    row[t.rowtimeIndex]? = some (.integer i) ∧ 0 < i ∧ t.maxRowtime < i := by
  unfold rowtimeOf at h
  cases hv : row[t.rowtimeIndex]? with
  | none => simp [hv] at h
  | some v =>
      simp only [hv, Option.getD_some] at h
      cases v with
      | integer j =>
          simp only at h
          split at h
          · simp at h
          · split at h
            · simp at h
            · rename_i h₁ h₂
              rw [Except.ok.injEq] at h
              subst h
              refine ⟨rfl, Int64.lt_iff_toInt_lt.mpr ?_, Int64.lt_iff_toInt_lt.mpr ?_⟩
              · simpa using h₁
              · omega
      | _ => simp at h

/-- What an accepted row does to a table. -/
theorem insert_spec {t t' : Table} {row : Row} (h : t.insert row = .ok t') :
    row.length = t.columns.length ∧ rowFault? t.rows 0 t.columns row = none ∧
      ∃ i, row[t.rowtimeIndex]? = some (.integer i) ∧ 0 < i ∧ t.maxRowtime < i ∧
        t' = { t with rows := t.rows ++ [row], maxRowtime := i } := by
  unfold insert at h
  split at h
  · simp at h
  · rename_i hl
    split at h
    · simp at h
    · rename_i hf
      split at h
      · simp at h
      · rename_i i hi
        obtain ⟨hrow, hpos, hmax⟩ := rowtimeOf_spec hi
        rw [Except.ok.injEq] at h
        exact ⟨by simpa using hl, hf, i, hrow, hpos, hmax, h.symm⟩

theorem pairwise_concat {α : Type} {R : α → α → Prop} {xs : List α} {x : α} :
    (xs ++ [x]).Pairwise R ↔ xs.Pairwise R ∧ ∀ y ∈ xs, R y x := by
  simp [List.pairwise_append]

theorem insert_valid {t t' : Table} {row : Row} (hv : t.Valid) (h : t.insert row = .ok t') :
    t'.Valid := by
  obtain ⟨hlen, hfault, i, hrow, hpos, hmax, rfl⟩ := insert_spec h
  have hstamp : t.stamp row = i := stamp_of_getElem hrow
  have hlt : ∀ r ∈ t.rows, t.stamp r < i := fun r hr =>
    Int64.lt_of_le_of_lt (hv.stamp_le hr) hmax
  constructor
  · exact hv.names
  · exact hv.rowtime
  · exact hv.onlyKey
  · intro r hr
    rcases List.mem_append.mp hr with hr | hr
    · exact hv.width r hr
    · rw [List.mem_singleton] at hr
      exact hr ▸ hlen
  · intro r hr
    rcases List.mem_append.mp hr with hr | hr
    · exact hv.stamped r hr
    · rw [List.mem_singleton] at hr
      subst hr
      change r[t.rowtimeIndex]? = some (.integer (t.stamp r)) ∧ 0 < t.stamp r
      rw [hstamp]
      exact ⟨hrow, hpos⟩
  · refine pairwise_concat.mpr ⟨hv.increasing, fun r hr => ?_⟩
    change t.stamp r < t.stamp row
    rw [hstamp]
    exact hlt r hr
  · change i = (((t.rows ++ [row]).getLast?).map t.stamp).getD 0
    simp [hstamp]
  · intro j c hc
    obtain ⟨hnn, huniq⟩ := hv.admissible j c hc
    constructor
    · intro hn r hr v hrv
      rcases List.mem_append.mp hr with hr | hr
      · exact hnn hn r hr v hrv
      · rw [List.mem_singleton] at hr
        subst hr
        have := rowFault_none hfault hc hrv
        exact (columnFault_none this).1 hn
    · intro hu
      refine pairwise_concat.mpr ⟨huniq hu, fun r hr v w hrv hrw hnull => ?_⟩
      have hcol := rowFault_none hfault hc hrw
      rw [Nat.zero_add] at hcol
      cases hrt : c.isRowtime with
      | false => exact (columnFault_none hcol).2 hu hrt hnull r hr v hrv
      | true =>
          have hj := hv.rowtime_only hc hrt
          subst hj
          rw [(hv.stamped r hr).1, Option.some.injEq] at hrv
          rw [hrow, Option.some.injEq] at hrw
          subst hrv hrw
          have hne : t.stamp r ≠ i := Int64.ne_of_lt (hlt r hr)
          simp [Value.same, hne]

/-! ## Growth -/

/-- A later state of a table: rows were added behind those that were there. -/
structure Grows (t t' : Table) : Prop where
  name : t'.name = t.name
  columns : t'.columns = t.columns
  index : t'.rowtimeIndex = t.rowtimeIndex
  rows : ∃ added, t'.rows = t.rows ++ added ∧ ∀ r ∈ added, t.maxRowtime < t.stamp r
  greatest : t.maxRowtime ≤ t'.maxRowtime

theorem Grows.refl (t : Table) : t.Grows t :=
  ⟨rfl, rfl, rfl, ⟨[], by simp⟩, Int64.le_refl _⟩

theorem Grows.stamp {t t' : Table} (h : t.Grows t') : t'.stamp = t.stamp := by
  funext row
  simp [Table.stamp, h.index]

theorem Grows.trans {t t' t'' : Table} (h : t.Grows t') (k : t'.Grows t'') : t.Grows t'' := by
  obtain ⟨added, ha, hs⟩ := h.rows
  obtain ⟨more, hm, hk⟩ := k.rows
  refine ⟨k.name.trans h.name, k.columns.trans h.columns, k.index.trans h.index,
    ⟨added ++ more, by rw [hm, ha, List.append_assoc], fun r hr => ?_⟩,
    Int64.le_trans h.greatest k.greatest⟩
  rcases List.mem_append.mp hr with hr | hr
  · exact hs r hr
  · have := hk r hr
    rw [h.stamp] at this
    exact Int64.lt_of_le_of_lt h.greatest this

/-- A later state of a table, with the rows that were added one by one behind those that were
there. -/
structure Extends (t : Table) (added : List Row) (t' : Table) : Prop where
  name : t'.name = t.name
  columns : t'.columns = t.columns
  index : t'.rowtimeIndex = t.rowtimeIndex
  rows : t'.rows = t.rows ++ added
  stamped : ∀ r ∈ added, r[t.rowtimeIndex]? = some (.integer (t.stamp r))
  above : ∀ r ∈ added, t.maxRowtime < t.stamp r
  increasing : added.Pairwise fun r s => t.stamp r < t.stamp s
  greatest : t'.maxRowtime = (added.getLast?.map t.stamp).getD t.maxRowtime

theorem Extends.refl (t : Table) : t.Extends [] t :=
  ⟨rfl, rfl, rfl, (List.append_nil _).symm, by simp, by simp, .nil, rfl⟩

/-- An accepted row before the others: they lie above its row time, which is the greatest one
then. -/
theorem Extends.cons {t t₁ t' : Table} {row : Row} {added : List Row} (h : t.insert row = .ok t₁)
    (k : t₁.Extends added t') : t.Extends (row :: added) t' := by
  obtain ⟨-, -, i, hrow, -, hmax, rfl⟩ := insert_spec h
  have hstamp : t.stamp row = i := stamp_of_getElem hrow
  have habove : ∀ r ∈ added, i < t.stamp r := k.above
  constructor
  · exact k.name
  · exact k.columns
  · exact k.index
  · rw [k.rows, List.append_assoc, List.singleton_append]
  · intro r hr
    rcases List.mem_cons.mp hr with rfl | hr
    · rw [hstamp, hrow]
    · exact k.stamped r hr
  · intro r hr
    rcases List.mem_cons.mp hr with rfl | hr
    · rwa [hstamp]
    · exact Int64.lt_trans hmax (habove r hr)
  · apply List.Pairwise.cons
    · intro r hr
      rw [hstamp]
      exact habove r hr
    · exact k.increasing
  · rw [k.greatest, List.getLast?_cons, Option.map_some, Option.getD_some]
    cases added.getLast? with
    | none => exact hstamp.symm
    | some last => rfl

theorem Extends.grows {t t' : Table} {added : List Row} (h : t.Extends added t') : t.Grows t' := by
  refine ⟨h.name, h.columns, h.index, ⟨added, h.rows, h.above⟩, ?_⟩
  rw [h.greatest]
  cases hl : added.getLast? with
  | none => exact Int64.le_refl _
  | some last => exact Int64.le_of_lt (h.above last (List.mem_of_getLast? hl))

end Table

end Rowtime
