import Rowtime.Proofs.Sources

/-!
# Rows are as wide as their relation

Every row of a result has one value for each of its columns. The rows of tables
have this width; products, joins, groups and projections keep it, and the closing
clauses only choose among rows.
-/
namespace Rowtime

open Sql

namespace Relation

/-- Every row has a value for each column. -/
def Rectangular (r : Relation) : Prop := ∀ row ∈ r.rows, row.length = r.columns.length

theorem unit_rectangular : unit.Rectangular := by
  intro row hr
  rw [unit, List.mem_singleton] at hr
  simp [hr, unit]

theorem ofTable_rectangular {q : String} {t : Table} (h : t.Rectangular) :
    (ofTable q t).Rectangular := by
  intro row hr
  rw [ofTable, List.length_map]
  exact h row hr

theorem fromSource_rectangular {src : Source} (h : src.Rectangular) {t : TableRef} {r : Relation}
    (hr : fromSource src t = .ok r) : r.Rectangular := by
  unfold fromSource at hr
  split at hr
  · rename_i table ht
    rw [Except.ok.injEq] at hr
    exact hr ▸ ofTable_rectangular (h t table ht)
  · split at hr
    · rw [Except.ok.injEq] at hr
      exact hr ▸ unit_rectangular
    · simp at hr

theorem qualified_rectangular {q : Option String} {r : Relation} (h : r.Rectangular) :
    (r.qualified q).Rectangular := by
  intro row hr
  rw [qualified, List.length_map]
  exact h row hr

theorem cross_rectangular {a b : Relation} (ha : a.Rectangular) (hb : b.Rectangular) :
    (a.cross b).Rectangular := by
  intro row hr
  simp only [cross, List.mem_flatMap, List.mem_map] at hr
  obtain ⟨l, hl, r, hr, rfl⟩ := hr
  simp [cross, ha l hl, hb r hr]

theorem mem_of_filterM {α : Type} {test : α → Except Fault Bool} {as bs : List α}
    (h : filterM test as = .ok bs) {b : α} (hb : b ∈ bs) : b ∈ as := by
  obtain ⟨-, rfl⟩ := filterM_eq_ok_iff.mp h
  exact (List.mem_filter.mp hb).1

theorem joinRow_length {columns : List Binding} {on : Option Expr} {kind : JoinKind} {width : Nat}
    {right found : List Row} {l : Row} (hr : ∀ r ∈ right, r.length = width)
    (h : joinRow columns on kind width right l = .ok found) :
    ∀ row ∈ found, row.length = l.length + width := by
  unfold joinRow at h
  obtain ⟨passed, hp, h⟩ := bind_eq_ok.mp h
  split at h
  · rw [pure_eq_ok] at h
    simp [← h]
  · rw [pure_eq_ok] at h
    intro row hrow
    rw [← h, List.mem_map] at hrow
    obtain ⟨r, hm, rfl⟩ := hrow
    simp [hr r (mem_of_filterM hp hm)]

theorem joinRowRight_length {columns : List Binding} {on : Option Expr} {width : Nat}
    {left found : List Row} {r : Row} (hl : ∀ l ∈ left, l.length = width)
    (h : joinRowRight columns on width left r = .ok found) :
    ∀ row ∈ found, row.length = width + r.length := by
  unfold joinRowRight at h
  obtain ⟨passed, hp, h⟩ := bind_eq_ok.mp h
  split at h
  · rw [pure_eq_ok] at h
    simp [← h]
  · rw [pure_eq_ok] at h
    intro row hrow
    rw [← h, List.mem_map] at hrow
    obtain ⟨l, hm, rfl⟩ := hrow
    simp [hl l (mem_of_filterM hp hm)]

theorem join_rectangular {k : JoinKind} {on : Option Expr} {a b r : Relation}
    (ha : a.Rectangular) (hb : b.Rectangular) (h : join k on a b = .ok r) : r.Rectangular := by
  rw [join_eq] at h
  obtain ⟨parts, hp, h⟩ := bind_eq_ok.mp h
  rw [Except.ok.injEq] at h
  subst h
  intro row hr
  obtain ⟨part, hpart, hrow⟩ := List.mem_flatten.mp hr
  rw [List.length_append]
  unfold joinParts at hp
  split at hp
  · obtain ⟨x, hx, hf⟩ := exists_of_mem_collect hp hpart
    rw [joinRowRight_length ha hf row hrow, hb x hx]
  · obtain ⟨x, hx, hf⟩ := exists_of_mem_collect hp hpart
    rw [joinRow_length hb hf row hrow, ha x hx]

/-! ## Projections -/

/-- An item gives as many values as columns. -/
theorem itemValues_length {ctx : Context} (hw : ctx.row.length = ctx.columns.length)
    {i : SelectItem} {vs : Row} {bs : List Binding} (hv : itemValues ctx i = .ok vs)
    (hb : itemColumns ctx.columns i = .ok bs) : vs.length = bs.length := by
  cases i with
  | all =>
      simp only [itemValues, itemColumns, Except.ok.injEq] at hv hb
      subst hv hb
      rw [hw, List.length_map]
  | allOf q =>
      simp only [itemValues, itemColumns, Except.ok.injEq] at hv hb
      have hzip : ∀ (cs : List Binding) (row : Row), row.length = cs.length →
          ((cs.zip row).filter fun p => p.1.hasQualifier q).length =
            (cs.filter fun b => b.hasQualifier q).length := by
        intro cs
        induction cs with
        | nil => intro row _; simp
        | cons c cs ih =>
            intro row hrow
            cases row with
            | nil => simp at hrow
            | cons v row =>
                have := ih row (by simpa using hrow)
                simp only [List.zip_cons_cons, List.filter_cons]
                split <;> simp [this]
      split at hb
      · simp at hb
      · rw [Except.ok.injEq] at hb
        subst hv hb
        rw [List.length_map, List.length_map, hzip _ _ hw]
  | expr e name =>
      simp only [itemValues, itemColumns, Except.ok.injEq] at hv hb
      obtain ⟨v, -, hv⟩ := bind_eq_ok.mp hv
      rw [pure_eq_ok] at hv
      subst hv hb
      rfl

theorem flatten_length {items : List SelectItem} {ctx : Context}
    (hw : ctx.row.length = ctx.columns.length) {vss : List Row} {bss : List (List Binding)}
    (hv : collect (itemValues ctx) items = .ok vss)
    (hb : collect (itemColumns ctx.columns) items = .ok bss) :
    vss.flatten.length = bss.flatten.length := by
  induction items generalizing vss bss with
  | nil =>
      rw [collect_nil, Except.ok.injEq] at hv hb
      subst hv hb
      rfl
  | cons i items ih =>
      obtain ⟨vs, vss, hi, hvs, rfl⟩ := collect_cons_eq_ok.mp hv
      obtain ⟨bs, bss, hj, hbs, rfl⟩ := collect_cons_eq_ok.mp hb
      rw [List.flatten_cons, List.flatten_cons, List.length_append, List.length_append,
        itemValues_length hw hi hj, ih hvs hbs]

/-- A projection gives as many values as columns. -/
theorem project_length {items : List SelectItem} {ctx : Context}
    (hw : ctx.row.length = ctx.columns.length) {row : Row} {output : List Binding}
    (hr : project items ctx = .ok row) (ho : outputColumns items ctx.columns = .ok output) :
    row.length = output.length := by
  obtain ⟨vss, hv, hvf⟩ := bind_eq_ok.mp hr
  obtain ⟨bss, hb, hbf⟩ := bind_eq_ok.mp ho
  rw [pure_eq_ok] at hvf hbf
  rw [← hvf, ← hbf, flatten_length hw hv hb]

theorem outputRow_length {c : Clauses} {t : Tail} {output : List Binding} (ctx : Context)
    (hw : ctx.row.length = ctx.columns.length)
    (ho : outputColumns c.projection ctx.columns = .ok output) {x : KeyedRow}
    (h : outputRow c t output ctx = .ok x) : x.row.length = output.length := by
  unfold outputRow at h
  obtain ⟨row, hr, h⟩ := bind_eq_ok.mp h
  obtain ⟨keys, -, h⟩ := bind_eq_ok.mp h
  rw [pure_eq_ok] at h
  subst h
  exact project_length hw hr ho

/-! ## Closing clauses -/

theorem insertLast_perm {α : Type} (less : α → α → Bool) (x : α) (xs : List α) :
    (insertLast less x xs).Perm (x :: xs) := by
  induction xs with
  | nil => exact List.Perm.refl _
  | cons y r ih =>
      unfold insertLast
      split
      · exact (List.Perm.cons y ih).trans (List.Perm.swap x y r)
      · exact List.Perm.refl _

/-- Sorting permutes. -/
theorem stableSort_perm {α : Type} (less : α → α → Bool) (xs : List α) :
    (stableSort less xs).Perm xs := by
  have hfold : ∀ (xs acc : List α),
      (xs.foldl (fun acc x => insertLast less x acc) acc).Perm (xs ++ acc) := by
    intro xs
    induction xs with
    | nil => intro acc; exact List.Perm.refl _
    | cons x xs ih =>
        intro acc
        refine (ih _).trans ?_
        refine ((insertLast_perm less x acc).append_left xs).trans ?_
        exact List.perm_middle
  have h := hfold xs []
  rw [List.append_nil] at h
  exact (List.reverse_perm _).trans h

theorem mem_dedupFrom {kept rows : List KeyedRow} {x : KeyedRow} (h : x ∈ dedupFrom kept rows) :
    x ∈ kept ∨ x ∈ rows := by
  induction rows generalizing kept with
  | nil => exact Or.inl h
  | cons y r ih =>
      unfold dedupFrom at h
      split at h
      · rcases ih h with hk | hr
        · exact Or.inl hk
        · exact Or.inr (by simp [hr])
      · rcases ih h with hk | hr
        · rw [List.mem_append, List.mem_singleton] at hk
          rcases hk with hk | rfl
          · exact Or.inl hk
          · exact Or.inr (by simp)
        · exact Or.inr (by simp [hr])

theorem mem_dedup {rows : List KeyedRow} {x : KeyedRow} (h : x ∈ dedup rows) : x ∈ rows :=
  (mem_dedupFrom h).resolve_left (by simp)

/-- The closing clauses choose among the rows. -/
theorem mem_applyTail {t : Tail} {rows : List KeyedRow} {row : Row} (h : row ∈ applyTail t rows) :
    ∃ x ∈ rows, x.row = row := by
  have hsorted : ∀ x ∈ sortRows (t.orderBy.map (·.order)) rows, x ∈ rows := by
    intro x hx
    unfold sortRows at hx
    split at hx
    · exact hx
    · exact (stableSort_perm _ _).mem_iff.mp hx
  unfold applyTail at h
  obtain ⟨x, hx, rfl⟩ := List.mem_map.mp h
  refine ⟨x, hsorted x ?_, rfl⟩
  split at hx
  · exact List.mem_of_mem_drop (List.mem_of_mem_take hx)
  · exact List.mem_of_mem_drop hx

theorem filtered_spec {condition : Option Expr} {source r : Relation}
    (h : filtered condition source = .ok r) :
    r.columns = source.columns ∧ ∀ row ∈ r.rows, row ∈ source.rows := by
  unfold filtered at h
  split at h
  · rw [Except.ok.injEq] at h
    exact ⟨by rw [h], by simp [h]⟩
  · obtain ⟨rows, hr, h⟩ := bind_eq_ok.mp h
    rw [pure_eq_ok] at h
    subst h
    exact ⟨rfl, fun row hrow => mem_of_filterM hr hrow⟩

theorem filtered_rectangular {condition : Option Expr} {source r : Relation}
    (hs : source.Rectangular) (h : filtered condition source = .ok r) : r.Rectangular := by
  obtain ⟨hcolumns, hrows⟩ := filtered_spec h
  intro row hr
  rw [hcolumns]
  exact hs row (hrows row hr)

/-! ## Groups -/

theorem mem_addToGroup {key row : Row} {groups : List (Row × List Row)} {g : Row × List Row}
    (h : g ∈ addToGroup key row groups) {x : Row} (hx : x ∈ g.2) :
    x = row ∨ ∃ g' ∈ groups, x ∈ g'.2 := by
  induction groups with
  | nil =>
      rw [addToGroup, List.mem_singleton] at h
      subst h
      exact Or.inl (by simpa using hx)
  | cons g' r ih =>
      obtain ⟨k, members⟩ := g'
      unfold addToGroup at h
      split at h
      · rcases List.mem_cons.mp h with rfl | h
        · rw [List.mem_append, List.mem_singleton] at hx
          rcases hx with hx | rfl
          · exact Or.inr ⟨_, List.mem_cons_self, hx⟩
          · exact Or.inl rfl
        · exact Or.inr ⟨g, by simp [h], hx⟩
      · rcases List.mem_cons.mp h with rfl | h
        · exact Or.inr ⟨_, List.mem_cons_self, hx⟩
        · rcases ih h with rfl | ⟨g', hg, hx⟩
          · exact Or.inl rfl
          · exact Or.inr ⟨g', by simp [hg], hx⟩

/-- Every member of a group is a row of the relation. -/
theorem mem_groupRows {keys : List Expr} {source : Relation} {groups : List (List Row)}
    (h : groupRows keys source = .ok groups) {g : List Row} (hg : g ∈ groups) {x : Row}
    (hx : x ∈ g) : x ∈ source.rows := by
  unfold groupRows at h
  split at h
  · rw [Except.ok.injEq] at h
    rw [← h, List.mem_singleton] at hg
    exact hg ▸ hx
  · obtain ⟨keyed, hk, h⟩ := bind_eq_ok.mp h
    rw [pure_eq_ok] at h
    have hrows : ∀ p ∈ keyed, p.2 ∈ source.rows := by
      intro p hp
      obtain ⟨row, hrow, hkey⟩ := exists_of_mem_collect hk hp
      unfold groupKey at hkey
      obtain ⟨key, -, hkey⟩ := bind_eq_ok.mp hkey
      rw [pure_eq_ok] at hkey
      exact hkey ▸ hrow
    have hfold : ∀ (ps : List (Row × Row)) (acc : List (Row × List Row)),
        (∀ p ∈ ps, p.2 ∈ source.rows) → (∀ g ∈ acc, ∀ y ∈ g.2, y ∈ source.rows) →
        ∀ g ∈ ps.foldl (fun acc p => addToGroup p.1 p.2 acc) acc, ∀ y ∈ g.2, y ∈ source.rows := by
      intro ps
      induction ps with
      | nil => intro acc _ ha; exact ha
      | cons p ps ih =>
          intro acc hp ha
          refine ih _ (fun p' hp' => hp p' (by simp [hp'])) ?_
          intro g hg y hy
          rcases mem_addToGroup hg hy with rfl | ⟨g', hg', hy⟩
          · exact hp p (by simp)
          · exact ha g' hg' y hy
    rw [← h] at hg
    obtain ⟨kg, hkg, rfl⟩ := List.mem_map.mp hg
    exact hfold keyed [] hrows (by simp) kg hkg x hx

theorem groupContext_length {columns : List Binding} {group : List Row}
    (h : ∀ row ∈ group, row.length = columns.length) :
    (groupContext columns group).row.length = (groupContext columns group).columns.length := by
  unfold groupContext
  cases group with
  | nil => simp
  | cons row r => simpa using h row (by simp)

theorem groupOutput_length {c : Clauses} {t : Tail} {output columns : List Binding}
    {group : List Row} (hw : ∀ row ∈ group, row.length = columns.length)
    (ho : outputColumns c.projection columns = .ok output) {xs : List KeyedRow}
    (h : groupOutput c t output columns group = .ok xs) :
    ∀ x ∈ xs, x.row.length = output.length := by
  rw [groupOutput_eq] at h
  obtain ⟨pass, -, h⟩ := bind_eq_ok.mp h
  split at h
  · obtain ⟨x, hx, h⟩ := bind_eq_ok.mp h
    rw [Except.ok.injEq] at h
    intro y hy
    rw [← h, List.mem_singleton] at hy
    exact hy ▸ outputRow_length _ (groupContext_length hw) ho hx
  · rw [Except.ok.injEq] at h
    simp [← h]

/-! ## Queries -/

theorem select_rectangular {c : Clauses} {t : Tail} {source r : Relation}
    (hs : source.Rectangular) (h : select c t source = .ok r) : r.Rectangular := by
  rw [select_eq] at h
  obtain ⟨kept, hk, h⟩ := bind_eq_ok.mp h
  have hw : kept.Rectangular := filtered_rectangular hs hk
  obtain ⟨output, ho, h⟩ := bind_eq_ok.mp h
  obtain ⟨rows, hr, h⟩ := bind_eq_ok.mp h
  rw [Except.ok.injEq] at h
  subst h
  have hall : ∀ x ∈ rows, x.row.length = output.length := by
    unfold keyedRows at hr
    split at hr
    · obtain ⟨groups, hg, hr⟩ := bind_eq_ok.mp hr
      obtain ⟨parts, hp, hr⟩ := bind_eq_ok.mp hr
      rw [Except.ok.injEq] at hr
      subst hr
      intro x hx
      obtain ⟨part, hpart, hx⟩ := List.mem_flatten.mp hx
      obtain ⟨g, hgm, hgo⟩ := exists_of_mem_collect hp hpart
      exact groupOutput_length (fun row hrow => hw row (mem_groupRows hg hgm hrow)) ho hgo x hx
    · intro x hx
      obtain ⟨row, hrow, hox⟩ := exists_of_mem_collect hr hx
      exact outputRow_length (.ofRow kept.columns row) (hw row hrow) ho hox
  intro row hrow
  obtain ⟨x, hx, rfl⟩ := mem_applyTail hrow
  refine hall x ?_
  split at hx
  · exact mem_dedup hx
  · exact hx

theorem union_rectangular {all : Bool} {t : Tail} {a b r : Relation} (ha : a.Rectangular)
    (hb : b.Rectangular) (h : union all t a b = .ok r) : r.Rectangular := by
  unfold union at h
  split at h
  · simp at h
  · rename_i hwidth
    obtain ⟨rows, hr, h⟩ := bind_eq_ok.mp h
    rw [pure_eq_ok] at h
    subst h
    have hall : ∀ x ∈ rows, x.row.length = a.columns.length := by
      intro x hx
      obtain ⟨row, hrow, hkey⟩ := exists_of_mem_collect hr hx
      obtain ⟨keys, -, hkey⟩ := bind_eq_ok.mp hkey
      rw [pure_eq_ok] at hkey
      subst hkey
      rcases List.mem_append.mp hrow with hrow | hrow
      · exact ha row hrow
      · rw [hb row hrow]
        exact (Decidable.not_not.mp hwidth).symm
    intro row hrow
    obtain ⟨x, hx, rfl⟩ := mem_applyTail hrow
    rw [List.length_map]
    refine hall x ?_
    split at hx
    · exact hx
    · exact mem_dedup hx

end Relation

namespace Sql

open Rowtime.Relation

theorem runOn_rectangular {src : Source} (h : src.Rectangular) :
    (∀ (q : Query) (r : Relation), q.runOn src = .ok r → r.Rectangular) ∧
      ∀ (x : FromItem) (r : Relation), x.runOn src = .ok r → r.Rectangular := by
  have hlist : ∀ xs : List FromItem,
      (∀ x ∈ xs, ∀ r : Relation, x.runOn src = .ok r → r.Rectangular) →
      ∀ acc r : Relation, acc.Rectangular → FromItem.runListOn src acc xs = .ok r →
        r.Rectangular := by
    intro xs ih
    induction xs with
    | nil =>
        intro acc r ha hr
        rw [FromItem.runListOn_nil, Except.ok.injEq] at hr
        exact hr ▸ ha
    | cons x xs hxs =>
        intro acc r ha hr
        rw [FromItem.runListOn_cons] at hr
        obtain ⟨b, hb, hr⟩ := bind_eq_ok.mp hr
        have hx := ih x (by simp) b hb
        exact hxs (fun y hy => ih y (by simp [hy])) _ r (cross_rectangular ha hx) hr
  refine Query.induct ?_ ?_ ?_ ?_ ?_ ?_ ?_
  · intro source c t ih r hr
    rw [Query.runOn] at hr
    obtain ⟨s, hs, hr⟩ := bind_eq_ok.mp hr
    exact select_rectangular (hlist source ih _ s unit_rectangular hs) hr
  · intro l r all t hl hr u hu
    rw [Query.runOn] at hu
    obtain ⟨a, ha, hu⟩ := bind_eq_ok.mp hu
    obtain ⟨b, hb, hu⟩ := bind_eq_ok.mp hu
    exact union_rectangular (hl a ha) (hr b hb) hu
  · intro q hq r hr
    rw [Query.runOn] at hr
    exact hq r hr
  · intro name a r hr
    rw [FromItem.runOn] at hr
    exact fromSource_rectangular h hr
  · intro q a hq r hr
    rw [FromItem.runOn] at hr
    obtain ⟨s, hs, hr⟩ := bind_eq_ok.mp hr
    rw [pure_eq_ok] at hr
    exact hr ▸ qualified_rectangular (hq s hs)
  · intro xs ih r hr
    rw [FromItem.runOn] at hr
    exact hlist xs ih _ r unit_rectangular hr
  · intro k l r on hl hr u hu
    rw [FromItem.runOn] at hu
    obtain ⟨a, ha, hu⟩ := bind_eq_ok.mp hu
    obtain ⟨b, hb, hu⟩ := bind_eq_ok.mp hu
    exact join_rectangular (hl a ha) (hr b hb) hu

/-- Every row of a result has a value for each column. -/
theorem Query.runOn_rectangular {src : Source} (h : src.Rectangular) {q : Query} {r : Relation}
    (hr : q.runOn src = .ok r) : r.Rectangular :=
  (Sql.runOn_rectangular h).1 q r hr

theorem FromItem.runOn_rectangular {src : Source} (h : src.Rectangular) {x : FromItem}
    {r : Relation} (hr : x.runOn src = .ok r) : r.Rectangular :=
  (Sql.runOn_rectangular h).2 x r hr

theorem Query.run_rectangular {db : Catalog} (h : db.source.Rectangular) {q : Query} {r : Relation}
    (hr : q.run db = .ok r) : r.Rectangular := by
  rw [Query.run_eq_runOn] at hr
  exact Query.runOn_rectangular h hr

theorem FromItem.run_rectangular {db : Catalog} (h : db.source.Rectangular) {x : FromItem}
    {r : Relation} (hr : x.run db = .ok r) : r.Rectangular := by
  rw [(run_eq db).2 x] at hr
  exact FromItem.runOn_rectangular h hr

end Sql

end Rowtime
