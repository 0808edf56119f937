import Rowtime.Proofs.Evaluation
import Rowtime.Proofs.Merging

/-!
# Forms without duplicates

DISTINCT drops output rows, UNION drops rows of two results, and GROUP BY gathers source rows.
All three keep what comes first, so what they keep is the same: `SELECT DISTINCT` of some
expressions gives the rows that grouping by these expressions gives, and a union is DISTINCT over
the union that keeps all rows, fault for fault. Grouping loses no row and takes none twice, so
that the counts of the groups add up to the count of all rows.
-/
namespace Rowtime

open Sql

/-! ## One list is kept -/

theorem Merges.append_singleton {α : Type} {agree : α → α → Prop} {kept all : List α} {x : α}
    (h : Merges agree kept (all ++ [x])) : ∃ before, Merges agree before all ∧
      (((∀ k ∈ before, ¬agree k x) ∧ kept = before ++ [x]) ∨
        ((∃ k ∈ before, agree k x) ∧ kept = before)) := by
  generalize hall : all ++ [x] = whole at h
  cases h with
  | nil => simp at hall
  | keep h hx =>
      obtain ⟨rfl, hlast⟩ := List.append_inj' hall rfl
      obtain rfl := List.singleton_inj.mp hlast
      exact ⟨_, h, .inl ⟨hx, rfl⟩⟩
  | drop h hk hx =>
      obtain ⟨rfl, hlast⟩ := List.append_inj' hall rfl
      obtain rfl := List.singleton_inj.mp hlast
      exact ⟨_, h, .inr ⟨⟨_, hk, hx⟩, rfl⟩⟩

theorem Merges.eq_nil {α : Type} {agree : α → α → Prop} {kept : List α}
    (h : Merges agree kept []) : kept = [] := by
  generalize hnil : ([] : List α) = all at h
  cases h with
  | nil => rfl
  | keep => simp at hnil
  | drop => simp at hnil

/-- What is kept of a list is determined by the list. -/
theorem Merges.unique {α : Type} {agree : α → α → Prop} {all kept kept' : List α}
    (h : Merges agree kept all) (h' : Merges agree kept' all) : kept = kept' := by
  induction all using List.reverseRecOn generalizing kept kept' with
  | nil => rw [h.eq_nil, h'.eq_nil]
  | append_singleton all x ih =>
      obtain ⟨before, hb, hcase⟩ := h.append_singleton
      obtain ⟨before', hb', hcase'⟩ := h'.append_singleton
      obtain rfl := ih hb hb'
      rcases hcase with ⟨hno, rfl⟩ | ⟨⟨k, hk, hx⟩, rfl⟩ <;>
        rcases hcase' with ⟨hno', rfl⟩ | ⟨⟨k', hk', hx'⟩, rfl⟩
      · rfl
      · exact absurd hx' (hno k' hk')
      · exact absurd hx (hno' k hk)
      · rfl

theorem Merges.map {α β : Type} {agree : α → α → Prop} {agree' : β → β → Prop} {f : α → β}
    (hf : ∀ x y, agree' (f x) (f y) ↔ agree x y) {kept all : List α} (h : Merges agree kept all) :
    Merges agree' (kept.map f) (all.map f) := by
  induction h with
  | nil => exact .nil
  | keep _ hx ih =>
      rw [List.map_append, List.map_append]
      exact ih.keep (List.forall_mem_map.mpr fun k hk hagree => hx k hk ((hf _ _).mp hagree))
  | drop _ hk hx ih =>
      rw [List.map_append]
      exact ih.drop (List.mem_map_of_mem hk) ((hf _ _).mpr hx)

/-! ## Groups of keyed rows -/

namespace Grouped

variable {groups : List (Row × List Row)} {all : List (Row × Row)}

/-- The keys of the groups are what is kept of the keys of the rows. -/
theorem merges (h : Grouped groups all) :
    Merges (List.Forall₂ Value.Agrees) (groups.map (·.1)) (all.map (·.1)) := by
  induction h with
  | nil => exact .nil
  | join _ _ hk ih =>
      rw [List.map_append, List.map_cons] at ih ⊢
      rw [List.map_append]
      exact ih.drop (by simp) hk
  | start _ hn ih =>
      rw [List.map_append, List.map_append]
      exact ih.keep (List.forall_mem_map.mpr hn)

/-- Every row is in one group. -/
theorem perm (h : Grouped groups all) : (groups.map (·.2)).flatten.Perm (all.map (·.2)) := by
  induction h with
  | nil => exact .refl _
  | @join before after key row k members all _ _ _ ih =>
      simp only [List.map_append, List.map_cons, List.flatten_append, List.flatten_cons,
        List.map_nil, List.append_assoc] at ih ⊢
      -- The row stands behind its group's members, with the later groups still to come.
      have hmove : ([row] ++ (after.map (·.2)).flatten).Perm ((after.map (·.2)).flatten ++ [row]) :=
        List.perm_append_comm
      refine ((hmove.append_left members).append_left _).trans ?_
      simpa only [List.append_assoc] using ih.append_right [row]
  | start _ _ ih =>
      rw [List.map_append, List.map_append, List.flatten_append]
      exact ih.append_right _

/-- A group begins with a row that has the key of the group. -/
theorem first (h : Grouped groups all) :
    ∀ g ∈ groups, ∃ row rest, g.2 = row :: rest ∧ (g.1, row) ∈ all := by
  induction h with
  | nil => simp
  | @join before after key row k members all _ _ _ ih =>
      intro g hg
      rcases List.mem_append.mp hg with hg | hg
      · obtain ⟨row, rest, hrest, hmem⟩ := ih g (List.mem_append_left _ hg)
        exact ⟨row, rest, hrest, List.mem_append_left _ hmem⟩
      · rcases List.mem_cons.mp hg with rfl | hg
        · obtain ⟨first, rest, hrest, hmem⟩ := ih (k, members) (by simp)
          obtain rfl : members = first :: rest := hrest
          exact ⟨first, rest ++ [row], rfl, List.mem_append_left _ hmem⟩
        · obtain ⟨row, rest, hrest, hmem⟩ := ih g (by simp [hg])
          exact ⟨row, rest, hrest, List.mem_append_left _ hmem⟩
  | start _ _ ih =>
      intro g hg
      rcases List.mem_append.mp hg with hg | hg
      · obtain ⟨row, rest, hrest, hmem⟩ := ih g hg
        exact ⟨row, rest, hrest, List.mem_append_left _ hmem⟩
      · rw [List.mem_singleton.mp hg]
        exact ⟨_, [], rfl, by simp⟩

end Grouped

namespace Relation

/-- The groups of rows with keys, each with its key. -/
def gathered (keyed : List (Row × Row)) : List (Row × List Row) :=
  keyed.foldl (fun acc p => addToGroup p.1 p.2 acc) []

theorem gathered_grouped (keyed : List (Row × Row)) : Grouped (gathered keyed) keyed :=
  grouped_foldl keyed

theorem groupRows_eq {keys : List Expr} (hkeys : keys ≠ []) (source : Relation) :
    groupRows keys source = (collect (groupKey source.columns keys) source.rows >>= fun keyed =>
      .ok ((gathered keyed).map (·.2))) := by
  rw [groupRows, if_neg (by simpa using hkeys)]
  rfl

end Relation

/-! ## Projections of expressions -/

namespace Sql

/-- A projection of expressions, each with a name or without. -/
def projectionOf (es : List (Expr × Option String)) : List SelectItem :=
  es.map fun e => .expr e.1 e.2

/-- `SELECT DISTINCT` of expressions, without an order. -/
def Query.selectDistinct (source : List FromItem) (condition : Option Expr)
    (es : List (Expr × Option String)) (limit offset : Option UInt64) : Query :=
  .select source ⟨true, projectionOf es, condition, [], none⟩ ⟨[], limit, offset⟩

/-- `SELECT` of expressions with `GROUP BY` the same expressions, without an order. -/
def Query.selectGrouped (source : List FromItem) (condition : Option Expr)
    (es : List (Expr × Option String)) (limit offset : Option UInt64) : Query :=
  .select source ⟨false, projectionOf es, condition, es.map (·.1), none⟩ ⟨[], limit, offset⟩

/-- `SELECT DISTINCT *` from the union of all rows of two queries. -/
def Query.distinctUnion (l r : Query) (alias? : Option String) : Query :=
  .select [.subquery (.union l r true .empty) alias?] ⟨true, [.all], none, [], none⟩ .empty

/-- `SELECT COUNT(*)` with groups. -/
def Query.countRows (source : List FromItem) (condition : Option Expr) (keys : List Expr)
    (name : Option String) : Query :=
  .select source ⟨false, [.expr (.aggregateAll .count false) name], condition, keys, none⟩ .empty

end Sql

namespace Relation

theorem project_projectionOf (es : List (Expr × Option String)) (ctx : Context) :
    project (projectionOf es) ctx = collect (fun e => e.eval ctx) (es.map (·.1)) := by
  have hitems : collect (itemValues ctx) (projectionOf es) =
      (collect (fun e => e.eval ctx) (es.map (·.1)) >>= fun vs => .ok (vs.map fun v => [v])) := by
    rw [projectionOf, collect_map, collect_map, ← collect_bind_ok]
    rfl
  rw [project, hitems]
  cases collect (fun e => e.eval ctx) (es.map (·.1)) with
  | error why => rfl
  | ok vs => exact congrArg Except.ok (List.flatMap_singleton' vs)

/-- An expression without aggregates has the same value for a group as for its first row. -/
theorem eval_groupContext {e : Expr} (h : e.hasAggregate = false) (columns : List Binding)
    (row : Row) (rest : List Row) :
    e.eval (groupContext columns (row :: rest)) = e.eval (.ofRow columns row) :=
  Expr.eval_congr (fun _ => rfl) fun ha => absurd ha (by simp [h])

section Forms

variable {es : List (Expr × Option String)} {distinct : Bool} {condition : Option Expr}
  {keys : List Expr} {limit offset : Option UInt64} {output : List Binding}

/-- The output row of a source row is its key. -/
theorem outputRow_eq_groupKey (columns : List Binding) (row : Row) :
    outputRow ⟨distinct, projectionOf es, condition, keys, none⟩ ⟨[], limit, offset⟩ output
        (.ofRow columns row) =
      (groupKey columns (es.map (·.1)) row >>= fun p => .ok ⟨p.1, []⟩) := by
  rw [outputRow, project_projectionOf, groupKey]
  cases collect (fun e => e.eval (.ofRow columns row)) (es.map (·.1)) <;> rfl

/-- The output row of a group is its key. -/
theorem groupOutput_eq_key (hes : ∀ e ∈ es, e.1.hasAggregate = false) {columns : List Binding}
    {key row : Row} {rest : List Row}
    (hkey : groupKey columns (es.map (·.1)) row = .ok (key, row)) :
    groupOutput ⟨distinct, projectionOf es, condition, keys, none⟩ ⟨[], limit, offset⟩ output columns
      (row :: rest) = .ok [⟨key, []⟩] := by
  obtain ⟨vs, hvs, hpair⟩ := bind_eq_ok.mp hkey
  obtain ⟨rfl, -⟩ := Prod.mk.inj (Except.ok.inj hpair)
  have hproject : project (projectionOf es) (groupContext columns (row :: rest)) = .ok vs := by
    rw [project_projectionOf, ← hvs]
    refine collect_congr fun e he => ?_
    obtain ⟨x, hx, rfl⟩ := List.mem_map.mp he
    exact eval_groupContext (hes x hx) columns row rest
  rw [groupOutput_eq, outputRow, hproject]
  rfl

theorem isGrouped_selectDistinct (hes : ∀ e ∈ es, e.1.hasAggregate = false) :
    isGrouped ⟨true, projectionOf es, condition, [], none⟩ ⟨[], limit, offset⟩ = false := by
  simp only [isGrouped, projectionOf, List.isEmpty_nil, Option.isSome_none, List.any_map,
    List.any_nil, Bool.not_true, Bool.false_or, Bool.or_false, List.any_eq_false]
  intro e he
  simp [hes e he]

/-- The output rows of `SELECT DISTINCT`, before duplicates are dropped. -/
theorem keyedRows_selectDistinct (hes : ∀ e ∈ es, e.1.hasAggregate = false) (kept : Relation) :
    keyedRows ⟨true, projectionOf es, condition, [], none⟩ ⟨[], limit, offset⟩ output kept =
      (collect (groupKey kept.columns (es.map (·.1))) kept.rows >>= fun keyed =>
        .ok (keyed.map fun p => ⟨p.1, []⟩)) := by
  rw [keyedRows, isGrouped_selectDistinct hes, if_neg Bool.false_ne_true, ← collect_bind_ok]
  exact collect_congr fun row _ => outputRow_eq_groupKey kept.columns row

/-- The output rows of grouping by what is projected. -/
theorem keyedRows_selectGrouped (hne : es ≠ []) (hes : ∀ e ∈ es, e.1.hasAggregate = false)
    (kept : Relation) :
    keyedRows ⟨false, projectionOf es, condition, es.map (·.1), none⟩ ⟨[], limit, offset⟩ output
        kept =
      (collect (groupKey kept.columns (es.map (·.1))) kept.rows >>= fun keyed =>
        .ok ((gathered keyed).map fun g => ⟨g.1, []⟩)) := by
  have hkeys : es.map (·.1) ≠ [] := by rwa [ne_eq, List.map_eq_nil_iff]
  have hgrouped : isGrouped ⟨false, projectionOf es, condition, es.map (·.1), none⟩
      ⟨[], limit, offset⟩ = true := by
    simp [isGrouped, hne]
  rw [keyedRows, if_pos hgrouped, groupRows_eq hkeys]
  cases hkeyed : collect (groupKey kept.columns (es.map (·.1))) kept.rows with
  | error why => rfl
  | ok keyed =>
      have hgroup : ∀ g ∈ gathered keyed,
          groupOutput ⟨false, projectionOf es, condition, es.map (·.1), none⟩ ⟨[], limit, offset⟩
            output kept.columns g.2 = .ok [⟨g.1, []⟩] := by
        intro g hg
        obtain ⟨row, rest, hrest, hmem⟩ := (gathered_grouped keyed).first g hg
        obtain ⟨row', -, hkey⟩ := exists_of_mem_collect hkeyed hmem
        obtain ⟨vs, hvs, hpair⟩ := bind_eq_ok.mp hkey
        obtain ⟨rfl, rfl⟩ := Prod.mk.inj (Except.ok.inj hpair)
        rw [hrest]
        exact groupOutput_eq_key hes hkey
      rw [ok_bind, ok_bind, ok_bind, collect_map, collect_eq_map hgroup, ok_bind]
      exact congrArg Except.ok List.map_eq_flatMap.symm

/-- Both forms keep the same output rows. -/
theorem keyedRows_forms (hne : es ≠ []) (hes : ∀ e ∈ es, e.1.hasAggregate = false)
    (kept : Relation) :
    (keyedRows ⟨true, projectionOf es, condition, [], none⟩ ⟨[], limit, offset⟩ output kept >>=
        fun rows => .ok (dedup rows)) =
      keyedRows ⟨false, projectionOf es, condition, es.map (·.1), none⟩ ⟨[], limit, offset⟩ output
        kept := by
  rw [keyedRows_selectDistinct hes, keyedRows_selectGrouped hne hes]
  cases collect (groupKey kept.columns (es.map (·.1))) kept.rows with
  | error why => rfl
  | ok keyed =>
      have hkeys : ∀ a b : Row, KeyedRow.Agrees ⟨a, []⟩ ⟨b, []⟩ ↔
          List.Forall₂ Value.Agrees a b := fun _ _ => Iff.rfl
      have hgroups := (gathered_grouped keyed).merges.map hkeys
      rw [List.map_map, List.map_map] at hgroups
      exact congrArg Except.ok ((dedup_merges _).unique hgroups)

end Forms

/-! ## Counts -/

/-- The column of a count. -/
def countColumn (name : Option String) : Binding :=
  ⟨none, name.getD (derivedName (.aggregateAll .count false))⟩

/-- A grouped count gives one row for each group. -/
theorem selectKept_countRows {condition : Option Expr} {keys : List Expr} {name : Option String}
    {kept : Relation} {groups : List (List Row)} (h : groupRows keys kept = .ok groups) :
    selectKept ⟨false, [.expr (.aggregateAll .count false) name], condition, keys, none⟩ .empty kept =
      .ok ⟨[countColumn name], groups.map fun g => [.integer (Int64.ofNat g.length)]⟩ := by
  have hgrouped : isGrouped ⟨false, [.expr (.aggregateAll .count false) name], condition, keys, none⟩
      .empty = true := by
    simp [isGrouped, Expr.hasAggregate]
  have hgroup : ∀ g ∈ groups,
      groupOutput ⟨false, [.expr (.aggregateAll .count false) name], condition, keys, none⟩ .empty
        [countColumn name] kept.columns g = .ok [⟨[.integer (Int64.ofNat g.length)], []⟩] := by
    intro g _
    rw [groupOutput_eq]
    simp [outputRow, project, collect, itemValues, Expr.eval, Context.members, groupContext,
      Tail.empty]
  have hrows : keyedRows ⟨false, [.expr (.aggregateAll .count false) name], condition, keys, none⟩
      .empty [countColumn name] kept =
        .ok (groups.map fun g => ⟨[.integer (Int64.ofNat g.length)], []⟩) := by
    rw [keyedRows, if_pos hgrouped, h, ok_bind, collect_eq_map hgroup, ok_bind]
    exact congrArg Except.ok List.map_eq_flatMap.symm
  have houtput : outputColumns [.expr (.aggregateAll .count false) name] kept.columns =
      .ok [countColumn name] := rfl
  rw [selectKept, houtput, ok_bind, hrows, ok_bind, if_neg Bool.false_ne_true]
  exact congrArg (fun rows => Except.ok (Relation.mk [countColumn name] rows)) (List.map_map ..)

theorem sum_lengths (groups : List (List Row)) :
    (groups.map fun g => Int64.ofNat g.length).sum = Int64.ofNat groups.flatten.length := by
  induction groups with
  | nil => rfl
  | cons g groups ih =>
      rw [List.map_cons, List.sum_cons, ih, List.flatten_cons, List.length_append, Int64.ofNat_add]

/-- When the keys of all rows have values, the groups hold every row once. -/
theorem groupRows_partition {keys : List Expr} (hkeys : keys ≠ []) {source : Relation}
    (h : ∀ row ∈ source.rows, ∀ e ∈ keys, Succeeds (e.eval (.ofRow source.columns row))) :
    ∃ groups, groupRows keys source = .ok groups ∧ groups.flatten.Perm source.rows ∧
      ∀ g ∈ groups, g ≠ [] := by
  have hkeyed : ∀ row ∈ source.rows, Succeeds (groupKey source.columns keys row) := by
    intro row hrow
    obtain ⟨key, hkey⟩ := collect_succeeds (h row hrow)
    exact ⟨(key, row), by rw [groupKey, hkey]; rfl⟩
  obtain ⟨keyed, hkeyed⟩ := collect_succeeds hkeyed
  have hrows : keyed.map (·.2) = source.rows := by
    refine map_of_collect (fun row p hp => ?_) hkeyed
    obtain ⟨key, -, hpair⟩ := bind_eq_ok.mp hp
    exact (Prod.mk.inj (Except.ok.inj hpair)).2.symm
  refine ⟨_, by rw [groupRows_eq hkeys, hkeyed, ok_bind], ?_, ?_⟩
  · exact hrows ▸ (gathered_grouped keyed).perm
  · intro g hg
    obtain ⟨x, hx, rfl⟩ := List.mem_map.mp hg
    obtain ⟨row, rest, hrest, -⟩ := (gathered_grouped keyed).first x hx
    rw [hrest]
    exact List.cons_ne_nil row rest

/-! ## Unions -/

/-- A union without an order, of results of equal width. -/
theorem union_bare {a b : Relation} (h : a.columns.length = b.columns.length) (all : Bool) :
    union all .empty a b = .ok ⟨a.columns.map fun c => ⟨none, c.name⟩,
      (if all then (a.rows ++ b.rows).map fun row => (⟨row, []⟩ : KeyedRow)
        else dedup ((a.rows ++ b.rows).map fun row => ⟨row, []⟩)).map (·.row)⟩ := by
  rw [union, if_neg (not_not.mpr h)]
  have hrows : ∀ row ∈ a.rows ++ b.rows, (do
      let keys ← collect (unionKeyValue (a.columns.map fun c => ⟨none, c.name⟩) row)
        Tail.empty.orderBy
      return (⟨row, keys⟩ : KeyedRow) : Except Fault KeyedRow) = .ok ⟨row, []⟩ := fun _ _ => rfl
  simp only [collect_eq_map hrows]
  rfl

theorem select_distinctAll (source : Relation) :
    select ⟨true, [.all], none, [], none⟩ .empty source =
      .ok ⟨source.columns.map fun c => ⟨none, c.name⟩,
        (dedup (source.rows.map fun row => ⟨row, []⟩)).map (·.row)⟩ := by
  have hrow : ∀ row ∈ source.rows,
      outputRow ⟨true, [.all], none, [], none⟩ .empty (source.columns.map fun c => ⟨none, c.name⟩)
        (.ofRow source.columns row) = .ok ⟨row, []⟩ := by
    intro row _
    exact congrArg (fun row => Except.ok (KeyedRow.mk row [])) (List.append_nil row)
  have hcolumns : outputColumns [.all] source.columns =
      .ok (source.columns.map fun c => ⟨none, c.name⟩) :=
    congrArg Except.ok (List.append_nil _)
  have hkeyed : keyedRows ⟨true, [.all], none, [], none⟩ .empty
      (source.columns.map fun c => ⟨none, c.name⟩) source =
        .ok (source.rows.map fun row => ⟨row, []⟩) := collect_eq_map hrow
  rw [select_eq, filtered, ok_bind, selectKept, hcolumns, ok_bind, hkeyed, ok_bind]
  rfl

end Relation

namespace Sql

/-! ## Queries -/

theorem Query.run_selectDistinct (db : Catalog) (source : List FromItem) (condition : Option Expr)
    {es : List (Expr × Option String)} (limit offset : Option UInt64) (hne : es ≠ [])
    (hes : ∀ e ∈ es, e.1.hasAggregate = false) :
    (Query.selectDistinct source condition es limit offset).run db =
      (Query.selectGrouped source condition es limit offset).run db := by
  rw [selectDistinct, selectGrouped, Query.run, Query.run]
  congr 1
  funext whole
  rw [Relation.select_eq, Relation.select_eq]
  congr 1
  funext kept
  unfold Relation.selectKept
  congr 1
  funext output
  rw [← Relation.keyedRows_forms hne hes, bind_assoc]
  rfl

/-- A union drops the rows that DISTINCT drops from the union of all rows. -/
theorem Query.run_union (db : Catalog) (l r : Query) (alias? : Option String) :
    (Query.union l r false .empty).run db = (Query.distinctUnion l r alias?).run db := by
  rw [distinctUnion, Query.run, Query.run, FromItem.runList, FromItem.run, Query.run]
  cases l.run db with
  | error why => rfl
  | ok a =>
      cases r.run db with
      | error why => rfl
      | ok b =>
          simp only [ok_bind]
          by_cases h : a.columns.length = b.columns.length
          · rw [Relation.union_bare h, Relation.union_bare h]
            rw [if_neg Bool.false_ne_true, if_pos rfl, List.map_map, ok_bind, pure_bind,
              FromItem.runList, ok_bind, Relation.select_distinctAll]
            simp [Relation.qualified, Relation.unit_cross, Function.comp_def]
          · rw [Relation.union, Relation.union, if_pos h, if_pos h]
            rfl

/-- The forms without duplicates agree, and grouping loses nothing. `SELECT DISTINCT` of expressions
without aggregates gives what grouping by them gives, `UNION` gives what `SELECT DISTINCT *` gives
of `UNION ALL`, columns, rows and faults alike; and if the keys of all rows have values, the groups
hold every row once and their counts add up to the count without groups. -/
theorem Query.duplicate_forms_agree (db : Catalog) :
    (∀ (source : List FromItem) (condition : Option Expr) (es : List (Expr × Option String))
        (limit offset : Option UInt64), es ≠ [] → (∀ e ∈ es, e.1.hasAggregate = false) →
      (Query.selectDistinct source condition es limit offset).run db =
        (Query.selectGrouped source condition es limit offset).run db) ∧
    (∀ (l r : Query) (alias? : Option String),
      (Query.union l r false .empty).run db = (Query.distinctUnion l r alias?).run db) ∧
    ∀ (source : List FromItem) (condition : Option Expr) (keys : List Expr) (name : Option String)
        (whole kept : Relation), keys ≠ [] → FromItem.runList db .unit source = .ok whole →
      Relation.filtered condition whole = .ok kept →
      (∀ row ∈ kept.rows, ∀ e ∈ keys, Succeeds (e.eval (.ofRow kept.columns row))) →
      ∃ groups : List (List Row), Relation.groupRows keys kept = .ok groups ∧
        groups.flatten.Perm kept.rows ∧ (∀ g ∈ groups, g ≠ []) ∧
        (Query.countRows source condition keys name).run db =
          .ok ⟨[Relation.countColumn name], groups.map fun g => [.integer (Int64.ofNat g.length)]⟩ ∧
        (Query.countRows source condition [] name).run db = .ok ⟨[Relation.countColumn name],
          [[.integer (groups.map fun g => Int64.ofNat g.length).sum]]⟩ := by
  refine ⟨fun source condition es limit offset => Query.run_selectDistinct db source condition
    limit offset, Query.run_union db, ?_⟩
  intro source condition keys name whole kept hkeys hwhole hkept hvalues
  obtain ⟨groups, hgroups, hperm, hne⟩ := Relation.groupRows_partition hkeys hvalues
  have hrun : ∀ keys' groups', Relation.groupRows keys' kept = .ok groups' →
      (Query.countRows source condition keys' name).run db = .ok ⟨[Relation.countColumn name],
        groups'.map fun g => [.integer (Int64.ofNat g.length)]⟩ := by
    intro keys' groups' h
    rw [countRows, Query.run, hwhole, ok_bind, Relation.select_eq, hkept, ok_bind,
      Relation.selectKept_countRows h]
  refine ⟨groups, hgroups, hperm, hne, hrun keys groups hgroups, ?_⟩
  rw [hrun [] [kept.rows] rfl, Relation.sum_lengths, hperm.length_eq]
  rfl

/-- Two values and two NULLs before a bound, and one row behind it. -/
def repeatedValues : Catalog :=
  ⟨[("t", ⟨"t", [.rowtime, ⟨"v", .integer, true, false, false, none⟩],
    [[.integer 1, .integer 5], [.integer 2, .null], [.integer 3, .integer 5], [.integer 4, .null],
      [.integer 6, .integer 7]], 0, 6⟩)]⟩

/-- `rowtime < 5`. -/
def earlyRows : Expr := .binary .lt (.column ⟨none, "rowtime"⟩) (.literal (.integer 5))

/-- The rows before the bound, as a query sees them. -/
def earlyValues : Relation :=
  ⟨[⟨some "t", "rowtime"⟩, ⟨some "t", "v"⟩], [[.integer 1, .integer 5], [.integer 2, .null],
    [.integer 3, .integer 5], [.integer 4, .null]]⟩

/-- The values before the bound, and the number of rows for each of them. -/
theorem Query.duplicate_forms_agree_nulls :
    (Query.selectDistinct [.table "t" none] (some earlyRows) [(.column ⟨none, "v"⟩, none)] none
        none).run repeatedValues = .ok ⟨[⟨none, "v"⟩], [[.integer 5], [.null]]⟩ ∧
      (Query.selectGrouped [.table "t" none] (some earlyRows) [(.column ⟨none, "v"⟩, none)] none
        none).run repeatedValues = .ok ⟨[⟨none, "v"⟩], [[.integer 5], [.null]]⟩ ∧
      ∃ groups : List (List Row), groups.length = 2 ∧
        (Query.countRows [.table "t" none] (some earlyRows) [.column ⟨none, "v"⟩] none).run
          repeatedValues = .ok ⟨[⟨none, "count"⟩],
            groups.map fun g => [.integer (Int64.ofNat g.length)]⟩ ∧
        (Query.countRows [.table "t" none] (some earlyRows) [] none).run repeatedValues =
          .ok ⟨[⟨none, "count"⟩], [[.integer 4]]⟩ := by
  have hdistinct : (Query.selectDistinct [.table "t" none] (some earlyRows)
      [(.column ⟨none, "v"⟩, none)] none none).run repeatedValues =
        .ok ⟨[⟨none, "v"⟩], [[.integer 5], [.null]]⟩ := by decide +kernel
  have hwhole : FromItem.runList repeatedValues .unit [.table "t" none] =
      .ok ⟨earlyValues.columns, earlyValues.rows ++ [[.integer 6, .integer 7]]⟩ := by decide +kernel
  have hkept : Relation.filtered (some earlyRows)
      ⟨earlyValues.columns, earlyValues.rows ++ [[.integer 6, .integer 7]]⟩ = .ok earlyValues := by
    decide +kernel
  have hvalue : ∀ row : Row, Succeeds ((Expr.column ⟨none, "v"⟩).eval
      (.ofRow earlyValues.columns row)) := by
    intro row
    have hresolve : resolve earlyValues.columns ⟨none, "v"⟩ = .ok 1 := by decide +kernel
    exact ⟨_, by rw [Expr.eval_column, Context.lookup, Context.ofRow, hresolve, ok_bind]⟩
  have hcounted : (Query.countRows [.table "t" none] (some earlyRows) [] none).run repeatedValues =
      .ok ⟨[⟨none, "count"⟩], [[.integer 4]]⟩ := by decide +kernel
  have hgroups : Relation.groupRows [.column ⟨none, "v"⟩] earlyValues =
      .ok [[[.integer 1, .integer 5], [.integer 3, .integer 5]],
        [[.integer 2, .null], [.integer 4, .null]]] := by decide +kernel
  obtain ⟨hforms, -, hcounts⟩ := duplicate_forms_agree repeatedValues
  obtain ⟨groups, hg, -, -, hrun, -⟩ := hcounts [.table "t" none] (some earlyRows)
    [.column ⟨none, "v"⟩] none _ _ (by simp) hwhole hkept fun row _ e he => by
      rw [List.mem_singleton.mp he]
      exact hvalue row
  obtain rfl := Except.ok.inj (hgroups.symm.trans hg)
  refine ⟨hdistinct, ?_, _, rfl, hrun, hcounted⟩
  rw [← hforms [.table "t" none] (some earlyRows) _ none none (by simp) (by decide), hdistinct]

end Sql

end Rowtime
