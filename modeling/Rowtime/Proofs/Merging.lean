import Mathlib.Data.List.Induction
import Rowtime.Proofs.Sources

/-!
# Rows that are merged

DISTINCT, UNION, GROUP BY and an aggregate over DISTINCT values go through rows or values in
their order and compare each with those before. What they take for equal is what the order of
sorting does not tell apart: two NULLs, and two other values of which the comparison does not
say that they differ. That is more than what `=` makes true, since for some pairs it has no
answer: a number that is not a number is merged with every number, and so are values of kinds
that cannot be compared.
-/
namespace Rowtime

open Sql

/-! ## Values that are not told apart -/

namespace Value

/-- Both are NULL, or neither is and their equality is not false: it is true, or has no answer. -/
def Agrees (u v : Value) : Prop :=
  (u.isNull = true ∧ v.isNull = true) ∨
    (u.isNull = false ∧ v.isNull = false ∧ operate .eq u v ≠ .ok (.boolean false))

theorem sortCompare_eq_iff {u v : Value} : u.sortCompare v = .eq ↔ u.Agrees v := by
  unfold sortCompare Agrees
  cases hu : u.isNull with
  | true => cases hv : v.isNull <;> simp
  | false =>
      cases hv : v.isNull with
      | true => simp
      | false =>
          have hcomparison : BinaryOp.eq.isComparison = true := rfl
          rw [operate, if_pos hcomparison]
          cases hc : u.compare? v with
          | error why => simp
          | ok o =>
              cases o with
              | none => simp [ofTruth]
              | some o => cases o <;> simp [ofTruth, satisfies]

/-- Rows are in one group when they agree at every position. -/
theorem sameGroup_iff {a b : Row} : sameGroup a b = true ↔ List.Forall₂ Agrees a b := by
  induction a generalizing b with
  | nil => cases b <;> simp [sameGroup]
  | cons u a ih =>
      cases b with
      | nil => simp [sameGroup]
      | cons v b =>
          rw [List.forall₂_cons, ← ih, ← sortCompare_eq_iff]
          simp [sameGroup]
          tauto

end Value

/-! ## What is kept of a list -/

/-- What is kept of a list when its elements are looked at in order: an element that agrees with
one that is kept is dropped, and any other is kept. -/
inductive Merges {α : Type} (agree : α → α → Prop) : List α → List α → Prop
  | nil : Merges agree [] []
  | keep {kept all : List α} {x : α} (h : Merges agree kept all) (hx : ∀ k ∈ kept, ¬agree k x) :
      Merges agree (kept ++ [x]) (all ++ [x])
  | drop {kept all : List α} {k x : α} (h : Merges agree kept all) (hk : k ∈ kept)
      (hx : agree k x) : Merges agree kept (all ++ [x])

/-- A pass over a list that keeps what agrees with nothing kept before. -/
theorem Merges.of_pass {α : Type} {agree : α → α → Prop} {test : α → α → Bool}
    (htest : ∀ k x, test k x = true ↔ agree k x) {pass : List α → List α → List α}
    (hnil : ∀ kept, pass kept [] = kept)
    (hcons : ∀ kept x r, pass kept (x :: r) =
      if kept.any (fun k => test k x) then pass kept r else pass (kept ++ [x]) r)
    (xs : List α) : Merges agree (pass [] xs) xs := by
  -- The induction is on what is still to come; what has been kept so far is carried along.
  have hfrom : ∀ rest kept all, Merges agree kept all →
      Merges agree (pass kept rest) (all ++ rest) := by
    intro rest
    induction rest with
    | nil =>
        intro kept all h
        rwa [hnil, List.append_nil]
    | cons x rest ih =>
        intro kept all h
        rw [hcons, List.append_cons all]
        split
        · rename_i hany
          obtain ⟨k, hk, hx⟩ := List.any_eq_true.mp hany
          exact ih _ _ (h.drop hk ((htest k x).mp hx))
        · rename_i hany
          refine ih _ _ (h.keep fun k hk hx => hany ?_)
          exact List.any_eq_true.mpr ⟨k, hk, (htest k x).mpr hx⟩
  exact hfrom xs [] [] .nil

theorem Value.distinct_merges (vs : List Value) : Merges Agrees (distinct vs) vs :=
  .of_pass (fun _ _ => beq_iff_eq.trans sortCompare_eq_iff) (fun _ => rfl) (fun _ _ _ => rfl) vs

/-- Output rows agree at every position; their sort keys do not matter. -/
def KeyedRow.Agrees (x y : KeyedRow) : Prop := List.Forall₂ Value.Agrees x.row y.row

theorem dedup_merges (rows : List KeyedRow) : Merges KeyedRow.Agrees (dedup rows) rows :=
  .of_pass (fun _ _ => Value.sameGroup_iff) (fun _ => rfl) (fun _ _ _ => rfl) rows

/-! ## Groups -/

/-- Groups with their keys when rows with keys are looked at in order: a row joins the first group
whose key agrees with its own, and starts a new one if there is none. -/
inductive Grouped : List (Row × List Row) → List (Row × Row) → Prop
  | nil : Grouped [] []
  | join {before after : List (Row × List Row)} {key row k : Row} {members : List Row}
      {all : List (Row × Row)} (h : Grouped (before ++ (k, members) :: after) all)
      (hb : ∀ g ∈ before, ¬List.Forall₂ Value.Agrees g.1 key)
      (hk : List.Forall₂ Value.Agrees k key) :
      Grouped (before ++ (k, members ++ [row]) :: after) (all ++ [(key, row)])
  | start {groups : List (Row × List Row)} {key row : Row} {all : List (Row × Row)}
      (h : Grouped groups all) (hn : ∀ g ∈ groups, ¬List.Forall₂ Value.Agrees g.1 key) :
      Grouped (groups ++ [(key, [row])]) (all ++ [(key, row)])

namespace Relation

theorem addToGroup_cases (key row : Row) (groups : List (Row × List Row)) :
    (∃ before k members after, groups = before ++ (k, members) :: after ∧
        (∀ g ∈ before, ¬List.Forall₂ Value.Agrees g.1 key) ∧ List.Forall₂ Value.Agrees k key ∧
        addToGroup key row groups = before ++ (k, members ++ [row]) :: after) ∨
      ((∀ g ∈ groups, ¬List.Forall₂ Value.Agrees g.1 key) ∧
        addToGroup key row groups = groups ++ [(key, [row])]) := by
  induction groups with
  | nil => exact .inr ⟨by simp, rfl⟩
  | cons g groups ih =>
      obtain ⟨k, members⟩ := g
      rw [addToGroup]
      split
      · rename_i hk
        exact .inl ⟨[], k, members, groups, rfl, by simp, Value.sameGroup_iff.mp hk, rfl⟩
      · rename_i hk
        have hno : ¬List.Forall₂ Value.Agrees k key := fun h => hk (Value.sameGroup_iff.mpr h)
        rcases ih with ⟨before, k', members', after, rfl, hb, hk', hadd⟩ | ⟨hn, hadd⟩
        · refine .inl ⟨(k, members) :: before, k', members', after, rfl, ?_, hk', ?_⟩
          · exact List.forall_mem_cons.mpr ⟨hno, hb⟩
          · rw [hadd]
            rfl
        · refine .inr ⟨List.forall_mem_cons.mpr ⟨hno, hn⟩, ?_⟩
          rw [hadd]
          rfl

theorem grouped_addToGroup {groups : List (Row × List Row)} {all : List (Row × Row)}
    (h : Grouped groups all) (key row : Row) :
    Grouped (addToGroup key row groups) (all ++ [(key, row)]) := by
  obtain ⟨before, k, members, after, rfl, hb, hk, hadd⟩ | ⟨hn, hadd⟩ :=
    addToGroup_cases key row groups
  · rw [hadd]
    exact h.join hb hk
  · rw [hadd]
    exact h.start hn

theorem grouped_foldl (keyed : List (Row × Row)) :
    Grouped (keyed.foldl (fun acc p => addToGroup p.1 p.2 acc) []) keyed := by
  induction keyed using List.reverseRecOn with
  | nil => exact .nil
  | append_singleton keyed p ih =>
      rw [List.foldl_append]
      exact grouped_addToGroup ih p.1 p.2

/-- The groups of a relation are those of its rows with their keys. -/
theorem groupRows_grouped {keys : List Expr} {source : Relation} {groups : List (List Row)}
    (hkeys : keys.isEmpty = false) (h : groupRows keys source = .ok groups) :
    ∃ keyed grouped, collect (groupKey source.columns keys) source.rows = .ok keyed ∧
      Grouped grouped keyed ∧ groups = grouped.map (·.2) := by
  rw [groupRows, hkeys, if_neg Bool.false_ne_true] at h
  obtain ⟨keyed, hkeyed, h⟩ := bind_eq_ok.mp h
  exact ⟨keyed, _, hkeyed, grouped_foldl keyed, (Except.ok.inj h).symm⟩

/-- The groups that the keyed output rows of a grouped SELECT with keys are made of. -/
theorem keyedRows_grouped {c : Clauses} {t : Tail} {output : List Binding} {kept : Relation}
    {rows : List KeyedRow} (hkeys : c.groupBy.isEmpty = false)
    (h : keyedRows c t output kept = .ok rows) :
    ∃ keyed grouped parts, collect (groupKey kept.columns c.groupBy) kept.rows = .ok keyed ∧
      Grouped grouped keyed ∧
      collect (groupOutput c t output kept.columns) (grouped.map (·.2)) = .ok parts ∧
      rows = parts.flatten := by
  have hgrouped : isGrouped c t = true := by simp [isGrouped, hkeys]
  rw [keyedRows, if_pos hgrouped] at h
  obtain ⟨groups, hgroups, h⟩ := bind_eq_ok.mp h
  obtain ⟨parts, hparts, hrows⟩ := bind_eq_ok.mp h
  obtain ⟨keyed, grouped, hkeyed, hg, rfl⟩ := groupRows_grouped hkeys hgroups
  exact ⟨keyed, grouped, parts, hkeyed, hg, hparts, (Except.ok.inj hrows).symm⟩

end Relation

/-! ## Queries -/

namespace Sql

/-- What is merged for the result of a query: rows are dropped where DISTINCT or a UNION without ALL
says so, and gathered in groups where keys are given, both by the values that agree. -/
def Query.Merged (db : Catalog) : Query → Relation → Prop
  | .select source c t, r => ∃ whole kept rows unique,
      FromItem.runList db .unit source = .ok whole ∧
      Relation.filtered c.condition whole = .ok kept ∧
      Relation.keyedRows c t r.columns kept = .ok rows ∧
      (c.groupBy.isEmpty ∨ ∃ keyed grouped parts,
        collect (Relation.groupKey kept.columns c.groupBy) kept.rows = .ok keyed ∧
        Grouped grouped keyed ∧
        collect (Relation.groupOutput c t r.columns kept.columns) (grouped.map (·.2)) = .ok parts ∧
        rows = parts.flatten) ∧
      (if c.distinct then Merges KeyedRow.Agrees unique rows else unique = rows) ∧
      r.rows = applyTail t unique
  | .union l r all t, u => ∃ a b rows unique, l.run db = .ok a ∧ r.run db = .ok b ∧
      rows.map (·.row) = a.rows ++ b.rows ∧
      (if all then unique = rows else Merges KeyedRow.Agrees unique rows) ∧
      u.rows = applyTail t unique
  | .paren q, r => q.Merged db r

theorem Query.merged_select {db : Catalog} {source : List FromItem} {c : Clauses} {t : Tail}
    {r : Relation} (h : (Query.select source c t).run db = .ok r) :
    (Query.select source c t).Merged db r := by
  rw [Query.run] at h
  obtain ⟨whole, hwhole, h⟩ := bind_eq_ok.mp h
  rw [Relation.select_eq] at h
  obtain ⟨kept, hkept, h⟩ := bind_eq_ok.mp h
  obtain ⟨output, -, h⟩ := bind_eq_ok.mp h
  obtain ⟨rows, hrows, h⟩ := bind_eq_ok.mp h
  obtain rfl := Except.ok.inj h
  refine ⟨whole, kept, rows, _, hwhole, hkept, hrows, ?_, ?_, rfl⟩
  · cases hkeys : c.groupBy.isEmpty with
    | true => exact .inl rfl
    | false => exact .inr (Relation.keyedRows_grouped hkeys hrows)
  · cases c.distinct with
    | true => exact dedup_merges rows
    | false => rfl

/-- Results that lead back to what they come from. -/
theorem map_of_collect {α β : Type} {f : α → Except Fault β} {g : β → α}
    (hg : ∀ a b, f a = .ok b → g b = a) {as : List α} {bs : List β} (h : collect f as = .ok bs) :
    bs.map g = as := by
  rw [collect_eq_ok_iff] at h
  induction h with
  | nil => rfl
  | cons hab _ ih => rw [List.map_cons, hg _ _ hab, ih]

theorem Query.merged_union {db : Catalog} {l r : Query} {all : Bool} {t : Tail} {u : Relation}
    (h : (Query.union l r all t).run db = .ok u) : (Query.union l r all t).Merged db u := by
  rw [Query.run] at h
  obtain ⟨a, ha, h⟩ := bind_eq_ok.mp h
  obtain ⟨b, hb, h⟩ := bind_eq_ok.mp h
  unfold Relation.union at h
  split at h
  · cases h
  · obtain ⟨rows, hrows, h⟩ := bind_eq_ok.mp h
    obtain rfl := Except.ok.inj h
    refine ⟨a, b, rows, _, ha, hb, ?_, ?_, rfl⟩
    · refine map_of_collect (fun row x hx => ?_) hrows
      obtain ⟨keys, -, hx⟩ := bind_eq_ok.mp hx
      rw [← Except.ok.inj hx]
    · cases all with
      | true => rfl
      | false => exact dedup_merges rows

theorem Query.merged_of_run {db : Catalog} {q : Query} {r : Relation} (h : q.run db = .ok r) :
    q.Merged db r := by
  match q with
  | .select source c t => exact merged_select h
  | .union l r' all t => exact merged_union h
  | .paren q =>
      rw [Query.run] at h
      rw [Query.Merged]
      exact merged_of_run h

/-- An aggregate over DISTINCT values looks at those that are kept. -/
theorem Expr.aggregate_merged {f : Aggregate} {e : Expr} {ctx : Context} {v : Value}
    (h : (Expr.aggregate f true e).eval ctx = .ok v) :
    ∃ rows values unique, ctx.members f = .ok rows ∧
      collect (fun row => e.eval (.ofRow ctx.columns row)) rows = .ok values ∧
      Merges Value.Agrees unique (values.filter fun v => !v.isNull) ∧
      Value.aggregate f unique = .ok v := by
  rw [Expr.eval] at h
  obtain ⟨rows, hrows, h⟩ := bind_eq_ok.mp h
  obtain ⟨values, hvalues, h⟩ := bind_eq_ok.mp h
  exact ⟨rows, values, _, hrows, hvalues, Value.distinct_merges _, h⟩

/-- Only rows and values that agree are merged: a row is dropped by DISTINCT or UNION if it agrees
with one that is kept, it joins a group if its key agrees with that of the group, and a value is
left out of an aggregate over DISTINCT values if it agrees with one that is not. -/
theorem Query.only_agreeing_merged (db : Catalog) :
    (∀ (q : Query) (r : Relation), q.run db = .ok r → q.Merged db r) ∧
      ∀ (f : Aggregate) (e : Expr) (ctx : Context) (v : Value),
        (Expr.aggregate f true e).eval ctx = .ok v →
        ∃ rows values unique, ctx.members f = .ok rows ∧
          collect (fun row => e.eval (.ofRow ctx.columns row)) rows = .ok values ∧
          Merges Value.Agrees unique (values.filter fun v => !v.isNull) ∧
          Value.aggregate f unique = .ok v :=
  ⟨fun _ _ h => merged_of_run h, fun _ _ _ _ h => Expr.aggregate_merged h⟩

/-- A query for one value. -/
def Query.constant (v : Value) : Query :=
  .select [] ⟨false, [.expr (.literal v) none], none, [], none⟩ .empty

/-- A union with a NULL in both branches, and a count of different values among which is a NULL. -/
theorem Query.only_agreeing_merged_nulls :
    (Query.union (.constant .null) (.constant .null) false .empty).Merged .empty
        ⟨[⟨none, "?column?"⟩], [[.null]]⟩ ∧
      ∃ unique, Merges Value.Agrees unique [.integer 1, .smallInt 1, .integer 2] ∧
        Value.aggregate .count unique = .ok (.integer 2) := by
  have hunion : (Query.union (.constant .null) (.constant .null) false .empty).run .empty =
      .ok ⟨[⟨none, "?column?"⟩], [[.null]]⟩ := by decide +kernel
  have hcount : (Expr.aggregate .count true (.column ⟨none, "v"⟩)).eval
      ⟨[⟨none, "v"⟩], [], some [[.integer 1], [.null], [.smallInt 1], [.integer 2]]⟩ =
        .ok (.integer 2) := by decide +kernel
  obtain ⟨hqueries, haggregates⟩ := only_agreeing_merged .empty
  obtain ⟨rows, values, unique, hrows, hvalues, hmerges, hresult⟩ := haggregates _ _ _ _ hcount
  cases hrows
  have hall : collect (fun row => (Expr.column ⟨none, "v"⟩).eval (.ofRow [⟨none, "v"⟩] row))
      [[.integer 1], [.null], [.smallInt 1], [.integer 2]] =
        .ok [.integer 1, .null, .smallInt 1, .integer 2] := by decide +kernel
  obtain rfl := Except.ok.inj (hvalues.symm.trans hall)
  exact ⟨hqueries _ _ hunion, unique, hmerges, hresult⟩

/-- A text is dropped as a duplicate of a number, though it is an error to ask whether they are
equal. -/
theorem Query.incomparable_merged :
    (Query.union (.constant (.integer 1)) (.constant (.text "a")) false .empty).run .empty =
        .ok ⟨[⟨none, "?column?"⟩], [[.integer 1]]⟩ ∧
      Value.operate .eq (.integer 1) (.text "a") =
        .error (Value.cannotCompare (.integer 1) (.text "a")) := by
  decide +kernel

end Sql

end Rowtime
