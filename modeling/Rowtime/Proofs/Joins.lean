import Rowtime.Proofs.Bounded

/-!
# The rows of joins

A row of a join is a row of each side on which the condition holds, or a row of the
kept side of an outer join that has no such partner, padded with NULLs. Wherever the row
time of a table of one side is looked for, a padded row has NULL.
-/
namespace Rowtime

open Sql

namespace Relation

/-- A row of NULLs for the columns. -/
def padding (r : Relation) : Row := List.replicate r.columns.length .null

theorem not_passes_iff {α : Type} {test : α → Except Fault Bool} {a : α} (h : Succeeds (test a)) :
    passes test a = false ↔ test a = .ok false := by
  rw [h.eq_passes, Except.ok.injEq]

theorem filter_isEmpty_iff {α : Type} {test : α → Except Fault Bool} {as : List α}
    (h : ∀ a ∈ as, Succeeds (test a)) :
    (as.filter (passes test)).isEmpty = true ↔ ∀ a ∈ as, test a = .ok false := by
  rw [List.isEmpty_iff, List.filter_eq_nil_iff]
  refine forall₂_congr fun a ha => ?_
  rw [Bool.not_eq_true, not_passes_iff (h a ha)]

theorem mem_joinRow {columns : List Binding} {on : Option Expr} {k : JoinKind} {width : Nat}
    {right found : List Row} {l : Row} (h : joinRow columns on k width right l = .ok found) {row : Row} :
    row ∈ found ↔ (∃ x ∈ right, joins columns on l x = .ok true ∧ row = l ++ x) ∨
      (k = .left ∧ (∀ x ∈ right, joins columns on l x = .ok false) ∧
        row = l ++ List.replicate width .null) := by
  unfold joinRow at h
  obtain ⟨passed, hp, h⟩ := bind_eq_ok.mp h
  obtain ⟨hs, rfl⟩ := filterM_eq_ok_iff.mp hp
  have hpass : ∀ x ∈ right, passes (fun r => joins columns on l r) x = true ↔
      joins columns on l x = .ok true := fun x hx => ⟨eq_ok_of_passes, fun h => passes_of_ok h⟩
  by_cases hnone : ∀ x ∈ right, joins columns on l x = .ok false
  · have hempty := (filter_isEmpty_iff hs).mpr hnone
    have hno : ¬∃ x ∈ right, joins columns on l x = .ok true ∧ row = l ++ x := by
      rintro ⟨x, hx, ht, -⟩
      rw [hnone x hx] at ht
      cases ht
    rw [hempty, Bool.true_and] at h
    cases k with
    | left =>
        change Except.ok [_] = _ at h
        rw [Except.ok.injEq] at h
        rw [← h, List.mem_singleton]
        exact ⟨fun h => Or.inr ⟨rfl, hnone, h⟩, fun h => (h.resolve_left hno).2.2⟩
    | _ =>
        change Except.ok ((right.filter _).map _) = _ at h
        rw [List.isEmpty_iff.mp hempty, Except.ok.injEq] at h
        rw [← h]
        exact ⟨fun h => absurd h List.not_mem_nil, fun h => by
          rcases h with h | ⟨hk, -⟩
          · exact absurd h hno
          · cases hk⟩
  · have hempty : (right.filter (passes fun r => joins columns on l r)).isEmpty = false := by
      rw [Bool.eq_false_iff, ne_eq, filter_isEmpty_iff hs]
      exact hnone
    rw [hempty, Bool.false_and] at h
    change Except.ok ((right.filter _).map _) = _ at h
    rw [Except.ok.injEq] at h
    rw [← h, List.mem_map]
    constructor
    · rintro ⟨x, hx, rfl⟩
      obtain ⟨hx, hp⟩ := List.mem_filter.mp hx
      exact Or.inl ⟨x, hx, (hpass x hx).mp hp, rfl⟩
    · rintro (⟨x, hx, ht, rfl⟩ | ⟨-, hall, -⟩)
      · exact ⟨x, List.mem_filter.mpr ⟨hx, (hpass x hx).mpr ht⟩, rfl⟩
      · exact absurd hall hnone

theorem mem_joinRowRight {columns : List Binding} {on : Option Expr} {width : Nat}
    {left found : List Row} {x : Row} (h : joinRowRight columns on width left x = .ok found) {row : Row} :
    row ∈ found ↔ (∃ l ∈ left, joins columns on l x = .ok true ∧ row = l ++ x) ∨
      ((∀ l ∈ left, joins columns on l x = .ok false) ∧ row = List.replicate width .null ++ x) := by
  unfold joinRowRight at h
  obtain ⟨passed, hp, h⟩ := bind_eq_ok.mp h
  obtain ⟨hs, rfl⟩ := filterM_eq_ok_iff.mp hp
  by_cases hnone : ∀ l ∈ left, joins columns on l x = .ok false
  · rw [(filter_isEmpty_iff hs).mpr hnone] at h
    change Except.ok [_] = _ at h
    rw [Except.ok.injEq] at h
    rw [← h, List.mem_singleton]
    refine ⟨fun h => Or.inr ⟨hnone, h⟩, fun h => ?_⟩
    rcases h with ⟨l, hl, ht, -⟩ | ⟨-, h⟩
    · rw [hnone l hl] at ht
      cases ht
    · exact h
  · have hempty : (left.filter (passes fun l => joins columns on l x)).isEmpty = false := by
      rw [Bool.eq_false_iff, ne_eq, filter_isEmpty_iff hs]
      exact hnone
    rw [hempty] at h
    change Except.ok ((left.filter _).map _) = _ at h
    rw [Except.ok.injEq] at h
    rw [← h, List.mem_map]
    constructor
    · rintro ⟨l, hl, rfl⟩
      obtain ⟨hl, hp⟩ := List.mem_filter.mp hl
      exact Or.inl ⟨l, hl, eq_ok_of_passes hp, rfl⟩
    · rintro (⟨l, hl, ht, rfl⟩ | ⟨hall, -⟩)
      · exact ⟨l, List.mem_filter.mpr ⟨hl, passes_of_ok ht⟩, rfl⟩
      · exact absurd hall hnone

variable {k : JoinKind} {on : Option Expr} {a b r : Relation}

theorem columns_join (h : join k on a b = .ok r) : r.columns = a.columns ++ b.columns := by
  rw [join_eq] at h
  obtain ⟨parts, -, h⟩ := bind_eq_ok.mp h
  rw [Except.ok.injEq] at h
  rw [← h]

/-- The rows of a join: partners side by side, and rows without a partner beside NULLs. -/
theorem mem_join_iff (h : join k on a b = .ok r) {row : Row} : row ∈ r.rows ↔
    (∃ l ∈ a.rows, ∃ x ∈ b.rows, joins (a.columns ++ b.columns) on l x = .ok true ∧ row = l ++ x) ∨
      (k = .left ∧ ∃ l ∈ a.rows, (∀ x ∈ b.rows, joins (a.columns ++ b.columns) on l x = .ok false) ∧
        row = l ++ b.padding) ∨
      (k = .right ∧ ∃ x ∈ b.rows, (∀ l ∈ a.rows, joins (a.columns ++ b.columns) on l x = .ok false) ∧
        row = a.padding ++ x) := by
  rw [join_eq] at h
  obtain ⟨parts, hp, h⟩ := bind_eq_ok.mp h
  rw [Except.ok.injEq] at h
  rw [← h, List.mem_flatten]
  unfold joinParts at hp
  by_cases hk : k = .right
  · subst hk
    rw [if_pos (show (JoinKind.right == .right) = true from rfl)] at hp
    constructor
    · rintro ⟨part, hpart, hrow⟩
      obtain ⟨x, hx, hf⟩ := exists_of_mem_collect hp hpart
      rcases (mem_joinRowRight hf).mp hrow with ⟨l, hl, ht, rfl⟩ | ⟨hall, rfl⟩
      · exact Or.inl ⟨l, hl, x, hx, ht, rfl⟩
      · exact Or.inr (Or.inr ⟨rfl, x, hx, hall, rfl⟩)
    · rintro (⟨l, hl, x, hx, ht, rfl⟩ | ⟨hk, -⟩ | ⟨-, x, hx, hall, rfl⟩)
      · obtain ⟨part, hpart, hf⟩ := exists_mem_of_collect hp hx
        exact ⟨part, hpart, (mem_joinRowRight hf).mpr (Or.inl ⟨l, hl, ht, rfl⟩)⟩
      · cases hk
      · obtain ⟨part, hpart, hf⟩ := exists_mem_of_collect hp hx
        exact ⟨part, hpart, (mem_joinRowRight hf).mpr (Or.inr ⟨hall, rfl⟩)⟩
  · rw [if_neg fun hbeq => hk (by cases k <;> first | rfl | cases hbeq)] at hp
    constructor
    · rintro ⟨part, hpart, hrow⟩
      obtain ⟨l, hl, hf⟩ := exists_of_mem_collect hp hpart
      rcases (mem_joinRow hf).mp hrow with ⟨x, hx, ht, rfl⟩ | ⟨hleft, hall, rfl⟩
      · exact Or.inl ⟨l, hl, x, hx, ht, rfl⟩
      · exact Or.inr (Or.inl ⟨hleft, l, hl, hall, rfl⟩)
    · rintro (⟨l, hl, x, hx, ht, rfl⟩ | ⟨hleft, l, hl, hall, rfl⟩ | ⟨hright, -⟩)
      · obtain ⟨part, hpart, hf⟩ := exists_mem_of_collect hp hl
        exact ⟨part, hpart, (mem_joinRow hf).mpr (Or.inl ⟨x, hx, ht, rfl⟩)⟩
      · obtain ⟨part, hpart, hf⟩ := exists_mem_of_collect hp hl
        exact ⟨part, hpart, (mem_joinRow hf).mpr (Or.inr ⟨hleft, hall, rfl⟩)⟩
      · exact absurd hright hk

/-- The rows of a relation are rows of two others side by side, or padding in place of one. -/
structure Beside (a b r : Relation) : Prop where
  columns : r.columns = a.columns ++ b.columns
  rows : ∀ row ∈ r.rows, ∃ l x, row = l ++ x ∧ (l ∈ a.rows ∨ l = a.padding) ∧
    (x ∈ b.rows ∨ x = b.padding)

theorem Beside.cross (a b : Relation) : Beside a b (a.cross b) := by
  refine ⟨rfl, fun row hrow => ?_⟩
  obtain ⟨l, hl, hrow⟩ := List.mem_flatMap.mp hrow
  obtain ⟨x, hx, rfl⟩ := List.mem_map.mp hrow
  exact ⟨l, x, rfl, Or.inl hl, Or.inl hx⟩

theorem Beside.join (h : join k on a b = .ok r) : Beside a b r := by
  refine ⟨columns_join h, fun row hrow => ?_⟩
  rcases (mem_join_iff h).mp hrow with ⟨l, hl, x, hx, -, rfl⟩ | ⟨-, l, hl, -, rfl⟩ | ⟨-, x, hx, -, rfl⟩
  · exact ⟨l, x, rfl, Or.inl hl, Or.inl hx⟩
  · exact ⟨l, _, rfl, Or.inl hl, Or.inr rfl⟩
  · exact ⟨_, x, rfl, Or.inr rfl, Or.inl hx⟩

end Relation

/-- The column of the row times, under the name of the occurrence. -/
theorem Table.Valid.exists_rowtime {table : Table} (h : table.Valid) (q : String) :
    ∃ b, (Relation.ofTable q table).columns[table.rowtimeIndex]? = some b ∧
      b.fits ⟨some q, rowtimeName⟩ = true := by
  obtain ⟨c, hc, hr, -⟩ := h.rowtime
  refine ⟨⟨some q, c.name⟩, by simp [Relation.ofTable, hc], ?_⟩
  simpa [Binding.fits, Binding.hasQualifier, Column.isRowtime] using hr

/-! ## Conditions behind bounds -/

theorem holdsIn_toList (condition : Option Expr) (ctx : Context) :
    holdsIn (conjunction condition.toList) ctx = holdsIn condition ctx := by
  cases condition <;> rfl

theorem truthAt_and_true {l r : Expr} {ctx : Context} : (l.and r).truthAt ctx = .ok (some true) ↔
    l.truthAt ctx = .ok (some true) ∧ r.truthAt ctx = .ok (some true) := by
  rw [truthAt_and]
  cases l.truthAt ctx with
  | error why => simp
  | ok a =>
      cases r.truthAt ctx with
      | error why => rcases a with _ | (_ | _) <;> simp
      | ok b => rcases a with _ | (_ | _) <;> rcases b with _ | (_ | _) <;> simp [Value.andTruth]

/-- A conjunction is true only if its beginning is. -/
theorem truthAt_of_foldl_true {e : Expr} {ctx : Context} {es : List Expr}
    (h : (es.foldl Expr.and e).truthAt ctx = .ok (some true)) :
    e.truthAt ctx = .ok (some true) := by
  induction es generalizing e with
  | nil => exact h
  | cons x es ih => exact (truthAt_and_true.mp (ih h)).1

theorem succeeds_truthAt_foldl {e : Expr} {ctx : Context} {es : List Expr}
    (he : Succeeds (e.truthAt ctx)) (hes : ∀ x ∈ es, Succeeds (x.truthAt ctx)) :
    Succeeds ((es.foldl Expr.and e).truthAt ctx) := by
  induction es generalizing e with
  | nil => exact he
  | cons x es ih =>
      apply ih _ fun y hy => hes y (by simp [hy])
      obtain ⟨a, ha⟩ := he
      obtain ⟨b, hb⟩ := hes x (by simp)
      rw [truthAt_and, ha, ok_bind]
      split
      · exact ⟨_, rfl⟩
      · exact ⟨_, by rw [hb, ok_bind]⟩

theorem succeeds_truthAt {e : Expr} {ctx : Context} (h : Succeeds (e.holds ctx)) :
    Succeeds (e.truthAt ctx) := by
  obtain ⟨b, hb⟩ := h
  rw [holds_eq] at hb
  obtain ⟨t, ht, -⟩ := bind_eq_ok.mp hb
  exact ⟨t, ht⟩

/-- Bounds that are true or unknown leave a condition as it is, if they are true wherever it holds. -/
theorem holdsIn_untouched {ctx : Context} {es : List Expr} {condition : Option Expr} {b : Bool}
    (hes : ∀ e ∈ es, e.truthAt ctx = .ok none ∨ e.truthAt ctx = .ok (some true))
    (hc : holdsIn condition ctx = .ok b)
    (hb : b = true → ∀ e ∈ es, e.truthAt ctx = .ok (some true)) :
    holdsIn (conjunction (es ++ condition.toList)) ctx = .ok b := by
  induction es with
  | nil => exact (holdsIn_toList condition ctx).trans hc
  | cons e es ih =>
      rw [List.forall_mem_cons] at hes
      rcases hes.1 with he | he
      · have hfalse : b = false := by
          cases b with
          | false => rfl
          | true =>
              rw [hb rfl e (by simp)] at he
              cases he
        have hrest : ∀ x ∈ es ++ condition.toList, Succeeds (x.truthAt ctx) := by
          intro x hx
          rcases List.mem_append.mp hx with hx | hx
          · rcases hes.2 x hx with h | h <;> exact ⟨_, h⟩
          · rw [Option.mem_toList] at hx
            subst hx
            exact succeeds_truthAt ⟨b, hc⟩
        obtain ⟨t, ht⟩ := succeeds_truthAt_foldl ⟨none, he⟩ hrest
        change ((es ++ condition.toList).foldl Expr.and e).holds ctx = .ok b
        rw [holds_eq, ht, ok_bind, hfalse, Except.ok.injEq]
        apply beq_false_of_ne
        rintro rfl
        rw [truthAt_of_foldl_true ht] at he
        cases he
      · rw [List.cons_append, holdsIn_conjunction_true he]
        exact ih hes.2 fun h x hx => hb h x (by simp [hx])

/-- A conjunction holds where all its members are true. -/
theorem holdsIn_conjunction_iff {ctx : Context} {es : List Expr} :
    holdsIn (conjunction es) ctx = .ok true ↔ ∀ e ∈ es, e.truthAt ctx = .ok (some true) := by
  induction es with
  | nil => exact ⟨fun _ e he => absurd he List.not_mem_nil, fun _ => rfl⟩
  | cons e es ih =>
      rw [List.forall_mem_cons]
      constructor
      · intro h
        have he : e.truthAt ctx = .ok (some true) := by
          change (es.foldl Expr.and e).holds ctx = .ok true at h
          rw [holds_eq] at h
          obtain ⟨t, ht, hb⟩ := bind_eq_ok.mp h
          rw [Except.ok.injEq, beq_iff_eq] at hb
          exact truthAt_of_foldl_true (hb ▸ ht)
        rw [holdsIn_conjunction_true he] at h
        exact ⟨he, ih.mp h⟩
      · rintro ⟨he, hes⟩
        rw [holdsIn_conjunction_true he]
        exact ih.mpr hes

end Rowtime
