import Rowtime.Proofs.Merging
import Rowtime.Proofs.Sorting

/-!
# Order and pages

A query first comes to rows with keys, and its closing clauses put them in order and choose a page.
The order is that of the first keys that differ: NULL stands before everything else, a smaller value
before a greater one, and in a descending position the other way round. Rows whose keys are level
stay in the order they came in. A limit and an offset choose the rows at certain positions of that
order and nothing else, so pages of one size, one behind the other, make up the whole. All this
holds of a union as of a SELECT, where the keys of each position are of one family or NULL.
-/
namespace Rowtime

open Sql

/-! ## Keys -/

/-- The first key is less than the second: it alone is NULL, or it is less by comparison. -/
def Value.Below (a b : Value) : Prop := (a = .null ∧ b ≠ .null) ∨ a.compare? b = .ok (some .lt)

/-- Neither key is less: both are NULL, or they are equal by comparison. -/
def Value.Level (a b : Value) : Prop := (a = .null ∧ b = .null) ∨ a.compare? b = .ok (some .eq)

/-- A key comes before another one in its direction. -/
def Sql.SortOrder.Before : SortOrder → Value → Value → Prop
  | .asc, a, b => a.Below b
  | .desc, a, b => b.Below a

/-- The first keys that are not level decide. -/
inductive KeysBefore : List SortOrder → List Value → List Value → Prop where
  | here {o : SortOrder} {a b : Value} (h : o.Before a b) (os : List SortOrder)
      (as bs : List Value) : KeysBefore (o :: os) (a :: as) (b :: bs)
  | behind {a b : Value} {os : List SortOrder} {as bs : List Value} (o : SortOrder)
      (hab : a.Level b) (h : KeysBefore os as bs) : KeysBefore (o :: os) (a :: as) (b :: bs)

/-- All keys are level. -/
abbrev KeysLevel : List Value → List Value → Prop := List.Forall₂ Value.Level

namespace Value

theorem isNull_eq_false {v : Value} (h : v ≠ .null) : v.isNull = false := by
  cases v with
  | null => exact absurd rfl h
  | _ => rfl

/-- NULL is not compared with anything. -/
theorem compare?_null_right (v : Value) : v.compare? .null = .ok none := by
  cases v <;> rfl

theorem sortCompare_eq_lt_iff {a b : Value} : a.sortCompare b = .lt ↔ a.Below b := by
  by_cases ha : a = .null
  · subst ha
    by_cases hb : b = .null
    · subst hb
      simp [sortCompare, Below, isNull, compare?]
    · simp [sortCompare, Below, isNull, compare?, hb]
  · by_cases hb : b = .null
    · subst hb
      simp [sortCompare, Below, compare?_null_right, isNull]
    · simp only [sortCompare, isNull_eq_false ha, isNull_eq_false hb, Below, ha, false_and,
        false_or]
      split
      · rename_i o ho
        simp [ho]
      · rename_i hnone
        constructor
        · intro h
          cases h
        · intro h
          exact absurd h (hnone _)

/-- Within a family and NULL, what is not sorted apart is level. -/
theorem Family.sortCompare_eq_eq_iff {F : Family} {a b : Value} (ha : F.Sorts a) (hb : F.Sorts b) :
    a.sortCompare b = .eq ↔ a.Level b := by
  rcases ha with rfl | ha
  · rcases hb with rfl | hb
    · simp [sortCompare, Level, isNull]
    · have hne : b ≠ .null := by
        rintro rfl
        cases hb
      simp [sortCompare, Level, isNull, compare?, hne]
  · have hne : a ≠ .null := by
      rintro rfl
      cases ha
    rcases hb with rfl | hb
    · simp [sortCompare, Level, compare?_null_right, isNull, hne]
    · obtain ⟨o, ho⟩ := F.totalPreorder.ordered a b ha hb
      simp [sortCompare, Level, ha.not_null, hb.not_null, hne, ho]

end Value

theorem Sql.SortOrder.compare_eq_lt_iff {o : SortOrder} {a b : Value} :
    o.compare a b = .lt ↔ o.Before a b := by
  cases o with
  | asc => exact Value.sortCompare_eq_lt_iff
  | desc =>
      have hswap : SortOrder.desc.compare a b = b.sortCompare a := (Value.sortCompare_swap a b).symm
      rw [hswap]
      exact Value.sortCompare_eq_lt_iff

theorem Sql.SortOrder.compare_eq_eq_iff {o : SortOrder} {F : Value.Family} {a b : Value}
    (ha : F.Sorts a) (hb : F.Sorts b) : o.compare a b = .eq ↔ a.Level b := by
  rw [← F.sortCompare_eq_eq_iff ha hb]
  cases o with
  | asc => rfl
  | desc =>
      change (a.sortCompare b).swap = .eq ↔ _
      cases a.sortCompare b <;> simp

section Keys

variable {orders : List SortOrder} {Fs : List Value.Family} {as bs : List Value}

/-- The comparison of keys decides which come before. -/
theorem compareKeys_eq_lt_iff (ha : List.Forall₂ Value.Family.Sorts Fs as)
    (hb : List.Forall₂ Value.Family.Sorts Fs bs) :
    compareKeys orders as bs = .lt ↔ KeysBefore orders as bs := by
  induction orders generalizing Fs as bs with
  | nil =>
      constructor
      · intro h
        cases h
      · intro h
        cases h
  | cons o os ih =>
      cases ha with
      | nil =>
          cases hb
          constructor
          · intro h
            cases h
          · intro h
            cases h
      | cons ha has =>
          cases hb with
          | cons hb hbs =>
              rw [compareKeys_cons, Ordering.then_eq_lt, o.compare_eq_lt_iff,
                o.compare_eq_eq_iff ha hb, ih has hbs]
              constructor
              · rintro (h | ⟨hlevel, h⟩)
                · exact .here h _ _ _
                · exact .behind o hlevel h
              · intro h
                cases h with
                | here h => exact .inl h
                | behind _ hlevel h => exact .inr ⟨hlevel, h⟩

/-- As many keys as directions are level where the comparison takes them for equal. -/
theorem compareKeys_eq_eq_iff (ha : List.Forall₂ Value.Family.Sorts Fs as)
    (hb : List.Forall₂ Value.Family.Sorts Fs bs) (hlength : as.length = orders.length) :
    compareKeys orders as bs = .eq ↔ KeysLevel as bs := by
  induction orders generalizing Fs as bs with
  | nil =>
      obtain rfl := List.eq_nil_of_length_eq_zero hlength
      cases ha
      cases hb
      exact ⟨fun _ => .nil, fun _ => rfl⟩
  | cons o os ih =>
      cases ha with
      | nil => cases hlength
      | cons ha has =>
          cases hb with
          | cons hb hbs =>
              rw [compareKeys_cons, Ordering.then_eq_eq, o.compare_eq_eq_iff ha hb,
                ih has hbs (Nat.succ.inj hlength)]
              exact List.forall₂_cons.symm

end Keys

/-! ## Arranged rows -/

/-- The rows in the order of their keys, rows with level keys in the order they came in: all rows
with their places, each before those that are greater or that came later. -/
def Arranged (orders : List SortOrder) (rows sorted : List KeyedRow) : Prop :=
  ∃ placed : List (KeyedRow × Nat), placed.Perm rows.zipIdx ∧ placed.map (·.1) = sorted ∧
    placed.Pairwise fun x y => KeysBefore orders x.1.keys y.1.keys ∨
      (KeysLevel x.1.keys y.1.keys ∧ x.2 < y.2)

theorem Arranged.perm {orders : List SortOrder} {rows sorted : List KeyedRow}
    (h : Arranged orders rows sorted) : sorted.Perm rows := by
  obtain ⟨placed, hperm, rfl, -⟩ := h
  have hmap := hperm.map Prod.fst
  rwa [List.zipIdx_map_fst] at hmap

/-- The closing clauses arrange rows whose keys have a family for each position. -/
theorem sortRows_arranged {orders : List SortOrder} {Fs : List Value.Family} {rows : List KeyedRow}
    (hkeys : ∀ x ∈ rows, List.Forall₂ Value.Family.Sorts Fs x.keys)
    (hlength : ∀ x ∈ rows, x.keys.length = orders.length) :
    Arranged orders rows (sortRows orders rows) := by
  unfold sortRows
  split
  · rename_i hnone
    obtain rfl := List.isEmpty_iff.mp hnone
    refine ⟨rows.zipIdx, .refl _, List.zipIdx_map_fst 0 rows, ?_⟩
    have hplaces : rows.zipIdx.Pairwise fun x y => x.2 < y.2 := by
      rw [← List.pairwise_map (f := Prod.snd) (R := (· < ·)), List.zipIdx_map_snd]
      exact List.pairwise_lt_range'
    have hempty : ∀ x ∈ rows.zipIdx, x.1.keys = [] := fun x hx =>
      List.eq_nil_of_length_eq_zero (hlength x.1 (List.fst_mem_of_mem_zipIdx hx))
    refine hplaces.imp_of_mem fun hx hy hplace => .inr ⟨?_, hplace⟩
    rw [hempty _ hx, hempty _ hy]
    exact .nil
  · have hperm := Relation.stableSort_perm
      (fun a b : KeyedRow × Nat => compareKeys orders a.1.keys b.1.keys == .lt) rows.zipIdx
    refine ⟨_, hperm, ?_, ?_⟩
    · rw [stableSort_map (fun a b : KeyedRow => compareKeys orders a.keys b.keys == .lt) Prod.fst,
        List.zipIdx_map_fst]
    · have hplaced := stableSort_placed (compareKeyedRows_consistent orders Fs) hkeys
      refine hplaced.imp_of_mem fun {x y} hx hy hbefore => ?_
      have hx := List.fst_mem_of_mem_zipIdx (hperm.mem_iff.mp hx)
      have hy := List.fst_mem_of_mem_zipIdx (hperm.mem_iff.mp hy)
      obtain h | ⟨h, hplace⟩ := hbefore
      · exact .inl ((compareKeys_eq_lt_iff (hkeys _ hx) (hkeys _ hy)).mp h)
      · exact .inr ⟨(compareKeys_eq_eq_iff (hkeys _ hx) (hkeys _ hy) (hlength _ hx)).mp h, hplace⟩

/-! ## The parts of a page -/

/-- The closing clauses choose the rows at the positions from the offset on, up to the limit. -/
theorem getElem?_applyTail (t : Tail) (rows : List KeyedRow) (i : Nat) :
    (applyTail t rows)[i]? =
      if t.limit.all (i < ·.toNat) then
        ((sortRows (t.orderBy.map (·.order)) rows).map (·.row))[(t.offset.getD 0).toNat + i]?
      else none := by
  obtain ⟨orderBy, limit, offset⟩ := t
  cases limit with
  | none => simp [applyTail, List.getElem?_drop]
  | some n =>
      by_cases hi : i < n.toNat <;> simp [applyTail, List.getElem?_drop, hi]

/-- With a limit and an offset it is a part of one size. -/
theorem applyTail_part (orderBy : List SortKey) (limit offset : UInt64) (rows : List KeyedRow) :
    applyTail ⟨orderBy, some limit, some offset⟩ rows =
      (((sortRows (orderBy.map (·.order)) rows).map (·.row)).drop offset.toNat).take
        limit.toNat := by
  rw [← List.map_drop, ← List.map_take]
  rfl

/-- Parts of one size, one behind the other, make up the front of a list. -/
theorem flatMap_parts {α : Type} (xs : List α) (k n : Nat) :
    (List.range n).flatMap (fun i => (xs.drop (i * k)).take k) = xs.take (n * k) := by
  induction n with
  | zero => simp
  | succ n ih =>
      rw [List.range_succ, List.flatMap_append, ih, List.flatMap_singleton, Nat.succ_mul,
        List.take_add]

/-- Enough parts of one size make up a list. -/
theorem flatMap_parts_all {α : Type} (xs : List α) {k : Nat} (hk : 0 < k) :
    (List.range ((xs.length + k - 1) / k)).flatMap (fun i => (xs.drop (i * k)).take k) = xs := by
  rw [flatMap_parts, List.take_of_length_le]
  have hlast := Nat.lt_div_mul_add hk (a := xs.length + k - 1)
  omega

/-- Each of these parts begins within the list. -/
theorem mul_lt_of_lt_parts {n k i : Nat} (hk : 0 < k) (hi : i < (n + k - 1) / k) : i * k < n := by
  have hle : (i + 1) * k ≤ n + k - 1 := (Nat.le_div_iff_mul_le hk).mp hi
  rw [Nat.succ_mul] at hle
  omega

/-! ## Queries -/

/-- An output row without its keys. -/
def KeyedRow.unkeyed (x : KeyedRow) : KeyedRow := ⟨x.row, []⟩

theorem dedupFrom_unkeyed (kept rows : List KeyedRow) :
    dedupFrom (kept.map (·.unkeyed)) (rows.map (·.unkeyed)) =
      (dedupFrom kept rows).map (·.unkeyed) := by
  induction rows generalizing kept with
  | nil => rfl
  | cons x rows ih =>
      have hany : (kept.map (·.unkeyed)).any (fun k => Value.sameGroup k.row x.unkeyed.row) =
          kept.any fun k => Value.sameGroup k.row x.row := List.any_map
      rw [List.map_cons, dedupFrom, dedupFrom, hany]
      split
      · exact ih kept
      · rw [← ih, List.map_append, List.map_singleton]

/-- What is dropped as a duplicate does not depend on the keys. -/
theorem dedup_unkeyed (rows : List KeyedRow) :
    dedup (rows.map (·.unkeyed)) = (dedup rows).map (·.unkeyed) :=
  dedupFrom_unkeyed [] rows

namespace Relation

/-- The output rows of a SELECT before its closing clauses choose among them. -/
def selectRows (c : Clauses) (t : Tail) (source : Relation) :
    Except Fault (List Binding × List KeyedRow) :=
  filtered c.condition source >>= fun kept =>
    outputColumns c.projection kept.columns >>= fun output =>
      keyedRows c t output kept >>= fun rows => .ok (output, rows)

section Select

variable {c : Clauses} {t : Tail} {output : List Binding}

theorem outputRow_eq_ok {ctx : Context} {x : KeyedRow} :
    outputRow c t output ctx = .ok x ↔ project c.projection ctx = .ok x.row ∧
      collect (sortKeyValue output x.row ctx) t.orderBy = .ok x.keys := by
  simp only [outputRow, bind_eq_ok, pure_eq_ok]
  constructor
  · rintro ⟨row, hrow, keys, hkeys, rfl⟩
    exact ⟨hrow, hkeys⟩
  · rintro ⟨hrow, hkeys⟩
    exact ⟨x.row, hrow, x.keys, hkeys, rfl⟩

theorem outputRow_unkeyed {ctx : Context} {x : KeyedRow} (h : outputRow c t output ctx = .ok x) :
    outputRow c .empty output ctx = .ok x.unkeyed :=
  outputRow_eq_ok.mpr ⟨(outputRow_eq_ok.mp h).1, rfl⟩

theorem groupOutput_unkeyed {columns : List Binding} {group : List Row} {xs : List KeyedRow}
    (h : groupOutput c t output columns group = .ok xs) :
    groupOutput c .empty output columns group = .ok (xs.map (·.unkeyed)) := by
  rw [groupOutput_eq, bind_eq_ok] at h ⊢
  obtain ⟨pass, hpass, h⟩ := h
  refine ⟨pass, hpass, ?_⟩
  cases pass with
  | false =>
      obtain rfl := Except.ok.inj h
      rfl
  | true =>
      obtain ⟨x, hx, h⟩ := bind_eq_ok.mp h
      obtain rfl := Except.ok.inj h
      rw [if_pos rfl, outputRow_unkeyed hx]
      rfl

theorem mem_groupOutput {columns : List Binding} {group : List Row} {xs : List KeyedRow}
    (h : groupOutput c t output columns group = .ok xs) {x : KeyedRow} (hx : x ∈ xs) :
    outputRow c t output (groupContext columns group) = .ok x := by
  rw [groupOutput_eq, bind_eq_ok] at h
  obtain ⟨pass, -, h⟩ := h
  cases pass with
  | false =>
      obtain rfl := Except.ok.inj h
      cases hx
  | true =>
      obtain ⟨y, hy, h⟩ := bind_eq_ok.mp h
      obtain rfl := Except.ok.inj h
      rwa [List.mem_singleton.mp hx]

/-- Without the keys the output rows are the same, if the keys do not make groups. -/
theorem keyedRows_unkeyed {kept : Relation} {rows : List KeyedRow}
    (hgroups : isGrouped c t = isGrouped c .empty) (h : keyedRows c t output kept = .ok rows) :
    keyedRows c .empty output kept = .ok (rows.map (·.unkeyed)) := by
  unfold keyedRows at h ⊢
  rw [← hgroups]
  split at h
  · rename_i hg
    rw [if_pos hg]
    obtain ⟨groups, hgroups, h⟩ := bind_eq_ok.mp h
    obtain ⟨parts, hparts, h⟩ := bind_eq_ok.mp h
    obtain rfl := Except.ok.inj h
    rw [hgroups, ok_bind, collect_changed (fun _ _ => groupOutput_unkeyed) hparts, ok_bind,
      List.map_flatten]
  · rename_i hg
    rw [if_neg hg]
    exact collect_changed (fun _ _ => outputRow_unkeyed) h

/-- Every output row is that of a context. -/
theorem mem_keyedRows {kept : Relation} {rows : List KeyedRow}
    (h : keyedRows c t output kept = .ok rows) {x : KeyedRow} (hx : x ∈ rows) :
    ∃ ctx, outputRow c t output ctx = .ok x := by
  unfold keyedRows at h
  split at h
  · obtain ⟨groups, -, h⟩ := bind_eq_ok.mp h
    obtain ⟨parts, hparts, h⟩ := bind_eq_ok.mp h
    obtain rfl := Except.ok.inj h
    obtain ⟨part, hpart, hx⟩ := List.mem_flatten.mp hx
    obtain ⟨group, -, hgroup⟩ := exists_of_mem_collect hparts hpart
    exact ⟨_, mem_groupOutput hgroup hx⟩
  · obtain ⟨row, -, hrow⟩ := exists_of_mem_collect h hx
    exact ⟨_, hrow⟩

end Select

section Union

variable {t : Tail} {output : List Binding} {row : Row} {x : KeyedRow}

/-- An output row of a union with its keys. -/
def unionRow (t : Tail) (output : List Binding) (row : Row) : Except Fault KeyedRow :=
  collect (unionKeyValue output row) t.orderBy >>= fun keys => .ok ⟨row, keys⟩

/-- The output rows of a union before its closing clauses choose among them. -/
def unionRows (t : Tail) (a b : Relation) : Except Fault (List Binding × List KeyedRow) :=
  if a.columns.length ≠ b.columns.length then
    .error (.columnCount a.columns.length b.columns.length)
  else
    collect (unionRow t (a.columns.map fun c => ⟨none, c.name⟩)) (a.rows ++ b.rows) >>= fun rows =>
      .ok (a.columns.map fun c => ⟨none, c.name⟩, rows)

theorem unionRow_unkeyed (h : unionRow t output row = .ok x) :
    unionRow .empty output row = .ok x.unkeyed := by
  obtain ⟨keys, -, h⟩ := bind_eq_ok.mp h
  obtain rfl := Except.ok.inj h
  rfl

theorem length_keys_unionRow (h : unionRow t output row = .ok x) :
    x.keys.length = t.orderBy.length := by
  obtain ⟨keys, hkeys, h⟩ := bind_eq_ok.mp h
  obtain rfl := Except.ok.inj h
  exact length_of_collect hkeys

end Union

end Relation

namespace Sql

/-- The closing clauses of a query. -/
def Query.tail : Query → Tail
  | .select _ _ t => t
  | .union _ _ _ t => t
  | .paren q => q.tail

/-- The query with other closing clauses. -/
def Query.withTail (t : Tail) : Query → Query
  | .select source c _ => .select source c t
  | .union l r all _ => .union l r all t
  | .paren q => .paren (q.withTail t)

/-- The query with a limit and an offset. -/
def Query.paged (q : Query) (limit offset : Option UInt64) : Query :=
  q.withTail ⟨q.tail.orderBy, limit, offset⟩

/-- The keys do not make groups of a query that has none without them. -/
def Query.keepsGroups : Query → Prop
  | .select _ c t => Relation.isGrouped c t = Relation.isGrouped c .empty
  | .union .. => True
  | .paren q => q.keepsGroups

/-- The columns of a query and its rows with their keys before they are put in order. -/
def Query.unsorted (db : Catalog) : Query → Except Fault (List Binding × List KeyedRow)
  | .select source c t =>
    FromItem.runList db .unit source >>= fun whole =>
      Relation.selectRows c t whole >>= fun x =>
        .ok (x.1, if c.distinct then dedup x.2 else x.2)
  | .union l r all t =>
    l.run db >>= fun a => r.run db >>= fun b =>
      Relation.unionRows t a b >>= fun x => .ok (x.1, if all then x.2 else dedup x.2)
  | .paren q => q.unsorted db

section Unsorted

variable {db : Catalog}

/-- A query chooses among its rows by its closing clauses. -/
theorem Query.run_eq (q : Query) :
    q.run db = (q.unsorted db >>= fun x => .ok ⟨x.1, applyTail q.tail x.2⟩) := by
  match q with
  | .select source c t =>
      simp only [Query.run, Query.unsorted, Relation.select_eq, Relation.selectRows, Query.tail,
        bind_assoc, ok_bind]
      rfl
  | .union l r all t =>
      simp only [Query.run, Query.unsorted, Query.tail, bind_assoc, ok_bind]
      congr 1
      funext a
      congr 1
      funext b
      unfold Relation.union Relation.unionRows
      split
      · rfl
      · simp only [bind_assoc, ok_bind]
        rfl
  | .paren q =>
      rw [Query.run, run_eq q, Query.unsorted, Query.tail]

theorem Query.tail_withTail (t : Tail) (q : Query) : (q.withTail t).tail = t := by
  match q with
  | .select .. | .union .. => rfl
  | .paren q => exact tail_withTail t q

/-- A limit and an offset do not matter before they choose among the rows. -/
theorem Query.unsorted_paged (q : Query) (limit offset : Option UInt64) :
    (q.paged limit offset).unsorted db = q.unsorted db := by
  match q with
  | .select .. | .union .. => rfl
  | .paren q => exact unsorted_paged q limit offset

theorem Query.unsorted_select {source : List FromItem} {c : Clauses} {t : Tail}
    {columns : List Binding} {rows : List KeyedRow}
    (h : (Query.select source c t).unsorted db = .ok (columns, rows)) :
    ∃ whole kept all, FromItem.runList db .unit source = .ok whole ∧
      Relation.filtered c.condition whole = .ok kept ∧
      Relation.outputColumns c.projection kept.columns = .ok columns ∧
      Relation.keyedRows c t columns kept = .ok all ∧
      rows = if c.distinct then dedup all else all := by
  rw [Query.unsorted, bind_eq_ok] at h
  obtain ⟨whole, hwhole, h⟩ := h
  obtain ⟨found, hfound, h⟩ := bind_eq_ok.mp h
  obtain ⟨kept, hkept, hfound⟩ := bind_eq_ok.mp hfound
  obtain ⟨output, houtput, hfound⟩ := bind_eq_ok.mp hfound
  obtain ⟨all, hall, hfound⟩ := bind_eq_ok.mp hfound
  obtain rfl := Except.ok.inj hfound
  obtain ⟨rfl, rfl⟩ := Prod.mk.inj (Except.ok.inj h)
  exact ⟨whole, kept, all, hwhole, hkept, houtput, hall, rfl⟩

theorem Query.unsorted_union {l r : Query} {all : Bool} {t : Tail} {columns : List Binding}
    {rows : List KeyedRow} (h : (Query.union l r all t).unsorted db = .ok (columns, rows)) :
    ∃ a b found, l.run db = .ok a ∧ r.run db = .ok b ∧ a.columns.length = b.columns.length ∧
      columns = a.columns.map (fun c => ⟨none, c.name⟩) ∧
      collect (Relation.unionRow t columns) (a.rows ++ b.rows) = .ok found ∧
      rows = if all then found else dedup found := by
  rw [Query.unsorted, bind_eq_ok] at h
  obtain ⟨a, ha, h⟩ := h
  obtain ⟨b, hb, h⟩ := bind_eq_ok.mp h
  obtain ⟨x, hx, h⟩ := bind_eq_ok.mp h
  rw [Relation.unionRows] at hx
  split at hx
  · cases hx
  · rename_i hwidth
    obtain ⟨found, hfound, hx⟩ := bind_eq_ok.mp hx
    obtain rfl := Except.ok.inj hx
    obtain ⟨rfl, rfl⟩ := Prod.mk.inj (Except.ok.inj h)
    exact ⟨a, b, found, ha, hb, Decidable.not_not.mp hwidth, rfl, hfound, rfl⟩

/-- Without closing clauses a query comes to the same rows without keys. -/
theorem Query.unsorted_unkeyed {q : Query} (hq : q.keepsGroups) {columns : List Binding}
    {rows : List KeyedRow} (h : q.unsorted db = .ok (columns, rows)) :
    (q.withTail .empty).unsorted db = .ok (columns, rows.map (·.unkeyed)) := by
  match q with
  | .select source c t =>
      obtain ⟨whole, kept, all, hwhole, hkept, houtput, hall, rfl⟩ := unsorted_select h
      rw [Query.withTail, Query.unsorted, hwhole, ok_bind, Relation.selectRows, hkept, ok_bind,
        houtput, ok_bind, Relation.keyedRows_unkeyed hq hall]
      cases c.distinct with
      | false => rfl
      | true => simp only [ok_bind, if_true, dedup_unkeyed]
  | .union l r all t =>
      obtain ⟨a, b, found, ha, hb, hwidth, rfl, hfound, rfl⟩ := unsorted_union h
      rw [Query.withTail, Query.unsorted, ha, ok_bind, hb, ok_bind, Relation.unionRows,
        if_neg (not_not_intro hwidth),
        collect_changed (fun _ _ => Relation.unionRow_unkeyed) hfound]
      cases all with
      | true => rfl
      | false => simp only [ok_bind, Bool.false_eq_true, if_false, dedup_unkeyed]
  | .paren q =>
      exact unsorted_unkeyed (q := q) hq h

/-- Every row has a key for each direction. -/
theorem Query.length_keys {q : Query} {columns : List Binding} {rows : List KeyedRow}
    (h : q.unsorted db = .ok (columns, rows)) {x : KeyedRow} (hx : x ∈ rows) :
    x.keys.length = q.tail.orderBy.length := by
  match q with
  | .select source c t =>
      obtain ⟨-, kept, all, -, -, -, hall, rfl⟩ := unsorted_select h
      have hmem : x ∈ all := by
        cases hdistinct : c.distinct <;> rw [hdistinct] at hx
        · exact hx
        · exact Relation.mem_dedup hx
      obtain ⟨ctx, hctx⟩ := Relation.mem_keyedRows hall hmem
      exact length_of_collect (Relation.outputRow_eq_ok.mp hctx).2
  | .union l r all t =>
      obtain ⟨a, b, found, -, -, -, -, hfound, rfl⟩ := unsorted_union h
      have hmem : x ∈ found := by
        cases all
        · exact Relation.mem_dedup hx
        · exact hx
      obtain ⟨row, -, hrow⟩ := exists_of_mem_collect hfound hmem
      exact Relation.length_keys_unionRow hrow
  | .paren q =>
      exact length_keys (q := q) h hx

theorem Query.run_paged {q : Query} {columns : List Binding} {rows : List KeyedRow}
    (h : q.unsorted db = .ok (columns, rows)) (limit offset : Option UInt64) :
    (q.paged limit offset).run db =
      .ok ⟨columns, applyTail ⟨q.tail.orderBy, limit, offset⟩ rows⟩ := by
  rw [run_eq, unsorted_paged, h, ok_bind, paged, tail_withTail]

/-- The pages of one size, one behind the other, as far as there are rows. -/
theorem Query.run_pages {q : Query} {columns : List Binding} {rows : List KeyedRow}
    (h : q.unsorted db = .ok (columns, rows)) {k : UInt64} (hk : 0 < k)
    (hcount : rows.length ≤ UInt64.size) :
    ∃ pages, collect (fun i => (q.paged (some k) (some (.ofNat (i * k.toNat)))).run db)
        (List.range ((rows.length + k.toNat - 1) / k.toNat)) = .ok pages ∧
      pages.flatMap (·.rows) = (sortRows (q.tail.orderBy.map (·.order)) rows).map (·.row) := by
  have hpos : 0 < k.toNat := hk
  refine ⟨_, collect_eq_map fun i _ => run_paged h _ _, ?_⟩
  have hall := flatMap_parts_all ((sortRows (q.tail.orderBy.map (·.order)) rows).map (·.row)) hpos
  rw [List.length_map, (Relation.sortRows_perm _ _).length_eq] at hall
  rw [List.flatMap_map, ← hall]
  refine List.flatMap_congr fun i hi => ?_
  have hoffset : i * k.toNat < UInt64.size :=
    (mul_lt_of_lt_parts hpos (List.mem_range.mp hi)).trans_le hcount
  rw [applyTail_part, UInt64.toNat_ofNat_of_lt' hoffset]

end Unsorted

/-- Where each position of the keys has its family, a query puts the rows that it comes to in the
order of their keys, and rows with level keys in the order they came in. With a limit and an offset
it gives the rows at those positions, and the pages of any one size make up the whole. Without its
closing clauses it gives the rows in the order they come in, unless the keys make groups. -/
theorem Query.ordered_in_pages {db : Catalog} {q : Query} {columns : List Binding}
    {rows : List KeyedRow} {Fs : List Value.Family} (h : q.unsorted db = .ok (columns, rows))
    (hkeys : ∀ x ∈ rows, List.Forall₂ Value.Family.Sorts Fs x.keys) :
    (q.keepsGroups → (q.withTail .empty).run db = .ok ⟨columns, rows.map (·.row)⟩) ∧
      ∃ sorted : List KeyedRow, sorted.Perm rows ∧
        Arranged (q.tail.orderBy.map (·.order)) rows sorted ∧
        (q.paged none none).run db = .ok ⟨columns, sorted.map (·.row)⟩ ∧
        (∀ limit offset : Option UInt64, ∃ page,
          (q.paged limit offset).run db = .ok ⟨columns, page⟩ ∧
          ∀ i : Nat, page[i]? = if limit.all (i < ·.toNat) then
            (sorted.map (·.row))[(offset.getD 0).toNat + i]? else none) ∧
        ∀ k : UInt64, 0 < k → sorted.length ≤ UInt64.size → ∃ pages,
          collect (fun i => (q.paged (some k) (some (.ofNat (i * k.toNat)))).run db)
            (List.range ((sorted.length + k.toNat - 1) / k.toNat)) = .ok pages ∧
          pages.flatMap (·.rows) = sorted.map (·.row) := by
  have harranged : Arranged (q.tail.orderBy.map (·.order)) rows
      (sortRows (q.tail.orderBy.map (·.order)) rows) :=
    sortRows_arranged hkeys fun x hx => by rw [length_keys h hx, List.length_map]
  refine ⟨fun hgroups => ?_, _, harranged.perm, harranged, run_paged h none none,
    fun limit offset => ⟨_, run_paged h limit offset, getElem?_applyTail _ rows⟩, ?_⟩
  · rw [run_eq, unsorted_unkeyed hgroups h, ok_bind, tail_withTail, Relation.applyTail_empty,
      List.map_map]
    rfl
  · intro k hk hcount
    rw [harranged.perm.length_eq] at hcount ⊢
    exact run_pages h hk hcount

/-- The values 2, NULL and 2 of another kind, the greatest first. -/
def Query.threeDescending : Query :=
  .union (.union (.constant (.integer 2)) (.constant .null) true .empty)
    (.constant (.smallInt 2)) true ⟨[⟨.literal (.integer 1), .desc⟩], none, none⟩

theorem Query.ordered_in_pages_union :
    (Query.threeDescending.withTail .empty).run .empty =
        .ok ⟨[⟨none, "?column?"⟩], [[.integer 2], [.null], [.smallInt 2]]⟩ ∧
      (Query.threeDescending.paged none none).run .empty =
        .ok ⟨[⟨none, "?column?"⟩], [[.integer 2], [.smallInt 2], [.null]]⟩ ∧
      (∃ page, (Query.threeDescending.paged (some 2) (some 1)).run .empty =
          .ok ⟨[⟨none, "?column?"⟩], page⟩ ∧ page[1]? = some [.null] ∧ page[2]? = none) ∧
      ∃ pages, collect (fun i => (Query.threeDescending.paged (some 2) (some (.ofNat (i * 2)))).run
          .empty) [0, 1] = .ok pages ∧
        pages.flatMap (·.rows) = [[.integer 2], [.smallInt 2], [.null]] := by
  have hrows : Query.threeDescending.unsorted .empty = .ok ([⟨none, "?column?"⟩],
      [⟨[.integer 2], [.integer 2]⟩, ⟨[.null], [.null]⟩, ⟨[.smallInt 2], [.smallInt 2]⟩]) := by
    decide +kernel
  have hkeys : ∀ x ∈ ([⟨[.integer 2], [.integer 2]⟩, ⟨[.null], [.null]⟩,
      ⟨[.smallInt 2], [.smallInt 2]⟩] : List KeyedRow),
      List.Forall₂ Value.Family.Sorts [.exact] x.keys := by
    simp only [List.forall_mem_cons, List.forall₂_cons, Value.Family.Sorts]
    exact ⟨⟨.inr (.integer 2), .nil⟩, ⟨.inl trivial, .nil⟩, ⟨.inr (.smallInt 2), .nil⟩, by simp⟩
  have hwhole : (Query.threeDescending.paged none none).run .empty =
      .ok ⟨[⟨none, "?column?"⟩], [[.integer 2], [.smallInt 2], [.null]]⟩ := by
    decide +kernel
  obtain ⟨hunordered, sorted, hperm, -, hsorted, hpage, hpages⟩ := ordered_in_pages hrows hkeys
  have hvalues : sorted.map (·.row) = [[.integer 2], [.smallInt 2], [.null]] := by
    rw [hwhole, Except.ok.injEq, Relation.mk.injEq] at hsorted
    exact hsorted.2.symm
  refine ⟨hunordered trivial, hwhole, ?_, ?_⟩
  · obtain ⟨page, hrun, hat⟩ := hpage (some 2) (some 1)
    rw [hvalues] at hat
    exact ⟨page, hrun, hat 1, hat 2⟩
  · obtain ⟨pages, hcollect, hall⟩ :=
      hpages 2 (by decide) (by rw [hperm.length_eq]; decide)
    rw [hperm.length_eq] at hcollect
    exact ⟨pages, hcollect, hall.trans hvalues⟩

end Sql

end Rowtime
