import Rowtime.Proofs.History
import Rowtime.Proofs.Orderly

/-!
# What a delivery sees

A delivery sees the rows in its windows that passed through no branch that was idle
then; its result has these rows, and the result on the tables up to some marks has the
rows up to the marks. What conditions, projections and sort keys are evaluated on is
one row at a time, so an evaluation that succeeds on every row that some delivery sees
succeeds on all rows that are seen.
-/
namespace Rowtime

open Sql

namespace Delivery

/-- Whether a row is in the windows and passed through no idle branch. -/
def sees (d : Delivery) (z : Traced) : Bool :=
  z.within (d.marks.admits d.advance) && d.advance.all fun y => z.isActive y.table

theorem sees_splits (d : Delivery) : Trace.Splits d.sees := by
  have hw := Traced.within_splits (d.marks.admits d.advance)
  refine ⟨?_, fun x y => ?_, fun x row => ?_⟩
  · cases hd : d.advance <;> simp [sees, hd, Stamped.within, Traced.isActive]
  · have hx := hw.append x y
    cases hd : d.advance with
    | none => simpa [sees, hd] using hx
    | some a =>
        have ha := (Traced.isActive_splits a.table).append x y
        rw [hd] at hx
        simp only [sees, hd, Option.all_some, hx, ha]
        ac_rfl
  · rfl

end Delivery

/-- Whether a row is up to the marks. -/
def Marks.upTo (s : Marks) (z : Traced) : Bool := z.within (s.admits none)

theorem Trace.part_part (p p' : Traced → Bool) (a : Trace) :
    (a.part p).part p' = a.part fun z => p' z && p z := by
  simp only [Trace.part, List.filter_filter]

theorem Catalog.view_eq_within (db : Catalog) (s : Marks) (a : Option Advance) {t : TableRef}
    (ht : t.isDual = false) : db.view s a t = db.source.within (s.admits a) t := by
  unfold Catalog.view Source.within Catalog.source
  simp only [ht, Bool.false_eq_true, if_false]

namespace Sql

/-- The trace through windows, with idle branches emptied, is what the delivery sees. -/
theorem trace_seen (db : Catalog) (d : Delivery) :
    (∀ q : Query, (∀ t ∈ q.occurrences, t.isDual = false) →
      (q.idled d.advance).trace (db.view d.marks d.advance) = (q.trace db.source).part d.sees) ∧
      ∀ x : FromItem, (∀ t ∈ x.occurrences, t.isDual = false) →
        (x.idled d.advance).trace (db.view d.marks d.advance) =
          (x.trace db.source).part d.sees := by
  obtain ⟨s, a, r⟩ := d
  cases a with
  | none =>
      have hsees : Delivery.sees ⟨s, none, r⟩ = fun z => z.within (s.admits none) := by
        funext z
        simp [Delivery.sees]
      simp only [hsees]
      constructor
      · intro q hq
        rw [idled_none.1, trace_congr.1 q fun t ht => db.view_eq_within s none (hq t ht),
          (trace_within _ _).1]
      · intro x hx
        rw [idled_none.2, trace_congr.2 x fun t ht => db.view_eq_within s none (hx t ht),
          (trace_within _ _).2]
  | some y =>
      constructor
      · intro q hq
        rw [trace_congr.1 _ fun t ht => db.view_eq_within s (some y)
          (hq t (by rwa [(occurrences_idled _).1] at ht)), (trace_within _ _).1, (trace_idled _ y).1,
          Trace.part_part]
        rfl
      · intro x hx
        rw [trace_congr.2 _ fun t ht => db.view_eq_within s (some y)
          (hx t (by rwa [(occurrences_idled _).2] at ht)), (trace_within _ _).2, (trace_idled _ y).2,
          Trace.part_part]
        rfl

/-- The trace over the tables up to the marks. -/
theorem trace_upTo (db : Catalog) (s : Marks) :
    (∀ q : Query, (∀ t ∈ q.occurrences, t.isDual = false) →
      q.trace (db.view s none) = (q.trace db.source).part s.upTo) ∧
      ∀ x : FromItem, (∀ t ∈ x.occurrences, t.isDual = false) →
        x.trace (db.view s none) = (x.trace db.source).part s.upTo := by
  constructor
  · intro q hq
    rw [trace_congr.1 q fun t ht => db.view_eq_within s none (hq t ht), (trace_within _ _).1]
    rfl
  · intro x hx
    rw [trace_congr.2 x fun t ht => db.view_eq_within s none (hx t ht), (trace_within _ _).2]
    rfl

theorem isPlain_emptied (q : Query) : q.emptied.isPlain = q.isPlain := by
  refine (Query.induct (P := fun q => q.emptied.isPlain = q.isPlain) (S := fun _ => True)
    (fun _ _ _ _ => rfl) ?_ ?_ (fun _ _ => trivial) (fun _ _ _ => trivial) (fun _ _ => trivial)
    (fun _ _ _ _ _ _ => trivial)).1 q
  · intro l r all t hl hr
    rw [Query.emptied, Query.isPlain, Query.isPlain, hl, hr]
  · intro q hq
    rw [Query.emptied, Query.isPlain, Query.isPlain, hq]

/-- Emptying idle branches leaves a plain query plain. -/
theorem isPlain_idled (a : Option Advance) :
    (∀ q : Query, (q.idled a).isPlain = q.isPlain) ∧ ∀ x : FromItem, (x.idled a).isPlain = x.isPlain := by
  have hlist : ∀ xs : List FromItem, (∀ x ∈ xs, (x.idled a).isPlain = x.isPlain) →
      FromItem.isPlainList (FromItem.idledList a xs) = FromItem.isPlainList xs := by
    intro xs ih
    induction xs with
    | nil => rw [FromItem.idledList]
    | cons x xs hxs =>
        rw [FromItem.idledList, FromItem.isPlainList, FromItem.isPlainList, ih x (by simp),
          hxs fun y hy => ih y (by simp [hy])]
  refine Query.induct ?_ ?_ ?_ ?_ ?_ ?_ ?_
  · intro source c t ih
    rw [Query.idled, Query.isPlain, Query.isPlain, hlist source ih]
  · intro l r all t hl hr
    have hbranch : ∀ (idle : Bool) (branch : Query),
        (if idle then branch.emptied else branch).isPlain = branch.isPlain := by
      intro idle branch
      cases idle with
      | true => exact isPlain_emptied branch
      | false => rfl
    rw [Query.idled, Query.isPlain, Query.isPlain, hbranch, hbranch, hl, hr]
  · intro q hq
    rw [Query.idled, Query.isPlain, Query.isPlain, hq]
  · intro name al
    rw [FromItem.idled]
  · intro q al hq
    rw [FromItem.idled, FromItem.isPlain, FromItem.isPlain, hq]
  · intro xs ih
    rw [FromItem.idled, FromItem.isPlain, FromItem.isPlain, hlist xs ih]
  · intro k l r on hl hr
    rw [FromItem.idled, FromItem.isPlain, FromItem.isPlain, hl, hr]

/-- The result of a delivery has the rows that it sees. -/
theorem runOn_seen (db : Catalog) (d : Delivery) :
    (∀ q : Query, q.isPlain = true → (∀ t ∈ q.occurrences, t.isDual = false) → ∀ r,
      (q.idled d.advance).runOn (db.view d.marks d.advance) = .ok r →
      r.Like ((q.trace db.source).part d.sees).relation) ∧
      ∀ x : FromItem, x.isPlain = true → (∀ t ∈ x.occurrences, t.isDual = false) → ∀ r,
        (x.idled d.advance).runOn (db.view d.marks d.advance) = .ok r →
        r.Like ((x.trace db.source).part d.sees).relation := by
  constructor
  · intro q hp hq r h
    rw [← (trace_seen db d).1 q hq]
    exact (runOn_trace _).1 _ (by rwa [(isPlain_idled _).1])
      (fun t ht => hq t (by rwa [(occurrences_idled _).1] at ht)) r h
  · intro x hp hx r h
    rw [← (trace_seen db d).2 x hx]
    exact (runOn_trace _).2 _ (by rwa [(isPlain_idled _).2])
      (fun t ht => hx t (by rwa [(occurrences_idled _).2] at ht)) r h

/-- The result up to the marks has the rows up to the marks. -/
theorem runOn_upTo (db : Catalog) (s : Marks) :
    (∀ q : Query, q.isPlain = true → (∀ t ∈ q.occurrences, t.isDual = false) → ∀ r,
      q.runOn (db.view s none) = .ok r → r.Like ((q.trace db.source).part s.upTo).relation) ∧
      ∀ x : FromItem, x.isPlain = true → (∀ t ∈ x.occurrences, t.isDual = false) → ∀ r,
        x.runOn (db.view s none) = .ok r → r.Like ((x.trace db.source).part s.upTo).relation := by
  constructor
  · intro q hp hq r h
    rw [← (trace_upTo db s).1 q hq]
    exact (runOn_trace _).1 q hp hq r h
  · intro x hp hx r h
    rw [← (trace_upTo db s).2 x hx]
    exact (runOn_trace _).2 x hp hx r h

end Sql

/-! ## What can be evaluated -/

namespace Relation

theorem Like.symm {r s : Relation} (h : r.Like s) : s.Like r := ⟨h.columns.symm, h.rows.symm⟩

/-- What a SELECT evaluates on a source row. -/
structure Evaluates (c : Clauses) (t : Tail) (columns : List Binding) (row : Row) : Prop where
  condition : Succeeds (holdsIn c.condition (.ofRow columns row))
  output : holdsIn c.condition (.ofRow columns row) = .ok true → ∀ output,
    outputColumns c.projection columns = .ok output →
      Succeeds (outputRow c t output (.ofRow columns row))

/-- A SELECT without groups gives a result when its columns and each of its rows do. -/
theorem select_succeeds_iff {c : Clauses} {t : Tail} (hg : isGrouped c t = false) {source : Relation} :
    Succeeds (select c t source) ↔ Succeeds (outputColumns c.projection source.columns) ∧
      ∀ row ∈ source.rows, Evaluates c t source.columns row := by
  rw [select_eq]
  have hkeyed : ∀ output kept, keyedRows c t output kept =
      collect (fun row => outputRow c t output (.ofRow kept.columns row)) kept.rows := by
    intro output kept
    rw [keyedRows, hg]
    rfl
  constructor
  · rintro ⟨r, h⟩
    obtain ⟨kept, hk, h⟩ := bind_eq_ok.mp h
    obtain ⟨hs, rfl⟩ := filtered_eq_ok_iff.mp hk
    obtain ⟨output, ho, h⟩ := bind_eq_ok.mp h
    obtain ⟨rows, hr, -⟩ := bind_eq_ok.mp h
    rw [hkeyed] at hr
    refine ⟨⟨output, ho⟩, fun row hrow => ⟨hs row hrow, fun hpass output' ho' => ?_⟩⟩
    have heq : output = output' := Except.ok.inj (ho.symm.trans ho')
    refine heq ▸ succeeds_of_collect hr (List.mem_filter.mpr ⟨hrow, ?_⟩)
    exact passes_of_ok hpass
  · rintro ⟨⟨output, ho⟩, hrows⟩
    have hk : filtered c.condition source = .ok (kept c.condition source) :=
      filtered_eq_ok_iff.mpr ⟨fun row hrow => (hrows row hrow).condition, rfl⟩
    have hkept : Succeeds (collect (fun row => outputRow c t output (.ofRow source.columns row))
        (kept c.condition source).rows) := by
      refine collect_succeeds fun row hrow => ?_
      obtain ⟨hm, hp⟩ := List.mem_filter.mp hrow
      exact (hrows row hm).output (eq_ok_of_passes hp) output ho
    obtain ⟨rows, hr⟩ := hkept
    have hr' : collect (fun row => outputRow c t output (.ofRow (kept c.condition source).columns row))
      (kept c.condition source).rows = .ok rows := hr
    have ho' : outputColumns c.projection (kept c.condition source).columns = .ok output := ho
    rw [hk, ok_bind, selectKept, ho', ok_bind, hkeyed, hr']
    exact ⟨_, rfl⟩

/-- What a union evaluates on a row of a branch. -/
def UnionEvaluates (t : Tail) (columns : List Binding) (row : Row) : Prop :=
  Succeeds (collect (unionKeyValue columns row) t.orderBy)

/-- A union gives a result when its branches are equally wide and each of its rows gives its keys. -/
theorem union_succeeds_iff {t : Tail} {a b : Relation} :
    Succeeds (union true t a b) ↔ a.columns.length = b.columns.length ∧
      ∀ row ∈ (a.append b).rows, UnionEvaluates t (a.append b).columns row := by
  rw [union]
  by_cases hw : a.columns.length = b.columns.length
  · rw [if_neg (not_not_intro hw)]
    constructor
    · rintro ⟨r, h⟩
      obtain ⟨rows, hr, -⟩ := bind_eq_ok.mp h
      refine ⟨hw, fun row hrow => ?_⟩
      obtain ⟨x, hx⟩ := succeeds_of_collect hr hrow
      obtain ⟨keys, hk, -⟩ := bind_eq_ok.mp hx
      exact ⟨keys, hk⟩
    · rintro ⟨-, hrows⟩
      have hkeyed : Succeeds (collect (fun row => do
          let keys ← collect (unionKeyValue (a.append b).columns row) t.orderBy
          return (⟨row, keys⟩ : KeyedRow)) (a.append b).rows) := by
        refine collect_succeeds fun row hrow => ?_
        obtain ⟨keys, hk⟩ := hrows row hrow
        exact ⟨⟨row, keys⟩, by rw [hk]; rfl⟩
      obtain ⟨rows, hr⟩ := hkeyed
      exact ⟨_, bind_eq_ok.mpr ⟨rows, hr, rfl⟩⟩
  · rw [if_pos hw]
    constructor
    · rintro ⟨r, h⟩
      cases h
    · exact fun h => absurd h.1 hw

end Relation

/-- What is evaluated on every row that some delivery sees is evaluated on the rows up to the marks,
if each of these is seen. -/
theorem evaluated_upTo {a : Trace} {s : Marks} {r : Relation} {P : List Binding → Row → Prop}
    (hr : r.Like (a.part s.upTo).relation)
    (h : ∀ z ∈ (a.part s.upTo).rows, ∃ d : Delivery, d.sees z = true ∧
      ∃ r' : Relation, r'.Like (a.part d.sees).relation ∧ ∀ row ∈ r'.rows, P r'.columns row) :
    ∀ row ∈ r.rows, P r.columns row := by
  intro row hrow
  obtain ⟨z, hz, rfl⟩ := List.mem_map.mp (hr.rows.mem_iff.mp hrow)
  obtain ⟨d, hd, r', hr', hall⟩ := h z hz
  rw [hr.columns]
  have hmem : z.row ∈ r'.rows := by
    refine hr'.rows.mem_iff.mpr (List.mem_map_of_mem (List.mem_filter.mpr ⟨?_, hd⟩))
    exact (List.mem_filter.mp hz).1
  have hcolumns : r'.columns = (a.part s.upTo).relation.columns := hr'.columns
  rw [← hcolumns]
  exact hall z.row hmem

end Rowtime
