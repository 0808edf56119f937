import Rowtime.Proofs.Expressions
import Rowtime.Proofs.PlainCalls

/-!
# The text of a query within bounds

A follower hands its queries over as texts. The bounds that it puts in are legible
and read as they are, so a query that is read from its own text is still so within
bounds. What the engine runs is then the query within bounds itself.
-/
namespace Rowtime

open Sql

namespace Sql

/-- The expression is read from its text as it is. -/
def Expr.Stable (e : Expr) : Prop := e.Legible ∧ e.reread = e

/-- The query is read from its text as it is. -/
def Query.Stable (q : Query) : Prop := q.Legible ∧ q.reread = q

/-- The text of the query is read as the query. -/
def Query.ReadsItself (q : Query) : Prop := parseStatement q.display = .ok (.query q)

theorem Query.ReadsItself.stable {q : Query} (h : q.ReadsItself) : q.Stable := Query.reads_itself h

/-- Clauses that do nothing but project columns. -/
def Clauses.ofColumns (cs : List ColumnRef) : Clauses :=
  ⟨false, cs.map fun c => .expr (.column c) none, none, [], none⟩

/-- A query that does nothing but project columns is read from its text if its source is. -/
theorem Query.readsItself_ofColumns {source : List FromItem} {cs : List ColumnRef} (hc : cs ≠ [])
    (hl : FromItem.LegibleList source) (hr : FromItem.rereadList source = source) :
    (Query.select source (.ofColumns cs) .empty).ReadsItself := by
  have hclauses : (Clauses.ofColumns cs).Legible := by
    refine ⟨by simpa [Clauses.ofColumns] using hc, fun x hx => ?_, by simp [Clauses.ofColumns],
      by simp [Clauses.ofColumns], by simp [Clauses.ofColumns]⟩
    obtain ⟨c, -, rfl⟩ := List.mem_map.mp hx
    exact trivial
  have hreread : (Clauses.ofColumns cs).reread = Clauses.ofColumns cs := by
    simp [Clauses.reread, Clauses.ofColumns, SelectItem.reread, Expr.reread]
  have hparse := parseStatement_display (q := .select source (.ofColumns cs) .empty)
    ⟨hl, hclauses, fun k hk => absurd hk List.not_mem_nil⟩
  rw [Query.reread, hr, hreread] at hparse
  exact hparse

/-- The source item is read from its text as it is. -/
def FromItem.Stable (x : FromItem) : Prop := x.Legible ∧ x.reread = x

/-- `SELECT t.v, s.v FROM t LEFT JOIN side ON t.v = s.v`, or with another comparison. -/
def Query.outerJoined (side : FromItem) (op : BinaryOp) : Query :=
  .select [.join .left (.table "t" none) side
      (some (.binary op (.column ⟨some "t", "v"⟩) (.column ⟨some "s", "v"⟩)))]
    (.ofColumns [⟨some "t", "v"⟩, ⟨some "s", "v"⟩]) .empty

theorem Query.outerJoined_readsItself {side : FromItem} (hs : side.Stable) (hj : side.isJoin = false)
    {op : BinaryOp} (hop : op = .eq ∨ op = .lt) : (Query.outerJoined side op).ReadsItself := by
  apply Query.readsItself_ofColumns (by simp)
  · refine ⟨⟨trivial, ⟨hs.1, hj⟩, fun h => (by cases h), ?_⟩, trivial⟩
    rintro e ⟨⟩
    exact ⟨trivial, trivial⟩
  · rcases hop with rfl | rfl <;> simp only [FromItem.rereadList, FromItem.reread, hs.2] <;> rfl

theorem Expr.Stable.and {l r : Expr} (hl : l.Stable) (hr : r.Stable) : (l.and r).Stable := by
  refine ⟨⟨hl.1, hr.1⟩, ?_⟩
  rw [Expr.and, Expr.reread, hl.2, hr.2]

theorem Expr.stable_false : (Expr.literal (.boolean false)).Stable := ⟨trivial, rfl⟩

/-- A query is read from its text as it is when its shape is seen from its text and its expressions
are read as they are. -/
theorem Query.stable_iff {q : Query} :
    q.Stable ↔ q.shaped = true ∧ ∀ e ∈ q.exprs, e.Stable := by
  rw [Query.Stable, Query.legible_iff, Query.reread_eq_self_iff, and_assoc]
  exact and_congr_right fun _ => ⟨fun h e he => ⟨h.1 e he, h.2 e he⟩,
    fun h => ⟨fun e he => (h e he).1, fun e he => (h e he).2⟩⟩

end Sql

/-- Every mark has a text from which it is read. -/
def Marks.Legible (s : Marks) : Prop := ∀ e ∈ s.entries, LegibleLiteral (.integer e.2)

theorem TableRef.stable_bound (t : TableRef) (op : BinaryOp) {mark : Int64}
    (h : LegibleLiteral (.integer mark)) : (t.bound op mark).Stable :=
  ⟨⟨trivial, h⟩, rfl⟩

theorem Marks.bounding_stable {s : Marks} (hs : s.Legible) {a : Option Advance}
    (ha : ∀ y ∈ a, LegibleLiteral (.integer y.former)) : Bounding Expr.Stable s a where
  and _ _ hl hr := hl.and hr
  false := Expr.stable_false
  lower y hy := TableRef.stable_bound _ _ (ha y hy)
  upper e he := TableRef.stable_bound _ _ (hs e he)

namespace Sql

/-- The text of a query within bounds is read as the query within bounds. -/
theorem Query.Stable.parse_bounded {q : Query} (h : q.Stable) {s : Marks} (hs : s.Legible)
    {a : Option Advance} (ha : ∀ y ∈ a, LegibleLiteral (.integer y.former)) :
    parseStatement (q.bounded s a).display = .ok (.query (q.bounded s a)) := by
  have hstable : (q.bounded s a).Stable := by
    rw [Query.stable_iff] at h ⊢
    rw [(shaped_bounded s a).1 q]
    exact ⟨h.1, (Marks.bounding_stable hs ha).forall_bounded.1 q h.2⟩
  rw [parseStatement_display hstable.1, hstable.2]

end Sql

end Rowtime
