import Rowtime.Proofs.ReadExpr
import Rowtime.Proofs.Sources
import Rowtime.Sql.Parser.Statement

/-!
# Queries that are read from their text

A query is legible when its expressions are, when its lists have an element, and
when its text says how it is put together: an operand of a union has no closing
clauses of its own and the right one is no union, the right side of a join is no
join, a cross join has no condition, and a subquery without a name does not stand
alone in parentheses.

Every part of a query is followed by the end, by a closing parenthesis, by a comma
or by one of a few words, all of them reserved (`Fence`). Which words those are
depends on the place, and each of them ends what stands in front of it.
-/
namespace Rowtime.Sql

open Text

/-- What is read from the text of an item. -/
def SelectItem.reread : SelectItem → SelectItem
  | .expr e n => .expr e.reread n
  | x => x

/-- What is read from the text of a sort key. -/
def SortKey.reread (k : SortKey) : SortKey := { k with expr := k.expr.reread }

/-- What is read from the text of a tail. -/
def Tail.reread (t : Tail) : Tail := { t with orderBy := t.orderBy.map SortKey.reread }

/-- What is read from the text of clauses. -/
def Clauses.reread (c : Clauses) : Clauses :=
  { c with
    projection := c.projection.map SelectItem.reread, condition := c.condition.map Expr.reread,
    groupBy := c.groupBy.map Expr.reread, having := c.having.map Expr.reread }

/-- The item has a text from which it is read. -/
def SelectItem.Legible : SelectItem → Prop
  | .expr e _ => e.Legible
  | _ => True

/-- The tail has a text from which it is read. -/
def Tail.Legible (t : Tail) : Prop := ∀ k ∈ t.orderBy, k.expr.Legible

/-- The clauses have a text from which they are read. -/
structure Clauses.Legible (c : Clauses) : Prop where
  items : c.projection ≠ []
  projection : ∀ x ∈ c.projection, x.Legible
  condition : ∀ e ∈ c.condition, e.Legible
  groupBy : ∀ e ∈ c.groupBy, e.Legible
  having : ∀ e ∈ c.having, e.Legible

/-- A subquery without a name, by itself. -/
def loneSubquery : List FromItem → Bool
  | [.subquery _ none] => true
  | _ => false

mutual

/-- The query has a text from which it is read. -/
def Query.Legible : Query → Prop
  | .select source c t => FromItem.LegibleList source ∧ c.Legible ∧ t.Legible
  | .union l r _ t => (l.Legible ∧ l.hasTail = false) ∧
      (r.Legible ∧ r.hasTail = false ∧ r.isUnion = false) ∧ t.Legible
  | .paren q => q.Legible

/-- The source item has a text from which it is read. -/
def FromItem.Legible : FromItem → Prop
  | .table _ _ => True
  | .subquery q _ => q.Legible
  | .paren items => items ≠ [] ∧ loneSubquery items = false ∧ FromItem.LegibleList items
  | .join k l r on => l.Legible ∧ (r.Legible ∧ r.isJoin = false) ∧ (k = .cross → on = none) ∧
      ∀ e ∈ on, e.Legible

/-- The source items have such a text. -/
def FromItem.LegibleList : List FromItem → Prop
  | [] => True
  | x :: r => x.Legible ∧ FromItem.LegibleList r

end

mutual

/-- What is read from the text of a query. -/
def Query.reread : Query → Query
  | .select source c t => .select (FromItem.rereadList source) c.reread t.reread
  | .union l r all t => .union l.reread r.reread all t.reread
  | .paren q => .paren q.reread

/-- What is read from the text of a source item. -/
def FromItem.reread : FromItem → FromItem
  | .table name a => .table name a
  | .subquery q a => .subquery q.reread a
  | .paren items => .paren (FromItem.rereadList items)
  | .join k l r on => .join k l.reread r.reread (on.map Expr.reread)

/-- What is read from the texts of source items. -/
def FromItem.rereadList : List FromItem → List FromItem
  | [] => []
  | x :: r => x.reread :: FromItem.rereadList r

end

theorem FromItem.legibleList_iff {xs : List FromItem} :
    FromItem.LegibleList xs ↔ ∀ x ∈ xs, x.Legible := by
  induction xs with
  | nil => simp [FromItem.LegibleList]
  | cons x xs ih => simp [FromItem.LegibleList, ih]

theorem FromItem.rereadList_eq (xs : List FromItem) :
    FromItem.rereadList xs = xs.map FromItem.reread := by
  induction xs with
  | nil => rfl
  | cons x xs ih => rw [FromItem.rereadList, ih, List.map_cons]

theorem FromItem.charsList_eq (xs : List FromItem) :
    FromItem.charsList xs = xs.map FromItem.chars := by
  induction xs with
  | nil => rfl
  | cons x xs ih => rw [FromItem.charsList, ih, List.map_cons]

namespace Parser

/-- The words that may stand behind a part of a query. -/
def fenceWords : List String :=
  ["AS", "DESC", "FROM", "WHERE", "GROUP", "HAVING", "ORDER", "LIMIT", "OFFSET", "UNION", "ON", "JOIN",
   "LEFT", "RIGHT", "CROSS"]

/-- The words of closing clauses. -/
def tailWords : List String := ["ORDER", "LIMIT", "OFFSET"]

/-- The words behind a query that may still have closing clauses. -/
def openWords : List String := "UNION" :: tailWords

/-- The words behind the source of a SELECT. -/
def clauseWords : List String := "WHERE" :: "GROUP" :: "HAVING" :: openWords

/-- The words of joins. -/
def joinWords : List String := ["JOIN", "LEFT", "RIGHT", "CROSS"]

/-- Those words are reserved bare words. -/
theorem fenceWord_spec {w : String} (h : w ∈ fenceWords) :
    ∃ c r, w.toList = c :: r ∧ isIdentStart c = true ∧ r.all isIdentChar = true ∧
      isReserved w = true := by
  have hall : ∀ w ∈ fenceWords, (w.toList.head?.any isIdentStart && w.toList.tail.all isIdentChar &&
      isReserved w) = true := by decide
  have hw := hall w h
  cases hl : w.toList with
  | nil =>
      rw [hl] at hw
      cases hw
  | cons c r =>
      rw [hl] at hw
      simp only [Bool.and_eq_true] at hw
      exact ⟨c, r, rfl, hw.1.1, hw.1.2, hw.2⟩

theorem fenceWord_all {w : String} (h : w ∈ fenceWords) :
    w.toList.all isIdentChar = true ∧ w.toList ≠ [] ∧ Solid w.toList := by
  obtain ⟨c, r, hl, hc, hr, -⟩ := fenceWord_spec h
  have hspec := isIdentStart_spec hc
  refine ⟨?_, ?_, c, r, hl, hspec.2.1⟩
  · rw [hl, List.all_cons, hspec.1, hr]
    rfl
  · rw [hl]
    exact List.cons_ne_nil c r

/-- A text that begins with the end, a closing parenthesis, a comma or one of some words. -/
inductive Fence (ws : List String) : List Char → Prop where
  | nil : Fence ws []
  | close (r : List Char) : Fence ws (')' :: r)
  | comma (r : List Char) : Fence ws (',' :: r)
  | word {w : String} (h : w ∈ ws) (k : w ∈ fenceWords) {r : List Char} (hr : identFollows r = false) :
      Fence ws (' ' :: (w.toList ++ r))

theorem Fence.mono {ws vs : List String} (h : ∀ w ∈ ws, w ∈ vs) {s : List Char} (hs : Fence ws s) :
    Fence vs s := by
  cases hs with
  | nil => exact .nil
  | close r => exact .close r
  | comma r => exact .comma r
  | word hw k hr => exact .word (h _ hw) k hr

/-- Every fence ends an expression. -/
theorem Fence.isClear {ws : List String} {s : List Char} (h : Fence ws s) : clear 1 s = true := by
  cases h with
  | nil => rfl
  | close r => rfl
  | comma r => rfl
  | word _ k _ =>
      simp only [fenceWords, List.mem_cons, List.not_mem_nil, or_false] at k
      rcases k with rfl | rfl | rfl | rfl | rfl | rfl | rfl | rfl | rfl | rfl | rfl | rfl | rfl | rfl |
        rfl <;> rfl

theorem Fence.endsName {ws : List String} {s : List Char} (h : Fence ws s) : nameEnds s = true :=
  nameEnds_of_touches (clear_touches h.isClear).1

/-- A word other than those of a fence does not come next. -/
theorem Fence.noOther {ws : List String} {s : List Char} (h : Fence ws s) {v : String}
    (hall : v.toList.all isIdentChar = true) (hne : v.toList ≠ [])
    (hd : ∀ w ∈ fenceWords, w ∈ ws → v.toList.map asciiLower ≠ w.toList.map asciiLower) :
    wordNext v s = false := by
  cases h with
  | nil =>
      unfold wordNext
      cases hl : v.toList with
      | nil => exact absurd hl hne
      | cons c r => rfl
  | close r => exact wordNext_of_head hne hall (by decide) (by decide)
  | comma r => exact wordNext_of_head hne hall (by decide) (by decide)
  | word hw k hr =>
      exact wordNext_of_word hall (fenceWord_all k).1 (fenceWord_all k).2.2 hr (hd _ k hw)

/-- Only the words of a fence come next. -/
theorem Fence.noWord {ws : List String} {s : List Char} (h : Fence ws s) {v : String}
    (hv : v ∈ fenceWords) (hn : v ∉ ws) : wordNext v s = false := by
  have hdiff : ∀ v ∈ fenceWords, ∀ w ∈ fenceWords, v ≠ w →
      v.toList.map asciiLower ≠ w.toList.map asciiLower := by decide
  refine h.noOther (fenceWord_all hv).1 (fenceWord_all hv).2.1 fun w hw hws => hdiff v hv w hw ?_
  rintro rfl
  exact hn hws

theorem Fence.skip_word {w : String} (k : w ∈ fenceWords) (r : List Char) :
    skip (' ' :: (w.toList ++ r)) = w.toList ++ r :=
  (rfl : skip (' ' :: _) = skip _).trans ((fenceWord_all k).2.2.skip r)

/-- No name stands behind a fence. -/
theorem Fence.noName {ws : List String} {s : List Char} (h : Fence ws s) :
    Refuses identifier (skip s) := by
  cases h with
  | nil => exact identifier_refuses_nil
  | close r => exact identifier_refuses_head (by decide) (by decide)
  | comma r => exact identifier_refuses_head (by decide) (by decide)
  | word _ k hr =>
      obtain ⟨c, r, hl, hc, ht, hres⟩ := fenceWord_spec k
      rw [Fence.skip_word k]
      exact identifier_refuses_word hres hl hc ht hr

end Parser

end Rowtime.Sql
