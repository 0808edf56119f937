import Rowtime.Proofs.Bounded
import Rowtime.Proofs.LegibleQuery

/-!
# The expressions of a query

What is said of a query is often said of its expressions, one by one: that they are
legible, that their text is read as they are, that they pass some test. `Query.exprs`
lists them, and `Query.mapExprs` puts others in their places. What is left is how the
query is put together, and that is a matter of its shape alone (`Query.shaped`). So a
query is legible when it is shaped and its expressions are legible, and what is read
from its text is the query with what is read from the texts of its expressions.

Bounds change neither the shape nor any expression but the conditions, which they
only extend.
-/
namespace Rowtime

open Sql

namespace Sql

/-! ## Tests of every part -/

namespace Expr

mutual

/-- Whether an expression and all expressions in it pass a test. -/
def every (p : Expr → Bool) : Expr → Bool
  | .column c => p (.column c)
  | .literal v => p (.literal v)
  | .unary op e => p (.unary op e) && e.every p
  | .binary op l r => p (.binary op l r) && (l.every p && r.every p)
  | .isNull n e => p (.isNull n e) && e.every p
  | .between n e l h => p (.between n e l h) && (e.every p && l.every p && h.every p)
  | .inList n e items => p (.inList n e items) && (e.every p && everyList p items)
  | .like n e x => p (.like n e x) && (e.every p && x.every p)
  | .call name args => p (.call name args) && everyList p args
  | .aggregate f d e => p (.aggregate f d e) && e.every p
  | .aggregateAll f d => p (.aggregateAll f d)

/-- Whether all expressions of a list and all in them pass a test. -/
def everyList (p : Expr → Bool) : List Expr → Bool
  | [] => true
  | e :: r => e.every p && everyList p r

end

variable {p : Expr → Bool}

theorem everyList_iff {es : List Expr} : everyList p es = true ↔ ∀ e ∈ es, e.every p = true := by
  induction es with
  | nil => simp [everyList]
  | cons e es ih => simp [everyList, ih]

/-- Induction over an expression whose parts all pass a test. -/
theorem every_induct {P : Expr → Prop}
    (column : ∀ c, p (.column c) = true → P (.column c))
    (literal : ∀ v, p (.literal v) = true → P (.literal v))
    (unary : ∀ op e, p (.unary op e) = true → P e → P (.unary op e))
    (binary : ∀ op l r, p (.binary op l r) = true → P l → P r → P (.binary op l r))
    (isNull : ∀ n e, p (.isNull n e) = true → P e → P (.isNull n e))
    (between : ∀ n e l h, p (.between n e l h) = true → P e → P l → P h → P (.between n e l h))
    (inList : ∀ n e items, p (.inList n e items) = true → P e → (∀ x ∈ items, P x) →
      P (.inList n e items))
    (like : ∀ n e x, p (.like n e x) = true → P e → P x → P (.like n e x))
    (call : ∀ name args, p (.call name args) = true → (∀ x ∈ args, P x) → P (.call name args))
    (aggregate : ∀ f d e, p (.aggregate f d e) = true → P e → P (.aggregate f d e))
    (aggregateAll : ∀ f d, p (.aggregateAll f d) = true → P (.aggregateAll f d))
    {e : Expr} (he : e.every p = true) : P e := by
  induction e using Expr.induct with
  | column c => exact column c he
  | literal v => exact literal v he
  | unary op e ih =>
      rw [every, Bool.and_eq_true] at he
      exact unary op e he.1 (ih he.2)
  | binary op l r hl hr =>
      rw [every, Bool.and_eq_true, Bool.and_eq_true] at he
      exact binary op l r he.1 (hl he.2.1) (hr he.2.2)
  | isNull n e ih =>
      rw [every, Bool.and_eq_true] at he
      exact isNull n e he.1 (ih he.2)
  | between n e l h ihe ihl ihh =>
      rw [every, Bool.and_eq_true, Bool.and_eq_true, Bool.and_eq_true] at he
      exact between n e l h he.1 (ihe he.2.1.1) (ihl he.2.1.2) (ihh he.2.2)
  | inList n e items ih hitems =>
      rw [every, Bool.and_eq_true, Bool.and_eq_true, everyList_iff] at he
      exact inList n e items he.1 (ih he.2.1) fun x hx => hitems x hx (he.2.2 x hx)
  | like n e x ihe ihx =>
      rw [every, Bool.and_eq_true, Bool.and_eq_true] at he
      exact like n e x he.1 (ihe he.2.1) (ihx he.2.2)
  | call name args hargs =>
      rw [every, Bool.and_eq_true, everyList_iff] at he
      exact call name args he.1 fun x hx => hargs x hx (he.2 x hx)
  | aggregate f d e ih =>
      rw [every, Bool.and_eq_true] at he
      exact aggregate f d e he.1 (ih he.2)
  | aggregateAll f d => exact aggregateAll f d he

/-- Whether the expression is a number without a sign. -/
def isUnsignedNumber : Expr → Bool
  | .literal v => isUnsigned v
  | _ => false

/-- Whether this is no minus sign directly in front of a number without one. -/
def signApart : Expr → Bool
  | .unary .minus e => !e.isUnsignedNumber
  | _ => true

theorem minus_of_apart {r e : Expr} (h : e.isUnsignedNumber = false) :
    minus r e = .unary .minus r := by
  cases e with
  | literal v =>
      rw [isUnsignedNumber] at h
      rw [minus, h]
      rfl
  | _ => rfl

theorem minus_of_unsigned {r e : Expr} (h : e.isUnsignedNumber = true) :
    minus r e ≠ .unary .minus e := by
  cases e with
  | literal v =>
      rw [isUnsignedNumber] at h
      rw [minus, if_pos h]
      exact Expr.noConfusion
  | _ => cases h

/-- An expression is read from its text as it is where no sign meets a number, and nowhere else. -/
theorem reread_eq_self_iff {e : Expr} : e.reread = e ↔ e.every signApart = true := by
  have hlist : ∀ es : List Expr, (∀ x ∈ es, x.reread = x ↔ x.every signApart = true) →
      (rereadList es = es ↔ everyList signApart es = true) := by
    intro es ih
    have hmap := List.map_eq_map_iff (f := reread) (g := id) (l := es)
    rw [List.map_id] at hmap
    rw [rereadList_eq, everyList_iff]
    exact hmap.trans (forall₂_congr ih)
  induction e using Expr.induct with
  | column c => exact ⟨fun _ => rfl, fun _ => rfl⟩
  | literal v => exact ⟨fun _ => rfl, fun _ => rfl⟩
  | unary op e ih =>
      cases op with
      | not => simp [reread, every, signApart, ih]
      | minus =>
          cases hu : e.isUnsignedNumber with
          | false => simp [reread, minus_of_apart hu, every, signApart, hu, ih]
          | true => simp [reread, minus_of_unsigned hu, every, signApart, hu]
  | binary op l r hl hr => simp [reread, every, signApart, hl, hr]
  | isNull n e ih => simp [reread, every, signApart, ih]
  | between n e l u he hl hu => simp [reread, every, signApart, he, hl, hu, and_assoc]
  | inList n e items ih hitems => simp [reread, every, signApart, ih, hlist items hitems]
  | like n e x ih hx => simp [reread, every, signApart, ih, hx]
  | call name args hargs => simp [reread, every, signApart, hlist args hargs]
  | aggregate f d e ih => simp [reread, every, signApart, ih]
  | aggregateAll f d => exact ⟨fun _ => rfl, fun _ => rfl⟩

end Expr

/-! ## The expressions and the shape -/

/-- The expressions of an item. -/
def SelectItem.exprs : SelectItem → List Expr
  | .expr e _ => [e]
  | _ => []

/-- The expressions of closing clauses. -/
def Tail.exprs (t : Tail) : List Expr := t.orderBy.map (·.expr)

/-- The expressions of clauses. -/
def Clauses.exprs (c : Clauses) : List Expr :=
  c.projection.flatMap SelectItem.exprs ++ c.condition.toList ++ c.groupBy ++ c.having.toList

mutual

/-- The expressions of a query, none of which is inside another. -/
def Query.exprs : Query → List Expr
  | .select source c t => FromItem.exprsList source ++ c.exprs ++ t.exprs
  | .union l r _ t => l.exprs ++ r.exprs ++ t.exprs
  | .paren q => q.exprs

/-- The expressions of a source item. -/
def FromItem.exprs : FromItem → List Expr
  | .table _ _ => []
  | .subquery q _ => q.exprs
  | .paren items => FromItem.exprsList items
  | .join _ l r on => l.exprs ++ r.exprs ++ on.toList

/-- The expressions of source items. -/
def FromItem.exprsList : List FromItem → List Expr
  | [] => []
  | x :: r => x.exprs ++ FromItem.exprsList r

end

mutual

/-- Whether the text of a query says how it is put together. -/
def Query.shaped : Query → Bool
  | .select source c _ => FromItem.shapedList source && !c.projection.isEmpty
  | .union l r _ _ => l.shaped && !l.hasTail && (r.shaped && !r.hasTail && !r.isUnion)
  | .paren q => q.shaped

/-- Whether the text of a source item says how it is put together. -/
def FromItem.shaped : FromItem → Bool
  | .table _ _ => true
  | .subquery q _ => q.shaped
  | .paren items => !items.isEmpty && !loneSubquery items && FromItem.shapedList items
  | .join k l r on => l.shaped && (r.shaped && !r.isJoin) && (k != .cross || on.isNone)

/-- Whether the texts of source items say how they are put together. -/
def FromItem.shapedList : List FromItem → Bool
  | [] => true
  | x :: r => x.shaped && FromItem.shapedList r

end

/-- The item with another expression. -/
def SelectItem.mapExprs (f : Expr → Expr) : SelectItem → SelectItem
  | .expr e n => .expr (f e) n
  | x => x

/-- The sort key with another expression. -/
def SortKey.mapExprs (f : Expr → Expr) (k : SortKey) : SortKey := { k with expr := f k.expr }

/-- The closing clauses with other expressions. -/
def Tail.mapExprs (f : Expr → Expr) (t : Tail) : Tail :=
  { t with orderBy := t.orderBy.map (SortKey.mapExprs f) }

/-- The clauses with other expressions. -/
def Clauses.mapExprs (f : Expr → Expr) (c : Clauses) : Clauses :=
  { c with
    projection := c.projection.map (SelectItem.mapExprs f), condition := c.condition.map f,
    groupBy := c.groupBy.map f, having := c.having.map f }

mutual

/-- The query with other expressions. -/
def Query.mapExprs (f : Expr → Expr) : Query → Query
  | .select source c t => .select (FromItem.mapExprsList f source) (c.mapExprs f) (t.mapExprs f)
  | .union l r all t => .union (l.mapExprs f) (r.mapExprs f) all (t.mapExprs f)
  | .paren q => .paren (q.mapExprs f)

/-- The source item with other expressions. -/
def FromItem.mapExprs (f : Expr → Expr) : FromItem → FromItem
  | .table name a => .table name a
  | .subquery q a => .subquery (q.mapExprs f) a
  | .paren items => .paren (FromItem.mapExprsList f items)
  | .join k l r on => .join k (l.mapExprs f) (r.mapExprs f) (on.map f)

/-- The source items with other expressions. -/
def FromItem.mapExprsList (f : Expr → Expr) : List FromItem → List FromItem
  | [] => []
  | x :: r => x.mapExprs f :: FromItem.mapExprsList f r

end

theorem FromItem.exprsList_eq (xs : List FromItem) :
    FromItem.exprsList xs = xs.flatMap FromItem.exprs := by
  induction xs with
  | nil => rfl
  | cons x xs ih => rw [FromItem.exprsList, ih, List.flatMap_cons]

theorem FromItem.shapedList_iff {xs : List FromItem} :
    FromItem.shapedList xs = true ↔ ∀ x ∈ xs, x.shaped = true := by
  induction xs with
  | nil => simp [FromItem.shapedList]
  | cons x xs ih => simp [FromItem.shapedList, ih]

theorem FromItem.mapExprsList_eq (f : Expr → Expr) (xs : List FromItem) :
    FromItem.mapExprsList f xs = xs.map (FromItem.mapExprs f) := by
  induction xs with
  | nil => rfl
  | cons x xs ih => rw [FromItem.mapExprsList, ih, List.map_cons]

theorem Clauses.forall_exprs {P : Expr → Prop} {c : Clauses} :
    (∀ e ∈ c.exprs, P e) ↔ (∀ x ∈ c.projection, ∀ e ∈ x.exprs, P e) ∧ (∀ e ∈ c.condition, P e) ∧
      (∀ e ∈ c.groupBy, P e) ∧ ∀ e ∈ c.having, P e := by
  simp only [Clauses.exprs, List.forall_mem_append, List.forall_mem_flatMap, Option.mem_toList,
    Option.mem_def, and_assoc]

theorem Tail.forall_exprs {P : Expr → Prop} {t : Tail} :
    (∀ e ∈ t.exprs, P e) ↔ ∀ k ∈ t.orderBy, P k.expr := by
  rw [Tail.exprs, List.forall_mem_map]

/-! ## What is read, and from what -/

theorem SelectItem.reread_eq : SelectItem.reread = SelectItem.mapExprs Expr.reread := by
  funext x
  cases x <;> rfl

theorem Clauses.reread_eq (c : Clauses) : c.reread = c.mapExprs Expr.reread := by
  rw [Clauses.reread, Clauses.mapExprs, SelectItem.reread_eq]

theorem reread_eq : (∀ q : Query, q.reread = q.mapExprs Expr.reread) ∧
    ∀ x : FromItem, x.reread = x.mapExprs Expr.reread := by
  have hlist : ∀ xs : List FromItem, (∀ x ∈ xs, x.reread = x.mapExprs Expr.reread) →
      FromItem.rereadList xs = FromItem.mapExprsList Expr.reread xs := by
    intro xs ih
    rw [FromItem.rereadList_eq, FromItem.mapExprsList_eq]
    exact List.map_congr_left ih
  apply Query.induct
  · intro source c t ih
    rw [Query.reread, Query.mapExprs, hlist source ih, Clauses.reread_eq]
    rfl
  · intro l r all t hl hr
    rw [Query.reread, Query.mapExprs, hl, hr]
    rfl
  · intro q hq
    rw [Query.reread, Query.mapExprs, hq]
  · intro name a
    rw [FromItem.reread, FromItem.mapExprs]
  · intro q a hq
    rw [FromItem.reread, FromItem.mapExprs, hq]
  · intro xs ih
    rw [FromItem.reread, FromItem.mapExprs, hlist xs ih]
  · intro k l r on hl hr
    rw [FromItem.reread, FromItem.mapExprs, hl, hr]

theorem Clauses.legible_iff {c : Clauses} :
    c.Legible ↔ c.projection ≠ [] ∧ ∀ e ∈ c.exprs, e.Legible := by
  have hitem : ∀ x : SelectItem, x.Legible ↔ ∀ e ∈ x.exprs, e.Legible := by
    intro x
    cases x <;> simp [SelectItem.Legible, SelectItem.exprs]
  rw [Clauses.forall_exprs]
  constructor
  · intro h
    exact ⟨h.items, fun x hx => (hitem x).mp (h.projection x hx), h.condition, h.groupBy, h.having⟩
  · rintro ⟨hne, hitems, hcondition, hgroup, hhaving⟩
    exact ⟨hne, fun x hx => (hitem x).mpr (hitems x hx), hcondition, hgroup, hhaving⟩

theorem legible_iff : (∀ q : Query, q.Legible ↔ q.shaped = true ∧ ∀ e ∈ q.exprs, e.Legible) ∧
    ∀ x : FromItem, x.Legible ↔ x.shaped = true ∧ ∀ e ∈ x.exprs, e.Legible := by
  have hlist : ∀ xs : List FromItem,
      (∀ x ∈ xs, (x.Legible ↔ x.shaped = true ∧ ∀ e ∈ x.exprs, e.Legible)) →
      (FromItem.LegibleList xs ↔
        FromItem.shapedList xs = true ∧ ∀ e ∈ FromItem.exprsList xs, e.Legible) := by
    intro xs ih
    rw [FromItem.legibleList_iff, FromItem.shapedList_iff, FromItem.exprsList_eq,
      List.forall_mem_flatMap]
    constructor
    · exact fun h => ⟨fun x hx => ((ih x hx).mp (h x hx)).1, fun x hx => ((ih x hx).mp (h x hx)).2⟩
    · exact fun h x hx => (ih x hx).mpr ⟨h.1 x hx, h.2 x hx⟩
  apply Query.induct
  · intro source c t ih
    rw [Query.Legible, Query.shaped, Query.exprs, hlist source ih, Clauses.legible_iff, Tail.Legible,
      ← Tail.forall_exprs]
    simp only [Bool.and_eq_true, Bool.not_eq_true', List.isEmpty_eq_false_iff,
      List.forall_mem_append]
    tauto
  · intro l r all t hl hr
    rw [Query.Legible, Query.shaped, Query.exprs, hl, hr, Tail.Legible, ← Tail.forall_exprs]
    simp only [Bool.and_eq_true, Bool.not_eq_true', List.forall_mem_append]
    tauto
  · intro q hq
    rw [Query.Legible, Query.shaped, Query.exprs, hq]
  · intro name a
    rw [FromItem.Legible, FromItem.shaped, FromItem.exprs]
    simp
  · intro q a hq
    rw [FromItem.Legible, FromItem.shaped, FromItem.exprs, hq]
  · intro xs ih
    rw [FromItem.Legible, FromItem.shaped, FromItem.exprs, hlist xs ih]
    simp only [Bool.and_eq_true, Bool.not_eq_true', List.isEmpty_eq_false_iff, ne_eq, and_assoc]
  · intro k l r on hl hr
    have hcross : (k != .cross || on.isNone) = true ↔ (k = .cross → on = none) := by
      cases k <;> cases on <;> simp
    rw [FromItem.Legible, FromItem.shaped, FromItem.exprs, hl, hr, ← hcross]
    simp only [Bool.and_eq_true, Bool.not_eq_true', List.forall_mem_append, Option.mem_toList]
    tauto

/-- A query is legible when its shape is seen from its text and its expressions are legible. -/
theorem Query.legible_iff {q : Query} :
    q.Legible ↔ q.shaped = true ∧ ∀ e ∈ q.exprs, e.Legible :=
  Sql.legible_iff.1 q

/-! ## Other expressions -/

section
variable {f : Expr → Expr}

theorem map_eq_self {α : Type} {g : α → α} {xs : List α} (h : ∀ x ∈ xs, g x = x) :
    xs.map g = xs :=
  (List.map_congr_left h).trans (List.map_id xs)

theorem optionMap_eq_self {α : Type} {g : α → α} {o : Option α} (h : ∀ x ∈ o, g x = x) :
    o.map g = o := by
  cases o with
  | none => rfl
  | some x => rw [Option.map_some, h x rfl]

theorem Tail.mapExprs_eq_self {t : Tail} (h : ∀ e ∈ t.exprs, f e = e) : t.mapExprs f = t := by
  rw [Tail.forall_exprs] at h
  have hkeys : t.orderBy.map (SortKey.mapExprs f) = t.orderBy := by
    apply map_eq_self
    intro k hk
    rw [SortKey.mapExprs, h k hk]
  rw [Tail.mapExprs, hkeys]

theorem Clauses.mapExprs_eq_self {c : Clauses} (h : ∀ e ∈ c.exprs, f e = e) :
    c.mapExprs f = c := by
  obtain ⟨hitems, hcondition, hgroup, hhaving⟩ := Clauses.forall_exprs.mp h
  have hprojection : c.projection.map (SelectItem.mapExprs f) = c.projection := by
    apply map_eq_self
    intro x hx
    cases x with
    | expr e n => rw [SelectItem.mapExprs, hitems _ hx e (List.mem_singleton.mpr rfl)]
    | _ => rfl
  rw [Clauses.mapExprs, hprojection, optionMap_eq_self hcondition, map_eq_self hgroup,
    optionMap_eq_self hhaving]

theorem mapExprs_eq_self :
    (∀ q : Query, (∀ e ∈ q.exprs, f e = e) → q.mapExprs f = q) ∧
      ∀ x : FromItem, (∀ e ∈ x.exprs, f e = e) → x.mapExprs f = x := by
  have hlist : ∀ xs : List FromItem,
      (∀ x ∈ xs, (∀ e ∈ x.exprs, f e = e) → x.mapExprs f = x) →
      (∀ e ∈ FromItem.exprsList xs, f e = e) → FromItem.mapExprsList f xs = xs := by
    intro xs ih h
    rw [FromItem.exprsList_eq, List.forall_mem_flatMap] at h
    rw [FromItem.mapExprsList_eq]
    exact map_eq_self fun x hx => ih x hx (h x hx)
  apply Query.induct
  · intro source c t ih h
    simp only [Query.exprs, List.forall_mem_append] at h
    rw [Query.mapExprs, hlist source ih h.1.1, Clauses.mapExprs_eq_self h.1.2,
      Tail.mapExprs_eq_self h.2]
  · intro l r all t hl hr h
    simp only [Query.exprs, List.forall_mem_append] at h
    rw [Query.mapExprs, hl h.1.1, hr h.1.2, Tail.mapExprs_eq_self h.2]
  · intro q hq h
    rw [Query.exprs] at h
    rw [Query.mapExprs, hq h]
  · intro name a _
    rw [FromItem.mapExprs]
  · intro q a hq h
    rw [FromItem.exprs] at h
    rw [FromItem.mapExprs, hq h]
  · intro xs ih h
    rw [FromItem.exprs] at h
    rw [FromItem.mapExprs, hlist xs ih h]
  · intro k l r on hl hr h
    simp only [FromItem.exprs, List.forall_mem_append, Option.mem_toList] at h
    rw [FromItem.mapExprs, hl h.1.1, hr h.1.2, optionMap_eq_self h.2]

theorem Clauses.exprs_mapExprs (f : Expr → Expr) (c : Clauses) :
    (c.mapExprs f).exprs = c.exprs.map f := by
  have hitem : ∀ x : SelectItem, (x.mapExprs f).exprs = x.exprs.map f := by
    intro x
    cases x <;> rfl
  have hoption : ∀ o : Option Expr, (o.map f).toList = o.toList.map f := by
    intro o
    cases o <;> rfl
  simp only [Clauses.exprs, Clauses.mapExprs, List.map_append, List.flatMap_map, hitem, hoption,
    List.map_flatMap]

theorem Tail.exprs_mapExprs (f : Expr → Expr) (t : Tail) : (t.mapExprs f).exprs = t.exprs.map f := by
  simp only [Tail.exprs, Tail.mapExprs, List.map_map]
  rfl

theorem exprs_mapExprs (f : Expr → Expr) :
    (∀ q : Query, (q.mapExprs f).exprs = q.exprs.map f) ∧
      ∀ x : FromItem, (x.mapExprs f).exprs = x.exprs.map f := by
  have hlist : ∀ xs : List FromItem, (∀ x ∈ xs, (x.mapExprs f).exprs = x.exprs.map f) →
      FromItem.exprsList (FromItem.mapExprsList f xs) = (FromItem.exprsList xs).map f := by
    intro xs ih
    rw [FromItem.exprsList_eq, FromItem.exprsList_eq, FromItem.mapExprsList_eq, List.flatMap_map,
      List.map_flatMap]
    exact List.flatMap_congr ih
  apply Query.induct
  · intro source c t ih
    rw [Query.mapExprs, Query.exprs, Query.exprs, hlist source ih, Clauses.exprs_mapExprs,
      Tail.exprs_mapExprs, List.map_append, List.map_append]
  · intro l r all t hl hr
    rw [Query.mapExprs, Query.exprs, Query.exprs, hl, hr, Tail.exprs_mapExprs, List.map_append,
      List.map_append]
  · intro q hq
    rw [Query.mapExprs, Query.exprs, Query.exprs, hq]
  · intro name a
    rw [FromItem.mapExprs, FromItem.exprs]
    rfl
  · intro q a hq
    rw [FromItem.mapExprs, FromItem.exprs, FromItem.exprs, hq]
  · intro xs ih
    rw [FromItem.mapExprs, FromItem.exprs, FromItem.exprs, hlist xs ih]
  · intro k l r on hl hr
    have hon : (on.map f).toList = on.toList.map f := by
      cases on <;> rfl
    rw [FromItem.mapExprs, FromItem.exprs, FromItem.exprs, hl, hr, hon, List.map_append,
      List.map_append]

/-- A query is read from its text as it is when its expressions are. -/
theorem Query.reread_eq_self_iff {q : Query} : q.reread = q ↔ ∀ e ∈ q.exprs, e.reread = e := by
  rw [reread_eq.1 q]
  constructor
  · intro h e he
    have hmap : q.exprs.map Expr.reread = q.exprs := by
      rw [← (exprs_mapExprs Expr.reread).1 q, h]
    exact (List.map_eq_map_iff (g := id)).mp (hmap.trans (List.map_id _).symm) e he
  · exact mapExprs_eq_self.1 q

theorem Tail.isNone_mapExprs (f : Expr → Expr) (t : Tail) : (t.mapExprs f).isNone = t.isNone := by
  simp only [Tail.isNone, Tail.mapExprs, List.isEmpty_map]

theorem Query.hasTail_mapExprs (f : Expr → Expr) (q : Query) :
    (q.mapExprs f).hasTail = q.hasTail := by
  cases q with
  | select source c t =>
      rw [Query.mapExprs, Query.hasTail, Query.hasTail, Tail.isNone_mapExprs]
  | union l r all t =>
      rw [Query.mapExprs, Query.hasTail, Query.hasTail, Tail.isNone_mapExprs]
  | paren q =>
      rw [Query.mapExprs]
      rfl

theorem Query.isUnion_mapExprs (f : Expr → Expr) (q : Query) :
    (q.mapExprs f).isUnion = q.isUnion := by
  cases q <;> rw [Query.mapExprs] <;> rfl

theorem FromItem.isJoin_mapExprs (f : Expr → Expr) (x : FromItem) :
    (x.mapExprs f).isJoin = x.isJoin := by
  cases x <;> rw [FromItem.mapExprs] <;> rfl

theorem loneSubquery_cons (x y : FromItem) (xs : List FromItem) :
    loneSubquery (x :: y :: xs) = false := by
  cases x with
  | subquery q al => cases al <;> rfl
  | _ => rfl

/-- Whether a subquery stands alone is seen from the kinds of the items. -/
theorem loneSubquery_map {g : FromItem → FromItem}
    (h : ∀ x : FromItem, loneSubquery [g x] = loneSubquery [x]) (xs : List FromItem) :
    loneSubquery (xs.map g) = loneSubquery xs := by
  cases xs with
  | nil => rfl
  | cons x xs =>
      cases xs with
      | nil => exact h x
      | cons y xs => rw [List.map_cons, List.map_cons, loneSubquery_cons, loneSubquery_cons]

theorem shaped_mapExprs (f : Expr → Expr) :
    (∀ q : Query, (q.mapExprs f).shaped = q.shaped) ∧
      ∀ x : FromItem, (x.mapExprs f).shaped = x.shaped := by
  have hlist : ∀ xs : List FromItem, (∀ x ∈ xs, (x.mapExprs f).shaped = x.shaped) →
      FromItem.shapedList (FromItem.mapExprsList f xs) = FromItem.shapedList xs := by
    intro xs ih
    rw [Bool.eq_iff_iff, FromItem.shapedList_iff, FromItem.shapedList_iff,
      FromItem.mapExprsList_eq, List.forall_mem_map]
    exact forall₂_congr fun x hx => by rw [ih x hx]
  have hlone : ∀ x : FromItem, loneSubquery [x.mapExprs f] = loneSubquery [x] := by
    intro x
    cases x with
    | subquery q al => cases al <;> rw [FromItem.mapExprs] <;> rfl
    | _ => rw [FromItem.mapExprs] <;> rfl
  apply Query.induct
  · intro source c t ih
    have hne : (c.mapExprs f).projection.isEmpty = c.projection.isEmpty := List.isEmpty_map
    rw [Query.mapExprs, Query.shaped, Query.shaped, hlist source ih, hne]
  · intro l r all t hl hr
    rw [Query.mapExprs, Query.shaped, Query.shaped, hl, hr, Query.hasTail_mapExprs,
      Query.hasTail_mapExprs, Query.isUnion_mapExprs]
  · intro q hq
    rw [Query.mapExprs, Query.shaped, Query.shaped, hq]
  · intro name a
    rw [FromItem.mapExprs]
  · intro q a hq
    rw [FromItem.mapExprs, FromItem.shaped, FromItem.shaped, hq]
  · intro xs ih
    rw [FromItem.mapExprs, FromItem.shaped, FromItem.shaped, hlist xs ih,
      FromItem.mapExprsList_eq, List.isEmpty_map, loneSubquery_map hlone]
  · intro k l r on hl hr
    have hon : (on.map f).isNone = on.isNone := by
      cases on <;> rfl
    rw [FromItem.mapExprs, FromItem.shaped, FromItem.shaped, hl, hr, FromItem.isJoin_mapExprs, hon]

/-- The text is made of the texts of the expressions. -/
theorem Clauses.chars_mapExprs {c : Clauses} (h : ∀ e ∈ c.exprs, (f e).chars = e.chars) :
    (c.mapExprs f).headChars = c.headChars ∧ (c.mapExprs f).restChars = c.restChars := by
  obtain ⟨hitems, hcondition, hgroup, hhaving⟩ := Clauses.forall_exprs.mp h
  have hprojection : (c.projection.map (SelectItem.mapExprs f)).map SelectItem.chars =
      c.projection.map SelectItem.chars := by
    rw [List.map_map]
    apply List.map_congr_left
    intro x hx
    cases x with
    | expr e n =>
        have he := hitems _ hx e (List.mem_singleton.mpr rfl)
        simp only [Function.comp_apply, SelectItem.mapExprs, SelectItem.chars, he]
    | _ => rfl
  have hkeys : (c.groupBy.map f).map Expr.chars = c.groupBy.map Expr.chars := by
    rw [List.map_map]
    exact List.map_congr_left hgroup
  have hoption : ∀ (word : String) (o : Option Expr), (∀ e ∈ o, (f e).chars = e.chars) →
      conditionChars word (o.map f) = conditionChars word o := by
    intro word o ho
    cases o with
    | none => rfl
    | some e => rw [Option.map_some, conditionChars, conditionChars, ho e rfl]
  constructor
  · exact congrArg (fun items => "SELECT ".toList ++
      (if c.distinct then "DISTINCT ".toList else []) ++ commaList items) hprojection
  · simp only [Clauses.restChars, Clauses.mapExprs, hkeys, List.isEmpty_map,
      hoption " WHERE " c.condition hcondition, hoption " HAVING " c.having hhaving]

theorem Tail.chars_mapExprs {t : Tail} (h : ∀ e ∈ t.exprs, (f e).chars = e.chars) :
    (t.mapExprs f).chars = t.chars := by
  rw [Tail.forall_exprs] at h
  have hkeys : (t.orderBy.map (SortKey.mapExprs f)).map SortKey.chars =
      t.orderBy.map SortKey.chars := by
    rw [List.map_map]
    apply List.map_congr_left
    intro k hk
    simp only [Function.comp_apply, SortKey.chars, SortKey.mapExprs, h k hk]
  simp only [Tail.chars, Tail.mapExprs, hkeys, List.isEmpty_map]

theorem chars_mapExprs :
    (∀ q : Query, (∀ e ∈ q.exprs, (f e).chars = e.chars) → (q.mapExprs f).chars = q.chars) ∧
      ∀ x : FromItem, (∀ e ∈ x.exprs, (f e).chars = e.chars) → (x.mapExprs f).chars = x.chars := by
  have hlist : ∀ xs : List FromItem,
      (∀ x ∈ xs, (∀ e ∈ x.exprs, (f e).chars = e.chars) → (x.mapExprs f).chars = x.chars) →
      (∀ e ∈ FromItem.exprsList xs, (f e).chars = e.chars) →
      FromItem.charsList (FromItem.mapExprsList f xs) = FromItem.charsList xs := by
    intro xs ih h
    rw [FromItem.exprsList_eq, List.forall_mem_flatMap] at h
    rw [FromItem.charsList_eq, FromItem.charsList_eq, FromItem.mapExprsList_eq, List.map_map]
    exact List.map_congr_left fun x hx => ih x hx (h x hx)
  apply Query.induct
  · intro source c t ih h
    simp only [Query.exprs, List.forall_mem_append] at h
    obtain ⟨hhead, hrest⟩ := Clauses.chars_mapExprs h.1.2
    have hempty : (FromItem.mapExprsList f source).isEmpty = source.isEmpty := by
      rw [FromItem.mapExprsList_eq, List.isEmpty_map]
    rw [Query.mapExprs, Query.chars, Query.chars, hlist source ih h.1.1, hempty, hhead, hrest,
      Tail.chars_mapExprs h.2]
  · intro l r all t hl hr h
    simp only [Query.exprs, List.forall_mem_append] at h
    rw [Query.mapExprs, Query.chars, Query.chars, hl h.1.1, hr h.1.2, Query.hasTail_mapExprs,
      Query.hasTail_mapExprs, Query.isUnion_mapExprs, Tail.chars_mapExprs h.2]
  · intro q hq h
    rw [Query.exprs] at h
    rw [Query.mapExprs, Query.chars, Query.chars, hq h]
  · intro name a _
    rw [FromItem.mapExprs]
  · intro q a hq h
    rw [FromItem.exprs] at h
    rw [FromItem.mapExprs, FromItem.chars, FromItem.chars, hq h]
  · intro xs ih h
    rw [FromItem.exprs] at h
    rw [FromItem.mapExprs, FromItem.chars, FromItem.chars, hlist xs ih h]
  · intro k l r on hl hr h
    simp only [FromItem.exprs, List.forall_mem_append, Option.mem_toList] at h
    have hon : conditionChars " ON " (on.map f) = conditionChars " ON " on := by
      cases on with
      | none => rfl
      | some e => rw [Option.map_some, conditionChars, conditionChars, h.2 e rfl]
    rw [FromItem.mapExprs, FromItem.chars, FromItem.chars, hl h.1.1, hr h.1.2,
      FromItem.isJoin_mapExprs, hon]

/-! ## Equality -/

theorem sameBy_map {α : Type} {eq : α → α → Bool} {g : α → α} {xs : List α}
    (h : ∀ x ∈ xs, eq (g x) x = true) : sameBy eq (xs.map g) xs = true := by
  rw [sameBy, List.length_map, beq_self_eq_true, Bool.true_and, List.all_eq_true]
  induction xs with
  | nil => simp
  | cons x xs ih =>
      rw [List.forall_mem_cons] at h
      simpa [h.1] using ih h.2

theorem Expr.sameOption_map {o : Option Expr} (h : ∀ e ∈ o, (f e).same e = true) :
    Expr.sameOption (o.map f) o = true := by
  cases o with
  | none => rfl
  | some e => exact h e rfl

theorem Tail.same_mapExprs {t : Tail} (h : ∀ e ∈ t.exprs, (f e).same e = true) :
    (t.mapExprs f).same t = true := by
  rw [Tail.forall_exprs] at h
  have hkeys : sameBy (fun x y => x.expr.same y.expr && x.order == y.order)
      (t.orderBy.map (SortKey.mapExprs f)) t.orderBy = true := by
    apply sameBy_map
    intro k hk
    simp only [SortKey.mapExprs, h k hk, beq_self_eq_true, Bool.and_self]
  simp only [Tail.same, Tail.mapExprs, hkeys, beq_self_eq_true, Bool.and_self]

theorem Clauses.same_mapExprs {c : Clauses} (h : ∀ e ∈ c.exprs, (f e).same e = true) :
    (c.mapExprs f).same c = true := by
  obtain ⟨hitems, hcondition, hgroup, hhaving⟩ := Clauses.forall_exprs.mp h
  have hprojection : sameBy SelectItem.same (c.projection.map (SelectItem.mapExprs f))
      c.projection = true := by
    apply sameBy_map
    intro x hx
    cases x with
    | all => rfl
    | allOf name => exact beq_self_eq_true name
    | expr e n =>
        have he := hitems _ hx e (List.mem_singleton.mpr rfl)
        simp only [SelectItem.mapExprs, SelectItem.same, he, beq_self_eq_true, Bool.and_self]
  simp only [Clauses.same, Clauses.mapExprs, hprojection, Expr.sameOption_map hcondition,
    Expr.sameOption_map hhaving, sameBy_map hgroup, beq_self_eq_true, Bool.and_self]

theorem same_mapExprs :
    (∀ q : Query, (∀ e ∈ q.exprs, (f e).same e = true) → (q.mapExprs f).same q = true) ∧
      ∀ x : FromItem, (∀ e ∈ x.exprs, (f e).same e = true) → (x.mapExprs f).same x = true := by
  have hlist : ∀ xs : List FromItem,
      (∀ x ∈ xs, (∀ e ∈ x.exprs, (f e).same e = true) → (x.mapExprs f).same x = true) →
      (∀ e ∈ FromItem.exprsList xs, (f e).same e = true) →
      FromItem.sameList (FromItem.mapExprsList f xs) xs = true := by
    intro xs ih h
    induction xs with
    | nil => rw [FromItem.mapExprsList, FromItem.sameList]
    | cons x xs hxs =>
        rw [FromItem.exprsList, List.forall_mem_append] at h
        rw [FromItem.mapExprsList, FromItem.sameList, ih x List.mem_cons_self h.1, Bool.true_and]
        exact hxs (fun y hy => ih y (List.mem_cons_of_mem _ hy)) h.2
  apply Query.induct
  · intro source c t ih h
    simp only [Query.exprs, List.forall_mem_append] at h
    rw [Query.mapExprs, Query.same, hlist source ih h.1.1, Clauses.same_mapExprs h.1.2,
      Tail.same_mapExprs h.2]
    rfl
  · intro l r all t hl hr h
    simp only [Query.exprs, List.forall_mem_append] at h
    rw [Query.mapExprs, Query.same, hl h.1.1, hr h.1.2, Tail.same_mapExprs h.2, beq_self_eq_true]
    rfl
  · intro q hq h
    rw [Query.exprs] at h
    rw [Query.mapExprs, Query.same, hq h]
  · intro name a _
    rw [FromItem.mapExprs, FromItem.same, beq_self_eq_true, beq_self_eq_true]
    rfl
  · intro q a hq h
    rw [FromItem.exprs] at h
    rw [FromItem.mapExprs, FromItem.same, hq h, beq_self_eq_true]
    rfl
  · intro xs ih h
    rw [FromItem.exprs] at h
    rw [FromItem.mapExprs, FromItem.same, hlist xs ih h]
  · intro k l r on hl hr h
    simp only [FromItem.exprs, List.forall_mem_append, Option.mem_toList] at h
    rw [FromItem.mapExprs, FromItem.same, hl h.1.1, hr h.1.2, Expr.sameOption_map h.2,
      beq_self_eq_true]
    rfl

end

/-! ## Within bounds -/

theorem Query.hasTail_emptied (q : Query) : q.emptied.hasTail = q.hasTail := by
  cases q <;> rw [Query.emptied] <;> rfl

theorem Query.isUnion_emptied (q : Query) : q.emptied.isUnion = q.isUnion := by
  cases q <;> rw [Query.emptied] <;> rfl

theorem Query.hasTail_bounded (s : Marks) (a : Option Advance) (q : Query) :
    (q.bounded s a).hasTail = q.hasTail := by
  cases q <;> rw [Query.bounded] <;> rfl

theorem Query.isUnion_bounded (s : Marks) (a : Option Advance) (q : Query) :
    (q.bounded s a).isUnion = q.isUnion := by
  cases q <;> rw [Query.bounded] <;> rfl

theorem FromItem.isJoin_bounded (s : Marks) (a : Option Advance) (x : FromItem) :
    (x.bounded s a).isJoin = x.isJoin := by
  cases x <;> rw [FromItem.bounded] <;> rfl

theorem Query.shaped_emptied (q : Query) : q.emptied.shaped = q.shaped := by
  apply (Query.induct (P := fun q => q.emptied.shaped = q.shaped) (S := fun _ => True)
    ?_ ?_ ?_ ?_ ?_ ?_ ?_).1 q
  · intro source c t _
    rw [Query.emptied, Query.shaped, Query.shaped]
  · intro l r all t hl hr
    rw [Query.emptied, Query.shaped, Query.shaped, hl, hr, Query.hasTail_emptied,
      Query.hasTail_emptied, Query.isUnion_emptied]
  · intro q hq
    rw [Query.emptied, Query.shaped, Query.shaped, hq]
  all_goals intros; trivial

/-- Another condition in place of the one there is. -/
theorem Clauses.forall_withCondition {P : Expr → Prop} {c : Clauses} (hc : ∀ e ∈ c.exprs, P e)
    {condition : Option Expr} (hcondition : ∀ e ∈ condition, P e) :
    ∀ e ∈ ({ c with condition := condition } : Clauses).exprs, P e := by
  obtain ⟨hitems, -, hgroup, hhaving⟩ := Clauses.forall_exprs.mp hc
  exact Clauses.forall_exprs.mpr ⟨hitems, hcondition, hgroup, hhaving⟩

/-- Bounds leave the shape of a query as it is. -/
theorem shaped_bounded (s : Marks) (a : Option Advance) :
    (∀ q : Query, (q.bounded s a).shaped = q.shaped) ∧
      ∀ x : FromItem, (x.bounded s a).shaped = x.shaped := by
  have hlist : ∀ xs : List FromItem, (∀ x ∈ xs, (x.bounded s a).shaped = x.shaped) →
      FromItem.shapedList (FromItem.boundedList s a xs) = FromItem.shapedList xs := by
    intro xs ih
    rw [Bool.eq_iff_iff, FromItem.shapedList_iff, FromItem.shapedList_iff,
      FromItem.boundedList_eq, List.forall_mem_map]
    exact forall₂_congr fun x hx => by rw [ih x hx]
  have hlone : ∀ x : FromItem, loneSubquery [x.bounded s a] = loneSubquery [x] := by
    intro x
    cases x with
    | subquery q al => cases al <;> rw [FromItem.bounded] <;> rfl
    | _ => rw [FromItem.bounded] <;> rfl
  apply Query.induct
  · intro source c t ih
    rw [Query.bounded, Query.shaped, Query.shaped, hlist source ih]
  · intro l r all t hl hr
    rw [Query.bounded, Query.shaped, Query.shaped]
    split <;> split <;> simp only [Query.shaped_emptied, Query.hasTail_emptied,
      Query.isUnion_emptied, Query.hasTail_bounded, Query.isUnion_bounded, hl, hr]
  · intro q hq
    rw [Query.bounded, Query.shaped, Query.shaped, hq]
  · intro name al
    rw [FromItem.bounded]
  · intro q al hq
    rw [FromItem.bounded, FromItem.shaped, FromItem.shaped, hq]
  · intro xs ih
    rw [FromItem.bounded, FromItem.shaped, FromItem.shaped, hlist xs ih, FromItem.boundedList_eq,
      List.isEmpty_map, loneSubquery_map hlone]
  · intro k l r on hl hr
    rw [FromItem.bounded, FromItem.shaped, FromItem.shaped, hl, hr, FromItem.isJoin_bounded]

end Sql

/-- A property of expressions that conditions within bounds have again. -/
structure Bounding (P : Expr → Prop) (s : Marks) (a : Option Advance) : Prop where
  and : ∀ l r, P l → P r → P (l.and r)
  false : P (.literal (.boolean false))
  lower : ∀ y ∈ a, P (y.table.bound .gt y.former)
  upper : ∀ e ∈ s.entries, P (e.1.bound .le e.2)

namespace Bounding

variable {P : Expr → Prop} {s : Marks} {a : Option Advance} (h : Bounding P s a)
include h

theorem conjunction {es : List Expr} (hes : ∀ e ∈ es, P e) : ∀ e ∈ conjunction es, P e := by
  have hfold : ∀ (es : List Expr) (e : Expr), P e → (∀ x ∈ es, P x) → P (es.foldl Expr.and e) := by
    intro es
    induction es with
    | nil => exact fun e he _ => he
    | cons x es ih =>
        intro e he hes
        rw [List.forall_mem_cons] at hes
        exact ih (e.and x) (h.and e x he hes.1) hes.2
  intro e he
  cases es with
  | nil => cases he
  | cons x es =>
      rw [Rowtime.conjunction, Option.mem_some_iff] at he
      rw [List.forall_mem_cons] at hes
      exact he ▸ hfold es x hes.1 hes.2

theorem never {condition : Option Expr} (hc : ∀ e ∈ condition, P e) : P (never condition) := by
  cases condition with
  | none => exact h.false
  | some e => exact h.and e _ (hc e rfl) h.false

theorem bound (ts : List TableRef) {condition : Option Expr} (hc : ∀ e ∈ condition, P e) :
    ∀ e ∈ (s.restrict ts).bound a condition, P e := by
  apply h.conjunction
  simp only [List.forall_mem_append]
  refine ⟨⟨?_, ?_⟩, fun e he => hc e (Option.mem_toList.mp he)⟩
  · intro e he
    cases a with
    | none => cases he
    | some y =>
        rw [Marks.lower] at he
        split at he
        · rw [List.mem_singleton] at he
          exact he ▸ h.lower y rfl
        · cases he
  · intro e he
    obtain ⟨m, hm, rfl⟩ := List.mem_map.mp he
    exact h.upper m (Marks.mem_restrict.mp hm).1

theorem forall_emptied {q : Query} (hq : ∀ e ∈ q.exprs, P e) : ∀ e ∈ q.emptied.exprs, P e := by
  revert hq
  apply (Query.induct (P := fun q => (∀ e ∈ q.exprs, P e) → ∀ e ∈ q.emptied.exprs, P e)
    (S := fun _ => True) ?_ ?_ ?_ ?_ ?_ ?_ ?_).1 q
  · intro source c t _ hq
    simp only [Query.emptied, Query.exprs, List.forall_mem_append] at hq ⊢
    refine ⟨⟨hq.1.1, Clauses.forall_withCondition hq.1.2 ?_⟩, hq.2⟩
    intro e he
    rw [Option.mem_some_iff] at he
    exact he ▸ h.never (Clauses.forall_exprs.mp hq.1.2).2.1
  · intro l r all t hl hr hq
    simp only [Query.emptied, Query.exprs, List.forall_mem_append] at hq ⊢
    exact ⟨⟨hl hq.1.1, hr hq.1.2⟩, hq.2⟩
  · intro q hq hall
    rw [Query.exprs] at hall
    rw [Query.emptied, Query.exprs]
    exact hq hall
  all_goals intros; trivial

theorem forall_bounded :
    (∀ q : Query, (∀ e ∈ q.exprs, P e) → ∀ e ∈ (q.bounded s a).exprs, P e) ∧
      ∀ x : FromItem, (∀ e ∈ x.exprs, P e) → ∀ e ∈ (x.bounded s a).exprs, P e := by
  have hlist : ∀ xs : List FromItem,
      (∀ x ∈ xs, (∀ e ∈ x.exprs, P e) → ∀ e ∈ (x.bounded s a).exprs, P e) →
      (∀ e ∈ FromItem.exprsList xs, P e) →
      ∀ e ∈ FromItem.exprsList (FromItem.boundedList s a xs), P e := by
    intro xs ih hxs
    rw [FromItem.exprsList_eq, List.forall_mem_flatMap] at hxs
    rw [FromItem.boundedList_eq, FromItem.exprsList_eq, List.forall_mem_flatMap, List.forall_mem_map]
    exact fun x hx => ih x hx (hxs x hx)
  apply Query.induct
  · intro source c t ih hq
    simp only [Query.bounded, Query.exprs, List.forall_mem_append] at hq ⊢
    exact ⟨⟨hlist source ih hq.1.1, Clauses.forall_withCondition hq.1.2
      (h.bound _ (Clauses.forall_exprs.mp hq.1.2).2.1)⟩, hq.2⟩
  · intro l r all t hl hr hq
    simp only [Query.bounded, Query.exprs, List.forall_mem_append] at hq ⊢
    refine ⟨⟨?_, ?_⟩, hq.2⟩
    · split
      · exact h.forall_emptied (hl hq.1.1)
      · exact hl hq.1.1
    · split
      · exact h.forall_emptied (hr hq.1.2)
      · exact hr hq.1.2
  · intro q hq hall
    rw [Query.exprs] at hall
    rw [Query.bounded, Query.exprs]
    exact hq hall
  · intro name al hx
    rw [FromItem.bounded]
    exact hx
  · intro q al hq hx
    rw [FromItem.exprs] at hx
    rw [FromItem.bounded, FromItem.exprs]
    exact hq hx
  · intro xs ih hx
    rw [FromItem.exprs] at hx
    rw [FromItem.bounded, FromItem.exprs]
    exact hlist xs ih hx
  · intro k l r on hl hr hx
    simp only [FromItem.bounded, FromItem.exprs, List.forall_mem_append] at hx ⊢
    exact ⟨⟨hl hx.1.1, hr hx.1.2⟩, hx.2⟩

end Bounding

end Rowtime
