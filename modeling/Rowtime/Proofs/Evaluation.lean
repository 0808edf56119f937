import Rowtime.Proofs.Results

/-!
# What an expression sees of its context

The value of an expression depends on the columns of its context only through what references to
them stand for. Wherever the references of one expression stand for the same values as those of
another that is built in the same way, both have the same value, or fail; and how exact the
agreement of two faults is, whether they are equal or of one kind, carries over from the
references to the expressions. An expression without aggregates does not see the group either.
-/
namespace Rowtime

open Sql

/-! ## Results up to the faults -/

section Faults

variable {ε ζ α β : Type} (view : ε → ζ)

@[simp] theorem mapError_ok (a : α) : (Except.ok a : Except ε α).mapError view = .ok a := rfl

@[simp] theorem mapError_error (e : ε) :
    (Except.error e : Except ε α).mapError view = .error (view e) := rfl

@[simp] theorem mapError_pure (a : α) : (pure a : Except ε α).mapError view = pure a := rfl

/-- Computations that look the same both have the same result, or both fail. -/
theorem mapError_eq_iff {view : ε → ζ} {x y : Except ε α} : x.mapError view = y.mapError view ↔
    (∃ a, x = .ok a ∧ y = .ok a) ∨ ∃ e e', x = .error e ∧ y = .error e' ∧ view e = view e' := by
  cases x with
  | error e => cases y <;> simp
  | ok a => cases y <;> simp [eq_comm]

theorem mapError_bind {x y : Except ε α} {f g : α → Except ε β}
    (hx : x.mapError view = y.mapError view)
    (hf : ∀ a, (f a).mapError view = (g a).mapError view) :
    (x >>= f).mapError view = (y >>= g).mapError view := by
  obtain ⟨a, rfl, rfl⟩ | ⟨e, e', rfl, rfl, hview⟩ := mapError_eq_iff.mp hx
  · exact hf a
  · exact congrArg Except.error hview

theorem mapError_map (f : α → β) {x y : Except ε α} (h : x.mapError view = y.mapError view) :
    (f <$> x).mapError view = (f <$> y).mapError view := by
  obtain ⟨a, rfl, rfl⟩ | ⟨e, e', rfl, rfl, hview⟩ := mapError_eq_iff.mp h
  · rfl
  · exact congrArg Except.error hview

theorem mapError_id (x : Except ε α) : x.mapError id = x := by
  cases x <;> rfl

end Faults

/-- Lists of computations with like ends come to like ends. -/
theorem mapError_collect {ζ α β : Type} {view : Fault → ζ} {f g : α → Except Fault β} {as : List α}
    (h : ∀ a ∈ as, (f a).mapError view = (g a).mapError view) :
    (collect f as).mapError view = (collect g as).mapError view := by
  induction as with
  | nil => rfl
  | cons a as ih =>
      rw [List.forall_mem_cons] at h
      rw [collect, collect]
      exact mapError_bind view h.1 fun b => mapError_bind view (ih h.2) fun _ => rfl

/-! ## References -/

/-- The value that a reference stands for. -/
def Context.lookup (ctx : Context) (c : ColumnRef) : Except Fault Value :=
  resolve ctx.columns c >>= fun i => .ok (ctx.row[i]?.getD .null)

/-- References of a context stand for what their names under `f` stand for in another one. Faults
are compared as `view` shows them. -/
def Context.Renames {ζ : Type} (view : Fault → ζ) (f : ColumnRef → ColumnRef)
    (ctx ctx' : Context) : Prop :=
  ∀ c, (ctx'.lookup (f c)).mapError view = (ctx.lookup c).mapError view

/-- Two contexts have the same group, if any, and references stand for the same in its rows. -/
structure Context.RenamesGroup {ζ : Type} (view : Fault → ζ) (f : ColumnRef → ColumnRef)
    (ctx ctx' : Context) : Prop where
  group : ctx'.group = ctx.group
  members : ∀ rows, ctx.group = some rows → ∀ row ∈ rows,
    Renames view f (.ofRow ctx.columns row) (.ofRow ctx'.columns row)

/-- Rows by themselves have no group. -/
theorem Context.RenamesGroup.ofRow {ζ : Type} (view : Fault → ζ) (f : ColumnRef → ColumnRef)
    (columns columns' : List Binding) (row row' : Row) :
    RenamesGroup view f (.ofRow columns row) (.ofRow columns' row') :=
  ⟨rfl, fun _ hnone => by cases hnone⟩

namespace Sql.Expr

/-- Induction over expressions and the lists in them. -/
theorem induct {P : Expr → Prop}
    (column : ∀ c, P (.column c)) (literal : ∀ v, P (.literal v))
    (unary : ∀ op e, P e → P (.unary op e))
    (binary : ∀ op l r, P l → P r → P (.binary op l r))
    (isNull : ∀ n e, P e → P (.isNull n e))
    (between : ∀ n e l h, P e → P l → P h → P (.between n e l h))
    (inList : ∀ n e items, P e → (∀ x ∈ items, P x) → P (.inList n e items))
    (like : ∀ n e p, P e → P p → P (.like n e p))
    (call : ∀ name args, (∀ x ∈ args, P x) → P (.call name args))
    (aggregate : ∀ f d e, P e → P (.aggregate f d e))
    (aggregateAll : ∀ f d, P (.aggregateAll f d)) (e : Expr) : P e :=
  @Expr.rec P (fun xs => ∀ x ∈ xs, P x) column literal unary binary isNull between inList like call
    aggregate aggregateAll (fun x hx => absurd hx (by simp))
    (fun _ _ hx hxs => List.forall_mem_cons.mpr ⟨hx, hxs⟩) e

mutual

/-- The expression with its references under other names. -/
def renamed (f : ColumnRef → ColumnRef) : Expr → Expr
  | .column c => .column (f c)
  | .literal v => .literal v
  | .unary op e => .unary op (e.renamed f)
  | .binary op l r => .binary op (l.renamed f) (r.renamed f)
  | .isNull n e => .isNull n (e.renamed f)
  | .between n e l h => .between n (e.renamed f) (l.renamed f) (h.renamed f)
  | .inList n e items => .inList n (e.renamed f) (renamedList f items)
  | .like n e p => .like n (e.renamed f) (p.renamed f)
  | .call name args => .call name (renamedList f args)
  | .aggregate g d e => .aggregate g d (e.renamed f)
  | .aggregateAll g d => .aggregateAll g d

/-- The expressions of a list with their references under other names. -/
def renamedList (f : ColumnRef → ColumnRef) : List Expr → List Expr
  | [] => []
  | e :: r => e.renamed f :: renamedList f r

end

theorem renamedList_eq (f : ColumnRef → ColumnRef) (es : List Expr) :
    renamedList f es = es.map (renamed f) := by
  induction es with
  | nil => rfl
  | cons e es ih => rw [renamedList, ih, List.map_cons]

theorem anyAggregate_eq (es : List Expr) : anyAggregate es = es.any hasAggregate := by
  induction es with
  | nil => rfl
  | cons e es ih => rw [anyAggregate, ih, List.any_cons]

theorem hasAggregate_renamed (f : ColumnRef → ColumnRef) (e : Expr) :
    (e.renamed f).hasAggregate = e.hasAggregate := by
  have hlist : ∀ es : List Expr, (∀ x ∈ es, (x.renamed f).hasAggregate = x.hasAggregate) →
      (es.map (renamed f)).any hasAggregate = es.any hasAggregate := by
    intro es h
    rw [List.any_map, Bool.eq_iff_iff, List.any_eq_true, List.any_eq_true]
    exact exists_congr fun x => and_congr_right fun hx => by rw [Function.comp_apply, h x hx]
  induction e using Expr.induct with
  | column c => rfl
  | literal v => rfl
  | unary op e ih => rw [renamed, hasAggregate, hasAggregate, ih]
  | binary op l r hl hr => rw [renamed, hasAggregate, hasAggregate, hl, hr]
  | isNull n e ih => rw [renamed, hasAggregate, hasAggregate, ih]
  | between n e l h he hl hh => rw [renamed, hasAggregate, hasAggregate, he, hl, hh]
  | inList n e items he hitems =>
      rw [renamed, hasAggregate, hasAggregate, he, renamedList_eq, anyAggregate_eq,
        anyAggregate_eq, hlist items hitems]
  | like n e p he hp => rw [renamed, hasAggregate, hasAggregate, he, hp]
  | call name args hargs =>
      rw [renamed, hasAggregate, hasAggregate, renamedList_eq, anyAggregate_eq, anyAggregate_eq,
        hlist args hargs]
  | aggregate g d e ih => rfl
  | aggregateAll g d => rfl

theorem renamed_id (e : Expr) : e.renamed id = e := by
  have hlist : ∀ es : List Expr, (∀ x ∈ es, x.renamed id = x) → es.map (renamed id) = es :=
    fun es h => (List.map_congr_left h).trans (List.map_id es)
  induction e using Expr.induct with
  | column c => rfl
  | literal v => rfl
  | unary op e ih => rw [renamed, ih]
  | binary op l r hl hr => rw [renamed, hl, hr]
  | isNull n e ih => rw [renamed, ih]
  | between n e l h he hl hh => rw [renamed, he, hl, hh]
  | inList n e items he hitems => rw [renamed, he, renamedList_eq, hlist items hitems]
  | like n e p he hp => rw [renamed, he, hp]
  | call name args hargs => rw [renamed, renamedList_eq, hlist args hargs]
  | aggregate g d e ih => rw [renamed, ih]
  | aggregateAll g d => rfl

/-! ## Values -/

theorem eval_column (c : ColumnRef) (ctx : Context) : (Expr.column c).eval ctx = ctx.lookup c := by
  rw [eval]
  rfl

/-- Operators other than AND and OR look at both operands. -/
theorem eval_strict {op : BinaryOp} (hand : op ≠ .and) (hor : op ≠ .or) (l r : Expr)
    (ctx : Context) : (Expr.binary op l r).eval ctx =
      (l.eval ctx >>= fun v => r.eval ctx >>= fun w => Value.operate op v w) := by
  rw [eval]
  · exact hand
  · exact hor

section Renamed

variable {ζ : Type} {view : Fault → ζ} {f : ColumnRef → ColumnRef} {ctx ctx' : Context}

theorem evalIn_map {g : Expr → Expr} {items : List Expr}
    (h : ∀ x ∈ items, ((g x).eval ctx').mapError view = (x.eval ctx).mapError view)
    (v : Value) (negated unknown : Bool) :
    (evalIn v negated unknown (items.map g) ctx').mapError view =
      (evalIn v negated unknown items ctx).mapError view := by
  induction items generalizing unknown with
  | nil => rw [List.map_nil, evalIn, evalIn]
  | cons x items ih =>
      rw [List.forall_mem_cons] at h
      rw [List.map_cons, evalIn, evalIn]
      refine mapError_bind view h.1 fun w => mapError_bind view rfl fun o => ?_
      split
      · rfl
      · exact ih h.2 _
      · exact ih h.2 _

theorem evalFirst_map {g : Expr → Expr} {args : List Expr}
    (h : ∀ x ∈ args, ((g x).eval ctx').mapError view = (x.eval ctx).mapError view) :
    (evalFirst (args.map g) ctx').mapError view = (evalFirst args ctx).mapError view := by
  induction args with
  | nil => rw [List.map_nil, evalFirst, evalFirst]
  | cons x args ih =>
      rw [List.forall_mem_cons] at h
      rw [List.map_cons, evalFirst, evalFirst]
      refine mapError_bind view h.1 fun v => ?_
      split
      · exact ih h.2
      · rfl

theorem evalOnly_map {g : Expr → Expr} {args : List Expr}
    (h : ∀ x ∈ args, ((g x).eval ctx').mapError view = (x.eval ctx).mapError view)
    (fn : Value.Function) (name : String) :
    (evalOnly fn name (args.map g) ctx').mapError view =
      (evalOnly fn name args ctx).mapError view := by
  match args with
  | [] => rw [List.map_nil, evalOnly, evalOnly] <;> simp
  | [x] =>
      rw [List.map_cons, List.map_nil, evalOnly, evalOnly]
      exact mapError_bind view (h x (by simp)) fun _ => rfl
  | x :: y :: args =>
      rw [List.map_cons, List.map_cons, evalOnly, evalOnly] <;> simp

theorem eval_call_map {name : String} {g : Expr → Expr} {args : List Expr}
    (h : ∀ x ∈ args, ((g x).eval ctx').mapError view = (x.eval ctx).mapError view) :
    ((Expr.call name (args.map g)).eval ctx').mapError view =
      ((Expr.call name args).eval ctx).mapError view := by
  rw [eval, eval]
  split
  · exact evalFirst_map h
  · split
    · rfl
    · exact evalOnly_map h _ _

/-- Renamed expressions have like values. That the groups correspond matters for aggregates only. -/
theorem eval_renamed {e : Expr} (h : ctx.Renames view f ctx')
    (hg : e.hasAggregate = true → ctx.RenamesGroup view f ctx') :
    ((e.renamed f).eval ctx').mapError view = (e.eval ctx).mapError view := by
  induction e using Expr.induct generalizing ctx ctx' with
  | column c =>
      rw [renamed, eval_column, eval_column]
      exact h c
  | literal v => rw [renamed, eval, eval]
  | unary op e ih =>
      rw [renamed]
      cases op with
      | not =>
          rw [eval, eval]
          exact mapError_bind view (ih h hg) fun _ => rfl
      | minus =>
          rw [eval, eval]
          exact mapError_bind view (ih h hg) fun _ => rfl
  | binary op l r hl hr =>
      rw [hasAggregate, Bool.or_eq_true] at hg
      have hleft := hl h fun ha => hg (.inl ha)
      have hright := hr h fun ha => hg (.inr ha)
      rw [renamed]
      by_cases hand : op = .and
      · subst hand
        rw [eval, eval]
        refine mapError_bind view hleft fun v => mapError_bind view rfl fun t => ?_
        split
        · rfl
        · exact mapError_bind view hright fun _ => rfl
      · by_cases hor : op = .or
        · subst hor
          rw [eval, eval]
          refine mapError_bind view hleft fun v => mapError_bind view rfl fun t => ?_
          split
          · rfl
          · exact mapError_bind view hright fun _ => rfl
        · rw [eval_strict hand hor, eval_strict hand hor]
          exact mapError_bind view hleft fun _ => mapError_bind view hright fun _ => rfl
  | isNull n e ih =>
      rw [renamed, eval, eval]
      exact mapError_bind view (ih h hg) fun _ => rfl
  | between n e l r he hl hr =>
      rw [hasAggregate, Bool.or_eq_true, Bool.or_eq_true] at hg
      rw [renamed, eval, eval]
      exact mapError_bind view (he h fun ha => hg (.inl (.inl ha))) fun _ =>
        mapError_bind view (hl h fun ha => hg (.inl (.inr ha))) fun _ =>
          mapError_bind view (hr h fun ha => hg (.inr ha)) fun _ => rfl
  | inList n e items he hitems =>
      rw [hasAggregate, Bool.or_eq_true, anyAggregate_eq, List.any_eq_true] at hg
      rw [renamed, eval, eval, renamedList_eq]
      refine mapError_bind view (he h fun ha => hg (.inl ha)) fun v => ?_
      split
      · rfl
      · exact evalIn_map (fun x hx => hitems x hx h fun ha => hg (.inr ⟨x, hx, ha⟩)) v n false
  | like n e p he hp =>
      rw [hasAggregate, Bool.or_eq_true] at hg
      rw [renamed, eval, eval]
      exact mapError_bind view (he h fun ha => hg (.inl ha)) fun _ =>
        mapError_bind view (hp h fun ha => hg (.inr ha)) fun _ => rfl
  | call name args hargs =>
      rw [hasAggregate, anyAggregate_eq, List.any_eq_true] at hg
      rw [renamed, renamedList_eq]
      exact eval_call_map fun x hx => hargs x hx h fun ha => hg ⟨x, hx, ha⟩
  | aggregate a d e ih =>
      obtain ⟨hgroup, hmembers⟩ := hg rfl
      rw [renamed, eval, eval, Context.members, Context.members, hgroup]
      cases hrows : ctx.group with
      | none => rfl
      | some rows =>
          rw [ok_bind, ok_bind]
          refine mapError_bind view (mapError_collect fun row hrow => ?_) fun _ => rfl
          exact ih (hmembers rows hrows row hrow) fun _ => .ofRow ..
  | aggregateAll a d =>
      rw [renamed, eval, eval, Context.members, Context.members, (hg rfl).group]

end Renamed

/-- Where references stand for the same, expressions have the same value or the same fault. -/
theorem eval_congr {e : Expr} {ctx ctx' : Context} (h : ∀ c, ctx'.lookup c = ctx.lookup c)
    (hg : e.hasAggregate = true → ctx.RenamesGroup id id ctx') : e.eval ctx' = e.eval ctx := by
  have hsame : ((e.renamed id).eval ctx').mapError id = (e.eval ctx).mapError id :=
    eval_renamed (fun c => congrArg (Except.mapError id) (h c)) hg
  rwa [renamed_id, mapError_id, mapError_id] at hsame

end Sql.Expr

end Rowtime
