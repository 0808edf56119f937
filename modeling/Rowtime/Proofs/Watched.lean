import Rowtime.Proofs.Evaluation
import Rowtime.Proofs.Rectangles
import Rowtime.Proofs.Windows

/-!
# Evaluation under watch

A computation is watched by another one that does the same and keeps what comes up on the way: the
relations that are produced, the rows that are projected, the sort keys of rows, and every position
at which a row or a list of keys is looked up. What is seen before a fault is kept as well.

This module watches the evaluation of expressions and the sorting of rows. A watched computation
shows the plain one when it has its result and everything seen fits: rows are as wide as their
relation, and no position is beyond the end of what is looked up. Computations that show plain ones
are put together step by step as these are.
-/
namespace Rowtime

open Sql

/-- Something that comes up while a query is executed. -/
inductive Sighting where
  /-- A relation is produced. -/
  | relation (r : Relation)
  /-- A row is projected to the output columns. -/
  | projected (output : List Binding) (row : Row)
  /-- The sort keys of a row are computed. -/
  | keyed (order : List SortKey) (keys : List Value)
  /-- A row or a list of keys is looked up at a position. -/
  | lookup (values : List Value) (position : Nat)

/-- Rows are as wide as their columns, keys as many as asked for, and positions in range. -/
def Sighting.Fits : Sighting → Prop
  | .relation r => r.Rectangular
  | .projected output row => row.length = output.length
  | .keyed order keys => keys.length = order.length
  | .lookup values position => position < values.length

/-- What is looked up, and at which position. -/
def Sighting.lookup? : Sighting → Option (List Value × Nat)
  | .lookup values position => some (values, position)
  | _ => none

/-- A computation with what is seen on the way. -/
structure Watched (α : Type) where
  seen : List Sighting
  result : Except Fault α

namespace Watched

variable {α β : Type}

instance : Monad Watched where
  pure a := ⟨[], .ok a⟩
  bind x f :=
    match x.result with
    | .ok a => ⟨x.seen ++ (f a).seen, (f a).result⟩
    | .error why => ⟨x.seen, .error why⟩

/-- A computation in which nothing is to be seen. -/
def quiet (x : Except Fault α) : Watched α := ⟨[], x⟩

/-- Something seen. -/
def see (s : Sighting) : Watched Unit := ⟨[s], .ok ()⟩

/-- The value at a position. -/
def lookUp (values : List Value) (position : Nat) : Watched Value :=
  ⟨[.lookup values position], .ok (values[position]?.getD .null)⟩

/-- A relation that is produced. -/
def produce (r : Relation) : Watched Relation := ⟨[.relation r], .ok r⟩

/-- The results for the members of a list, up to the first fault. -/
def collect (f : α → Watched β) : List α → Watched (List β)
  | [] => return []
  | a :: r => do
    let b ← f a
    let bs ← collect f r
    return b :: bs

/-- The results of a test that succeed, in order. -/
def filterM (test : α → Watched Bool) : List α → Watched (List α)
  | [] => return []
  | a :: r => do
    let b ← test a
    let rest ← filterM test r
    return if b then a :: rest else rest

/-- A watched computation has the result of a plain one, and what is seen fits. -/
structure Shows (x : Watched α) (y : Except Fault α) : Prop where
  result : x.result = y
  fits : ∀ s ∈ x.seen, s.Fits

namespace Shows

variable {x : Watched α} {y : Except Fault α}

theorem pure (a : α) : Shows (Pure.pure a) (.ok a) := ⟨rfl, by simp [Pure.pure]⟩

theorem quiet (y : Except Fault α) : (Watched.quiet y).Shows y := ⟨rfl, by simp [Watched.quiet]⟩

theorem lookUp {values : List Value} {i : Nat} (h : i < values.length) :
    (Watched.lookUp values i).Shows (.ok (values[i]?.getD .null)) :=
  ⟨rfl, by simpa [Watched.lookUp, Sighting.Fits] using h⟩

theorem produce {r : Relation} (h : r.Rectangular) : (Watched.produce r).Shows (.ok r) :=
  ⟨rfl, by simpa [Watched.produce, Sighting.Fits] using h⟩

/-- The result of a plain computation is produced. -/
theorem produced {y : Except Fault Relation} (h : ∀ r, y = .ok r → r.Rectangular) :
    (Watched.quiet y >>= Watched.produce).Shows y := by
  cases y with
  | error why => exact quiet _
  | ok r => exact produce (h r rfl)

/-- What is shown of two steps is shown of both together. -/
theorem bind {f : α → Watched β} {g : α → Except Fault β} (h : x.Shows y)
    (hf : ∀ a, y = .ok a → (f a).Shows (g a)) : (x >>= f).Shows (y >>= g) := by
  obtain ⟨seen, result⟩ := x
  obtain ⟨rfl, hfits⟩ := h
  cases result with
  | error why => exact ⟨rfl, hfits⟩
  | ok a =>
      obtain ⟨hresult, hmore⟩ := hf a rfl
      exact ⟨hresult, List.forall_mem_append.mpr ⟨hfits, hmore⟩⟩

/-- A step whose result is known. -/
theorem andThen {f : α → Watched β} {a : α} {z : Except Fault β} (h : x.Shows (.ok a))
    (hf : (f a).Shows z) : (x >>= f).Shows z :=
  h.bind (g := fun _ => z) fun b hb => by
    obtain rfl := Except.ok.inj hb
    exact hf

/-- Something seen in front of a computation. -/
theorem see_then {s : Sighting} (hs : s.Fits) (h : x.Shows y) :
    (Watched.see s >>= fun _ => x).Shows y :=
  andThen (a := ()) ⟨rfl, by simpa [Watched.see] using hs⟩ h

theorem ite {c : Prop} [Decidable c] {x' : Watched α} {y' : Except Fault α} (h : c → x.Shows y)
    (h' : ¬c → x'.Shows y') : (if c then x else x').Shows (if c then y else y') := by
  by_cases hc : c
  · rw [if_pos hc, if_pos hc]
    exact h hc
  · rw [if_neg hc, if_neg hc]
    exact h' hc

theorem collect {f : α → Watched β} {g : α → Except Fault β} {as : List α}
    (h : ∀ a ∈ as, (f a).Shows (g a)) : (Watched.collect f as).Shows (Rowtime.collect g as) := by
  induction as with
  | nil => exact pure []
  | cons a as ih =>
      rw [List.forall_mem_cons] at h
      rw [Watched.collect, Rowtime.collect]
      exact h.1.bind fun b _ => (ih h.2).bind fun bs _ => pure (b :: bs)

theorem filterM {test : α → Watched Bool} {plain : α → Except Fault Bool} {as : List α}
    (h : ∀ a ∈ as, (test a).Shows (plain a)) :
    (Watched.filterM test as).Shows (Relation.filterM plain as) := by
  induction as with
  | nil => exact pure []
  | cons a as ih =>
      rw [List.forall_mem_cons] at h
      rw [Watched.filterM, Relation.filterM]
      exact h.1.bind fun b _ => (ih h.2).bind fun rest _ => pure _

end Shows

/-- A relation that a computation comes to is among what is seen. -/
def Yields (x : Watched Relation) : Prop := ∀ r, x.result = .ok r → .relation r ∈ x.seen

namespace Yields

theorem produce (r : Relation) : (Watched.produce r).Yields := by
  intro r' hr
  obtain rfl := Except.ok.inj hr
  exact List.mem_singleton_self _

theorem fault (why : Fault) : (Watched.quiet (.error why)).Yields := by
  intro r hr
  cases hr

theorem bind {x : Watched α} {f : α → Watched Relation} (h : ∀ a, (f a).Yields) :
    (x >>= f).Yields := by
  obtain ⟨seen, result⟩ := x
  intro r hr
  cases result with
  | error why => cases hr
  | ok a => exact List.mem_append_right seen (h a r hr)

end Yields

end Watched

/-! ## Positions -/

theorem lt_of_mem_positionsFrom {c : ColumnRef} {bs : List Binding} {i : Nat}
    (h : i ∈ positionsFrom c 0 bs) : i < bs.length := by
  obtain ⟨j, b, hb, -, rfl⟩ := mem_positionsFrom.mp h
  rw [Nat.zero_add]
  exact (List.getElem?_eq_some_iff.mp hb).1

theorem resolve_lt {bs : List Binding} {c : ColumnRef} {i : Nat} (h : resolve bs c = .ok i) :
    i < bs.length := by
  unfold resolve at h
  split at h
  · cases h
  · rename_i j hj
    obtain rfl := Except.ok.inj h
    exact lt_of_mem_positionsFrom (by rw [hj]; exact List.mem_singleton_self j)
  · cases h

/-- A context in which the row, and each row of the group, has a value for every column. -/
structure Context.Aligned (ctx : Context) : Prop where
  row : ctx.row.length = ctx.columns.length
  members : ∀ rows, ctx.group = some rows → ∀ row ∈ rows, row.length = ctx.columns.length

theorem Context.Aligned.ofRow {columns : List Binding} {row : Row}
    (h : row.length = columns.length) : (Context.ofRow columns row).Aligned :=
  ⟨h, fun _ hnone => by cases hnone⟩

/-! ## Expressions -/

namespace Sql.Expr

mutual

/-- The value of an expression, with every look into a row. -/
def watch : Expr → Context → Watched Value
  | .literal v, _ => return v
  | .column c, ctx => do
    let i ← Watched.quiet (resolve ctx.columns c)
    Watched.lookUp ctx.row i
  | .unary .not e, ctx => do
    let v ← watch e ctx
    let t ← Watched.quiet v.truth
    return Value.ofTruth (Value.notTruth t)
  | .unary .minus e, ctx => do
    let v ← watch e ctx
    Watched.quiet v.negate
  | .binary op l r, ctx =>
    match op with
    | .and => do
      let v ← watch l ctx
      let a ← Watched.quiet v.truth
      if a == some false then return .boolean false
      else
        let w ← watch r ctx
        let b ← Watched.quiet w.truth
        return Value.ofTruth (Value.andTruth a b)
    | .or => do
      let v ← watch l ctx
      let a ← Watched.quiet v.truth
      if a == some true then return .boolean true
      else
        let w ← watch r ctx
        let b ← Watched.quiet w.truth
        return Value.ofTruth (Value.orTruth a b)
    | op => do
      let v ← watch l ctx
      let w ← watch r ctx
      Watched.quiet (Value.operate op v w)
  | .isNull n e, ctx => do
    let v ← watch e ctx
    return .boolean (v.isNull != n)
  | .between n e low high, ctx => do
    let v ← watch e ctx
    let l ← watch low ctx
    let h ← watch high ctx
    let s ← Watched.quiet (Value.operate .ge v l)
    let above ← Watched.quiet s.truth
    let u ← Watched.quiet (Value.operate .le v h)
    let below ← Watched.quiet u.truth
    let inside := Value.andTruth above below
    return Value.ofTruth (if n then Value.notTruth inside else inside)
  | .inList n e items, ctx => do
    let v ← watch e ctx
    if v.isNull then return .null else watchIn v n false items ctx
  | .like n e p, ctx => do
    let v ← watch e ctx
    let q ← watch p ctx
    if v.isNull || q.isNull then return .null else return .boolean (Value.like v q != n)
  | .call name args, ctx =>
    let upperName := Text.asciiUpperText name
    if upperName == "COALESCE" then watchFirst args ctx
    else
      match Value.function? upperName with
      | none => Watched.quiet (.error (.unsupported (.function upperName)))
      | some f => watchOnly f name args ctx
  | .aggregateAll f _, ctx => do
    let rows ← Watched.quiet (ctx.members f)
    return .integer (Int64.ofNat rows.length)
  | .aggregate f d e, ctx => do
    let rows ← Watched.quiet (ctx.members f)
    let vs ← Watched.collect (fun row => watch e (Context.ofRow ctx.columns row)) rows
    let vs := vs.filter fun v => !v.isNull
    Watched.quiet (Value.aggregate f (if d then Value.distinct vs else vs))

/-- The search for a value among the items of a list. -/
def watchIn (v : Value) (negated unknown : Bool) : List Expr → Context → Watched Value
  | [], _ => return if unknown then .null else .boolean negated
  | e :: r, ctx => do
    let w ← watch e ctx
    match ← Watched.quiet (v.compare? w) with
    | some .eq => return .boolean (!negated)
    | none => watchIn v negated true r ctx
    | some _ => watchIn v negated unknown r ctx

/-- The first value that is not NULL. -/
def watchFirst : List Expr → Context → Watched Value
  | [], _ => return .null
  | e :: r, ctx => do
    let v ← watch e ctx
    if v.isNull then watchFirst r ctx else return v

/-- A function of one argument. -/
def watchOnly (f : Value.Function) (name : String) : List Expr → Context → Watched Value
  | [e], ctx => do
    let v ← watch e ctx
    Watched.quiet (Value.applyFunction f v)
  | args, _ => Watched.quiet (.error (.typeMismatch (.arity name 1 args.length)))

end

section Shows

open Watched (Shows)

variable {ctx : Context} {items : List Expr}

theorem shows_evalIn (h : ∀ x ∈ items, (x.watch ctx).Shows (x.eval ctx)) (v : Value)
    (negated unknown : Bool) :
    (watchIn v negated unknown items ctx).Shows (evalIn v negated unknown items ctx) := by
  induction items generalizing unknown with
  | nil =>
      rw [watchIn, evalIn]
      exact .pure _
  | cons x items ih =>
      rw [List.forall_mem_cons] at h
      rw [watchIn, evalIn]
      refine h.1.bind fun w _ => (Shows.quiet _).bind fun o _ => ?_
      cases o with
      | none => exact ih h.2 true
      | some o =>
          cases o with
          | lt => exact ih h.2 unknown
          | eq => exact .pure _
          | gt => exact ih h.2 unknown

theorem shows_evalFirst (h : ∀ x ∈ items, (x.watch ctx).Shows (x.eval ctx)) :
    (watchFirst items ctx).Shows (evalFirst items ctx) := by
  induction items with
  | nil =>
      rw [watchFirst, evalFirst]
      exact .pure _
  | cons x items ih =>
      rw [List.forall_mem_cons] at h
      rw [watchFirst, evalFirst]
      exact h.1.bind fun v _ => .ite (fun _ => ih h.2) fun _ => .pure v

theorem shows_evalOnly (h : ∀ x ∈ items, (x.watch ctx).Shows (x.eval ctx)) (f : Value.Function)
    (name : String) : (watchOnly f name items ctx).Shows (evalOnly f name items ctx) := by
  match items with
  | [] =>
      rw [watchOnly, evalOnly]
      · exact .quiet _
      · simp
      · simp
  | [x] =>
      rw [watchOnly, evalOnly]
      exact (h x (by simp)).bind fun v _ => .quiet _
  | x :: y :: items =>
      rw [watchOnly, evalOnly]
      · exact .quiet _
      · simp
      · simp

theorem watch_strict {op : BinaryOp} (hand : op ≠ .and) (hor : op ≠ .or) (l r : Expr)
    (ctx : Context) : (Expr.binary op l r).watch ctx =
      (l.watch ctx >>= fun v => r.watch ctx >>= fun w => Watched.quiet (Value.operate op v w)) := by
  rw [watch]
  · exact hand
  · exact hor

/-- A watched expression has its value, and no look into an aligned context leaves a row. -/
theorem shows_eval (e : Expr) (h : ctx.Aligned) : (e.watch ctx).Shows (e.eval ctx) := by
  induction e using Expr.induct generalizing ctx with
  | column c =>
      rw [watch, eval]
      refine (Shows.quiet _).bind fun i hi => .lookUp ?_
      rw [h.row]
      exact resolve_lt hi
  | literal v =>
      rw [watch, eval]
      exact .pure v
  | unary op e ih =>
      cases op with
      | not =>
          rw [watch, eval]
          exact (ih h).bind fun v _ => (Shows.quiet _).bind fun t _ => .pure _
      | minus =>
          rw [watch, eval]
          exact (ih h).bind fun v _ => .quiet _
  | binary op l r hl hr =>
      by_cases hand : op = .and
      · subst hand
        rw [watch, eval]
        exact (hl h).bind fun v _ => (Shows.quiet _).bind fun a _ =>
          .ite (fun _ => .pure _) fun _ =>
            (hr h).bind fun w _ => (Shows.quiet _).bind fun b _ => .pure _
      · by_cases hor : op = .or
        · subst hor
          rw [watch, eval]
          exact (hl h).bind fun v _ => (Shows.quiet _).bind fun a _ =>
            .ite (fun _ => .pure _) fun _ =>
              (hr h).bind fun w _ => (Shows.quiet _).bind fun b _ => .pure _
        · rw [watch_strict hand hor, eval_strict hand hor]
          exact (hl h).bind fun v _ => (hr h).bind fun w _ => .quiet _
  | isNull n e ih =>
      rw [watch, eval]
      exact (ih h).bind fun v _ => .pure _
  | between n e l r he hl hr =>
      rw [watch, eval]
      exact (he h).bind fun v _ => (hl h).bind fun a _ => (hr h).bind fun b _ =>
        (Shows.quiet _).bind fun s _ => (Shows.quiet _).bind fun above _ =>
          (Shows.quiet _).bind fun u _ => (Shows.quiet _).bind fun below _ => .pure _
  | inList n e items he hitems =>
      rw [watch, eval]
      exact (he h).bind fun v _ => .ite (fun _ => .pure _) fun _ =>
        shows_evalIn (fun x hx => hitems x hx h) v n false
  | like n e p he hp =>
      rw [watch, eval]
      exact (he h).bind fun v _ => (hp h).bind fun q _ => .ite (fun _ => .pure _) fun _ => .pure _
  | call name args hargs =>
      rw [watch, eval]
      refine .ite (fun _ => shows_evalFirst fun x hx => hargs x hx h) fun _ => ?_
      cases Value.function? (Text.asciiUpperText name) with
      | none => exact .quiet _
      | some f => exact shows_evalOnly (fun x hx => hargs x hx h) f name
  | aggregate f d e ih =>
      rw [watch, eval]
      refine (Shows.quiet _).bind fun rows hrows => ?_
      have hgroup : ctx.group = some rows := by
        unfold Context.members at hrows
        split at hrows
        · rename_i hsome
          rw [hsome, Except.ok.inj hrows]
        · cases hrows
      exact (Shows.collect fun row hrow => ih (.ofRow (h.members rows hgroup row hrow))).bind
        fun vs _ => .quiet _
  | aggregateAll f d =>
      rw [watch, eval]
      exact (Shows.quiet _).bind fun rows _ => .pure _

end Shows

end Sql.Expr

/-! ## Sorting -/

namespace Relation

/-- The order of two lists of keys, which are looked up position by position from `i` on. -/
def watchCompare (a b : List Value) : Nat → List SortOrder → Watched Ordering
  | _, [] => return .eq
  | i, o :: os => do
    let x ← Watched.lookUp a i
    let y ← Watched.lookUp b i
    let c := if o == .desc then (x.sortCompare y).swap else x.sortCompare y
    if c == .eq then watchCompare a b (i + 1) os else return c

/-- Puts a row into a list that is sorted from the last row to the first. -/
def watchInsert (orders : List SortOrder) (x : KeyedRow) : List KeyedRow → Watched (List KeyedRow)
  | [] => return [x]
  | y :: r => do
    let c ← watchCompare x.keys y.keys 0 orders
    if c == .lt then
      let rest ← watchInsert orders x r
      return y :: rest
    else return x :: y :: r

/-- Puts rows into a sorted list, one after the other. -/
def watchSortInto (orders : List SortOrder) (sorted : List KeyedRow) :
    List KeyedRow → Watched (List KeyedRow)
  | [] => return sorted
  | x :: r => do
    let sorted ← watchInsert orders x sorted
    watchSortInto orders sorted r

/-- The rows in the order of their keys. -/
def watchSort (orders : List SortOrder) (rows : List KeyedRow) : Watched (List KeyedRow) :=
  if orders.isEmpty then return rows
  else do
    let sorted ← watchSortInto orders [] rows
    return sorted.reverse

/-- The rows that the closing clauses leave, in their order. -/
def watchTail (t : Tail) (rows : List KeyedRow) : Watched (List Row) := do
  let sorted ← watchSort (t.orderBy.map (·.order)) rows
  return applyTail { t with orderBy := [] } sorted

section Shows

open Watched (Shows)

theorem shows_compareKeys {a b : List Value} {i : Nat} {os : List SortOrder}
    (ha : a.length = i + os.length) (hb : b.length = i + os.length) :
    (watchCompare a b i os).Shows (.ok (compareKeys os (a.drop i) (b.drop i))) := by
  induction os generalizing i with
  | nil =>
      rw [watchCompare, compareKeys]
      · exact .pure _
      · simp
  | cons o os ih =>
      rw [List.length_cons] at ha hb
      -- The comparison of what is left of both lists begins with the keys at position `i`.
      have hia : i < a.length := by omega
      have hib : i < b.length := by omega
      rw [List.drop_eq_getElem_cons hia, List.drop_eq_getElem_cons hib, compareKeys, watchCompare]
      refine (Shows.lookUp hia).andThen ((Shows.lookUp hib).andThen ?_)
      rw [List.getElem?_eq_getElem hia, List.getElem?_eq_getElem hib]
      dsimp only [Option.getD_some]
      generalize (if o == .desc then (a[i].sortCompare b[i]).swap else a[i].sortCompare b[i]) = c
      split
      · exact ih (by omega) (by omega)
      · exact .pure _

/-- The rows have as many keys as there are orders. -/
def Keyed (orders : List SortOrder) (rows : List KeyedRow) : Prop :=
  ∀ x ∈ rows, x.keys.length = orders.length

variable {orders : List SortOrder} {x : KeyedRow} {rows sorted : List KeyedRow}

theorem shows_insertLast (hx : x.keys.length = orders.length) (hr : Keyed orders rows) :
    (watchInsert orders x rows).Shows
      (.ok (insertLast (fun a b => compareKeys orders a.keys b.keys == .lt) x rows)) := by
  induction rows with
  | nil => exact .pure _
  | cons y rows ih =>
      obtain ⟨hy, hrows⟩ := List.forall_mem_cons.mp hr
      rw [watchInsert, insertLast]
      have hcompare : (watchCompare x.keys y.keys 0 orders).Shows
          (.ok (compareKeys orders x.keys y.keys)) :=
        shows_compareKeys (by rw [hx, Nat.zero_add]) (by rw [hy, Nat.zero_add])
      refine hcompare.andThen ?_
      split
      · exact (ih hrows).andThen (.pure _)
      · exact .pure _

theorem shows_sortInto (hs : Keyed orders sorted) (hr : Keyed orders rows) :
    (watchSortInto orders sorted rows).Shows
      (.ok (rows.foldl (fun acc x =>
        insertLast (fun a b => compareKeys orders a.keys b.keys == .lt) x acc) sorted)) := by
  induction rows generalizing sorted with
  | nil => exact .pure _
  | cons x rows ih =>
      obtain ⟨hx, hrows⟩ := List.forall_mem_cons.mp hr
      rw [watchSortInto, List.foldl_cons]
      refine (shows_insertLast hx hs).andThen (ih ?_ hrows)
      -- Insertion only permutes, so the rows sorted so far keep a key for each order.
      intro y hy
      rcases List.mem_cons.mp ((insertLast_perm _ x sorted).mem_iff.mp hy) with rfl | hy
      · exact hx
      · exact hs y hy

theorem shows_sortRows (h : Keyed orders rows) :
    (watchSort orders rows).Shows (.ok (sortRows orders rows)) := by
  unfold watchSort sortRows stableSort
  split
  · exact .pure _
  · exact (shows_sortInto (by simp [Keyed]) h).andThen (.pure _)

/-- Rows with a key for each sort key are put in order, and no look leaves their keys. -/
theorem shows_applyTail {t : Tail} (h : ∀ x ∈ rows, x.keys.length = t.orderBy.length) :
    (watchTail t rows).Shows (.ok (applyTail t rows)) :=
  (shows_sortRows fun x hx => (h x hx).trans (List.length_map _).symm).andThen (.pure _)

end Shows

end Relation

end Rowtime
