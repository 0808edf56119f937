import Rowtime.Proofs.Abbreviations
import Rowtime.Proofs.Bounded

/-!
# Rows out of bounds

The bounds of a query stand in front of the condition that is there, in one chain of ANDs grouped to
the left. On a row that tells the row time of every occurrence with a mark each bound is TRUE or
FALSE. Bounds that are TRUE leave the decision to what stands behind them, so that on a row within
all bounds the chain holds exactly if the old condition does, or there is none. A bound that is
FALSE makes the whole chain FALSE, and nothing behind it is looked at: neither the length of the
chain nor a fault of the old condition matters.
-/
namespace Rowtime

open Text Sql

/-! ## Chains -/

namespace Sql.Expr

variable {ctx : Context}

/-- A true beginning gives its truth to a condition that is true or false. -/
theorem eval_and_true {l r : Expr} {v : Bool} (hl : l.eval ctx = .ok (.boolean true))
    (hr : r.eval ctx = .ok (.boolean v)) : (l.and r).eval ctx = .ok (.boolean v) := by
  rw [Expr.and, eval_and, truthAt, truthAt, hl, hr]
  cases v <;> rfl

/-- A conjunction whose beginning is false is false. -/
theorem eval_foldl_false {e : Expr} (h : e.eval ctx = .ok (.boolean false)) (es : List Expr) :
    (es.foldl Expr.and e).eval ctx = .ok (.boolean false) := by
  induction es generalizing e with
  | nil => exact h
  | cons x es ih =>
      apply ih
      rw [Expr.and, eval_and, truthAt, h]
      rfl

/-- Only the value of its beginning counts in a conjunction. -/
theorem eval_foldl_congr {e e' : Expr} (h : e.eval ctx = e'.eval ctx) (es : List Expr) :
    (es.foldl Expr.and e).eval ctx = (es.foldl Expr.and e').eval ctx := by
  induction es generalizing e e' with
  | nil => exact h
  | cons x es ih =>
      apply ih
      rw [Expr.and, Expr.and, eval_and, eval_and, truthAt, truthAt, truthAt, h]

end Sql.Expr

section Chains

variable {ctx : Context} {bs : List Expr}

/-- Conditions that are true can be left out at the beginning of a conjunction. -/
theorem holdsIn_conjunction_trues (h : ∀ b ∈ bs, b.eval ctx = .ok (.boolean true))
    (rest : List Expr) :
    holdsIn (conjunction (bs ++ rest)) ctx = holdsIn (conjunction rest) ctx := by
  induction bs with
  | nil => rfl
  | cons b bs ih =>
      rw [List.forall_mem_cons] at h
      have htruth : b.truthAt ctx = .ok (some true) := by
        rw [Expr.truthAt, h.1]
        rfl
      rw [List.cons_append, holdsIn_conjunction_true htruth, ih h.2]

/-- A conjunction that begins with conditions which are true or false, one of them false, is false,
whatever stands behind them. -/
theorem eval_conjunction_false (hb : ∀ b ∈ bs, ∃ v, b.eval ctx = .ok (.boolean v))
    (hf : ∃ b ∈ bs, b.eval ctx = .ok (.boolean false)) (rest : List Expr) :
    ∃ e, conjunction (bs ++ rest) = some e ∧ e.eval ctx = .ok (.boolean false) := by
  induction bs with
  | nil =>
      obtain ⟨b, hmem, -⟩ := hf
      cases hmem
  | cons b bs ih =>
      rw [List.forall_mem_cons] at hb
      obtain ⟨⟨v, hv⟩, hbs⟩ := hb
      cases v with
      | false => exact ⟨_, rfl, Expr.eval_foldl_false hv (bs ++ rest)⟩
      | true =>
          have hlater : ∃ c ∈ bs, c.eval ctx = .ok (.boolean false) := by
            obtain ⟨c, hc, hfalse⟩ := hf
            rcases List.mem_cons.mp hc with rfl | hc
            · rw [hv] at hfalse
              cases hfalse
            · exact ⟨c, hc, hfalse⟩
          obtain ⟨e, he, hfalse⟩ := ih hbs hlater
          cases bs with
          | nil =>
              obtain ⟨c, hc, -⟩ := hlater
              cases hc
          | cons c bs =>
              -- The chain begins with `b AND c`, which has the value of `c`.
              obtain ⟨w, hw⟩ := hbs c List.mem_cons_self
              have hbegin : (b.and c).eval ctx = c.eval ctx := by
                rw [hw, Expr.eval_and_true hv hw]
              obtain rfl := Option.some.inj he
              refine ⟨_, rfl, ?_⟩
              rw [← hfalse]
              exact Expr.eval_foldl_congr hbegin (bs ++ rest)

end Chains

/-! ## Bounds on a row -/

/-- The row time that a row tells of an occurrence: the integer in the row time column under its
qualifier. -/
def Context.rowtime? (ctx : Context) (t : TableRef) : Option Int64 :=
  match (Expr.column ⟨some t.qualifier, rowtimeName⟩).eval ctx with
  | .ok v => v.asInt
  | .error _ => none

theorem Context.eval_of_rowtime? {ctx : Context} {t : TableRef} {i : Int64}
    (h : ctx.rowtime? t = some i) :
    ∃ v, (Expr.column ⟨some t.qualifier, rowtimeName⟩).eval ctx = .ok v ∧ v.asInt = some i := by
  unfold Context.rowtime? at h
  split at h
  · exact ⟨_, ‹_›, h⟩
  · cases h

theorem positionsFrom_congr {c c' : ColumnRef} {bs : List Binding}
    (h : ∀ b ∈ bs, b.fits c = b.fits c') (k : Nat) :
    positionsFrom c k bs = positionsFrom c' k bs := by
  induction bs generalizing k with
  | nil => rfl
  | cons b bs ih =>
      rw [List.forall_mem_cons] at h
      rw [positionsFrom, positionsFrom, h.1, ih h.2]

/-- A row tells the same of equal occurrences. -/
theorem Context.rowtime?_congr {t u : TableRef} (h : t.same u = true) (ctx : Context) :
    ctx.rowtime? t = ctx.rowtime? u := by
  have hpos := positionsFrom_congr
    (fun b (_ : b ∈ ctx.columns) => fits_congr h b rowtimeName) 0
  unfold Context.rowtime?
  rw [Expr.eval_column, Expr.eval_column, Context.lookup, Context.lookup, resolve, resolve, hpos]
  generalize positionsFrom _ 0 ctx.columns = ps
  match ps with
  | [] => rfl
  | [i] => rfl
  | i :: j :: r => rfl

/-- A bound is decided by the row time that the row tells. -/
theorem TableRef.eval_bound_gt {ctx : Context} {t : TableRef} {i : Int64}
    (h : ctx.rowtime? t = some i) (mark : Int64) :
    (t.bound .gt mark).eval ctx = .ok (.boolean (decide (mark < i))) := by
  obtain ⟨v, hv, hi⟩ := Context.eval_of_rowtime? h
  rw [TableRef.bound, Expr.eval_strict (by decide) (by decide), hv, ok_bind, Expr.eval, ok_bind,
    operate_gt hi]

theorem TableRef.eval_bound_le {ctx : Context} {t : TableRef} {i : Int64}
    (h : ctx.rowtime? t = some i) (mark : Int64) :
    (t.bound .le mark).eval ctx = .ok (.boolean (decide (i ≤ mark))) := by
  obtain ⟨v, hv, hi⟩ := Context.eval_of_rowtime? h
  rw [TableRef.bound, Expr.eval_strict (by decide) (by decide), hv, ok_bind, Expr.eval, ok_bind,
    operate_le hi]

namespace Marks

variable {s : Marks} {a : Option Advance} {ctx : Context}

/-- The row times of a row keep all bounds: the upper bound of every occurrence with a mark and the
lower bound of the one that advances. -/
structure Within (s : Marks) (a : Option Advance) (ctx : Context) : Prop where
  upper : ∀ e ∈ s.entries, ∃ i, ctx.rowtime? e.1 = some i ∧ i ≤ e.2
  lower : ∀ y, a = some y → ∃ i, ctx.rowtime? y.table = some i ∧ y.former < i

theorem mem_lower (ha : ∀ y, a = some y → (s.get? y.table).isSome = true) {b : Expr} :
    b ∈ s.lower a ↔ ∃ y, a = some y ∧ b = y.table.bound .gt y.former := by
  cases a with
  | none => simp [lower]
  | some y =>
      rw [lower, if_pos (ha y rfl), List.mem_singleton]
      simp

theorem mem_uppers {b : Expr} : b ∈ s.uppers ↔ ∃ e ∈ s.entries, b = e.1.bound .le e.2 := by
  simp only [uppers, List.mem_map, eq_comm]

section Row

variable (ha : ∀ y, a = some y → (s.get? y.table).isSome = true)
  (hrow : ∀ e ∈ s.entries, (ctx.rowtime? e.1).isSome = true)
include ha hrow

/-- The table that advances has a row time where all occurrences with marks have one. -/
theorem exists_rowtime_advance {y : Advance} (hy : a = some y) :
    ∃ i, ctx.rowtime? y.table = some i := by
  obtain ⟨e, he, hsame⟩ := get?_isSome_iff.mp (ha y hy)
  rw [← Context.rowtime?_congr hsame]
  exact Option.isSome_iff_exists.mp (hrow e he)

/-- Every bound is true or false. -/
theorem bounds_decided : ∀ b ∈ s.lower a ++ s.uppers, ∃ v, b.eval ctx = .ok (.boolean v) := by
  intro b hb
  rcases List.mem_append.mp hb with hb | hb
  · obtain ⟨y, hy, rfl⟩ := (mem_lower ha).mp hb
    obtain ⟨i, hi⟩ := exists_rowtime_advance ha hrow hy
    exact ⟨_, TableRef.eval_bound_gt hi _⟩
  · obtain ⟨e, he, rfl⟩ := mem_uppers.mp hb
    obtain ⟨i, hi⟩ := Option.isSome_iff_exists.mp (hrow e he)
    exact ⟨_, TableRef.eval_bound_le hi _⟩

/-- The bounds are all true exactly on the rows that keep them. -/
theorem within_iff :
    s.Within a ctx ↔ ∀ b ∈ s.lower a ++ s.uppers, b.eval ctx = .ok (.boolean true) := by
  constructor
  · intro hw b hb
    rcases List.mem_append.mp hb with hb | hb
    · obtain ⟨y, hy, rfl⟩ := (mem_lower ha).mp hb
      obtain ⟨i, hi, hlt⟩ := hw.lower y hy
      rw [TableRef.eval_bound_gt hi, decide_eq_true hlt]
    · obtain ⟨e, he, rfl⟩ := mem_uppers.mp hb
      obtain ⟨i, hi, hle⟩ := hw.upper e he
      rw [TableRef.eval_bound_le hi, decide_eq_true hle]
  · intro h
    constructor
    · intro e he
      obtain ⟨i, hi⟩ := Option.isSome_iff_exists.mp (hrow e he)
      have htrue := h _ (List.mem_append_right _ (mem_uppers.mpr ⟨e, he, rfl⟩))
      rw [TableRef.eval_bound_le hi] at htrue
      exact ⟨i, hi, by simpa using htrue⟩
    · intro y hy
      obtain ⟨i, hi⟩ := exists_rowtime_advance ha hrow hy
      have htrue := h _ (List.mem_append_left _ ((mem_lower ha).mpr ⟨y, hy, rfl⟩))
      rw [TableRef.eval_bound_gt hi] at htrue
      exact ⟨i, hi, by simpa using htrue⟩

/-- On a row within bounds a condition behind them decides, or fails, as it does without them. -/
theorem holdsIn_bound_of_within (hw : s.Within a ctx) (condition : Option Expr) :
    holdsIn (s.bound a condition) ctx = holdsIn condition ctx := by
  rw [bound, holdsIn_conjunction_trues ((within_iff ha hrow).mp hw), conjunction_toList]

/-- On a row out of bounds a condition behind them is false. -/
theorem eval_bound_of_not_within (hw : ¬s.Within a ctx) (condition : Option Expr) :
    ∃ e, s.bound a condition = some e ∧ e.eval ctx = .ok (.boolean false) := by
  have hdecided := bounds_decided ha hrow
  refine eval_conjunction_false hdecided ?_ condition.toList
  by_contra hnone
  apply hw
  rw [within_iff ha hrow]
  intro b hb
  obtain ⟨v, hv⟩ := hdecided b hb
  cases v with
  | true => exact hv
  | false => exact absurd ⟨b, hb, hv⟩ hnone

end Row

/-- The condition within bounds holds on a row exactly if the row times keep all bounds and the old
condition, if there is one, holds. Where a row time does not keep its bound, the condition within
bounds is FALSE without a fault, whatever the old condition comes to on the row. -/
theorem bound_decides (s : Marks) (a : Option Advance) (condition : Option Expr) (ctx : Context)
    (ha : ∀ y, a = some y → (s.get? y.table).isSome = true)
    (hrow : ∀ e ∈ s.entries, (ctx.rowtime? e.1).isSome = true) :
    (holdsIn (s.bound a condition) ctx = .ok true ↔
        s.Within a ctx ∧ holdsIn condition ctx = .ok true) ∧
      (¬s.Within a ctx →
        ∃ e, s.bound a condition = some e ∧ e.eval ctx = .ok (.boolean false)) := by
  refine ⟨?_, fun hw => eval_bound_of_not_within ha hrow hw condition⟩
  by_cases hw : s.Within a ctx
  · rw [holdsIn_bound_of_within ha hrow hw]
    exact ⟨fun h => ⟨hw, h⟩, fun h => h.2⟩
  · obtain ⟨e, he, hfalse⟩ := eval_bound_of_not_within ha hrow hw condition
    have hrefused : holdsIn (s.bound a condition) ctx = .ok false := by
      rw [he]
      change e.holds ctx = .ok false
      rw [Expr.holds, hfalse]
      rfl
    rw [hrefused]
    constructor
    · intro h
      cases h
    · intro h
      exact absurd h.1 hw

/-- A row of two tables with row times and a value. -/
def rowOfPair (i j : Int64) (v : Value) : Context :=
  .ofRow [⟨some "a", "rowtime"⟩, ⟨some "a", "v"⟩, ⟨some "B", "Rowtime"⟩]
    [.integer i, v, .integer j]

/-- Marks of both tables. -/
def marksOfPair : Marks := ⟨[(⟨"a", none⟩, 10), (⟨"t", some "b"⟩, 7)]⟩

/-- A condition that fails on a text is met by a number within bounds, and not looked at where the
row time is not above the former mark. -/
theorem bound_decides_text :
    let condition : Expr := .binary .lt (.column ⟨some "a", "v"⟩) (.literal (.integer 1))
    let advance : Option Advance := some ⟨⟨"A", none⟩, 3⟩
    holdsIn (marksOfPair.bound advance (some condition)) (rowOfPair 5 7 (.integer 0)) = .ok true ∧
      condition.eval (rowOfPair 3 7 (.text "x")) =
        .error (Value.cannotCompare (.text "x") (.integer 1)) ∧
      ∃ e, marksOfPair.bound advance (some condition) = some e ∧
        e.eval (rowOfPair 3 7 (.text "x")) = .ok (.boolean false) := by
  intro condition advance
  have htold : ∀ i j v, (rowOfPair i j v).rowtime? ⟨"a", none⟩ = some i ∧
      (rowOfPair i j v).rowtime? ⟨"A", none⟩ = some i ∧
      (rowOfPair i j v).rowtime? ⟨"t", some "b"⟩ = some j := fun _ _ _ => ⟨rfl, rfl, rfl⟩
  have hentries : ∀ {P : TableRef × Int64 → Prop}, P (⟨"a", none⟩, 10) → P (⟨"t", some "b"⟩, 7) →
      ∀ e ∈ marksOfPair.entries, P e := fun h k =>
    List.forall_mem_cons.mpr ⟨h, List.forall_mem_singleton.mpr k⟩
  have ha : ∀ y, advance = some y → (marksOfPair.get? y.table).isSome = true := by
    intro y hy
    obtain rfl := Option.some.inj hy
    decide +kernel
  have hrow : ∀ i j v, ∀ e ∈ marksOfPair.entries, ((rowOfPair i j v).rowtime? e.1).isSome = true :=
    fun i j v => hentries rfl rfl
  have hwithin : marksOfPair.Within advance (rowOfPair 5 7 (.integer 0)) := by
    obtain ⟨ha, hA, hb⟩ := htold 5 7 (.integer 0)
    refine ⟨hentries ⟨5, ha, by decide⟩ ⟨7, hb, by decide⟩, fun y hy => ?_⟩
    obtain rfl := Option.some.inj hy
    exact ⟨5, hA, by decide⟩
  have hbelow : ¬marksOfPair.Within advance (rowOfPair 3 7 (.text "x")) := by
    intro hw
    obtain ⟨i, hi, hlt⟩ := hw.lower _ rfl
    rw [(htold 3 7 _).2.1] at hi
    obtain rfl := Option.some.inj hi
    exact absurd hlt (by decide)
  refine ⟨(bound_decides _ _ _ _ ha (hrow 5 7 _)).1.mpr ⟨hwithin, ?_⟩, ?_,
    (bound_decides _ _ _ _ ha (hrow 3 7 _)).2 hbelow⟩
  · decide +kernel
  · decide +kernel

end Marks

end Rowtime
