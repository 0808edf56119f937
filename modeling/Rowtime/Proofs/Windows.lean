import Rowtime.Follow.Bounds
import Rowtime.Proofs.Databases
import Rowtime.Proofs.Sources

/-!
# Windows

A query within bounds looks at each occurrence through a window of row times: up
to the mark of the occurrence and, where it is the one that advances, above the
former mark. On a row that tells the row times of its occurrences the bounds are
true exactly when all of them are in their windows; a bound that is false ends
the condition before the old one is looked at.
-/
namespace Rowtime

open Text Sql

/-- The rows whose row times pass. -/
def Table.within (p : Int64 → Bool) (t : Table) : Table :=
  let rows := t.rows.filter fun row => p (t.stamp row)
  { t with rows := rows, maxRowtime := (rows.getLast?.map t.stamp).getD 0 }

@[simp] theorem Table.within_rows (p : Int64 → Bool) (t : Table) :
    (t.within p).rows = t.rows.filter fun row => p (t.stamp row) := rfl

@[simp] theorem Table.within_columns (p : Int64 → Bool) (t : Table) :
    (t.within p).columns = t.columns := rfl

/-- The part of a valid table in a window is valid. -/
theorem Table.Valid.within {t : Table} (h : t.Valid) (p : Int64 → Bool) : (t.within p).Valid := by
  have hsub : (t.within p).rows.Sublist t.rows := List.filter_sublist
  have hmem : ∀ r ∈ (t.within p).rows, r ∈ t.rows := fun r hr => hsub.subset hr
  constructor
  · exact h.names
  · exact h.rowtime
  · exact h.onlyKey
  · exact fun r hr => h.width r (hmem r hr)
  · exact fun r hr => h.stamped r (hmem r hr)
  · exact h.increasing.sublist hsub
  · rfl
  · intro i c hc
    obtain ⟨hnull, huniq⟩ := h.admissible i c hc
    exact ⟨fun hn r hr => hnull hn r (hmem r hr), fun hu => (huniq hu).sublist hsub⟩

namespace Marks

/-- Equal occurrences have equal marks. -/
def Functional (s : Marks) : Prop :=
  ∀ e ∈ s.entries, ∀ e' ∈ s.entries, e.1.same e'.1 = true → e.2 = e'.2

theorem exists_of_get? {s : Marks} {t : TableRef} {m : Int64} (h : s.get? t = some m) :
    ∃ e ∈ s.entries, e.1.same t = true ∧ e.2 = m := by
  obtain ⟨e, he, rfl⟩ := Option.map_eq_some_iff.mp h
  have hs := List.find?_some he
  exact ⟨e, List.mem_of_find?_eq_some he, hs, rfl⟩

theorem Functional.get? {s : Marks} (h : s.Functional) {e : TableRef × Int64}
    (he : e ∈ s.entries) {t : TableRef} (ht : e.1.same t = true) : s.get? t = some e.2 := by
  unfold Marks.get?
  cases hf : s.entries.find? fun e => e.1.same t with
  | none => exact absurd ht (by simpa using List.find?_eq_none.mp hf e he)
  | some e' =>
      have hs := List.find?_some hf
      have := h e he e' (List.mem_of_find?_eq_some hf)
        (TableRef.same_trans ht (TableRef.same_symm hs))
      simp [this]

theorem get?_isSome_iff {s : Marks} {t : TableRef} :
    (s.get? t).isSome = true ↔ ∃ e ∈ s.entries, e.1.same t = true := by
  simp [Marks.get?]

theorem mem_restrict {s : Marks} {ts : List TableRef} {e : TableRef × Int64} :
    e ∈ (s.restrict ts).entries ↔ e ∈ s.entries ∧ e.1.isIn ts = true :=
  List.mem_filter

/-- Whether a row time of an occurrence is in its window. -/
def admits (s : Marks) (a : Option Advance) (t : TableRef) (i : Int64) : Bool :=
  (match s.get? t with
    | some m => decide (i ≤ m)
    | none => true) &&
  match a with
    | some x => !x.table.same t || decide (x.former < i)
    | none => true

theorem admits_iff {s : Marks} (hs : s.Functional) {a : Option Advance} {t : TableRef} {i : Int64} :
    s.admits a t i = true ↔
      (∀ e ∈ s.entries, e.1.same t = true → i ≤ e.2) ∧
        ∀ x, a = some x → x.table.same t = true → x.former < i := by
  have hupper : (match s.get? t with
      | some m => decide (i ≤ m)
      | none => true) = true ↔ ∀ e ∈ s.entries, e.1.same t = true → i ≤ e.2 := by
    cases hg : s.get? t with
    | none =>
        simp only [true_iff]
        intro e he ht
        rw [hs.get? he ht] at hg
        simp at hg
    | some m =>
        simp only [decide_eq_true_eq]
        constructor
        · intro hm e he ht
          rw [hs.get? he ht, Option.some.injEq] at hg
          exact hg ▸ hm
        · intro h
          obtain ⟨e, he, ht, rfl⟩ := exists_of_get? hg
          exact h e he ht
  unfold admits
  rw [Bool.and_eq_true, hupper]
  refine and_congr_right fun _ => ?_
  cases a with
  | none => simp
  | some x =>
      simp only [Option.some.injEq, forall_eq', Bool.or_eq_true, Bool.not_eq_true',
        decide_eq_true_eq]
      cases x.table.same t <;> simp

end Marks

/-- The tables as a query within bounds sees them. -/
def Catalog.view (db : Catalog) (s : Marks) (a : Option Advance) : Source := fun t =>
  (db.get? t.name).map fun table => if t.isDual then table else table.within (s.admits a t)

/-! ## Conditions -/

/-- The truth of an expression. -/
def Sql.Expr.truthAt (e : Expr) (ctx : Context) : Except Fault (Option Bool) :=
  e.eval ctx >>= Value.truth

/-- Whether an optional condition holds. -/
def holdsIn (condition : Option Expr) (ctx : Context) : Except Fault Bool :=
  match condition with
  | none => .ok true
  | some e => e.holds ctx

theorem holds_eq (e : Expr) (ctx : Context) :
    e.holds ctx = (e.truthAt ctx >>= fun t => .ok (t == some true)) := by
  unfold Expr.holds Expr.truthAt
  cases e.eval ctx <;> rfl

@[simp] theorem truth_ofTruth (t : Option Bool) : (Value.ofTruth t).truth = .ok t := by
  cases t <;> rfl

theorem truthAt_and (l r : Expr) (ctx : Context) :
    (l.and r).truthAt ctx = (l.truthAt ctx >>= fun a =>
      if a == some false then .ok (some false)
      else r.truthAt ctx >>= fun b => .ok (Value.andTruth a b)) := by
  unfold Expr.truthAt Expr.and
  rw [Expr.eval]
  cases l.eval ctx with
  | error e => rfl
  | ok v =>
      simp only [ok_bind]
      cases v.truth with
      | error e => rfl
      | ok a =>
          simp only [ok_bind]
          split
          · rfl
          · cases r.eval ctx with
            | error e => rfl
            | ok w =>
                simp only [ok_bind]
                cases w.truth with
                | error e => rfl
                | ok b => exact truth_ofTruth _

/-- A conjunction that has become false stays so. -/
theorem truthAt_foldl_false {e : Expr} {ctx : Context} (h : e.truthAt ctx = .ok (some false))
    (es : List Expr) : (es.foldl Expr.and e).truthAt ctx = .ok (some false) := by
  induction es generalizing e with
  | nil => exact h
  | cons x es ih =>
      refine ih ?_
      rw [truthAt_and, h]
      rfl

/-- Only the truth of its beginning counts in a conjunction. -/
theorem truthAt_foldl_congr {e e' : Expr} {ctx : Context} (h : e.truthAt ctx = e'.truthAt ctx)
    (es : List Expr) : (es.foldl Expr.and e).truthAt ctx = (es.foldl Expr.and e').truthAt ctx := by
  induction es generalizing e e' with
  | nil => exact h
  | cons x es ih =>
      refine ih ?_
      rw [truthAt_and, truthAt_and, h]

theorem truthAt_foldl_error {e : Expr} {ctx : Context} {why : Fault}
    (h : e.truthAt ctx = .error why) (es : List Expr) :
    (es.foldl Expr.and e).truthAt ctx = .error why := by
  induction es generalizing e with
  | nil => exact h
  | cons x es ih =>
      refine ih ?_
      rw [truthAt_and, h]
      rfl

/-- A true beginning can be left out of a conjunction. -/
theorem holdsIn_conjunction_true {e : Expr} {ctx : Context} (h : e.truthAt ctx = .ok (some true))
    (es : List Expr) :
    holdsIn (conjunction (e :: es)) ctx = holdsIn (conjunction es) ctx := by
  cases es with
  | nil =>
      change e.holds ctx = .ok true
      rw [holds_eq, h]
      rfl
  | cons x es =>
      change (es.foldl Expr.and (e.and x)).holds ctx = (es.foldl Expr.and x).holds ctx
      rw [holds_eq, holds_eq]
      have hx : (e.and x).truthAt ctx = x.truthAt ctx := by
        rw [truthAt_and, h]
        cases x.truthAt ctx with
        | error why => rfl
        | ok t => rcases t with _ | (_ | _) <;> rfl
      rw [truthAt_foldl_congr hx]

/-- Expressions with the truths that they have if they have any. -/
def Decided (ctx : Context) (es : List Expr) (vs : List Bool) : Prop :=
  List.Forall₂ (fun e v => ∀ t, e.truthAt ctx = .ok t → t = some v) es vs

/-- A condition behind decided ones: it decides when all of these are true, and is not looked at
otherwise. -/
theorem holdsIn_decided {ctx : Context} {es : List Expr} {vs : List Bool}
    (hd : Decided ctx es vs) {rest : List Expr} {b : Bool}
    (h : holdsIn (conjunction (es ++ rest)) ctx = .ok b) :
    (vs.all id = true → holdsIn (conjunction rest) ctx = .ok b) ∧
      (vs.all id = false → b = false) := by
  induction hd with
  | nil => exact ⟨fun _ => h, by simp⟩
  | @cons e v es vs he hd ih =>
      cases ht : e.truthAt ctx with
      | error why =>
          change ((es ++ rest).foldl Expr.and e).holds ctx = .ok b at h
          rw [holds_eq, truthAt_foldl_error ht] at h
          simp at h
      | ok t =>
          cases he t ht
          cases v with
          | true =>
              rw [List.cons_append, holdsIn_conjunction_true ht] at h
              simpa using ih h
          | false =>
              change ((es ++ rest).foldl Expr.and e).holds ctx = .ok b at h
              rw [holds_eq, truthAt_foldl_false ht] at h
              rw [ok_bind, Except.ok.injEq] at h
              exact ⟨by simp, fun _ => h.symm⟩

/-! ## Bounds -/

theorem mem_positionsFrom {c : ColumnRef} {bs : List Binding} {k j : Nat} :
    j ∈ positionsFrom c k bs ↔ ∃ i b, bs[i]? = some b ∧ b.fits c = true ∧ j = k + i := by
  induction bs generalizing k with
  | nil => simp [positionsFrom]
  | cons b r ih =>
      have hstep : (∃ i b', (b :: r)[i]? = some b' ∧ b'.fits c = true ∧ j = k + i) ↔
          (b.fits c = true ∧ j = k) ∨
            ∃ i b', r[i]? = some b' ∧ b'.fits c = true ∧ j = k + 1 + i := by
        constructor
        · rintro ⟨i, b', hb, hf, rfl⟩
          cases i with
          | zero =>
              rw [List.getElem?_cons_zero, Option.some.injEq] at hb
              subst hb
              exact Or.inl ⟨hf, rfl⟩
          | succ i =>
              rw [List.getElem?_cons_succ] at hb
              exact Or.inr ⟨i, b', hb, hf, by omega⟩
        · rintro (⟨hf, rfl⟩ | ⟨i, b', hb, hf, rfl⟩)
          · exact ⟨0, b, rfl, hf, rfl⟩
          · exact ⟨i + 1, b', by rwa [List.getElem?_cons_succ], hf, by omega⟩
      unfold positionsFrom
      rw [hstep]
      split
      · rename_i hf
        simp [ih, hf]
      · rename_i hf
        simp [ih, hf]

/-- A column that is resolved stands at every position that fits. -/
theorem resolve_eq {bs : List Binding} {c : ColumnRef} {j : Nat} (h : resolve bs c = .ok j)
    {i : Nat} {b : Binding} (hb : bs[i]? = some b) (hf : b.fits c = true) : i = j := by
  have hm : i ∈ positionsFrom c 0 bs := mem_positionsFrom.mpr ⟨i, b, hb, hf, by omega⟩
  unfold resolve at h
  split at h
  · simp at h
  · rename_i k hk
    rw [Except.ok.injEq] at h
    rw [hk, List.mem_singleton] at hm
    exact hm.trans h
  · simp at h

theorem positionsFrom_pairwise (c : ColumnRef) (bs : List Binding) (k : Nat) :
    (positionsFrom c k bs).Pairwise (· < ·) := by
  induction bs generalizing k with
  | nil => exact .nil
  | cons b r ih =>
      unfold positionsFrom
      split
      · refine List.pairwise_cons.mpr ⟨fun j hj => ?_, ih (k + 1)⟩
        obtain ⟨i, -, -, -, rfl⟩ := mem_positionsFrom.mp hj
        omega
      · exact ih (k + 1)

/-- A reference that fits one column alone is resolved. -/
theorem resolve_ok {bs : List Binding} {c : ColumnRef} {i : Nat} {b : Binding} (hb : bs[i]? = some b)
    (hf : b.fits c = true) (hu : ∀ j b', bs[j]? = some b' → b'.fits c = true → j = i) :
    resolve bs c = .ok i := by
  have hall : ∀ j ∈ positionsFrom c 0 bs, j = i := by
    intro j hj
    obtain ⟨k, b', hb', hf', rfl⟩ := mem_positionsFrom.mp hj
    rw [Nat.zero_add]
    exact hu k b' hb' hf'
  have hmem : i ∈ positionsFrom c 0 bs := mem_positionsFrom.mpr ⟨i, b, hb, hf, by omega⟩
  have hp := positionsFrom_pairwise c bs 0
  unfold resolve
  generalize positionsFrom c 0 bs = ps at hall hmem hp
  match ps with
  | [] => exact absurd hmem List.not_mem_nil
  | [j] => simp [hall j (by simp)]
  | j :: k :: r =>
      have hlt : j < k := (List.pairwise_cons.mp hp).1 k (by simp)
      have := hall j (by simp)
      have := hall k (by simp)
      omega

/-- Equal occurrences have their columns in the same places. -/
theorem fits_congr {t u : TableRef} (h : t.same u = true) (b : Binding) (name : String) :
    b.fits ⟨some t.qualifier, name⟩ = b.fits ⟨some u.qualifier, name⟩ := by
  unfold Binding.fits Binding.hasQualifier
  cases b.qualifier with
  | none => rfl
  | some own =>
      have hq := TableRef.sameName_qualifier h
      simp only [sameName_comm own, sameName_congr hq]

/-- A row with the row times of its occurrences. -/
structure Stamped where
  row : Row
  stamps : List (TableRef × Int64)

namespace Stamped

/-- Two rows side by side. -/
def append (x y : Stamped) : Stamped := ⟨x.row ++ y.row, x.stamps ++ y.stamps⟩

/-- Whether all row times pass. -/
def within (p : TableRef → Int64 → Bool) (x : Stamped) : Bool :=
  x.stamps.all fun e => p e.1 e.2

/-- The row times stand in row time columns of their occurrences. -/
def Located (columns : List Binding) (x : Stamped) : Prop :=
  ∀ e ∈ x.stamps, ∃ (i : Nat) (b : Binding), columns[i]? = some b ∧
    b.fits ⟨some e.1.qualifier, rowtimeName⟩ = true ∧ x.row[i]? = some (.integer e.2)

end Stamped

/-- The comparisons of integers as the bounds make them. -/
theorem operate_gt {v : Value} {i : Int64} (h : v.asInt = some i) (m : Int64) :
    Value.operate .gt v (.integer m) = .ok (.boolean (decide (m < i))) := by
  have hc : (Ord.compare i.toInt m.toInt == .gt) = decide (m < i) := by
    rw [Bool.eq_iff_iff, beq_iff_eq, Int.compare_eq_gt, decide_eq_true_eq, Int64.lt_iff_toInt_lt]
  rw [← hc]
  cases v with
  | smallInt _ | integer _ => cases h; rfl
  | _ => cases h

theorem operate_le {v : Value} {i : Int64} (h : v.asInt = some i) (m : Int64) :
    Value.operate .le v (.integer m) = .ok (.boolean (decide (i ≤ m))) := by
  have hc : (Ord.compare i.toInt m.toInt != .gt) = decide (i ≤ m) := by
    rw [Bool.eq_iff_iff, bne_iff_ne, ne_eq, Int.compare_eq_gt, decide_eq_true_eq,
      Int64.le_iff_toInt_le, Int.not_lt]
  rw [← hc]
  cases v with
  | smallInt _ | integer _ => cases h; rfl
  | _ => cases h

theorem truth_operate_gt (i m : Int64) :
    (Value.operate .gt (.integer i) (.integer m) >>= Value.truth) = .ok (some (decide (m < i))) := by
  rw [operate_gt rfl]
  rfl

theorem truth_operate_le (i m : Int64) :
    (Value.operate .le (.integer i) (.integer m) >>= Value.truth) = .ok (some (decide (i ≤ m))) := by
  rw [operate_le rfl]
  rfl

/-- The value that a bound looks at is the row time of each equal occurrence. -/
theorem eval_column_located {columns : List Binding} {x : Stamped} (hx : x.Located columns)
    {e : TableRef × Int64} (he : e ∈ x.stamps) {t : TableRef} (ht : e.1.same t = true) {v : Value}
    (h : (Expr.column ⟨some t.qualifier, rowtimeName⟩).eval (.ofRow columns x.row) = .ok v) :
    v = .integer e.2 := by
  obtain ⟨i, b, hb, hf, hv⟩ := hx e he
  rw [fits_congr ht] at hf
  rw [Expr.eval] at h
  obtain ⟨j, hj, h⟩ := bind_eq_ok.mp h
  rw [pure_eq_ok] at h
  rw [← h, ← resolve_eq hj hb hf]
  change x.row[i]?.getD .null = .integer e.2
  rw [hv]
  rfl

theorem truthAt_bound {columns : List Binding} {x : Stamped} (hx : x.Located columns)
    {t : TableRef} {op : BinaryOp} {mark : Int64} (hop : op = .gt ∨ op = .le)
    {truth : Option Bool} (h : (t.bound op mark).truthAt (.ofRow columns x.row) = .ok truth) :
    ∀ e ∈ x.stamps, e.1.same t = true →
      truth = some (if op = .gt then decide (mark < e.2) else decide (e.2 ≤ mark)) := by
  intro e he ht
  unfold TableRef.bound Expr.truthAt at h
  obtain ⟨w, hw, h⟩ := bind_eq_ok.mp h
  have hsplit : ∃ v, (Expr.column ⟨some t.qualifier, rowtimeName⟩).eval (.ofRow columns x.row) =
      .ok v ∧ Value.operate op v (.integer mark) = .ok w := by
    rcases hop with rfl | rfl <;> rw [Expr.eval] at hw <;> first | exact bind_eq_ok.mp hw | simp
  obtain ⟨v, hv, ho⟩ := hsplit
  rw [eval_column_located hx he ht hv] at ho
  have hb : (Value.operate op (.integer e.2) (.integer mark) >>= Value.truth) = .ok truth := by
    rw [ho, ok_bind, h]
  rcases hop with rfl | rfl
  · rw [truth_operate_gt, Except.ok.injEq] at hb
    rw [← hb]
    rfl
  · rw [truth_operate_le, Except.ok.injEq] at hb
    rw [← hb]
    rfl

namespace Marks

/-- The truths of the bounds on a row with row times. -/
def lowerTruths (s : Marks) (a : Option Advance) (x : Stamped) : List Bool :=
  match a with
  | none => []
  | some y =>
    if (s.get? y.table).isSome then
      [x.stamps.all fun st => !st.1.same y.table || decide (y.former < st.2)]
    else []

def upperTruths (s : Marks) (x : Stamped) : List Bool :=
  s.entries.map fun e => x.stamps.all fun st => !st.1.same e.1 || decide (st.2 ≤ e.2)

/-- The row times of a row belong to the occurrences of a scope. -/
def Covers (ts : List TableRef) (x : Stamped) : Prop :=
  x.stamps.map (·.1) = ts.filter fun t => !t.isDual

theorem exists_stamp {ts : List TableRef} {x : Stamped} (hx : Covers ts x) {t : TableRef}
    (ht : t.isIn (TableRef.distinct ts) = true) : ∃ st ∈ x.stamps, st.1.same t = true := by
  rw [TableRef.isIn_distinct, Bool.and_eq_true, TableRef.isIn_iff, Bool.not_eq_true'] at ht
  obtain ⟨⟨u, hu, hs⟩, hd⟩ := ht
  have hmem : u ∈ x.stamps.map (·.1) := by
    rw [hx, List.mem_filter]
    exact ⟨hu, by rw [TableRef.isDual_of_same hs, hd]; rfl⟩
  obtain ⟨st, hst, rfl⟩ := List.mem_map.mp hmem
  exact ⟨st, hst, hs⟩

theorem isIn_of_stamp {ts : List TableRef} {x : Stamped} (hx : Covers ts x)
    {st : TableRef × Int64} (hst : st ∈ x.stamps) : st.1.isIn (TableRef.distinct ts) = true := by
  have hmem : st.1 ∈ ts.filter fun t => !t.isDual := by
    rw [← hx]
    exact List.mem_map_of_mem hst
  obtain ⟨hm, hd⟩ := List.mem_filter.mp hmem
  rw [TableRef.isIn_distinct, TableRef.isIn_of_mem hm, hd]
  rfl

/-- A truth that all equal occurrences agree on. -/
theorem all_same_eq {x : Stamped} {t : TableRef} {f : Int64 → Bool} {truth : Option Bool}
    (hex : ∃ st ∈ x.stamps, st.1.same t = true)
    (h : ∀ st ∈ x.stamps, st.1.same t = true → truth = some (f st.2)) :
    truth = some (x.stamps.all fun st => !st.1.same t || f st.2) := by
  obtain ⟨st, hst, hs⟩ := hex
  have hv := h st hst hs
  rw [hv, Option.some.injEq, Bool.eq_iff_iff, List.all_eq_true]
  constructor
  · intro hf st' hst'
    cases hs' : st'.1.same t with
    | false => rfl
    | true =>
        have := h st' hst' hs'
        rw [hv, Option.some.injEq] at this
        simp [← this, hf]
  · intro hall
    have := hall st hst
    simpa [hs] using this

theorem decided_bounds {s : Marks} {a : Option Advance} {ts : List TableRef}
    {columns : List Binding} {x : Stamped} (hx : x.Located columns) (hc : Covers ts x) :
    Decided (.ofRow columns x.row)
      ((s.restrict (TableRef.distinct ts)).lower a ++ (s.restrict (TableRef.distinct ts)).uppers)
      ((s.restrict (TableRef.distinct ts)).lowerTruths a x ++
        (s.restrict (TableRef.distinct ts)).upperTruths x) := by
  refine List.rel_append ?_ ?_
  · unfold lower lowerTruths
    cases a with
    | none => exact .nil
    | some y =>
        simp only
        split
        · rename_i hg
          refine .cons (fun t ht => ?_) .nil
          obtain ⟨e, he, hs⟩ := get?_isSome_iff.mp hg
          have hin := (mem_restrict.mp he).2
          rw [TableRef.isIn_congr hs] at hin
          refine all_same_eq (f := fun i => decide (y.former < i)) (exists_stamp hc hin) ?_
          intro st hst hst'
          simpa using truthAt_bound hx (Or.inl rfl) ht st hst hst'
        · exact .nil
  · unfold uppers upperTruths
    rw [List.forall₂_map_left_iff, List.forall₂_map_right_iff, List.forall₂_same]
    intro e he t ht
    have hin := (mem_restrict.mp he).2
    refine all_same_eq (f := fun i => decide (i ≤ e.2)) (exists_stamp hc hin) ?_
    intro st hst hst'
    simpa using truthAt_bound hx (Or.inr rfl) ht st hst hst'

/-- The bounds are all true exactly on rows whose row times are in their windows. -/
theorem truths_iff_within {s : Marks} (hs : s.Functional) {a : Option Advance}
    (ha : ∀ y, a = some y → (s.get? y.table).isSome = true) {ts : List TableRef} {x : Stamped}
    (hc : Covers ts x) :
    ((s.restrict (TableRef.distinct ts)).lowerTruths a x ++
        (s.restrict (TableRef.distinct ts)).upperTruths x).all id = x.within (s.admits a) := by
  rw [Bool.eq_iff_iff, List.all_append, Bool.and_eq_true]
  have hlower : ((s.restrict (TableRef.distinct ts)).lowerTruths a x).all id = true ↔
      ∀ st ∈ x.stamps, ∀ y, a = some y → y.table.same st.1 = true → y.former < st.2 := by
    unfold lowerTruths
    cases a with
    | none => simp
    | some y =>
        simp only [Option.some.injEq, forall_eq']
        split
        · simp only [List.all_cons, id_eq, List.all_nil, Bool.and_true, List.all_eq_true,
            Bool.or_eq_true, Bool.not_eq_true', decide_eq_true_eq]
          refine forall₂_congr fun st _ => ?_
          rw [TableRef.same_comm]
          cases y.table.same st.1 <;> simp
        · rename_i hg
          simp only [List.all_nil, true_iff]
          intro st hst hy
          obtain ⟨e, he, het⟩ := get?_isSome_iff.mp (ha y rfl)
          have hin : e.1.isIn (TableRef.distinct ts) = true := by
            rw [TableRef.isIn_congr (TableRef.same_trans het hy)]
            exact isIn_of_stamp hc hst
          exact absurd (get?_isSome_iff.mpr ⟨e, mem_restrict.mpr ⟨he, hin⟩, het⟩) hg
  have hupper : ((s.restrict (TableRef.distinct ts)).upperTruths x).all id = true ↔
      ∀ st ∈ x.stamps, ∀ e ∈ s.entries, e.1.same st.1 = true → st.2 ≤ e.2 := by
    simp only [upperTruths, List.all_map, List.all_eq_true, Function.comp_apply, id_eq,
      Bool.or_eq_true, Bool.not_eq_true', decide_eq_true_eq]
    constructor
    · intro h st hst e he hes
      have hin : e.1.isIn (TableRef.distinct ts) = true := by
        rw [TableRef.isIn_congr hes]
        exact isIn_of_stamp hc hst
      exact (h e (mem_restrict.mpr ⟨he, hin⟩) st hst).resolve_left
        (by simp [TableRef.same_symm hes])
    · intro h e he st hst
      cases hes : st.1.same e.1 with
      | false => exact Or.inl rfl
      | true => exact Or.inr (h st hst e (mem_restrict.mp he).1 (TableRef.same_symm hes))
  rw [hlower, hupper, Stamped.within, List.all_eq_true]
  simp only [admits_iff hs]
  constructor
  · rintro ⟨hl, hu⟩ st hst
    exact ⟨fun e he hes => hu st hst e he hes, fun y hy hys => hl st hst y hy hys⟩
  · intro h
    exact ⟨fun st hst y hy hys => (h st hst).2 y hy hys, fun st hst e he hes => (h st hst).1 e he hes⟩

/-- A condition behind the bounds: on a row in the window it decides, any other row is refused
without it. -/
theorem holdsIn_bounds {s : Marks} (hs : s.Functional) {a : Option Advance}
    (ha : ∀ y, a = some y → (s.get? y.table).isSome = true) {ts : List TableRef}
    {columns : List Binding} {x : Stamped} (hx : x.Located columns) (hc : Covers ts x)
    {rest : List Expr} {b : Bool}
    (h : holdsIn (conjunction ((s.restrict (TableRef.distinct ts)).lower a ++
      (s.restrict (TableRef.distinct ts)).uppers ++ rest)) (.ofRow columns x.row) = .ok b) :
    (x.within (s.admits a) = true → holdsIn (conjunction rest) (.ofRow columns x.row) = .ok b) ∧
      (x.within (s.admits a) = false → b = false) := by
  rw [← truths_iff_within hs ha hc]
  exact holdsIn_decided (decided_bounds hx hc) h

end Marks

end Rowtime
