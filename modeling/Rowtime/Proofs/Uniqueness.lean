import Rowtime.Proofs.Comparison
import Rowtime.Proofs.Typed

/-!
# Unique columns and equality

A unique column takes no value that is the same as a stored one. The operator `=` takes more values
for equal than those that are the same: texts that differ in the blanks at their end, numbers of
different kinds, and a text that is read as the value it meets. Where the values have the type of
their column, only texts are left of these. So two rows of a unique column are equal for `=` only
when they hold texts with different blanks at their end.
-/
namespace Rowtime

open Text Sql

/-! ## Values that are equal though not the same -/

namespace Value

theorem operate_eq_true {v w : Value} :
    operate .eq v w = .ok (.boolean true) ↔ v.compare? w = .ok (some .eq) := by
  have hcomparison : BinaryOp.eq.isComparison = true := rfl
  rw [operate, if_pos hcomparison]
  cases v.compare? w with
  | error why => simp
  | ok o =>
      cases o with
      | none => simp [ofTruth]
      | some o => cases o <;> simp [ofTruth, satisfies]

/-- Two texts that differ, but in the blanks at their end only. -/
def BlanksApart (v w : Value) : Prop :=
  ∃ s t, v.asText = some s ∧ w.asText = some t ∧ v ≠ w ∧
    trimRight isBlank s.toList = trimRight isBlank t.toList

/-- Two values that are equal though not the same: texts that differ in the blanks at their end,
numbers of different kinds, or a text and the value that it is read as. -/
inductive Disguised : Value → Value → Prop
  | blanks {v w : Value} (h : v.BlanksApart w) : Disguised v w
  | numbers {v w : Value} {x y : Number} (hv : Number.ofValue? v = some x)
      (hw : Number.ofValue? w = some y) (hkind : v.kind ≠ w.kind) (h : x.compare? y = some .eq) :
      Disguised v w
  | read {v : Value} {t : SqlType} {s : String} (ht : literalType? v = some t)
      (h : cast (.text s) t = .ok v) : Disguised v (.text s)
  | reads {v : Value} {t : SqlType} {s : String} (ht : literalType? v = some t)
      (h : cast (.text s) t = .ok v) : Disguised (.text s) v

theorem compareText_eq {s t : String} :
    compareText s t = .eq ↔ trimRight isBlank s.toList = trimRight isBlank t.toList :=
  Std.LawfulEqOrd.compare_eq_iff_eq

/-- Values of one kind that are not told apart are one value, or texts. -/
theorem eq_or_texts {v w : Value} (h : sameKindOrder? v w = some .eq) :
    v = w ∨ ∃ s t, v.asText = some s ∧ w.asText = some t ∧ compareText s t = .eq := by
  cases v <;> cases w <;> first
    | cases h
    | exact .inr ⟨_, _, rfl, rfl, Option.some.inj h⟩
    | exact .inl (congrArg _ (Std.LawfulEqCmp.eq_of_compare (Option.some.inj h)))
    | exact .inl (congrArg _ (String.toList_injective
        (Std.LawfulEqOrd.eq_of_compare (Option.some.inj h))))

/-- A value of a typed kind is equal to a text exactly if the text is read as the value. -/
theorem compareLiteral_eq {v : Value} {t : SqlType} {s : String} (ht : literalType? v = some t) :
    compareLiteral v t s = .ok .eq ↔ cast (.text s) t = .ok v := by
  have hself : sameKindOrder? v v = some .eq := by
    cases v <;> cases ht <;> exact congrArg some Std.ReflCmp.compare_self
  unfold compareLiteral
  cases cast (.text s) t with
  | error why => simp
  | ok w =>
      rw [Except.ok.injEq]
      constructor
      · intro h
        cases ho : sameKindOrder? v w with
        | none => simp [ho] at h
        | some o =>
            simp only [ho, Except.ok.injEq] at h
            rcases eq_or_texts (h ▸ ho) with he | ⟨s, -, hs, -⟩
            · exact he.symm
            · cases v <;> cases ht <;> cases hs
      · rintro rfl
        simp only [hself]

/-- Numbers of one kind that are not told apart are the same. -/
theorem same_of_numbers {v w : Value} {x y : Number} (hv : Number.ofValue? v = some x)
    (hw : Number.ofValue? w = some y) (hkind : v.kind = w.kind) (h : x.compare? y = some .eq) :
    same v w = true := by
  have hint : ∀ {i j : Int}, Ord.compare i j = .eq → i = j := Std.LawfulEqOrd.eq_of_compare
  cases v <;> cases hv <;> cases w <;> cases hw <;> first | (simp [kind] at hkind; done) | skip
  case smallInt.refl.smallInt.refl i j =>
    have he : i.toInt64.toInt = j.toInt64.toInt := hint (Option.some.inj h)
    rw [Int16.toInt_toInt64, Int16.toInt_toInt64, Int16.toInt_inj] at he
    exact decide_eq_true (congrArg smallInt he)
  case integer.refl.integer.refl i j =>
    exact decide_eq_true (congrArg integer (Int64.toInt_inj.mp (hint (Option.some.inj h))))
  case real.refl.real.refl x y => exact beq_iff_eq.mpr h
  case numeric.refl.numeric.refl d e => exact beq_iff_eq.mpr (Option.some.inj h)

theorem same_self {v : Value} (h : Number.ofValue? v = none) : same v v = true := by
  cases v <;> first | rfl | exact decide_eq_true rfl | cases h

theorem same_of_kind_ne {v w : Value} (h : v.kind ≠ w.kind) : same v w = false := by
  unfold same
  split
  · exact absurd rfl h
  · exact absurd rfl h
  · exact decide_eq_false fun he => h (congrArg kind he)

theorem compare?_literal {v : Value} {t : SqlType} (ht : literalType? v = some t) (s : String) :
    v.compare? (.text s) = (compareLiteral v t s).map some := by
  cases v <;> cases ht <;> rfl

/-- A value of a typed kind and a text are of different kinds. -/
theorem kind_ne_text {v : Value} {t : SqlType} (ht : literalType? v = some t) (s : String) :
    v.kind ≠ (Value.text s).kind := by
  cases v <;> cases ht <;> simp [kind]

/-- What makes values equal that are not the same. -/
theorem Disguised.compare? {v w : Value} (h : v.Disguised w) :
    v.compare? w = .ok (some .eq) ∧ same v w = false := by
  have hread : ∀ {v : Value} {t : SqlType} {s : String}, literalType? v = some t →
      cast (.text s) t = .ok v → v.compare? (.text s) = .ok (some .eq) := by
    intro v t s ht h
    rw [compare?_literal ht, (compareLiteral_eq ht).mpr h]
    rfl
  cases h with
  | blanks h =>
      obtain ⟨s, t, hs, ht, hne, htrim⟩ := h
      rw [compare?_text hs ht, compareText_eq.mpr htrim]
      refine ⟨rfl, ?_⟩
      cases v <;> cases hs <;> cases w <;> cases ht <;> exact decide_eq_false hne
  | numbers hv hw hkind h =>
      rw [compare?_numbers hv hw, h]
      exact ⟨rfl, same_of_kind_ne hkind⟩
  | read ht h => exact ⟨hread ht h, same_of_kind_ne (kind_ne_text ht _)⟩
  | reads ht h => exact ⟨compare?_swap (hread ht h), same_of_kind_ne (kind_ne_text ht _).symm⟩

/-- Different values that are not both numbers. -/
theorem Disguised.of_comparePlain {v w : Value} (hne : v ≠ w) (h : comparePlain v w = .ok .eq) :
    v.Disguised w := by
  rcases comparePlain_cases v w with ⟨o, ho, hvw⟩ | ⟨t, s, ht, rfl⟩ | ⟨t, s, ht, rfl⟩ | ⟨hvw, -⟩
  · rw [hvw] at h
    cases h
    rcases eq_or_texts ho with he | ⟨s, t, hs, ht, hst⟩
    · exact absurd he hne
    · exact .blanks ⟨s, t, hs, ht, hne, compareText_eq.mp hst⟩
  · rw [comparePlain_literal ht] at h
    exact .read ht ((compareLiteral_eq ht).mp h)
  · rw [comparePlain_text ht] at h
    obtain ⟨o, ho, hswap⟩ := map_eq_ok.mp h
    have heq : o = .eq := by cases o <;> first | rfl | cases hswap
    exact .reads ht ((compareLiteral_eq ht).mp (heq ▸ ho))
  · rw [hvw] at h
    cases h

theorem Disguised.of_plain {v w : Value} (hnull : (v.isNull || w.isNull) = false)
    (hplain : Number.ofValue? v = none ∨ Number.ofValue? w = none)
    (h : v.compare? w = .ok (some .eq)) (hsame : same v w = false) : v.Disguised w := by
  rw [compare?_plain hnull hplain] at h
  obtain ⟨o, ho, heq⟩ := map_eq_ok.mp h
  cases heq
  refine .of_comparePlain ?_ ho
  rintro rfl
  rw [same_self (hplain.elim id id)] at hsame
  cases hsame

/-- Values that are equal are the same or disguised. -/
theorem Disguised.of_compare? {v w : Value} (h : v.compare? w = .ok (some .eq))
    (hsame : same v w = false) : v.Disguised w := by
  have hnull : (v.isNull || w.isNull) = false := by
    cases hn : v.isNull || w.isNull with
    | false => rfl
    | true =>
        rw [Value.compare?, hn] at h
        cases h
  cases hx : Number.ofValue? v with
  | none => exact of_plain hnull (.inl hx) h hsame
  | some x =>
      cases hy : Number.ofValue? w with
      | none => exact of_plain hnull (.inr hy) h hsame
      | some y =>
          rw [compare?_numbers hx hy, Except.ok.injEq] at h
          refine .numbers hx hy (fun hkind => ?_) h
          rw [same_of_numbers hx hy hkind h] at hsame
          cases hsame

theorem isNull_of_same {v w : Value} (h : same v w = true) : v.isNull = w.isNull := by
  unfold same at h
  split at h
  · rfl
  · rfl
  · rw [of_decide_eq_true h]

/-- Values that are the same are equal, but for NULL. -/
theorem equal_of_same {v w : Value} (hnull : v.isNull = false) (h : same v w = true) :
    operate .eq v w = .ok (.boolean true) := by
  rw [operate_eq_true]
  unfold same at h
  split at h
  · rename_i x y
    exact congrArg Except.ok (beq_iff_eq.mp h)
  · rename_i d e
    exact congrArg (fun o => Except.ok (some o)) (beq_iff_eq.mp h)
  · rename_i hreal _
    obtain rfl := of_decide_eq_true h
    have hfamily : ∃ F : Family, F.Has v := by
      cases v <;>
        first
        | (cases hnull; done)
        | exact (hreal _ _ rfl rfl).elim
        | exact ⟨_, by constructor⟩
    obtain ⟨F, hF⟩ := hfamily
    exact F.totalPreorder.equal v hF

/-- Of values that are not the same, the operator `=` takes the disguised ones for equal. -/
theorem equal_iff_disguised {v w : Value} (hsame : same v w = false) :
    operate .eq v w = .ok (.boolean true) ↔ v.Disguised w := by
  rw [operate_eq_true]
  exact ⟨fun h => .of_compare? h hsame, fun h => h.compare?.1⟩

/-- The kind of the values in a column of a type. -/
theorem kind_of_isOf {t : SqlType} {v w : Value} (hv : v.isOf t = true) (hw : w.isOf t = true)
    (hvn : v.isNull = false) (hwn : w.isNull = false) : v.kind = w.kind := by
  cases t <;> cases v <;> first | cases hv; done | cases hvn; done | skip
  all_goals cases w <;> first | rfl | cases hw; done | cases hwn

end Value

/-- The types that store texts. -/
def SqlType.isText : SqlType → Bool
  | .text | .varchar _ | .char _ => true
  | _ => false

/-- In a column that only has values of its type, the disguised ones are texts. -/
theorem Value.Disguised.of_typed {t : SqlType} {v w : Value} (h : v.Disguised w)
    (hv : v.isOf t = true) (hw : w.isOf t = true) : t.isText = true ∧ v.BlanksApart w := by
  cases h with
  | blanks h =>
      obtain ⟨s, -, hs, -⟩ := id h
      refine ⟨?_, h⟩
      cases v <;> cases hs <;> cases t <;> first | rfl | cases hv
  | numbers hx hy hkind h =>
      refine absurd (kind_of_isOf hv hw ?_ ?_) hkind
      · cases v <;> first | rfl | cases hx
      · cases w <;> first | rfl | cases hy
  | read ht h =>
      refine absurd (kind_of_isOf hv hw ?_ rfl) (kind_ne_text ht _)
      cases v <;> first | rfl | cases ht
  | reads ht h =>
      refine absurd (kind_of_isOf hw hv ?_ rfl) (kind_ne_text ht _)
      cases w <;> first | rfl | cases ht

/-! ## Filling a table -/

namespace Table

/-- The table after an attempt to insert a row. -/
def attempt (t : Table) (row : Row) : Table :=
  match t.insert row with
  | .ok t' => t'
  | .error _ => t

/-- The table after an attempt to insert each of the rows, one after the other. -/
def filled (t : Table) (rows : List Row) : Table := rows.foldl attempt t

/-- What every accepted row keeps holds at the end. -/
theorem filled_keeps {P : Table → Prop} {rows : List Row}
    (hstep : ∀ u u' row, row ∈ rows → P u → u.insert row = .ok u' → P u') {t : Table} (h : P t) :
    P (t.filled rows) := by
  induction rows generalizing t with
  | nil => exact h
  | cons row rows ih =>
      refine ih (fun u u' r hr => hstep u u' r (List.mem_cons_of_mem _ hr)) ?_
      unfold attempt
      split
      · exact hstep t _ row List.mem_cons_self h ‹_›
      · exact h

theorem filled_valid {t : Table} (h : t.Valid) (rows : List Row) :
    (t.filled rows).Valid ∧ (t.filled rows).columns = t.columns := by
  refine filled_keeps (P := fun u => u.Valid ∧ u.columns = t.columns) ?_ ⟨h, rfl⟩
  rintro u u' row - ⟨hu, hcolumns⟩ hi
  refine ⟨insert_valid hu hi, ?_⟩
  obtain ⟨-, -, i, -, -, -, rfl⟩ := insert_spec hi
  exact hcolumns

theorem filled_typed {t : Table} (h : t.Typed) {rows : List Row}
    (hrows : ∀ row ∈ rows, rowOf t.types row = true) : (t.filled rows).Typed := by
  have hkept : (t.filled rows).Typed ∧ (t.filled rows).types = t.types := by
    refine filled_keeps (P := fun u => u.Typed ∧ u.types = t.types) ?_ ⟨h, rfl⟩
    rintro u u' row hrow ⟨hu, htypes⟩ hi
    exact ⟨hu.insert (htypes ▸ hrows row hrow) hi, (insert_types hi).trans htypes⟩
  exact hkept.1

theorem rowOf_getElem {ts : List SqlType} {row : Row} (h : rowOf ts row = true) {i : Nat}
    {t : SqlType} {v : Value} (ht : ts[i]? = some t) (hv : row[i]? = some v) : v.isOf t = true := by
  induction ts generalizing row i with
  | nil => cases ht
  | cons u ts ih =>
      cases row with
      | nil => cases hv
      | cons w row =>
          rw [rowOf, Bool.and_eq_true] at h
          cases i with
          | zero =>
              cases ht
              cases hv
              exact h.1
          | succ i => exact ih h.2 ht hv

/-- A relation holds between the values that any two rows have in a column, the first row standing
before the second. -/
def EachPair (t : Table) (i : Nat) (p : Value → Value → Prop) : Prop :=
  t.rows.Pairwise fun r s => ∀ v w, r[i]? = some v → s[i]? = some w → p v w

/-- There is one column for each name. -/
theorem Valid.column_only {t : Table} (h : t.Valid) {i j : Nat} {c d : Column}
    (hc : t.columns[i]? = some c) (hd : t.columns[j]? = some d) (hname : c.name = d.name) :
    i = j := by
  obtain ⟨hi, rfl⟩ := List.getElem?_eq_some_iff.mp hc
  obtain ⟨hj, rfl⟩ := List.getElem?_eq_some_iff.mp hd
  have hapart := List.pairwise_iff_getElem.mp h.names
  rcases Nat.lt_trichotomy i j with hlt | he | hgt
  · have hne := hapart i j hi hj hlt
    rw [hname, sameName_refl] at hne
    cases hne
  · exact he
  · have hne := hapart j i hj hi hgt
    rw [hname, sameName_refl] at hne
    cases hne

/-- In a unique column the operator `=` takes just the disguised values for equal. -/
theorem Valid.equal_iff {t : Table} (h : t.Valid) {i : Nat} {c : Column}
    (hc : t.columns[i]? = some c) (hu : c.unique = true) :
    t.EachPair i fun v w => Value.operate .eq v w = .ok (.boolean true) ↔ v.Disguised w := by
  refine ((h.admissible i c hc).2 hu).imp fun {r s} hrs v w hv hw => ?_
  cases hn : w.isNull with
  | false => exact Value.equal_iff_disguised (hrs v w hv hw hn)
  | true =>
      have hnull : v.compare? w = .ok none := by
        rw [Value.compare?, hn, Bool.or_true, if_pos rfl]
      constructor
      · intro he
        rw [Value.operate_eq_true, hnull] at he
        cases he
      · intro hd
        rw [hd.compare?.1] at hnull
        cases hnull

/-- The fault of a row is that of one of its values. -/
theorem rowFault_some {rows : List Row} {k : Nat} {cs : List Column} {row : Row} {e : Fault}
    (h : rowFault? rows k cs row = some e) :
    ∃ (i : Nat) (c : Column) (v : Value), cs[i]? = some c ∧ row[i]? = some v ∧
      columnFault? rows (k + i) c v = some e := by
  induction cs generalizing k row with
  | nil => cases row <;> cases h
  | cons c cs ih =>
      cases row with
      | nil => cases h
      | cons v row =>
          unfold rowFault? at h
          split at h
          · rename_i hv
            exact ⟨0, c, v, rfl, rfl, hv.trans h⟩
          · obtain ⟨i, d, w, hd, hw, hfault⟩ := ih h
            have hnext : k + 1 + i = k + (i + 1) := by omega
            exact ⟨i + 1, d, w, hd, hw, hnext ▸ hfault⟩

/-- A value is a duplicate in a unique column if a row has a value there that is the same. -/
theorem columnFault_unique {rows : List Row} {i : Nat} {c : Column} {v : Value} {name text : String}
    (h : columnFault? rows i c v = some (.unique name text)) :
    c.name = name ∧ c.unique = true ∧
      ∃ r ∈ rows, ∃ w, r[i]? = some w ∧ Value.operate .eq w v = .ok (.boolean true) := by
  unfold columnFault? at h
  split at h
  · split at h <;> cases h
  · rename_i hv
    split at h
    · rename_i hfault
      cases h
      rw [Bool.and_eq_true, Bool.and_eq_true, List.any_eq_true] at hfault
      obtain ⟨⟨hunique, -⟩, r, hr, hsame⟩ := hfault
      refine ⟨rfl, hunique, r, hr, ?_⟩
      cases hw : r[i]? with
      | none => simp [hw] at hsame
      | some w =>
          rw [hw, Option.map_some, Option.getD_some] at hsame
          have hnull : w.isNull = false := by
            rw [Value.isNull_of_same hsame]
            exact Bool.eq_false_of_not_eq_true hv
          exact ⟨w, rfl, Value.equal_of_same hnull hsame⟩
    · cases h

/-- A row is refused as a duplicate if it has such a value. -/
theorem insert_unique {t : Table} {row : Row} {name text : String}
    (h : t.insert row = .error (.unique name text)) :
    ∃ (i : Nat) (c : Column) (v : Value), t.columns[i]? = some c ∧ c.name = name ∧
      c.unique = true ∧ row[i]? = some v ∧
        ∃ r ∈ t.rows, ∃ w, r[i]? = some w ∧ Value.operate .eq w v = .ok (.boolean true) := by
  have hrowtime : t.rowtimeOf row ≠ .error (.unique name text) := by
    unfold rowtimeOf
    simp only
    split
    · split
      · simp
      · split <;> simp
    · simp
  unfold insert at h
  split at h
  · cases h
  · split at h
    · rename_i e hfault
      cases h
      obtain ⟨i, c, v, hc, hv, hcolumn⟩ := rowFault_some hfault
      rw [Nat.zero_add] at hcolumn
      obtain ⟨hname, hunique, hr⟩ := columnFault_unique hcolumn
      exact ⟨i, c, v, hc, hname, hunique, hv, hr⟩
    · split at h
      · rename_i e he
        cases h
        exact absurd he hrowtime
      · cases h

/-- The rows of a table that was created and filled differ in every unique column, as far as the
operator `=` tells values apart that are not the same. If the rows have values of the column types,
it does so but for texts that differ in the blanks at their end only. And a row is refused as a
duplicate only when it has a value that is equal to a stored one. -/
theorem unique_but_for_blanks {name : String} {columns : List Column} {t : Table}
    (h : create name columns = .ok t) (rows : List Row) {i : Nat} {c : Column}
    (hc : t.columns[i]? = some c) (hu : c.unique = true) :
    ((t.filled rows).EachPair i fun v w =>
        Value.operate .eq v w = .ok (.boolean true) ↔ v.Disguised w) ∧
      ((∀ row ∈ rows, rowOf t.types row = true) → (t.filled rows).EachPair i fun v w =>
        Value.operate .eq v w = .ok (.boolean true) ↔ c.type.isText = true ∧ v.BlanksApart w) ∧
      ∀ row text, (t.filled rows).insert row = .error (.unique c.name text) →
        ∃ v, row[i]? = some v ∧ ∃ r ∈ (t.filled rows).rows, ∃ w, r[i]? = some w ∧
          Value.operate .eq w v = .ok (.boolean true) := by
  obtain ⟨hvalid, -, hnone⟩ := create_spec h
  obtain ⟨hfilled, hcolumns⟩ := filled_valid hvalid rows
  rw [← hcolumns] at hc
  have hequal := hfilled.equal_iff hc hu
  refine ⟨hequal, fun hrows => ?_, fun row text hrefused => ?_⟩
  · have htyped : (t.filled rows).Typed := filled_typed (by simp [Typed, hnone]) hrows
    have htype : (t.filled rows).types[i]? = some c.type := by
      rw [types, List.getElem?_map, hc, Option.map_some]
    refine hequal.imp_of_mem fun {r s} hr hs hrs v w hv hw => (hrs v w hv hw).trans ?_
    exact ⟨fun hd => hd.of_typed (rowOf_getElem (htyped r hr) htype hv)
      (rowOf_getElem (htyped s hs) htype hw), fun hd => .blanks hd.2⟩
  · obtain ⟨j, d, v, hd, hname, -, hv, hstored⟩ := insert_unique hrefused
    obtain rfl := hfilled.column_only hd hc hname
    exact ⟨v, hv, hstored⟩

/-- A table with a unique column of codes, and a unique column of weights. -/
def weighed : Table :=
  ⟨"t", [.rowtime, ⟨"code", .char 2, false, false, true, none⟩,
    ⟨"weight", .real, true, false, true, none⟩], [], 0, 0⟩

/-- The second code differs from the first in the blank at its end. The weights of the first and the
third row are the two zeros. -/
def weighedRows : List Row :=
  [[.integer 10, .char "a ", .real (.zero false)], [.integer 20, .char "a\t", .null],
    [.integer 30, .char "b ", .real (.zero true)]]

theorem unique_but_for_blanks_weighed :
    (weighed.filled weighedRows).rows = weighedRows.take 2 ∧
      ((weighed.filled weighedRows).EachPair 2 fun v w =>
        Value.operate .eq v w = .ok (.boolean true) ↔
          SqlType.real.isText = true ∧ v.BlanksApart w) ∧
      ∃ r ∈ (weighed.filled weighedRows).rows, ∃ w, r[2]? = some w ∧
        Value.operate .eq w (.real (.zero true)) = .ok (.boolean true) := by
  have hcreate : create "t" (weighed.columns.drop 1) = .ok weighed := by decide +kernel
  have hrows : ∀ row ∈ weighedRows, rowOf weighed.types row = true := by decide +kernel
  have hweight : weighed.columns[2]? = some ⟨"weight", .real, true, false, true, none⟩ := rfl
  have hrefused : (weighed.filled weighedRows).insert
      [.integer 30, .char "b ", .real (.zero true)] = .error (.unique "weight" "-0") := by
    decide +kernel
  obtain ⟨-, htyped, honly⟩ := unique_but_for_blanks hcreate weighedRows hweight rfl
  obtain ⟨v, hv, hstored⟩ := honly _ _ hrefused
  cases hv
  exact ⟨by decide +kernel, htyped hrows, hstored⟩

/-- Two texts that are equal come to stand in a unique column. -/
theorem unique_column_equal_texts :
    create "t" [⟨"v", .text, true, false, true, none⟩] =
        .ok ⟨"t", [.rowtime, ⟨"v", .text, true, false, true, none⟩], [], 0, 0⟩ ∧
      (filled ⟨"t", [.rowtime, ⟨"v", .text, true, false, true, none⟩], [], 0, 0⟩
          [[.integer 10, .text "a"], [.integer 20, .text "a "]]).rows =
        [[.integer 10, .text "a"], [.integer 20, .text "a "]] ∧
      Value.operate .eq (.text "a") (.text "a ") = .ok (.boolean true) := by
  decide +kernel

end Table

end Rowtime
