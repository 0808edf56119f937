import Rowtime.Proofs.Evaluation
import Rowtime.Proofs.Windows

/-!
# Lists and ranges as abbreviations

A test for a list of alternatives stands for equalities joined by OR, and a test for a range stands
for two comparisons joined by AND. Each is evaluated by a rule of its own, with other points at
which it looks no further, and NULL may stand anywhere. Where the long form of a list has a value,
the test has the same value, and where a test for a range has a value, its long form has the same;
the negated tests have the value of NOT.

The other directions do not hold. A list is not looked at when its operand is NULL, and the long
form of a range looks no further than a first comparison that is false.
-/
namespace Rowtime.Sql.Expr

/-! ## Connectives -/

theorem eval_or (l r : Expr) (ctx : Context) :
    (binary .or l r).eval ctx = (l.truthAt ctx >>= fun a =>
      if a == some true then .ok (.boolean true)
      else r.truthAt ctx >>= fun b => .ok (Value.ofTruth (Value.orTruth a b))) := by
  unfold truthAt
  rw [eval, bind_assoc]
  congr 1
  funext v
  congr 1
  funext a
  split
  · rfl
  · rw [bind_assoc]
    rfl

theorem eval_and (l r : Expr) (ctx : Context) :
    (binary .and l r).eval ctx = (l.truthAt ctx >>= fun a =>
      if a == some false then .ok (.boolean false)
      else r.truthAt ctx >>= fun b => .ok (Value.ofTruth (Value.andTruth a b))) := by
  unfold truthAt
  rw [eval, bind_assoc]
  congr 1
  funext v
  congr 1
  funext a
  split
  · rfl
  · rw [bind_assoc]
    rfl

/-- NOT applied to a truth. -/
theorem eval_not_ofTruth (t : Option Bool) (ctx : Context) :
    (unary .not (literal (Value.ofTruth t))).eval ctx = .ok (Value.ofTruth (Value.notTruth t)) := by
  cases t <;> rfl

variable {x i l h d : Expr} {items : List Expr} {ctx : Context} {v r : Value} {t : Option Bool}

/-! ## Lists -/

/-- The operand equals one of the items: equalities joined by OR, grouped in any way. -/
inductive EqualsAny (x : Expr) : List Expr → Expr → Prop where
  | equal (i : Expr) : EqualsAny x [i] (.binary .eq x i)
  | or {is js : List Expr} {d e : Expr} (hd : EqualsAny x is d) (he : EqualsAny x js e) :
      EqualsAny x (is ++ js) (.binary .or d e)

/-- `x = i OR x = j OR …`, grouped to the left as it is without parentheses. -/
def equalities (x i : Expr) (is : List Expr) : Expr :=
  is.foldl (fun d j => .binary .or d (.binary .eq x j)) (.binary .eq x i)

theorem EqualsAny.equalities (x i : Expr) (is : List Expr) :
    EqualsAny x (i :: is) (equalities x i is) := by
  have hchain : ∀ {js : List Expr} {d : Expr}, EqualsAny x js d →
      EqualsAny x (js ++ is) (is.foldl (fun d j => .binary .or d (.binary .eq x j)) d) := by
    induction is with
    | nil =>
        intro js d hd
        rwa [List.append_nil]
    | cons j is ih =>
        intro js d hd
        have hnext := ih (hd.or (.equal j))
        rwa [List.append_assoc] at hnext
  exact hchain (.equal i)

theorem operate_comparison {op : BinaryOp} (hop : op.isComparison = true) (v w : Value) :
    Value.operate op v w =
      (v.compare? w >>= fun o => .ok (Value.ofTruth (o.map (Value.satisfies op)))) := by
  rw [Value.operate, if_pos hop]
  cases v.compare? w <;> rfl

/-- The operand and the item of an equality that has a value, and their order. -/
theorem eval_equal_ok (hd : (binary .eq x i).eval ctx = .ok r) :
    ∃ v w o, x.eval ctx = .ok v ∧ i.eval ctx = .ok w ∧ v.compare? w = .ok o ∧
      r = Value.ofTruth (o.map (· == .eq)) := by
  rw [eval_strict (by decide) (by decide)] at hd
  obtain ⟨v, hv, hd⟩ := bind_eq_ok.mp hd
  obtain ⟨w, hw, hd⟩ := bind_eq_ok.mp hd
  rw [operate_comparison rfl] at hd
  obtain ⟨o, ho, hd⟩ := bind_eq_ok.mp hd
  exact ⟨v, w, o, hv, hw, ho, (Except.ok.inj hd).symm⟩

/-- The truths of both sides of a disjunction that has a value. Behind a first side that is true the
second is not looked at. -/
theorem eval_or_ok {e : Expr} (hd : (binary .or d e).eval ctx = .ok r) :
    ∃ a, d.truthAt ctx = .ok a ∧ (a = some true ∧ r = Value.ofTruth (some true) ∨
      a ≠ some true ∧ ∃ b, e.truthAt ctx = .ok b ∧ r = Value.ofTruth (Value.orTruth a b)) := by
  rw [eval_or] at hd
  obtain ⟨a, ha, hd⟩ := bind_eq_ok.mp hd
  refine ⟨a, ha, ?_⟩
  split at hd
  · rename_i htrue
    exact .inl ⟨by simpa using htrue, (Except.ok.inj hd).symm⟩
  · rename_i htrue
    obtain ⟨b, hb, hd⟩ := bind_eq_ok.mp hd
    exact .inr ⟨by simpa using htrue, b, hb, (Except.ok.inj hd).symm⟩

/-- Equalities joined by OR have a truth where they have a value. -/
theorem EqualsAny.truthAt_of_eval (hitems : EqualsAny x items d) (hd : d.eval ctx = .ok r) :
    ∃ t, d.truthAt ctx = .ok t ∧ r = Value.ofTruth t := by
  have htruth : ∀ t, r = Value.ofTruth t → d.truthAt ctx = .ok t := by
    rintro t rfl
    rw [truthAt, hd, ok_bind, truth_ofTruth]
  cases hitems with
  | equal i =>
      obtain ⟨v, w, o, -, -, -, hr⟩ := eval_equal_ok hd
      exact ⟨_, htruth _ hr, hr⟩
  | or _ _ =>
      obtain ⟨a, -, ⟨-, hr⟩ | ⟨-, b, -, hr⟩⟩ := eval_or_ok hd
      · exact ⟨_, htruth _ hr, hr⟩
      · exact ⟨_, htruth _ hr, hr⟩

/-- What a search through a list comes to behind items that came to a truth: it ends at an item that
equals the value, and an equality that is unknown is remembered. -/
def foundBehind (v : Value) (negated unknown : Bool) (rest : List Expr) (ctx : Context) :
    Option Bool → Except Fault Value
  | some true => .ok (.boolean !negated)
  | some false => evalIn v negated unknown rest ctx
  | none => evalIn v negated true rest ctx

/-- Equalities joined by OR have a truth only where their operand has a value, and the search
through their items follows the truth. -/
theorem EqualsAny.search (hitems : EqualsAny x items d) (hd : d.truthAt ctx = .ok t) :
    ∃ v, x.eval ctx = .ok v ∧ ∀ negated unknown rest,
      evalIn v negated unknown (items ++ rest) ctx = foundBehind v negated unknown rest ctx t := by
  obtain ⟨r, hr, ht⟩ := bind_eq_ok.mp hd
  induction hitems generalizing t r with
  | equal i =>
      obtain ⟨v, w, o, hv, hw, ho, rfl⟩ := eval_equal_ok hr
      rw [truth_ofTruth] at ht
      obtain rfl := Except.ok.inj ht
      refine ⟨v, hv, fun negated unknown rest => ?_⟩
      rw [List.singleton_append, evalIn, hw, ok_bind, ho, ok_bind]
      obtain _ | _ | _ | _ := o <;> rfl
  | or _ _ ihd ihe =>
      obtain ⟨a, ha, hsides⟩ := eval_or_ok hr
      obtain ⟨s, hs, hsa⟩ := bind_eq_ok.mp ha
      obtain ⟨v, hv, hleft⟩ := ihd ha s hs hsa
      refine ⟨v, hv, fun negated unknown rest => ?_⟩
      rw [List.append_assoc, hleft]
      obtain ⟨rfl, rfl⟩ | ⟨hne, b, hb, rfl⟩ := hsides
      · rw [truth_ofTruth] at ht
        obtain rfl := Except.ok.inj ht
        rfl
      · obtain ⟨u, hu, hub⟩ := bind_eq_ok.mp hb
        obtain ⟨w, hw, hright⟩ := ihe hb u hu hub
        obtain rfl := Except.ok.inj (hv.symm.trans hw)
        rw [truth_ofTruth] at ht
        obtain rfl := Except.ok.inj ht
        -- A first side that is not true is false or unknown; the second goes on from there.
        obtain _ | _ | _ := a
        · rw [foundBehind, hright]
          obtain _ | _ | _ := b <;> rfl
        · rw [foundBehind, hright]
          obtain _ | _ | _ := b <;> rfl
        · exact absurd rfl hne

/-- Nothing equals NULL. -/
theorem EqualsAny.unknown (hitems : EqualsAny x items d) (hx : x.eval ctx = .ok .null)
    (hd : d.truthAt ctx = .ok t) : t = none := by
  obtain ⟨r, hr, ht⟩ := bind_eq_ok.mp hd
  induction hitems generalizing t r with
  | equal i =>
      obtain ⟨v, w, o, hv, -, ho, rfl⟩ := eval_equal_ok hr
      obtain rfl := Except.ok.inj (hx.symm.trans hv)
      obtain rfl : none = o := Except.ok.inj ho
      exact (Except.ok.inj ht).symm
  | or _ _ ihd ihe =>
      obtain ⟨a, ha, hsides⟩ := eval_or_ok hr
      obtain ⟨s, hs, hsa⟩ := bind_eq_ok.mp ha
      obtain rfl := ihd ha s hs hsa
      obtain ⟨habsurd, -⟩ | ⟨-, b, hb, rfl⟩ := hsides
      · cases habsurd
      · obtain ⟨u, hu, hub⟩ := bind_eq_ok.mp hb
        obtain rfl := ihe hb u hu hub
        exact (Except.ok.inj ht).symm

theorem eval_inList (n : Bool) (x : Expr) (items : List Expr) (ctx : Context) :
    (inList n x items).eval ctx =
      (x.eval ctx >>= fun v => if v.isNull then .ok .null else evalIn v n false items ctx) := by
  rw [eval]
  rfl

/-- The test for a list has the truth of the equalities, and the negated one that of NOT. -/
theorem EqualsAny.eval_inList (hitems : EqualsAny x items d) (hd : d.truthAt ctx = .ok t)
    (n : Bool) : (inList n x items).eval ctx =
      .ok (Value.ofTruth (if n then Value.notTruth t else t)) := by
  obtain ⟨v, hv, hsearch⟩ := hitems.search hd
  rw [Expr.eval_inList, hv, ok_bind]
  split
  · rename_i hnull
    obtain rfl : v = .null := by cases v <;> first | rfl | cases hnull
    obtain rfl := hitems.unknown hv hd
    cases n <;> rfl
  · have hall := hsearch n false []
    rw [List.append_nil] at hall
    rw [hall]
    obtain _ | _ | _ := t <;> cases n <;> rfl

/-! ## Ranges -/

/-- The operands of a test for a range that has a value, and the truths of both comparisons. -/
theorem eval_between_ok {n : Bool} (hd : (between n x l h).eval ctx = .ok r) :
    ∃ above below, (binary .ge x l).truthAt ctx = .ok above ∧
      (binary .le x h).truthAt ctx = .ok below ∧
      ∀ m, (between m x l h).eval ctx = .ok (Value.ofTruth
        (if m then Value.notTruth (Value.andTruth above below)
          else Value.andTruth above below)) := by
  rw [eval] at hd
  obtain ⟨v, hv, hd⟩ := bind_eq_ok.mp hd
  obtain ⟨a, ha, hd⟩ := bind_eq_ok.mp hd
  obtain ⟨b, hb, hd⟩ := bind_eq_ok.mp hd
  obtain ⟨s, hs, hd⟩ := bind_eq_ok.mp hd
  obtain ⟨above, habove, hd⟩ := bind_eq_ok.mp hd
  obtain ⟨u, hu, hd⟩ := bind_eq_ok.mp hd
  obtain ⟨below, hbelow, -⟩ := bind_eq_ok.mp hd
  refine ⟨above, below, ?_, ?_, fun m => ?_⟩
  · rw [truthAt, eval_strict (by decide) (by decide), hv, ok_bind, ha, ok_bind, hs]
    exact habove
  · rw [truthAt, eval_strict (by decide) (by decide), hv, ok_bind, hb, ok_bind, hu]
    exact hbelow
  · rw [eval, hv, ok_bind, ha, ok_bind, hb, ok_bind, hs, ok_bind, habove, ok_bind, hu, ok_bind,
      hbelow, ok_bind]
    rfl

/-- Where equalities joined by OR have a value, the test for their items has the same, and its
negation has the value of NOT. Where a test for a range has a value, its two comparisons joined by
AND have the same, and the negated test has the value of NOT. -/
theorem abbreviated (ctx : Context) (x : Expr) :
    (∀ items d r, EqualsAny x items d → d.eval ctx = .ok r →
        (inList false x items).eval ctx = .ok r ∧
        ∃ s, (unary .not (literal r)).eval ctx = .ok s ∧ (inList true x items).eval ctx = .ok s) ∧
      ∀ l h r, (between false x l h).eval ctx = .ok r →
        (binary .and (binary .ge x l) (binary .le x h)).eval ctx = .ok r ∧
        ∃ s, (unary .not (literal r)).eval ctx = .ok s ∧ (between true x l h).eval ctx = .ok s := by
  constructor
  · intro items d r hitems hd
    obtain ⟨t, ht, rfl⟩ := hitems.truthAt_of_eval hd
    exact ⟨hitems.eval_inList ht false, _, eval_not_ofTruth t ctx, hitems.eval_inList ht true⟩
  · intro l h r hd
    obtain ⟨above, below, habove, hbelow, hbetween⟩ := eval_between_ok hd
    obtain rfl := Except.ok.inj (hd.symm.trans (hbetween false))
    refine ⟨?_, _, eval_not_ofTruth _ ctx, hbetween true⟩
    rw [eval_and, habove, ok_bind]
    split
    · rename_i hfalse
      rw [beq_iff_eq] at hfalse
      subst hfalse
      rfl
    · rw [hbelow, ok_bind]
      rfl

/-- A row in which `v` is two. -/
def rowOfTwo : Context := .ofRow [⟨none, "v"⟩] [.integer 2]

/-- Items behind the one that is equal are not compared, though a text is among them, and a NULL
does not matter where another item is equal, or where the other bound is not kept. -/
theorem abbreviated_nulls :
    let v := column ⟨none, "v"⟩
    let items := [literal .null, literal (.smallInt 2), literal (.text "a")]
    let three := literal (.integer 3)
    (inList false v items).eval rowOfTwo = .ok (.boolean true) ∧
      (inList true v items).eval rowOfTwo = .ok (.boolean false) ∧
      (binary .and (binary .ge v three) (binary .le v (literal .null))).eval rowOfTwo =
        .ok (.boolean false) ∧
      (between true v three (literal .null)).eval rowOfTwo = .ok (.boolean true) := by
  intro v items three
  obtain ⟨hlists, hranges⟩ := abbreviated rowOfTwo v
  have hequal : (equalities v (literal .null)
      [literal (.smallInt 2), literal (.text "a")]).eval rowOfTwo = .ok (.boolean true) := by
    decide +kernel
  have hbetween : (between false v three (literal .null)).eval rowOfTwo = .ok (.boolean false) := by
    decide +kernel
  obtain ⟨hin, s, hs, hnotIn⟩ := hlists _ _ _ (.equalities _ _ _) hequal
  obtain ⟨hand, u, hu, hnotBetween⟩ := hranges _ _ _ hbetween
  obtain rfl := Except.ok.inj hs
  obtain rfl := Except.ok.inj hu
  exact ⟨hin, hnotIn, hand, hnotBetween⟩

/-- A first comparison that is false hides that the second one is refused. -/
example :
    let v := column ⟨none, "v"⟩
    let three := literal (.integer 3)
    let a := literal (.text "a")
    (binary .and (binary .ge v three) (binary .le v a)).eval rowOfTwo = .ok (.boolean false) ∧
      (between false v three a).eval rowOfTwo =
        .error (Value.cannotCompare (.integer 2) (.text "a")) := by
  decide +kernel

end Rowtime.Sql.Expr
