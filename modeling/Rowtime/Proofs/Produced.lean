import Rowtime.Proofs.ReadStatement

/-!
# What the parsers produce

A parser makes only results of some kind (`Makes`) when its parts do, one lemma
for each way of putting parsers together. Every expression and every query that
is read has the form that legible ones have, but for one thing: a quoted name may
be called, and it is written without its quotes. So what is read is legible if
its calls have plain names.

That a subquery without a name does not stand alone in parentheses is not seen
from the parts. It holds because the text of such an item is also that of a
subquery, which is tried first.
-/
namespace Rowtime

open Text

/-! ## Numbers -/

namespace Decimal

open Digits

theorem ofParts?_inv {neg : Bool} {coeff scale : Nat} {d : Decimal}
    (h : ofParts? neg coeff scale = some d) :
    d.coeff = coeff ∧ d.scale = scale ∧ (neg = false → d.negative = false) := by
  rw [ofParts?] at h
  split at h
  · split at h
    · cases h
      exact ⟨rfl, rfl, fun hn => by simp [hn]⟩
    · cases h
  · cases h

/-- A number without sign that can be written. -/
def Plain (d : Decimal) : Prop := d.Legible ∧ d.negative = false

theorem plain_of_parts {coeff scale : Nat} {d : Decimal} (h : ofParts? false coeff scale = some d)
    (k : scale ≠ 0 ∨ 2 ^ 96 ≤ coeff * 10) : d.Plain := by
  obtain ⟨hc, hs, hn⟩ := ofParts?_inv h
  rw [← hc, ← hs] at k
  exact ⟨k, hn rfl⟩

/-- A number that is cut off at a digit that does not fit can be written. -/
theorem close_plain {st : Reading} {c : Char} (hc : isDigit c = true)
    (hs : maxScale ≤ st.scale ∨ coeffLimit ≤ st.coeff * 10 + digit c) {d : Decimal}
    (h : st.close false c = some d) : d.Plain := by
  have hdigit : digit c ≤ 9 := by
    simp only [isDigit, Bool.and_eq_true, decide_eq_true_eq] at hc
    have h9 : c.toNat ≤ 57 := hc.2
    rw [digit]
    omega
  have hmax : maxScale = 28 := rfl
  have hlim : coeffLimit = 2 ^ 96 := rfl
  rw [hmax, hlim] at hs
  simp only [Reading.close, hc, Bool.true_or, Bool.true_and, if_true, decide_eq_true_eq] at h
  split at h
  · rename_i h5
    split at h
    · rename_i hlast
      rw [beq_iff_eq, hlim] at hlast
      split at h
      · cases h
      · exact plain_of_parts h (by omega)
    · exact plain_of_parts h (by omega)
  · exact plain_of_parts h (by omega)

/-- Digits behind the point. -/
theorem run_plain {st : Reading} (hp : st.point = true) (hd : st.digits = true) {r : List Char}
    (hr : r.all isDigit = true) (hs : st.scale ≠ 0 ∨ r ≠ []) {d : Decimal}
    (h : Reading.run false st r = some d) : d.Plain := by
  induction r generalizing st with
  | nil =>
      rw [Reading.run, if_pos hd] at h
      exact plain_of_parts h (hs.imp_right fun hn => absurd rfl hn)
  | cons c r ih =>
      rw [List.all_cons, Bool.and_eq_true] at hr
      rw [Reading.run] at h
      simp only [hp, hd, hr.1, Bool.and_self, Bool.true_and, decide_eq_true_eq, if_true] at h
      split at h
      · rename_i hmax
        exact close_plain hr.1 (Or.inl hmax) h
      · split at h
        · rename_i hlim
          exact close_plain hr.1 (Or.inr hlim) h
        · exact ih rfl rfl hr.2 (Or.inl (by simp)) h

/-- Digits, a point and digits. -/
theorem run_digits_plain {c : Nat} {seen : Bool} {ds part : List Char} (hd : ds.all isDigit = true)
    (hs : seen = true ∨ ds ≠ []) (hp : part.all isDigit = true) (hne : part ≠ []) {d : Decimal}
    (h : Reading.run false ⟨c, 0, false, seen⟩ (ds ++ '.' :: part) = some d) : d.Plain := by
  induction ds generalizing c seen with
  | nil =>
      have hseen : seen = true := hs.resolve_right fun hn => hn rfl
      subst hseen
      rw [List.nil_append, run_point] at h
      exact run_plain rfl rfl hp (Or.inr hne) h
  | cons k ds ih =>
      rw [List.all_cons, Bool.and_eq_true] at hd
      rw [List.cons_append, Reading.run] at h
      simp only [hd.1, Bool.false_and, Bool.false_eq_true, if_false, if_true] at h
      split at h
      · cases h
      · exact ih hd.2 (Or.inl rfl) h

/-- What is read from digits, a point and digits can be written. -/
theorem read?_plain {ds part : List Char} (hd : ds.all isDigit = true) (hn : ds ≠ [])
    (hp : part.all isDigit = true) (hne : part ≠ []) {d : Decimal}
    (h : read? (ds ++ '.' :: part) = some d) : d.Plain := by
  have hmark : ∀ {k : Char}, isDigit k = true → (k == 'e' || k == 'E') = false := by
    intro k hk
    simp only [Bool.or_eq_false_iff, beq_eq_false_iff_ne]
    constructor <;> rintro rfl <;> revert hk <;> decide
  have hscientific : readScientific? (ds ++ '.' :: part) = none := by
    have hdrop : (ds ++ '.' :: part).dropWhile (fun c => !(c == 'e' || c == 'E')) = [] := by
      rw [List.dropWhile_eq_nil_iff]
      intro k hk
      rcases List.mem_append.mp hk with hk | hk
      · rw [hmark (List.all_eq_true.mp hd k hk)]
        rfl
      · rcases List.mem_cons.mp hk with rfl | hk
        · decide
        · rw [hmark (List.all_eq_true.mp hp k hk)]
          rfl
    rw [readScientific?]
    simp only [hdrop]
  rw [read?, hscientific] at h
  cases ds with
  | nil => exact absurd rfl hn
  | cons k ds =>
      have hk : isDigit k = true := by
        rw [List.all_cons, Bool.and_eq_true] at hd
        exact hd.1
      rw [List.cons_append, readPlain?_digits rfl hk, ← List.cons_append] at h
      cases hrun : Reading.run false ⟨0, 0, false, false⟩ (k :: ds ++ '.' :: part) with
      | none =>
          rw [hrun] at h
          cases h
      | some x =>
          rw [hrun] at h
          cases h
          exact run_digits_plain hd (Or.inr hn) hp hne hrun

end Decimal

namespace Sql

/-! ## Calls -/

mutual

/-- Whether every call in the expression has a plain name. -/
def Expr.callsPlain : Expr → Bool
  | .column _ | .literal _ | .aggregateAll .. => true
  | .unary _ e | .isNull _ e | .aggregate _ _ e => e.callsPlain
  | .binary _ l r | .like _ l r => l.callsPlain && r.callsPlain
  | .between _ e l h => e.callsPlain && l.callsPlain && h.callsPlain
  | .inList _ e items => e.callsPlain && Expr.callsPlainList items
  | .call name args => isPlainName name && Expr.callsPlainList args

/-- Whether every call in the expressions has a plain name. -/
def Expr.callsPlainList : List Expr → Bool
  | [] => true
  | e :: r => e.callsPlain && Expr.callsPlainList r

end

theorem Expr.callsPlainList_eq (es : List Expr) : Expr.callsPlainList es = es.all Expr.callsPlain := by
  induction es with
  | nil => rfl
  | cons e es ih => rw [Expr.callsPlainList, ih, List.all_cons]

/-- Whether every call in the item has a plain name. -/
def SelectItem.callsPlain : SelectItem → Bool
  | .expr e _ => e.callsPlain
  | _ => true

/-- Whether every call in the closing clauses has a plain name. -/
def Tail.callsPlain (t : Tail) : Bool := t.orderBy.all fun k => k.expr.callsPlain

/-- Whether every call in the clauses has a plain name. -/
def Clauses.callsPlain (c : Clauses) : Bool :=
  c.projection.all SelectItem.callsPlain && c.condition.all Expr.callsPlain &&
    c.groupBy.all Expr.callsPlain && c.having.all Expr.callsPlain

mutual

/-- Whether every call in the query has a plain name. -/
def Query.callsPlain : Query → Bool
  | .select source c t => FromItem.callsPlainList source && c.callsPlain && t.callsPlain
  | .union l r _ t => l.callsPlain && r.callsPlain && t.callsPlain
  | .paren q => q.callsPlain

/-- Whether every call in the source item has a plain name. -/
def FromItem.callsPlain : FromItem → Bool
  | .table _ _ => true
  | .subquery q _ => q.callsPlain
  | .paren items => FromItem.callsPlainList items
  | .join _ l r on => l.callsPlain && r.callsPlain && on.all Expr.callsPlain

/-- Whether every call in the source items has a plain name. -/
def FromItem.callsPlainList : List FromItem → Bool
  | [] => true
  | x :: r => x.callsPlain && FromItem.callsPlainList r

end

theorem FromItem.callsPlainList_eq (xs : List FromItem) :
    FromItem.callsPlainList xs = xs.all FromItem.callsPlain := by
  induction xs with
  | nil => rfl
  | cons x xs ih => rw [FromItem.callsPlainList, ih, List.all_cons]

namespace Parser

variable {α β : Type}

/-! ## Kinds of results -/

/-- Everything the parser reads is of a kind. -/
def Makes (p : Parser α) (P : α → Prop) : Prop := ∀ s a r, p s = .ok (a, r) → P a

theorem Makes.mono {p : Parser α} {P Q : α → Prop} (h : Makes p P) (k : ∀ a, P a → Q a) : Makes p Q :=
  fun s a r hp => k a (h s a r hp)

theorem Makes.any (p : Parser α) : Makes p fun _ => True := fun _ _ _ _ => trivial

theorem Makes.pure {P : α → Prop} {a : α} (h : P a) : Makes (Pure.pure a : Parser α) P := by
  intro s b r hb
  have he : (Except.ok (a, s) : Except Stop (α × List Char)) = .ok (b, r) := hb
  rw [Except.ok.injEq, Prod.mk.injEq] at he
  exact he.1 ▸ h

/-- What two parsers in a row read. -/
theorem bind_inv {p : Parser α} {f : α → Parser β} {s r : List Char} {b : β}
    (h : (p >>= f) s = .ok (b, r)) : ∃ a t, p s = .ok (a, t) ∧ f a t = .ok (b, r) := by
  change Parser.bind p f s = _ at h
  rw [Parser.bind] at h
  cases hp : p s with
  | error e =>
      rw [hp] at h
      cases h
  | ok x =>
      rw [hp] at h
      exact ⟨x.1, x.2, rfl, h⟩

theorem Makes.bind {p : Parser α} {f : α → Parser β} {P : α → Prop} {Q : β → Prop} (h : Makes p P)
    (k : ∀ a, P a → Makes (f a) Q) : Makes (p >>= f) Q := by
  intro s b r hb
  obtain ⟨a, t, ha, hf⟩ := bind_inv hb
  exact k a (h s a t ha) t b r hf

/-- What is behind a parser whose result does not matter. -/
theorem Makes.behind {p : Parser α} {f : α → Parser β} {Q : β → Prop} (k : ∀ a, Makes (f a) Q) :
    Makes (p >>= f) Q :=
  (Makes.any p).bind fun a _ => k a

theorem Makes.map {p : Parser α} {P : α → Prop} {Q : β → Prop} {f : α → β} (h : Makes p P)
    (k : ∀ a, P a → Q (f a)) : Makes (do return f (← p)) Q :=
  h.bind fun a ha => .pure (k a ha)

theorem orElse_inv {p q : Parser α} {s : List Char} {x : α × List Char} (h : orElse p q s = .ok x) :
    p s = .ok x ∨ (Refuses p s ∧ q s = .ok x) := by
  rw [orElse] at h
  cases hp : p s with
  | error e =>
      rw [hp] at h
      exact Or.inr ⟨⟨e, hp⟩, h⟩
  | ok y =>
      rw [hp] at h
      exact Or.inl h

theorem Makes.orElse {p q : Parser α} {P : α → Prop} (h : Makes p P) (k : Makes q P) :
    Makes (orElse p q) P := by
  intro s a r ha
  rcases orElse_inv ha with hp | ⟨-, hq⟩
  · exact h s a r hp
  · exact k s a r hq

theorem Makes.oneOf {ps : List (Parser α)} {P : α → Prop} (h : ∀ p ∈ ps, Makes p P) :
    Makes (oneOf ps) P := by
  induction ps with
  | nil => exact fun s a r ha => by cases ha
  | cons p ps ih =>
      cases ps with
      | nil => exact h p (by simp)
      | cons q ps => exact (h p (by simp)).orElse (ih fun p' hp' => h p' (by simp [hp']))

theorem Makes.optional {p : Parser α} {P : α → Prop} (h : Makes p P) :
    Makes (optional p) fun o => ∀ a ∈ o, P a := by
  intro s o r ho a ha
  rw [Parser.optional] at ho
  cases hp : p s with
  | error e =>
      rw [hp] at ho
      simp only [Except.ok.injEq, Prod.mk.injEq] at ho
      rw [← ho.1] at ha
      cases ha
  | ok x =>
      rw [hp] at ho
      simp only [Except.ok.injEq, Prod.mk.injEq] at ho
      rw [← ho.1] at ha
      cases ha
      exact h s x.1 x.2 hp

theorem Makes.many {p : Parser α} {P : α → Prop} (h : Makes p P) :
    Makes (many p) fun as => ∀ a ∈ as, P a := by
  have hall : ∀ fuel s, ∀ a ∈ (repeated p fuel s).1, P a := by
    intro fuel
    induction fuel with
    | nil => intro s a ha; cases ha
    | cons c fuel ih =>
        intro s a ha
        rw [repeated] at ha
        cases hp : p s with
        | error e =>
            rw [hp] at ha
            cases ha
        | ok x =>
            rw [hp] at ha
            rcases List.mem_cons.mp ha with rfl | ha
            · exact h s x.1 x.2 hp
            · exact ih x.2 a ha
  intro s as r has a ha
  rw [Parser.many, Except.ok.injEq] at has
  exact hall s s a (by rw [has]; exact ha)

theorem Makes.separated {sep : Parser β} {p : Parser α} {P : α → Prop} (h : Makes p P) :
    Makes (separated sep p) fun as => as ≠ [] ∧ ∀ a ∈ as, P a :=
  h.bind fun a ha => (Makes.many (.behind fun _ => h)).bind fun as has =>
    .pure ⟨List.cons_ne_nil a as, List.forall_mem_cons.mpr ⟨ha, has⟩⟩

theorem Makes.separatedOrNone {sep : Parser β} {p : Parser α} {P : α → Prop} (h : Makes p P) :
    Makes (separatedOrNone sep p) fun as => ∀ a ∈ as, P a :=
  (Makes.optional (.separated h)).bind fun o ho => .pure <| by
    cases o with
    | none => exact fun a ha => by cases ha
    | some as => exact (ho as rfl).2

theorem foldl_makes {P : α → Prop} {fs : List (α → α)} (h : ∀ f ∈ fs, ∀ a, P a → P (f a)) {a : α}
    (ha : P a) : P (fs.foldl (fun acc f => f acc) a) := by
  induction fs generalizing a with
  | nil => exact ha
  | cons f fs ih =>
      rw [List.forall_mem_cons] at h
      exact ih h.2 (h.1 a ha)

theorem Makes.chain {operand : Parser α} {more : Parser (α → α)} {P : α → Prop} (h : Makes operand P)
    (k : Makes more fun f => ∀ a, P a → P (f a)) : Makes (chain operand more) P :=
  h.bind fun _ ha => (Makes.many k).bind fun _ hfs => .pure (foldl_makes hfs ha)

theorem Makes.spaced {p : Parser α} {P : α → Prop} (h : Makes p P) : Makes (spaced p) P :=
  .behind fun _ => h.bind fun _ ha => .behind fun _ => .pure ha

theorem Makes.parenthesized {p : Parser α} {P : α → Prop} (h : Makes p P) : Makes (parenthesized p) P :=
  .behind fun _ => h.bind fun _ ha => .behind fun _ => .pure ha

theorem Makes.after {q : Parser β} {p : Parser α} {P : α → Prop} (h : Makes p P) : Makes (after q p) P :=
  .behind fun _ => h

theorem Makes.filterMap {f : α → Option β} {p : Parser α} {P : α → Prop} {Q : β → Prop}
    (h : Makes p P) (k : ∀ a b, P a → f a = some b → Q b) : Makes (filterMap f p) Q := by
  intro s b r hb
  rw [Parser.filterMap] at hb
  cases hp : p s with
  | error e =>
      rw [hp] at hb
      cases hb
  | ok x =>
      rw [hp] at hb
      simp only at hb
      cases hf : f x.1 with
      | none =>
          rw [hf] at hb
          cases hb
      | some c =>
          rw [hf] at hb
          simp only [Except.ok.injEq, Prod.mk.injEq] at hb
          exact hb.1 ▸ k x.1 c (h s x.1 x.2 hp) hf

/-! ## Literals -/

theorem makes_digits : Makes digits fun ds => ds ≠ [] ∧ ds.all Digits.isDigit = true := by
  intro s ds r h
  rw [digits] at h
  split at h
  · cases h
  · rename_i hne
    rw [Except.ok.injEq] at h
    have hds : (Digits.spanDigits s).1 = ds := congrArg Prod.fst h
    rw [← hds]
    exact ⟨by simpa using hne, List.all_takeWhile⟩

/-- A number is read without sign. -/
theorem makes_number : Makes number fun v => LegibleLiteral v ∧ isUnsigned v = true := by
  refine Makes.orElse ?_ ?_
  · have hdecimal : Makes decimal Decimal.Plain := by
      refine Makes.filterMap (P := fun x => (x.1 ≠ [] ∧ x.1.all Digits.isDigit = true) ∧
        x.2 ≠ [] ∧ x.2.all Digits.isDigit = true) ?_ ?_
      · exact makes_digits.bind fun _ hw => .behind fun _ => makes_digits.bind fun _ hp => .pure ⟨hw, hp⟩
      · rintro x d ⟨⟨hn, hd⟩, hne, hp⟩ hx
        exact Decimal.read?_plain hd hn hp hne hx
    exact hdecimal.map fun d hd => ⟨hd.1, by simp [isUnsigned, hd.2]⟩
  · have hwhole : Makes wholeNumber fun i => 0 ≤ i.toInt := by
      refine Makes.filterMap (Makes.any _) ?_
      intro ds i _ hi
      rw [toInt64?] at hi
      split at hi
      · rename_i hb
        rw [Option.some.injEq] at hi
        rw [← hi, Int64.toInt_ofInt_of_le (by omega) (by omega)]
        omega
      · cases hi
    refine hwhole.map fun i hi => ⟨?_, decide_eq_true hi⟩
    change -9223372036854775808 < i.toInt
    omega

theorem negated_legible {v : Value} (h : LegibleLiteral v) (k : isUnsigned v = true) :
    LegibleLiteral (negated v) := by
  cases v with
  | integer i =>
      have hi : 0 ≤ i.toInt := of_decide_eq_true k
      have hlt := i.toInt_lt
      have hneg : (-i).toInt = -i.toInt := by
        rw [Int64.toInt_neg, Int.bmod_eq_of_le (by omega) (by omega)]
      change -9223372036854775808 < (-i).toInt
      omega
  | numeric d => exact h
  | _ => simp [isUnsigned] at k

/-! ## Expressions -/

/-- Legible if its calls have plain names. -/
def Good (e : Expr) : Prop := e.callsPlain = true → e.Legible

theorem legibleList_of_good {es : List Expr} (h : ∀ e ∈ es, Good e)
    (hc : Expr.callsPlainList es = true) : Expr.LegibleList es := by
  rw [Expr.callsPlainList_eq, List.all_eq_true] at hc
  exact Expr.legibleList_iff.mpr fun e he => h e he (hc e he)

theorem Good.binary {l r : Expr} (hl : Good l) (hr : Good r) (op : BinaryOp) : Good (.binary op l r) := by
  intro hc
  rw [Expr.callsPlain, Bool.and_eq_true] at hc
  exact ⟨hl hc.1, hr hc.2⟩

theorem good_literal {v : Value} (h : LegibleLiteral v) : Good (.literal v) := fun _ => h

theorem good_call {name : String} (hn : Aggregate.ofName? name = none) {args : List Expr}
    (h : ∀ e ∈ args, Good e) : Good (.call (asciiUpperText name) args) := by
  intro hc
  rw [Expr.callsPlain, Bool.and_eq_true] at hc
  refine ⟨⟨hc.1, asciiUpperText_idem name, ?_⟩, legibleList_of_good h hc.2⟩
  rw [Aggregate.ofName?, List.find?_eq_none] at hn ⊢
  intro f hf hs
  exact hn f hf (sameName_trans hs (sameName_asciiUpperText name))

section
variable {sub : Inner} (h : ∀ level, Makes (sub level) Good)
include h

theorem makes_functionCall : Makes (functionCall sub) Good := by
  refine .behind fun name => .behind fun _ => ?_
  cases hn : Aggregate.ofName? name with
  | none =>
      exact (Makes.separatedOrNone (h .whole)).bind fun args hargs => .behind fun _ =>
        .pure (good_call hn hargs)
  | some f =>
      have harg : Makes (aggregateArgument sub f) Good :=
        .behind fun _ => (h .whole).bind fun e he => .behind fun _ => .pure he
      simp only
      split
      · rename_i hf
        rw [beq_iff_eq] at hf
        exact Makes.orElse (.behind fun _ => .pure fun _ => ⟨hf, rfl⟩) harg
      · exact harg

theorem makes_primary : Makes (primary sub) Good := by
  refine Makes.spaced (Makes.oneOf ?_)
  simp only [List.forall_mem_cons, List.not_mem_nil]
  exact ⟨.behind fun _ => .pure (good_literal trivial), .behind fun _ => .pure (good_literal trivial),
    .behind fun _ => .pure (good_literal trivial), (Makes.any _).map fun _ _ => good_literal trivial,
    makes_number.map fun _ hv => good_literal hv.1, makes_functionCall h,
    (Makes.any _).map fun _ _ _ => trivial, .parenthesized (h .whole), fun _ hx => hx.elim⟩

theorem makes_signed : Makes (signed sub) Good := by
  refine Makes.oneOf ?_
  simp only [List.forall_mem_cons, List.not_mem_nil]
  exact ⟨.behind fun _ => makes_number.map fun _ hv => good_literal (negated_legible hv.1 hv.2),
    .behind fun _ => (h .signed).map fun _ he => he, makes_primary h, fun _ hx => hx.elim⟩

omit h in
theorem makes_operation {operand : Parser Expr} (k : Makes operand Good)
    (ops : List (List Char × BinaryOp)) :
    Makes (operation ops operand) fun f => ∀ e, Good e → Good (f e) :=
  .behind fun op => k.map fun _ hr _ he => he.binary hr op

theorem makes_sum : Makes (sum sub) Good := by
  have hsigned := makes_signed h
  have hproduct : Makes (product sub) Good := .chain hsigned (makes_operation hsigned _)
  exact .chain hproduct (makes_operation hproduct _)

theorem makes_predicate : Makes (predicate sub) Good := by
  have hsum := makes_sum h
  refine hsum.bind fun l hl => Makes.oneOf ?_
  have hnull : Makes (nullTest l) Good := .behind fun _ => .behind fun n => .behind fun _ => .pure hl
  have hrange : ∀ n, Makes (rangeTest sub n l) Good := fun n =>
    .behind fun _ => hsum.bind fun low hlow => .behind fun _ => hsum.map fun high hhigh hc => by
      simp only [Expr.callsPlain, Bool.and_eq_true] at hc
      exact ⟨hl hc.1.1, hlow hc.1.2, hhigh hc.2⟩
  have hlist : ∀ n, Makes (listTest sub n l) Good := fun n =>
    .behind fun _ => (Makes.parenthesized (.separated (h .whole))).map fun items hitems hc => by
      rw [Expr.callsPlain, Bool.and_eq_true] at hc
      exact ⟨hl hc.1, hitems.1, legibleList_of_good hitems.2 hc.2⟩
  have hpattern : ∀ n, Makes (patternTest sub n l) Good := fun n =>
    .behind fun _ => hsum.map fun p hp hc => by
      rw [Expr.callsPlain, Bool.and_eq_true] at hc
      exact ⟨hl hc.1, hp hc.2⟩
  have hneg : Makes (negatableTest sub l) Good := by
    refine .behind fun n => Makes.oneOf ?_
    simp only [List.forall_mem_cons, List.not_mem_nil]
    exact ⟨hrange n, hlist n, hpattern n, fun _ hx => hx.elim⟩
  have hcomp : Makes (comparison sub l) Good := (makes_operation hsum _).map fun f hf => hf l hl
  simp only [List.forall_mem_cons, List.not_mem_nil]
  exact ⟨hnull, hneg, hcomp, .pure hl, fun _ hx => hx.elim⟩

theorem makes_negation : Makes (negation sub) Good :=
  Makes.orElse (.behind fun _ => (h .negation).map fun _ he => he) (makes_predicate h)

theorem makes_disjunction : Makes (disjunction sub) Good := by
  have hnegation := makes_negation h
  have hconj : Makes (conjunction sub) Good :=
    .chain hnegation (.behind fun _ => hnegation.map fun _ hr _ he => he.binary hr .and)
  exact .chain hconj (.behind fun _ => hconj.map fun _ hr _ he => he.binary hr .or)

end

theorem makes_exprAt (n : Nat) (level : Level) : Makes (exprAt n level) Good := by
  induction n generalizing level with
  | zero => exact fun s e r he => by cases he
  | succ n ih =>
      cases level with
      | whole => exact makes_disjunction ih
      | negation => exact makes_negation ih
      | signed => exact makes_signed ih

/-- What is read as an expression is legible if its calls have plain names. -/
theorem makes_expr : Makes expr Good := fun s e r he => makes_exprAt _ _ s e r he

/-! ## Queries -/

/-- An item of a projection is legible if its calls have plain names. -/
def GoodSelect (x : SelectItem) : Prop := x.callsPlain = true → x.Legible

/-- Closing clauses are legible if their calls have plain names. -/
def GoodTail (t : Tail) : Prop := t.callsPlain = true → t.Legible

/-- A source item is legible if its calls have plain names. -/
def GoodItem (x : FromItem) : Prop := x.callsPlain = true → x.Legible

/-- A query without closing clauses is legible if its calls have plain names. -/
def GoodQuery (q : Query) : Prop := (q.callsPlain = true → q.Legible) ∧ q.hasTail = false

theorem legibleItems_of_good {xs : List FromItem} (h : ∀ x ∈ xs, GoodItem x)
    (hc : FromItem.callsPlainList xs = true) : FromItem.LegibleList xs := by
  rw [FromItem.callsPlainList_eq, List.all_eq_true] at hc
  exact FromItem.legibleList_iff.mpr fun x hx => h x hx (hc x hx)

theorem makes_selectItem : Makes selectItem GoodSelect := by
  refine Makes.oneOf ?_
  simp only [List.forall_mem_cons, List.not_mem_nil]
  exact ⟨.behind fun _ => .pure fun _ => trivial, (Makes.any _).map fun _ _ _ => trivial,
    makes_expr.bind fun e he => .behind fun _ => .pure he, fun _ hx => hx.elim⟩

theorem makes_tail : Makes tail GoodTail := by
  have hkey : Makes sortKey fun k => Good k.expr :=
    makes_expr.bind fun e he => .behind fun _ => .pure he
  refine (Makes.optional (.after (.separated hkey))).bind fun keys hkeys => .behind fun limit =>
    .behind fun offset => .pure ?_
  intro hc k hk
  rw [Tail.callsPlain, List.all_eq_true] at hc
  cases keys with
  | none => cases hk
  | some ks => exact (hkeys ks rfl).2 k hk (hc k hk)

theorem good_of_option {o : Option Expr} (h : ∀ e ∈ o, Good e) (hc : o.all Expr.callsPlain = true) :
    ∀ e ∈ o, e.Legible := by
  rintro e rfl
  exact h e rfl hc

/-- A SELECT is read without closing clauses. -/
theorem makes_selectCore {source : Parser (List FromItem)}
    (h : Makes source fun xs => ∀ x ∈ xs, GoodItem x) :
    Makes (selectCore source) fun q => GoodQuery q ∧ q.isUnion = false := by
  refine .behind fun _ => .behind fun distinct => (Makes.separated makes_selectItem).bind
    fun items hitems => (Makes.optional (.after h)).bind fun from_ hfrom =>
      (Makes.optional (.after makes_expr)).bind fun condition hcondition =>
        (Makes.optional (.after (.separated makes_expr))).bind fun groupBy hgroup =>
          (Makes.optional (.after makes_expr)).bind fun having hhaving => .pure ⟨⟨?_, rfl⟩, rfl⟩
  intro hc
  simp only [Query.callsPlain, Clauses.callsPlain, Bool.and_eq_true, List.all_eq_true] at hc
  obtain ⟨⟨hsource, ⟨⟨hproj, hcond⟩, hkeys⟩, hhav⟩, -⟩ := hc
  refine ⟨?_, ⟨hitems.1, fun x hx => hitems.2 x hx (hproj x hx), good_of_option hcondition hcond, ?_,
    good_of_option hhaving hhav⟩, fun k hk => by cases hk⟩
  · cases from_ with
    | none => trivial
    | some xs => exact legibleItems_of_good (hfrom xs rfl) hsource
  · cases groupBy with
    | none => exact fun e he => by cases he
    | some es => exact fun e he => (hgroup es rfl).2 e he (hkeys e he)

/-! ## Items in parentheses -/

theorem optional_inv {p : Parser α} {s r : List Char} (h : optional p s = .ok (none, r)) :
    r = s ∧ Refuses p s := by
  rw [Parser.optional] at h
  cases hp : p s with
  | error e =>
      rw [hp] at h
      simp only [Except.ok.injEq, Prod.mk.injEq, true_and] at h
      exact ⟨h.symm, e, hp⟩
  | ok x =>
      rw [hp] at h
      cases h

theorem symbol_inv {c : Char} {s r : List Char} {u : Unit} (h : symbol c s = .ok (u, r)) :
    ∃ t, skip s = c :: t := by
  obtain ⟨v, t, hv, ht⟩ := bind_inv h
  have hskip : t = skip s := by
    have he : (Except.ok ((), skip s) : Except Stop (Unit × List Char)) = .ok (v, t) := hv
    simp only [Except.ok.injEq, Prod.mk.injEq] at he
    exact he.2.symm
  obtain ⟨w, x, hw, -⟩ := bind_inv ht
  rw [hskip] at hw
  cases hs : skip s with
  | nil =>
      rw [hs] at hw
      cases hw
  | cons k k' =>
      rw [hs, char] at hw
      split at hw
      · rename_i hk
        rw [beq_iff_eq] at hk
        exact ⟨k', by rw [hk]⟩
      · cases hw

/-- The joins behind an item leave it as it is or make a join of it. -/
theorem joinsFrom_inv {factor : Parser FromItem} {fuel s t : List Char} {x y : FromItem}
    (h : joinsFrom factor fuel x s = .ok (y, t)) : (y = x ∧ t = s) ∨ y.isJoin = true := by
  have hstep : ∀ (fuel : List Char) (x : FromItem) (s : List Char),
      joinsFrom factor fuel x s = .ok (y, t) → x.isJoin = true → y.isJoin = true := by
    intro fuel
    induction fuel with
    | nil =>
        intro x s h hx
        have he : (Except.ok (x, s) : Except Stop (FromItem × List Char)) = .ok (y, t) := h
        simp only [Except.ok.injEq, Prod.mk.injEq] at he
        exact he.1 ▸ hx
    | cons c fuel ih =>
        intro x s h hx
        rw [joinsFrom] at h
        cases hk : joinKind s with
        | error e =>
            simp only [hk, Except.ok.injEq, Prod.mk.injEq] at h
            exact h.1 ▸ hx
        | ok p =>
            simp only [hk] at h
            obtain ⟨r, u, -, h⟩ := bind_inv h
            obtain ⟨on, v, -, h⟩ := bind_inv h
            exact ih _ _ h rfl
  cases fuel with
  | nil =>
      have he : (Except.ok (x, s) : Except Stop (FromItem × List Char)) = .ok (y, t) := h
      simp only [Except.ok.injEq, Prod.mk.injEq] at he
      exact Or.inl ⟨he.1.symm, he.2.symm⟩
  | cons c fuel =>
      rw [joinsFrom] at h
      cases hk : joinKind s with
      | error e =>
          simp only [hk, Except.ok.injEq, Prod.mk.injEq] at h
          exact Or.inl ⟨h.1.symm, h.2.symm⟩
      | ok p =>
          simp only [hk] at h
          obtain ⟨r, u, -, h⟩ := bind_inv h
          obtain ⟨on, v, -, h⟩ := bind_inv h
          exact Or.inr (hstep _ _ _ h rfl)

theorem repeated_nil {p : Parser α} {fuel s r : List Char} (h : repeated p fuel s = ([], r)) : r = s := by
  cases fuel with
  | nil =>
      rw [repeated] at h
      exact (congrArg Prod.snd h).symm
  | cons c fuel =>
      rw [repeated] at h
      cases hp : p s with
      | error e =>
          rw [hp] at h
          exact (congrArg Prod.snd h).symm
      | ok x =>
          rw [hp] at h
          cases congrArg Prod.fst h

theorem pure_inv {a b : α} {s r : List Char} (h : (Pure.pure a : Parser α) s = .ok (b, r)) :
    a = b ∧ s = r := by
  have he : (Except.ok (a, s) : Except Stop (α × List Char)) = .ok (b, r) := h
  simpa only [Except.ok.injEq, Prod.mk.injEq] using he

/-- A subquery without a name that is the whole of a source is also read as a query in
parentheses. -/
theorem query_of_lone {n : Nat} {s r : List Char} {q : Query}
    (h : sourceAt n s = .ok ([.subquery q none], r)) (hr : ∃ t, skip r = ')' :: t) :
    queryAt n s = .ok (.paren q, r) := by
  cases n with
  | zero => cases h
  | succ n =>
      have hlist : separated (symbol ',') (joinedItem (factor n)) s = .ok ([.subquery q none], r) := h
      obtain ⟨x, t, hx, hmore⟩ := bind_inv hlist
      obtain ⟨xs, u, hxs, hpure⟩ := bind_inv hmore
      obtain ⟨hcons, rfl⟩ := pure_inv hpure
      obtain ⟨rfl, rfl⟩ := List.cons.inj hcons
      have ht : u = t := repeated_nil (Except.ok.inj hxs)
      subst ht
      obtain ⟨first, v, hfirst, hjoins⟩ := bind_inv hx
      obtain ⟨rfl, rfl⟩ : .subquery q none = first ∧ u = v := by
        rcases joinsFrom_inv hjoins with h | h
        · exact h
        · cases h
      have hsub : subqueryItem (queryAt n) s = .ok (.subquery q none, u) := by
        rcases orElse_inv hfirst with h | ⟨-, h⟩
        · exact h
        · rcases orElse_inv h with h | ⟨-, h⟩
          · obtain ⟨items, w, -, hp⟩ := bind_inv h
            cases (pure_inv hp).1
          · obtain ⟨name, w, -, hp⟩ := bind_inv h
            obtain ⟨a, x, -, hp⟩ := bind_inv hp
            cases (pure_inv hp).1
      obtain ⟨q', w, hq, hname⟩ := bind_inv hsub
      obtain ⟨a, x, ha, hp⟩ := bind_inv hname
      obtain ⟨hitem, rfl⟩ := pure_inv hp
      obtain ⟨rfl, rfl⟩ := FromItem.subquery.inj hitem
      obtain ⟨rfl, -⟩ := optional_inv ha
      obtain ⟨hsym, y, hs, -⟩ := bind_inv hq
      obtain ⟨z, hz⟩ := symbol_inv hs
      have hselect : wordNext "SELECT" s = false := by
        rw [wordNext, hz]
        rfl
      obtain ⟨t, ht⟩ := hr
      have hnext : ∀ v ∈ openWords, wordNext v x = false := by
        intro v hv
        have hv' := (by decide : ∀ v ∈ openWords, v ∈ fenceWords) v hv
        obtain ⟨hall, hne, -⟩ := fenceWord_all hv'
        have hclose : skip x = skip (')' :: t) := by
          rw [ht, skip_cons (by decide)]
        rw [wordNext_congr hclose]
        exact wordNext_of_head hne hall (by decide) (by decide)
      refine queryWith_alone ?_ hnext
      exact (orElse_refuses (selectCore_refuses hselect)).trans ((bind_ok hq).trans rfl)

/-- A subquery without a name does not stand alone in parentheses. -/
theorem paren_not_lone {n : Nat} {s r : List Char} {xs : List FromItem}
    (hsub : Refuses (subqueryItem (queryAt n)) s) (h : parenthesized (sourceAt n) s = .ok (xs, r)) :
    loneSubquery xs = false := by
  cases hl : loneSubquery xs with
  | false => rfl
  | true =>
      obtain ⟨q, rfl⟩ : ∃ q, xs = [.subquery q none] := by
        unfold loneSubquery at hl
        split at hl
        · exact ⟨_, rfl⟩
        · cases hl
      obtain ⟨u, t, hopen, hrest⟩ := bind_inv h
      obtain ⟨ys, v, hsource, hclose⟩ := bind_inv hrest
      obtain ⟨w, x, hc, hp⟩ := bind_inv hclose
      obtain ⟨rfl, rfl⟩ := pure_inv hp
      have hquery := query_of_lone hsource (symbol_inv hc)
      have hparen : parenthesized (queryAt n) s = .ok (.paren q, x) :=
        (bind_ok hopen).trans ((bind_ok hquery).trans ((bind_ok hc).trans rfl))
      obtain ⟨e, he⟩ := hsub
      obtain ⟨o, y, ho⟩ : ∃ o y, optional aliasName x = .ok (o, y) := by
        rw [Parser.optional]
        cases aliasName x with
        | error e => exact ⟨_, _, rfl⟩
        | ok a => exact ⟨_, _, rfl⟩
      have hok : subqueryItem (queryAt n) s = .ok (.subquery (.paren q) o, y) :=
        (bind_ok hparen).trans ((bind_ok ho).trans rfl)
      rw [he] at hok
      cases hok

/-! ## Nested queries -/

/-- A query that is legible if its calls have plain names, with its closing clauses. -/
def GoodWhole (q : Query) : Prop := q.callsPlain = true → q.Legible

theorem goodWhole_withTail {q q' : Query} {t : Tail} (hq : GoodQuery q) (ht : GoodTail t)
    (h : withTail? t q = some q') : GoodWhole q' := by
  obtain ⟨hgood, hnone⟩ := hq
  have hempty : ∀ {u : Tail}, (!u.isNone) = false → u = .empty := fun hu =>
    tail_eq_empty (by simpa using hu)
  cases q with
  | select source c u =>
      cases h
      intro hc
      simp only [Query.callsPlain, Bool.and_eq_true] at hc
      rw [hempty hnone] at hgood
      obtain ⟨hs, hcl, -⟩ := hgood (by rw [Query.callsPlain, hc.1.1, hc.1.2]; rfl)
      exact ⟨hs, hcl, ht hc.2⟩
  | union l r all u =>
      cases h
      intro hc
      simp only [Query.callsPlain, Bool.and_eq_true] at hc
      rw [hempty hnone] at hgood
      obtain ⟨hl, hr, -⟩ := hgood (by rw [Query.callsPlain, hc.1.1, hc.1.2]; rfl)
      exact ⟨hl, hr, ht hc.2⟩
  | paren q => cases h

section
variable {n : Nat} (hq : Makes (queryAt n) GoodWhole)
  (hs : Makes (sourceAt n) fun xs => xs ≠ [] ∧ ∀ x ∈ xs, GoodItem x)
include hq hs

theorem makes_factor : Makes (factor n) fun x => GoodItem x ∧ x.isJoin = false := by
  intro s x r hx
  rcases orElse_inv hx with h | ⟨hsub, h⟩
  · have hsub : Makes (subqueryItem (queryAt n)) fun x => GoodItem x ∧ x.isJoin = false :=
      (Makes.parenthesized hq).bind fun q hgood => .behind fun name => .pure ⟨hgood, rfl⟩
    exact hsub s x r h
  · rcases orElse_inv h with h | ⟨-, h⟩
    · obtain ⟨items, t, hitems, hp⟩ := bind_inv h
      obtain ⟨rfl, rfl⟩ := pure_inv hp
      obtain ⟨hne, hgood⟩ := Makes.parenthesized hs s items t hitems
      exact ⟨fun hc => ⟨hne, paren_not_lone hsub hitems, legibleItems_of_good hgood hc⟩, rfl⟩
    · have htable : Makes tableItem fun x => GoodItem x ∧ x.isJoin = false :=
        .behind fun name => .behind fun a => .pure ⟨fun _ => trivial, rfl⟩
      exact htable s x r h

theorem makes_joinedItem : Makes (joinedItem (factor n)) GoodItem := by
  have hfactor := makes_factor hq hs
  have hjoins : ∀ (fuel : List Char) (x : FromItem), GoodItem x →
      Makes (joinsFrom (factor n) fuel x) GoodItem := by
    intro fuel
    induction fuel with
    | nil => exact fun x hx => .pure hx
    | cons c fuel ih =>
        intro x hx s y r hy
        rw [joinsFrom] at hy
        cases hk : joinKind s with
        | error e =>
            simp only [hk, Except.ok.injEq, Prod.mk.injEq] at hy
            exact hy.1 ▸ hx
        | ok p =>
            simp only [hk] at hy
            obtain ⟨z, t, hz, hy⟩ := bind_inv hy
            obtain ⟨on, u, hon, hy⟩ := bind_inv hy
            obtain ⟨hgood, hj⟩ := hfactor _ z t hz
            have hcross : p.1 = .cross → on = none := by
              intro hp
              rw [joinCondition, if_pos (by simp [hp])] at hon
              exact (pure_inv hon).1.symm
            have hcondition : ∀ e ∈ on, Good e := by
              rw [joinCondition] at hon
              split at hon
              · rw [← (pure_inv hon).1]
                exact fun e he => by cases he
              · exact Makes.optional (.after makes_expr) t on u hon
            refine ih (.join p.1 x z on) (fun hc => ?_) u y r hy
            simp only [FromItem.callsPlain, Bool.and_eq_true] at hc
            exact ⟨hx hc.1.1, ⟨hgood hc.1.2, hj⟩, hcross, good_of_option hcondition hc.2⟩
  exact hfactor.bind fun x hx s y r hy => hjoins s x hx.1 s y r hy

theorem makes_sourceWith :
    Makes (sourceWith (queryAt n) (sourceAt n)) fun xs => xs ≠ [] ∧ ∀ x ∈ xs, GoodItem x :=
  .separated (makes_joinedItem hq hs)

theorem makes_term : Makes (term n) fun q => GoodQuery q ∧ q.isUnion = false :=
  Makes.orElse (makes_selectCore ((makes_sourceWith hq hs).mono fun _ h => h.2))
    ((Makes.parenthesized hq).map fun _ hgood => ⟨⟨hgood, rfl⟩, rfl⟩)

theorem makes_queryWith : Makes (queryWith (queryAt n) (sourceAt n)) GoodWhole := by
  have hterm := makes_term hq hs
  refine hterm.bind fun first hfirst => ?_
  have hunion : Makes (unionStep (term n)) fun x => GoodQuery x.2 ∧ x.2.isUnion = false :=
    .behind fun _ => .behind fun _ => hterm.bind fun q hgood => .pure hgood
  refine (Makes.many hunion).bind fun more hmore => ?_
  have hfold : ∀ (us : List (Bool × Query)) (q : Query),
      (∀ x ∈ us, GoodQuery x.2 ∧ x.2.isUnion = false) → GoodQuery q →
      GoodQuery (us.foldl (fun l x => Query.union l x.2 x.1 .empty) q) := by
    intro us
    induction us with
    | nil => exact fun q _ hgood => hgood
    | cons u us ih =>
        intro q hus hgood
        rw [List.forall_mem_cons] at hus
        refine ih _ hus.2 ⟨fun hc => ?_, rfl⟩
        simp only [Query.callsPlain, Bool.and_eq_true] at hc
        exact ⟨⟨hgood.1 hc.1.1, hgood.2⟩, ⟨hus.1.1.1 hc.1.2, hus.1.1.2, hus.1.2⟩,
          fun k hk => by cases hk⟩
  have hgood := hfold more first hmore hfirst.1
  intro s q r hr
  simp only at hr
  cases ht : tail s with
  | error e =>
      rw [ht] at hr
      cases hr
  | ok x =>
      rw [ht] at hr
      simp only at hr
      split at hr
      · simp only [Except.ok.injEq, Prod.mk.injEq] at hr
        exact hr.1 ▸ hgood.1
      · cases hw : withTail? x.1 (more.foldl (fun l x => Query.union l x.2 x.1 .empty) first) with
        | none =>
            rw [hw] at hr
            cases hr
        | some q' =>
            rw [hw] at hr
            simp only [Except.ok.injEq, Prod.mk.injEq] at hr
            exact hr.1 ▸ goodWhole_withTail hgood (makes_tail s x.1 x.2 ht) hw

end

theorem makes_queryAt (n : Nat) : Makes (queryAt n) GoodWhole ∧
    Makes (sourceAt n) fun xs => xs ≠ [] ∧ ∀ x ∈ xs, GoodItem x := by
  induction n with
  | zero => exact ⟨fun s q r h => (by cases h), fun s xs r h => (by cases h)⟩
  | succ n ih =>
      refine ⟨fun s q r h => makes_queryWith ih.1 ih.2 s q r ?_,
        fun s xs r h => makes_sourceWith ih.1 ih.2 s xs r ?_⟩
      · rw [queryAt] at h
        exact h
      · rw [sourceAt] at h
        exact h

theorem makes_query : Makes query GoodWhole := fun s q r h => (makes_queryAt _).1 s q r h

/-! ## Other statements -/

theorem makes_literal : Makes literal LegibleLiteral := by
  refine Makes.spaced (Makes.oneOf ?_)
  simp only [List.forall_mem_cons, List.not_mem_nil]
  exact ⟨.behind fun _ => .pure trivial, .behind fun _ => .pure trivial,
    .behind fun _ => .pure trivial, (Makes.any _).map fun _ _ => trivial,
    .behind fun _ => makes_number.map fun _ hv => negated_legible hv.1 hv.2,
    makes_number.mono fun _ hv => hv.1, fun _ hx => hx.elim⟩

/-- A column that is read has a legible default, and a key is unique. -/
def GoodColumn (c : ColumnDef) : Prop := c.Legible ∧ (c.primaryKey = true → c.unique = true)

theorem makes_columnOption : Makes columnOption fun f => ∀ c, GoodColumn c → GoodColumn (f c) := by
  refine Makes.oneOf ?_
  simp only [List.forall_mem_cons, List.not_mem_nil]
  refine ⟨.behind fun _ => .pure fun c hc => hc, .behind fun _ => .pure fun c hc => hc,
    .behind fun _ => .pure fun c hc => ⟨hc.1, fun _ => rfl⟩,
    .behind fun _ => .pure fun c hc => ⟨hc.1, fun _ => rfl⟩,
    .behind fun _ => makes_literal.bind fun v hv => .pure fun c hc => ⟨?_, hc.2⟩,
    fun _ hx => hx.elim⟩
  rintro w ⟨⟩
  exact hv

theorem makes_columnDef : Makes columnDef GoodColumn := by
  have hplain : ∀ name type, GoodColumn ⟨name, type, true, false, false, none⟩ :=
    fun _ _ => ⟨fun _ hv => (by cases hv), fun hk => (by cases hk)⟩
  exact .behind fun name => .behind fun type => (Makes.many makes_columnOption).bind fun _ hfs =>
    .pure (foldl_makes hfs (hplain name type))

end Parser

/-- Whether every call in the statement has a plain name. -/
def Statement.callsPlain : Statement → Bool
  | .query q => q.callsPlain
  | _ => true

namespace Parser

/-- A statement is legible if its calls have plain names, and its key columns are unique. -/
def GoodStatement (s : Statement) : Prop :=
  (s.callsPlain = true → s.Legible) ∧
    ∀ name columns b, s = .createTable name columns b →
      ∀ c ∈ columns, c.primaryKey = true → c.unique = true

theorem makes_createTable : Makes createTable GoodStatement := by
  refine .behind fun _ => .behind fun b => .behind fun name =>
    (Makes.parenthesized (.separated makes_columnDef)).map fun columns h => ?_
  refine ⟨fun _ => ⟨h.1, fun c hc => (h.2 c hc).1⟩, ?_⟩
  rintro name' columns' b' ⟨⟩ c hc
  exact (h.2 c hc).2

theorem makes_insertRows : Makes insertRows GoodStatement := by
  have hcolumns : Makes (optional (parenthesized (separated (symbol ',') (spaced identifier))))
      fun o => o ≠ some [] := by
    refine (Makes.optional (Makes.parenthesized (.separated (Makes.any _)))).mono fun o ho => ?_
    rintro rfl
    exact (ho [] rfl).1 rfl
  have hrows : Makes (separated (symbol ',') (parenthesized (separated (symbol ',') literal)))
      fun rows => rows ≠ [] ∧ ∀ r ∈ rows, r ≠ [] ∧ ∀ v ∈ r, LegibleLiteral v :=
    .separated (.parenthesized (.separated makes_literal))
  refine .behind fun _ => .behind fun name => hcolumns.bind fun columns hc => .behind fun _ =>
    hrows.map fun rows hr => ⟨fun _ => ⟨hc, hr⟩, ?_⟩
  intro _ _ _ h
  cases h

theorem makes_statement : Makes statement GoodStatement := by
  refine Makes.oneOf ?_
  simp only [List.forall_mem_cons, List.not_mem_nil]
  refine ⟨.behind fun _ => .pure ⟨fun _ => trivial, ?_⟩, makes_createTable,
    .behind fun _ => .behind fun _ => .behind fun _ => .pure ⟨fun _ => trivial, ?_⟩,
    makes_insertRows, makes_query.map fun q hq => ⟨hq, ?_⟩, fun _ hx => hx.elim⟩
  all_goals
    intro _ _ _ h
    cases h

end Parser

open Rowtime.Sql.Parser

/-- What is known of a statement that is read from a text. -/
theorem good_of_parsed {text : String} {s : Statement} (h : parseStatement text = .ok s) :
    GoodStatement s := by
  rw [parseStatement] at h
  cases hs : statement (trimRight (· == ';') (trim text.toList)) with
  | error e =>
      rw [hs] at h
      cases h
  | ok x =>
      rw [hs] at h
      simp only at h
      split at h
      · rw [Except.ok.injEq] at h
        exact h ▸ makes_statement _ _ _ hs
      · cases h

/-- A query that is read from a text is legible if its calls have plain names. -/
theorem legible_of_parsed {text : String} {q : Query} (h : parseStatement text = .ok (.query q))
    (hc : q.callsPlain = true) : q.Legible :=
  (good_of_parsed h).1 hc

end Sql

end Rowtime
