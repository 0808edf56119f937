import Rowtime.Proofs.Payments

/-!
# Queries that are read from their own text

A query that is read weighs no more than what it was read from, and less if a call in it has no
plain name: the name of a call is written without the quotes that were around it. A query that is
read from its own text weighs what the text weighs, so all its calls have plain names.
-/
namespace Rowtime.Sql

open Text

/-! ## Expressions -/

/-- The expression is paid with `n`. -/
abbrev Expr.Paid (n : Nat) (e : Expr) : Prop := Sql.Paid (Light · e.chars) n e.callsPlain

namespace Parser

theorem isPlainName_upper {name : String} (h : isPlainName name = true) :
    isPlainName (asciiUpperText name) = true := by
  obtain ⟨c, w, hname, hc, hw, hres⟩ := plainName_spec h
  have hupper : asciiUpperText name = String.ofList (asciiUpper c :: w.map asciiUpper) := by
    rw [asciiUpperText, hname, List.map_cons]
  have hall : (w.map asciiUpper).all isIdentChar = true := by
    have hupper : isIdentChar ∘ asciiUpper = isIdentChar := funext isIdentChar_asciiUpper
    rw [List.all_map, hupper, hw]
  rw [hupper, isPlainName_word (isIdentStart_asciiUpper hc) hall, ← hupper,
    isReserved_congr (sameName_asciiUpperText name), hres]
  rfl

/-- A name that is called weighs less without the quotes that are around it. -/
theorem Named.call {n : Nat} {name : String} (h : Named n name) :
    weightBehind (asciiUpperText name).toList + flaw (isPlainName (asciiUpperText name)) ≤ n := by
  have hupper : weightBehind (asciiUpperText name).toList = weightBehind name.toList := by
    rw [asciiUpperText, String.toList_ofList, weightBehind_upper]
  rw [hupper]
  cases hp : isPlainName name with
  | true =>
      obtain ⟨c, w, hname, hc, hw, -⟩ := plainName_spec hp
      have hword := ident_all hc hw
      rw [isPlainName_upper hp, hname, weightBehind, aliasWeight_all hword, weight_word_self hword]
      exact Nat.zero_le n
  | false =>
      -- behind its first quote the name weighs what it weighs without quotes
      have hencode := weightBehind_encode stops_quote name.toList
      have hopen : weight ('"' :: Doubled.encode '"' name.toList) =
          1 + weightBehind (Doubled.encode '"' name.toList) :=
        weight_cons_of_ne (by decide) (by decide) _
      have hquoted : weight (nameChars name) =
          weight ('"' :: Doubled.encode '"' name.toList) + 1 := by
        rw [nameChars, nameText, hp, if_neg Bool.false_ne_true, Doubled.quoted,
          String.toList_ofList, ← List.cons_append, weight_append stops_quote]
        rfl
      have hflaw : flaw (isPlainName (asciiUpperText name)) ≤ 1 := by
        unfold flaw
        split <;> decide
      rw [Named, hquoted, hopen] at h
      omega

theorem Light.call {n : Nat} {y : List Char} (h : LightBehind n ('(' :: y)) (name : List Char) :
    Light (weightBehind name + n) (name ++ '(' :: y) := by
  intro rest hr
  have hy := (h rest hr).2
  have hsplit : name ++ '(' :: y ++ rest = name ++ '(' :: (y ++ rest) := by
    rw [List.append_assoc]
    rfl
  rw [hsplit, weightBehind_append ⟨by decide, by decide⟩]
  rw [List.cons_append] at hy
  omega

theorem paid_call {n m : Nat} {name : String} {args : List Expr} (h : Named n name)
    (hargs : Shared (fun i e => e.Paid i) m args) :
    (Expr.call (asciiUpperText name) args).Paid (n + m) := by
  have hlist : Paid (LightBehind · ('(' :: (commaList (args.map Expr.chars) ++ [')']))) m
      (Expr.callsPlainList args) := by
    cases args with
    | nil =>
        obtain rfl : m = 0 := hargs
        exact .of (.words (by decide) (by decide))
    | cons e es =>
        rw [Expr.callsPlainList_eq]
        refine (hargs.commaList (List.cons_ne_nil e es)).map fun i hi => ?_
        have hclose : LightBehind 0 [')'] := .words (by decide) (by decide)
        exact (hi.append hclose).follow (w := ['(']) (by decide) (by decide)
  obtain ⟨i, hi, hm⟩ := hlist
  have hname := h.call
  have hflaw := flaw_and_le (isPlainName (asciiUpperText name)) (Expr.callsPlainList args)
  refine ⟨weightBehind (asciiUpperText name).toList + i, ?_, ?_⟩
  · rw [Expr.chars_call, asciiUpperText_idem]
    exact Light.call hi _
  · rw [Expr.callsPlain]
    omega

theorem paid_minus {n : Nat} {e : Expr} (h : e.Paid n) : (Expr.unary .minus e).Paid n :=
  Paid.map h fun _ hi => (hi.grouped _).lead (w := ['-']) (by decide)

theorem paid_not {n : Nat} {e : Expr} (h : e.Paid n) : (Expr.unary .not e).Paid n :=
  Paid.map h fun _ hi => (hi.grouped _).lead (by decide)

theorem paid_binary (op : BinaryOp) {n m : Nat} {l r : Expr} (hl : l.Paid n) (hr : r.Paid m) :
    (Expr.binary op l r).Paid (n + m) := by
  refine Paid.pair hl hr fun i j hi hj => ?_
  have hcalm : calm (' ' :: (op.symbol.toList ++ [' '])) = true := by cases op <;> decide
  have hright := (hj.grouped (r.strength ≤ op.strength)).follow hcalm rfl
  rw [List.cons_append, List.append_assoc] at hright
  rw [Expr.chars]
  exact (hi.grouped _).append hright

theorem paid_isNull (b : Bool) {n : Nat} {e : Expr} (h : e.Paid n) : (Expr.isNull b e).Paid n := by
  refine Paid.map h fun i hi => ?_
  have htest : LightBehind 0 (" IS ".toList ++ notChars b ++ "NULL".toList) := by
    cases b <;> exact .words (by decide) (by decide)
  have htext := (hi.grouped (e.strength ≤ 4)).append htest
  rw [Expr.chars]
  simpa only [List.append_assoc, Nat.add_zero] using htext

theorem paid_between (b : Bool) {n i j : Nat} {e low high : Expr} (h : e.Paid n) (hl : low.Paid i)
    (hh : high.Paid j) : (Expr.between b e low high).Paid (n + i + j) := by
  have hfirst : Paid (Light · (grouped (e.strength ≤ 4) e.chars ++ ' ' :: (notChars b ++
      "BETWEEN ".toList ++ grouped (low.strength ≤ 4) low.chars))) (n + i)
      (e.callsPlain && low.callsPlain) := by
    refine Paid.pair h hl fun x y hx hy => ?_
    have hcalm : calm (' ' :: (notChars b ++ "BETWEEN ".toList)) = true := by cases b <;> decide
    exact (hx.grouped _).append ((hy.grouped _).follow hcalm rfl)
  refine Paid.pair hfirst hh fun x y hx hy => ?_
  have htext := hx.append ((hy.grouped (high.strength ≤ 4)).follow (w := " AND ".toList) (by decide)
    (by decide))
  rw [Expr.chars]
  simpa only [List.append_assoc, List.cons_append] using htext

theorem paid_inList (b : Bool) {n i : Nat} {e : Expr} {items : List Expr} (h : e.Paid n)
    (hne : items ≠ []) (hi : Shared (fun i e => e.Paid i) i items) :
    (Expr.inList b e items).Paid (n + i) := by
  have hlist := hi.commaList hne
  rw [← Expr.callsPlainList_eq] at hlist
  refine Paid.pair h hlist fun x y hx hy => ?_
  have hcalm : calm (' ' :: (notChars b ++ "IN (".toList)) = true := by cases b <;> decide
  have hclose : LightBehind 0 [')'] := .words (by decide) (by decide)
  have htext := (hx.grouped (e.strength ≤ 4)).append ((hy.append hclose).follow hcalm rfl)
  rw [Expr.chars_inList]
  simpa only [List.append_assoc, List.cons_append, Nat.add_zero] using htext

theorem paid_like (b : Bool) {n i : Nat} {e p : Expr} (h : e.Paid n) (hp : p.Paid i) :
    (Expr.like b e p).Paid (n + i) := by
  refine Paid.pair h hp fun x y hx hy => ?_
  have hcalm : calm (' ' :: (notChars b ++ "LIKE ".toList)) = true := by cases b <;> decide
  exact (hx.grouped _).append ((hy.grouped _).follow hcalm rfl)

theorem paid_aggregate (f : Aggregate) (d : Bool) {n : Nat} {e : Expr} (h : e.Paid n) :
    (Expr.aggregate f d e).Paid n := by
  refine Paid.map h fun i hi => ?_
  have hcalm : calm (' ' :: (f.name.toList ++ '(' :: if d then "DISTINCT ".toList else [])) =
      true := by
    cases f <;> cases d <;> decide
  have hclose : LightBehind 0 [')'] := .words (by decide) (by decide)
  have htext := (hi.append hclose).lead hcalm
  rw [Expr.chars]
  simpa only [List.append_assoc, List.cons_append, Nat.add_zero] using htext

theorem paid_aggregateAll (f : Aggregate) (d : Bool) : (Expr.aggregateAll f d).Paid 0 := by
  refine .of (.words ?_)
  rw [Expr.chars]
  cases f <;> decide

section
variable {sub : Inner} (h : ∀ level, Pays 0 (sub level) fun n e => e.Paid n)
include h

theorem pays_functionCall : Pays 0 (functionCall sub) fun n e => e.Paid n := by
  refine pays_identifier.bind fun n name hname => .behind (passes_symbol (by decide)) fun _ => ?_
  cases hf : Aggregate.ofName? name with
  | none =>
      exact (Pays.separatedOrNone (passes_symbol (by decide)) (h .whole)).more fun m args hargs =>
        .behind (passes_symbol (by decide)) fun _ => .pure (paid_call hname hargs)
  | some f =>
      have harg : Pays n (aggregateArgument sub f) fun n e => e.Paid n :=
        .behind (passes_present (passes_keyword _)) fun d => (h .whole).more fun m e he =>
          .behind (passes_symbol (by decide)) fun _ =>
            .pure ((paid_aggregate f d he).mono (by omega))
      have hstar : Passes starArgument :=
        .behind (passes_symbol (by decide)) fun _ => passes_symbol (by decide)
      simp only
      split
      · refine Pays.orElse (.behind hstar fun _ => .pure ?_) harg
        exact (paid_aggregateAll f _).mono (Nat.zero_le n)
      · exact harg

theorem pays_primary : Pays 0 (primary sub) fun n e => e.Paid n := by
  have hword : ∀ (w : String) (v : Value), Light 0 v.literal.toList →
      Pays 0 (do keyword w; return Expr.literal v) fun n e => e.Paid n :=
    fun w v hv => .behind (passes_keyword w) fun _ => .pure (.of hv)
  have htext : Pays 0 stringLiteral fun n a => n = weight (Doubled.quoted '\'' a).toList :=
    pays_quotedText stops_apostrophe (by decide)
  refine Pays.spaced (Pays.oneOf ?_)
  simp only [List.forall_mem_cons, List.not_mem_nil]
  refine ⟨hword _ _ (.words (by decide)), hword _ _ (.words (by decide)),
    hword _ _ (.words (by decide)),
    htext.map fun n a ha => .of (ha ▸ light_quoted stops_apostrophe (by decide) a),
    pays_number.map fun _ _ hv => .of hv.1, pays_functionCall h,
    pays_columnRef.map fun _ _ hc => .of hc, .parenthesized (h .whole), fun _ hx => hx.elim⟩

theorem pays_signed : Pays 0 (signed sub) fun n e => e.Paid n := by
  refine Pays.oneOf ?_
  simp only [List.forall_mem_cons, List.not_mem_nil]
  exact ⟨.behind (passes_symbol (by decide)) fun _ => pays_number.map fun _ _ hv => .of hv.2,
    .behind (passes_symbol (by decide)) fun _ => (h .signed).map fun _ _ he => paid_minus he,
    pays_primary h, fun _ hx => hx.elim⟩

omit h in
theorem pays_operation {operand : Parser Expr} (k : Pays 0 operand fun n e => e.Paid n)
    {ops : List (List Char × BinaryOp)}
    (hops : ∀ o ∈ ops, o.1.all (fun c => !isIdentChar c) = true) :
    Pays 0 (operation ops operand) fun m f => ∀ n l, l.Paid n → (f l).Paid (n + m) := by
  have hop : Passes (spaced (oneOf (ops.map fun o => do exactly o.1; return o.2))) := by
    refine Pays.spaced (Pays.oneOf fun p hp => ?_)
    obtain ⟨o, ho, rfl⟩ := List.mem_map.mp hp
    exact .behind (passes_exactly (hops o ho)) fun _ => .pure trivial
  exact .behind hop fun op => k.map fun m r hr n l hl => paid_binary op hl hr

theorem pays_sum : Pays 0 (sum sub) fun n e => e.Paid n := by
  have hsigned := pays_signed h
  have hproduct : Pays 0 (product sub) fun n e => e.Paid n :=
    .chain hsigned (pays_operation hsigned (by decide))
  exact .chain hproduct (pays_operation hproduct (by decide))

theorem pays_predicate : Pays 0 (predicate sub) fun n e => e.Paid n := by
  have hsum := pays_sum h
  refine hsum.bind fun n l hl => Pays.oneOf ?_
  have hnull : Pays n (nullTest l) fun n e => e.Paid n :=
    .behind (passes_keyword _) fun _ => .behind (passes_present (passes_keyword _)) fun b =>
      .behind (passes_keyword _) fun _ => .pure (paid_isNull b hl)
  have hrange : ∀ b, Pays n (rangeTest sub b l) fun n e => e.Paid n := fun b =>
    .behind (passes_keyword _) fun _ => hsum.more fun i low hlow =>
      .behind (passes_keyword _) fun _ => hsum.more fun j high hhigh =>
        .pure (paid_between b hl hlow hhigh)
  have hlist : ∀ b, Pays n (listTest sub b l) fun n e => e.Paid n := fun b =>
    .behind (passes_keyword _) fun _ =>
      (Pays.parenthesized (.separated (passes_symbol (by decide)) (h .whole))).more
        fun i items hitems => .pure (paid_inList b hl hitems.1 hitems.2)
  have hpattern : ∀ b, Pays n (patternTest sub b l) fun n e => e.Paid n := fun b =>
    .behind (passes_keyword _) fun _ => hsum.more fun i p hp => .pure (paid_like b hl hp)
  have hneg : Pays n (negatableTest sub l) fun n e => e.Paid n := by
    refine .behind (passes_present (passes_keyword _)) fun b => Pays.oneOf ?_
    simp only [List.forall_mem_cons, List.not_mem_nil]
    exact ⟨hrange b, hlist b, hpattern b, fun _ hx => hx.elim⟩
  have hcomp : Pays n (comparison sub l) fun n e => e.Paid n :=
    (pays_operation hsum (by decide)).more fun i f hf => .pure (hf n l hl)
  simp only [List.forall_mem_cons, List.not_mem_nil]
  exact ⟨hnull, hneg, hcomp, .pure hl, fun _ hx => hx.elim⟩

theorem pays_negation : Pays 0 (negation sub) fun n e => e.Paid n :=
  Pays.orElse (.behind (passes_keyword _) fun _ => (h .negation).map fun _ _ he => paid_not he)
    (pays_predicate h)

theorem pays_disjunction : Pays 0 (disjunction sub) fun n e => e.Paid n := by
  have hnegation := pays_negation h
  have hconj : Pays 0 (conjunction sub) fun n e => e.Paid n :=
    .chain hnegation (.behind (passes_keyword _) fun _ =>
      hnegation.map fun _ r hr _ l hl => paid_binary .and hl hr)
  exact .chain hconj (.behind (passes_keyword _) fun _ =>
    hconj.map fun _ r hr _ l hl => paid_binary .or hl hr)

end

theorem pays_exprAt (n : Nat) (level : Level) : Pays 0 (exprAt n level) fun n e => e.Paid n := by
  induction n generalizing level with
  | zero => exact fun s e r he => by cases he
  | succ n ih =>
      cases level with
      | whole => exact pays_disjunction ih
      | negation => exact pays_negation ih
      | signed => exact pays_signed ih

/-- An expression that is read weighs no more than what it was read from. -/
theorem pays_expr : Pays 0 expr fun n e => e.Paid n := fun s e r he => pays_exprAt _ _ s e r he

end Parser

/-! ## Queries -/

/-- The projection item is paid with `n`. -/
abbrev SelectItem.Paid (n : Nat) (x : SelectItem) : Prop :=
  Sql.Paid (Light · x.chars) n x.callsPlain

/-- The sort key is paid with `n`. -/
abbrev SortKey.Paid (n : Nat) (k : SortKey) : Prop :=
  Sql.Paid (Light · k.chars) n k.expr.callsPlain

/-- The closing clauses are paid with `n`. -/
abbrev Tail.Paid (n : Nat) (t : Tail) : Prop := Sql.Paid (LightBehind · t.chars) n t.callsPlain

/-- The source item is paid with `n`. -/
abbrev FromItem.Paid (n : Nat) (x : FromItem) : Prop := Sql.Paid (Light · x.chars) n x.callsPlain

/-- The query is paid with `n`. -/
abbrev Query.Paid (n : Nat) (q : Query) : Prop := Sql.Paid (Light · q.chars) n q.callsPlain

theorem lightBehind_named {n : Nat} {a : Option String} (h : Given Parser.Named n a) :
    LightBehind n (aliasChars a) := by
  cases a with
  | none =>
      obtain rfl : n = 0 := h.1 rfl
      exact .nil
  | some name => exact (lightBehind_alias (some name)).mono (h.2 name rfl)

/-- The text of a SELECT without closing clauses. -/
theorem Query.chars_plain (xs : List FromItem) (c : Clauses) : (Query.select xs c .empty).chars =
    c.headChars ++ Parser.sourceChars xs ++ conditionChars " WHERE " c.condition ++
      Parser.groupChars c.groupBy ++ conditionChars " HAVING " c.having := by
  have htail : Tail.empty.chars = [] := rfl
  rw [Parser.chars_eq, Parser.bodyChars, Parser.restChars_eq, Parser.tailOf, htail]
  simp only [List.append_assoc, List.append_nil]

theorem Query.callsPlain_plain (xs : List FromItem) (c : Clauses) :
    (Query.select xs c .empty).callsPlain = (c.projection.all SelectItem.callsPlain &&
      xs.all FromItem.callsPlain && c.condition.all Expr.callsPlain &&
      c.groupBy.all Expr.callsPlain && c.having.all Expr.callsPlain) := by
  rw [Query.callsPlain, Clauses.callsPlain, FromItem.callsPlainList_eq, Tail.callsPlain, Tail.empty,
    List.all_nil, Bool.and_true, Bool.and_comm (xs.all _)]
  simp only [Bool.and_assoc, Bool.and_comm (xs.all _)]

/-- A list behind its word, which is written only when it has elements. -/
theorem Given.clause {α : Type} {text : α → List Char} {plain : α → Bool} {n : Nat}
    {o : Option (List α)} (h : Given (fun n as => as ≠ [] ∧
      Shared (fun i a => Paid (Light · (text a)) i (plain a)) n as) n o) {w : String}
    (hw : calm w.toList = true) (hc : leaves w.toList = true) :
    Paid (LightBehind · (if (o.getD []).isEmpty then []
      else clauseChars w (commaList ((o.getD []).map text)))) n ((o.getD []).all plain) := by
  cases o with
  | none =>
      obtain rfl : n = 0 := h.1 rfl
      exact .of .nil
  | some as =>
      obtain ⟨hne, hshared⟩ := h.2 as rfl
      have hempty : as.isEmpty = false := by simpa using hne
      rw [Option.getD_some, hempty, if_neg Bool.false_ne_true]
      exact (hshared.commaList hne).map fun i hi => hi.follow hw hc

theorem Given.condition {n : Nat} {o : Option Expr} (h : Given (fun n e => e.Paid n) n o)
    {w : String} (hw : calm w.toList = true) (hc : leaves w.toList = true) :
    Paid (LightBehind · (conditionChars w o)) n (o.all Expr.callsPlain) := by
  cases o with
  | none =>
      obtain rfl : n = 0 := h.1 rfl
      exact .of .nil
  | some e => exact Paid.map (h.2 e rfl) fun i hi => hi.follow hw hc

namespace Parser

theorem pays_aliasName : Pays 0 aliasName Named :=
  Pays.orElse pays_asName pays_identifier.spaced

theorem pays_alias : Pays 0 (optional aliasName) (Given Named) := Pays.optional pays_aliasName

theorem pays_selectItem : Pays 0 selectItem fun n x => x.Paid n := by
  refine Pays.oneOf ?_
  simp only [List.forall_mem_cons, List.not_mem_nil]
  have hstar : LightBehind 0 ['.', '*'] := by
    intro rest hr
    refine ⟨rfl, ?_⟩
    rw [List.cons_append, weight_point, frontWeight_of_ends rfl, Nat.zero_add, Nat.zero_add,
      ← weightBehind_of_ends hr]
    have hlast := weight_other (c := '*') (by decide) (by decide) (by decide) rest
    exact ((weightBehind_of_ends rfl).trans hlast).le
  have hname : Pays 0 (do let name ← identifier; exactly ['.', '*']; return name) Named :=
    pays_identifier.bind fun n name h => .behind (passes_exactly (by decide)) fun _ => .pure h
  exact ⟨.behind (passes_symbol (by decide)) fun _ => .pure (.of (.words (by decide))),
    hname.spaced.map fun n q h => .of (h.light.append hstar),
    pays_expr.bind fun n e he => pays_alias.more fun m a ha =>
      .pure (Paid.beside he (lightBehind_named ha)),
    fun _ hx => hx.elim⟩

theorem passes_keywords (a b : String) : Passes (keywords a b) :=
  .behind (passes_keyword a) fun _ => passes_keyword b

theorem pays_sortKey : Pays 0 sortKey fun n k => k.Paid n := by
  have horder : Passes (optional (oneOf [
      do keyword "ASC"; return SortOrder.asc, do keyword "DESC"; return SortOrder.desc])) := by
    refine (Pays.optional (Pays.oneOf (Q := fun _ _ => True) ?_)).passes
    simp only [List.forall_mem_cons, List.not_mem_nil]
    exact ⟨.behind (passes_keyword _) fun _ => .pure trivial,
      .behind (passes_keyword _) fun _ => .pure trivial, fun _ hx => hx.elim⟩
  refine pays_expr.bind fun n e he => .behind horder fun o => .pure (Paid.map he fun i hi => ?_)
  have hdesc : LightBehind 0 " DESC".toList := .words (by decide) (by decide)
  unfold SortKey.chars
  split
  · exact hi
  · exact hi.append hdesc

theorem passes_rowCount : Passes rowCount := by
  have hdigits : Passes (natBelow (Nat.pow 2 64)) :=
    Pays.filterMap passes_digits fun _ _ _ _ _ => trivial
  exact hdigits.spaced.map fun _ _ _ => trivial

theorem lightBehind_count {word : String} (hw : calm word.toList = true)
    (hc : leaves word.toList = true) (o : Option UInt64) : LightBehind 0 (countChars word o) := by
  cases o with
  | none => exact .nil
  | some n => exact (light_digits (Digits.ofNat_all _)).follow hw hc

theorem pays_tail : Pays 0 tail fun n t => t.Paid n := by
  have hcount : ∀ w, Passes (optional (after (keyword w) rowCount)) := fun w =>
    (Pays.optional (.after (passes_keyword w) passes_rowCount)).passes
  refine (Pays.optional (.after (passes_keywords _ _)
    (.separated (passes_symbol (by decide)) pays_sortKey))).bind fun n keys hkeys =>
      .behind (hcount _) fun limit => .behind (hcount _) fun offset => .pure ?_
  have horder : Paid (LightBehind · (orderChars (keys.getD []))) n
      ((keys.getD []).all fun k => k.expr.callsPlain) :=
    Given.clause hkeys (by decide) (by decide)
  refine horder.map fun i hi => ?_
  rw [tailChars_eq]
  exact hi.append ((lightBehind_count (by decide) (by decide) limit).append
    (lightBehind_count (by decide) (by decide) offset))

/-- A query without closing clauses that is paid with `n`. -/
def PaidTerm (n : Nat) (q : Query) : Prop := q.Paid n ∧ q.hasTail = false

theorem pays_selectCore {source : Parser (List FromItem)}
    (h : Pays 0 source fun n xs => xs ≠ [] ∧ Shared (fun i x => x.Paid i) n xs) :
    Pays 0 (selectCore source) PaidTerm := by
  have hexpr : ∀ w, Pays 0 (optional (after (keyword w) expr)) (Given fun n e => e.Paid n) :=
    fun w => Pays.optional (.after (passes_keyword w) pays_expr)
  refine .behind (passes_keyword _) fun _ => .behind (passes_present (passes_keyword _)) fun d =>
    (Pays.separated (passes_symbol (by decide)) pays_selectItem).bind fun n₁ items hitems =>
      (Pays.optional (.after (passes_keyword _) h)).more fun n₂ from_ hfrom =>
        (hexpr _).more fun n₃ condition hcondition =>
          (Pays.optional (.after (passes_keywords _ _)
            (.separated (passes_symbol (by decide)) pays_expr))).more fun n₄ groupBy hgroup =>
            (hexpr _).more fun n₅ having hhaving => .pure ⟨?_, rfl⟩
  have hhead : Paid (Light · ("SELECT ".toList ++ (if d then "DISTINCT ".toList else []) ++
      commaList (items.map SelectItem.chars))) n₁ (items.all SelectItem.callsPlain) := by
    have hcalm : calm (' ' :: ("SELECT ".toList ++ if d then "DISTINCT ".toList else [])) =
        true := by
      cases d <;> decide
    exact (Shared.commaList hitems.2 hitems.1).map fun i hi => hi.lead hcalm
  have hsource : Paid (LightBehind · (sourceChars (from_.getD []))) n₂
      ((from_.getD []).all FromItem.callsPlain) := Given.clause hfrom (by decide) (by decide)
  have hwhere := Given.condition hcondition (w := " WHERE ") (by decide) (by decide)
  have hkeys : Paid (LightBehind · (groupChars (groupBy.getD []))) n₄
      ((groupBy.getD []).all Expr.callsPlain) := Given.clause hgroup (by decide) (by decide)
  have hlast := Given.condition hhaving (w := " HAVING ") (by decide) (by decide)
  have htext := (((hhead.append hsource).append hwhere).append hkeys).append hlast
  rw [Query.Paid, Query.chars_plain, Query.callsPlain_plain]
  exact htext

theorem paid_subquery {n m : Nat} {q : Query} {a : Option String} (h : q.Paid n)
    (ha : Given Named m a) : (FromItem.subquery q a).Paid (n + m) := by
  have hparen : Paid (Light · ('(' :: (q.chars ++ [')']))) n q.callsPlain :=
    Paid.map h fun _ hi => hi.paren
  have htext := hparen.beside (lightBehind_named ha)
  rw [FromItem.Paid, FromItem.chars, FromItem.callsPlain]
  simpa only [List.cons_append, List.append_assoc, List.nil_append] using htext

theorem paid_paren {n : Nat} {items : List FromItem} (hne : items ≠ [])
    (h : Shared (fun i x => x.Paid i) n items) : (FromItem.paren items).Paid n := by
  rw [FromItem.Paid, FromItem.chars, FromItem.charsList_eq, FromItem.callsPlain,
    FromItem.callsPlainList_eq]
  exact (Shared.commaList h hne).map fun _ hi => hi.paren

theorem paid_join (k : JoinKind) {n m i : Nat} {l r : FromItem} {on : Option Expr} (hl : l.Paid n)
    (hr : r.Paid m) (ho : Given (fun n e => e.Paid n) i on) :
    (FromItem.join k l r on).Paid (n + m + i) := by
  have hright : Paid (LightBehind · (k.words.toList ++ grouped r.isJoin r.chars)) m
      r.callsPlain := by
    refine Paid.map hr fun _ hj => (hj.grouped _).follow ?_ ?_ <;> cases k <;> decide
  have htext := (Paid.append hl hright).append
    (ho.condition (w := " ON ") (by decide) (by decide))
  rwa [← List.append_assoc] at htext

section
variable {n : Nat} (hq : Pays 0 (queryAt n) fun n q => q.Paid n)
  (hs : Pays 0 (sourceAt n) fun n xs => xs ≠ [] ∧ Shared (fun i x => x.Paid i) n xs)
include hq hs

theorem pays_factor : Pays 0 (factor n) fun n x => x.Paid n := by
  have hsub : Pays 0 (subqueryItem (queryAt n)) fun n x => x.Paid n :=
    (Pays.parenthesized hq).bind fun i q hpaid => pays_alias.more fun j a ha =>
      .pure (paid_subquery hpaid ha)
  have hparen : Pays 0 (do return FromItem.paren (← parenthesized (sourceAt n)))
      fun n x => x.Paid n :=
    (Pays.parenthesized hs).map fun i items h => paid_paren h.1 h.2
  have htable : Pays 0 tableItem fun n x => x.Paid n :=
    pays_identifier.spaced.bind fun i t ht => pays_alias.more fun j a ha =>
      .pure (.of (ht.light.append (lightBehind_named ha)))
  refine Pays.oneOf ?_
  simp only [List.forall_mem_cons, List.not_mem_nil]
  exact ⟨hsub, hparen, htable, fun _ hx => hx.elim⟩

omit hq hs in
theorem passes_joinKind : Passes joinKind := by
  have houter : Passes (optional (keyword "OUTER")) := (Pays.optional (passes_keyword _)).passes
  refine Pays.oneOf ?_
  simp only [List.forall_mem_cons, List.not_mem_nil]
  exact ⟨.behind (passes_keyword _) fun _ => .pure trivial,
    .behind (passes_keyword _) fun _ => .behind (passes_keyword _) fun _ => .pure trivial,
    .behind (passes_keyword _) fun _ => .behind houter fun _ => .behind (passes_keyword _) fun _ =>
      .pure trivial,
    .behind (passes_keyword _) fun _ => .behind houter fun _ => .behind (passes_keyword _) fun _ =>
      .pure trivial,
    .behind (passes_keyword _) fun _ => .behind (passes_keyword _) fun _ => .pure trivial,
    fun _ hx => hx.elim⟩

omit hq hs in
theorem pays_joinCondition (k : JoinKind) :
    Pays 0 (joinCondition k) (Given fun n e => e.Paid n) := by
  unfold joinCondition
  split
  · exact .pure ⟨fun _ => rfl, fun e he => by cases he⟩
  · exact .optional (.after (passes_keyword _) pays_expr)

theorem pays_joinedItem : Pays 0 (joinedItem (factor n)) fun n x => x.Paid n := by
  have hfactor := pays_factor hq hs
  -- the joins are grouped to the left: what is read so far is paid with `i`
  have hjoins : ∀ (fuel : List Char) (i : Nat) (x : FromItem), x.Paid i →
      Pays i (joinsFrom (factor n) fuel x) fun n x => x.Paid n := by
    intro fuel
    induction fuel with
    | nil => exact fun i x hx => .pure hx
    | cons c fuel ih =>
        intro i x hx s y r hy
        rw [joinsFrom] at hy
        cases hk : joinKind s with
        | error e =>
            simp only [hk, Except.ok.injEq, Prod.mk.injEq] at hy
            obtain ⟨rfl, rfl⟩ := hy
            exact ⟨i, hx, Nat.le_refl _⟩
        | ok p =>
            simp only [hk] at hy
            obtain ⟨j, -, hle⟩ := passes_joinKind s p.1 p.2 hk
            have hmore : Pays i (do
                let r ← factor n
                let on ← joinCondition p.1
                joinsFrom (factor n) fuel (.join p.1 x r on)) fun n x => x.Paid n :=
              hfactor.more fun j z hz => (pays_joinCondition p.1).more fun k on hon =>
                ih _ _ (paid_join p.1 hx hz hon)
            obtain ⟨m, hm, hle'⟩ := hmore p.2 y r hy
            exact ⟨m, hm, by omega⟩
  exact hfactor.bind fun i x hx s y r hy => hjoins s i x hx s y r hy

theorem pays_sourceWith : Pays 0 (sourceWith (queryAt n) (sourceAt n)) fun n xs =>
    xs ≠ [] ∧ Shared (fun i x => x.Paid i) n xs :=
  .separated (passes_symbol (by decide)) (pays_joinedItem hq hs)

theorem pays_term : Pays 0 (term n) PaidTerm :=
  Pays.orElse (pays_selectCore (pays_sourceWith hq hs))
    ((Pays.parenthesized hq).map fun _ _ h => ⟨Paid.map h fun _ hi => hi.paren, rfl⟩)

end

theorem chars_withTail {q q' : Query} {t : Tail} (h : q.hasTail = false)
    (hw : withTail? t q = some q') :
    q'.chars = q.chars ++ t.chars ∧ q'.callsPlain = (q.callsPlain && t.callsPlain) := by
  have hempty : ∀ {u : Tail}, (!u.isNone) = false → u = .empty := fun hu =>
    tail_eq_empty (by simpa using hu)
  cases q with
  | select source c u =>
      cases hw
      rw [hempty h, chars_eq, chars_eq]
      simp [bodyChars, tailOf, Query.callsPlain, Tail.callsPlain, Tail.chars, Tail.empty]
  | union l r all u =>
      cases hw
      rw [hempty h, chars_eq, chars_eq]
      simp [bodyChars, tailOf, Query.callsPlain, Tail.callsPlain, Tail.chars, Tail.empty]
  | paren q => cases hw

theorem paid_union (all : Bool) {n m : Nat} {l r : Query} (hl : l.Paid n) (hr : r.Paid m) :
    (Query.union l r all .empty).Paid (n + m) := by
  have hright : Paid (LightBehind · ((" UNION ".toList ++ if all then "ALL ".toList else []) ++
      grouped (r.hasTail || r.isUnion) r.chars)) m r.callsPlain := by
    refine Paid.map hr fun _ hj => (hj.grouped _).follow ?_ ?_ <;> cases all <;> decide
  have hleft : Paid (Light · (grouped l.hasTail l.chars)) n l.callsPlain :=
    Paid.map hl fun _ hi => hi.grouped _
  have htext := hleft.append hright
  rw [Query.Paid, chars_eq, bodyChars, tailOf, Query.callsPlain]
  simpa [Tail.chars, Tail.callsPlain, Tail.empty] using htext

section
variable {n : Nat} (hq : Pays 0 (queryAt n) fun n q => q.Paid n)
  (hs : Pays 0 (sourceAt n) fun n xs => xs ≠ [] ∧ Shared (fun i x => x.Paid i) n xs)
include hq hs

theorem pays_queryWith : Pays 0 (queryWith (queryAt n) (sourceAt n)) fun n q => q.Paid n := by
  have hterm := pays_term hq hs
  have hunion : Pays 0 (unionStep (term n)) fun n x => x.2.Paid n :=
    .behind (passes_keyword _) fun _ => .behind (passes_present (passes_keyword _)) fun all =>
      hterm.bind fun i q h => .pure h.1
  -- unions are grouped to the left: the first query and its unions so far are paid with `i`
  have hfold : ∀ (us : List (Bool × Query)) (i j : Nat) (q : Query),
      Shared (fun n x => x.2.Paid n) j us → PaidTerm i q →
      PaidTerm (i + j) (us.foldl (fun l x => Query.union l x.2 x.1 .empty) q) := by
    intro us
    induction us with
    | nil =>
        rintro i _ q rfl h
        exact h
    | cons u us ih =>
        rintro i _ q ⟨j, k, rfl, hu, hus⟩ h
        rw [← Nat.add_assoc]
        exact ih _ _ _ hus ⟨paid_union u.1 h.1 hu, rfl⟩
  refine hterm.bind fun i first hfirst => (Pays.many hunion).more fun j more hmore => ?_
  obtain ⟨hpaid, hnone⟩ := hfold more i j first hmore hfirst
  intro s q r hr
  simp only at hr
  cases ht : tail s with
  | error e =>
      rw [ht] at hr
      cases hr
  | ok x =>
      rw [ht] at hr
      simp only at hr
      split at hr
      · simp only [Except.ok.injEq, Prod.mk.injEq] at hr
        obtain ⟨rfl, rfl⟩ := hr
        exact ⟨i + j, hpaid, Nat.le_refl _⟩
      · cases hw : withTail? x.1 (more.foldl (fun l x => Query.union l x.2 x.1 .empty) first) with
        | none =>
            rw [hw] at hr
            cases hr
        | some q' =>
            rw [hw] at hr
            simp only [Except.ok.injEq, Prod.mk.injEq] at hr
            obtain ⟨rfl, rfl⟩ := hr
            obtain ⟨k, hk, hle⟩ := pays_tail s x.1 x.2 ht
            obtain ⟨hchars, hcalls⟩ := chars_withTail hnone hw
            have hwhole : q'.Paid (i + j + k) := by
              rw [Query.Paid, hchars, hcalls]
              exact Paid.append hpaid hk
            exact ⟨i + j + k, hwhole, by omega⟩

end

theorem pays_queryAt (n : Nat) : Pays 0 (queryAt n) (fun n q => q.Paid n) ∧
    Pays 0 (sourceAt n) fun n xs => xs ≠ [] ∧ Shared (fun i x => x.Paid i) n xs := by
  induction n with
  | zero => exact ⟨fun s q r h => (by cases h), fun s xs r h => (by cases h)⟩
  | succ n ih =>
      refine ⟨fun s q r h => pays_queryWith ih.1 ih.2 s q r ?_,
        fun s xs r h => pays_sourceWith ih.1 ih.2 s xs r ?_⟩
      · rw [queryAt] at h
        exact h
      · rw [sourceAt] at h
        exact h

/-- A query that is read weighs no more than what it was read from. -/
theorem pays_query : Pays 0 query fun n q => q.Paid n := fun s q r h => (pays_queryAt _).1 s q r h

/-- A statement that is a query is read by the last of the readers. -/
theorem query_of_statement {s r : List Char} {q : Query} (h : statement s = .ok (.query q, r)) :
    query s = .ok (q, r) := by
  rcases orElse_inv h with h | ⟨-, h⟩
  · obtain ⟨u, t, -, h⟩ := bind_inv h
    cases (pure_inv h).1
  rcases orElse_inv h with h | ⟨-, h⟩
  · obtain ⟨u, t, -, h⟩ := bind_inv h
    obtain ⟨flag, t, -, h⟩ := bind_inv h
    obtain ⟨name, t, -, h⟩ := bind_inv h
    obtain ⟨columns, t, -, h⟩ := bind_inv h
    cases (pure_inv h).1
  rcases orElse_inv h with h | ⟨-, h⟩
  · obtain ⟨u, t, -, h⟩ := bind_inv h
    obtain ⟨flag, t, -, h⟩ := bind_inv h
    obtain ⟨name, t, -, h⟩ := bind_inv h
    cases (pure_inv h).1
  rcases orElse_inv h with h | ⟨-, h⟩
  · obtain ⟨u, t, -, h⟩ := bind_inv h
    obtain ⟨table, t, -, h⟩ := bind_inv h
    obtain ⟨columns, t, -, h⟩ := bind_inv h
    obtain ⟨u, t, -, h⟩ := bind_inv h
    obtain ⟨rows, t, -, h⟩ := bind_inv h
    cases (pure_inv h).1
  · obtain ⟨q', t, hq, h⟩ := bind_inv h
    obtain ⟨he, rfl⟩ := pure_inv h
    cases he
    exact hq

end Parser

open Rowtime.Sql.Parser

theorem isIdentChar_of_blank {c : Char} (h : isBlank c = true) : isIdentChar c = false := by
  simp only [isBlank, Bool.or_eq_true, Bool.and_eq_true, decide_eq_true_eq, beq_iff_eq] at h
  have hout : ∀ a b : Char, (c.toNat < a.toNat ∨ b.toNat < c.toNat) →
      (decide (a ≤ c) && decide (c ≤ b)) = false := by
    intro a b hab
    rw [Bool.and_eq_false_iff, decide_eq_false_iff_not, decide_eq_false_iff_not]
    change ¬a.toNat ≤ c.toNat ∨ ¬c.toNat ≤ b.toNat
    omega
  have hne : (c == '_') = false := by
    rw [beq_eq_false_iff_ne]
    rintro rfl
    simp at h
  rw [isIdentChar, isIdentStart, hne, hout 'a' 'z' (by simp only [Char.reduceToNat]; omega),
    hout 'A' 'Z' (by simp only [Char.reduceToNat]; omega),
    hout '0' '9' (by simp only [Char.reduceToNat]; omega)]
  rfl

/-- A query whose text is read to the same query calls only what has a plain name. -/
theorem Query.callsPlain_of_read {q : Query} (h : parseStatement q.display = .ok (.query q)) :
    q.callsPlain = true := by
  have htext : q.display.toList = q.chars := String.toList_ofList
  obtain ⟨c, s, hs, hc⟩ := BeginsQuery.head (query_start q)
  have htrim : trim q.chars = trimRight isBlank q.chars := by
    rw [trim, hs, trimLeft, List.dropWhile_cons, if_neg (by simp [hc])]
  have hsemicolon : ∀ c : Char, (c == ';') = true → isIdentChar c = false := by
    intro c hc
    rw [eq_of_beq hc]
    decide
  have hle : weightBehind (trimRight (· == ';') (trim q.chars)) ≤ weightBehind q.chars := by
    rw [htrim]
    exact (weightBehind_trimRight _ hsemicolon _).trans
      (weightBehind_trimRight _ (fun _ => isIdentChar_of_blank) _)
  obtain ⟨r, hquery⟩ : ∃ r, query (trimRight (· == ';') (trim q.chars)) = .ok (q, r) := by
    rw [parseStatement, htext] at h
    split at h
    · cases h
    · rename_i x r hx
      split at h
      · cases h
        exact ⟨r, query_of_statement hx⟩
      · cases h
  -- the query weighs no less than its text and nothing was saved while it was read
  obtain ⟨m, ⟨k, hk, hm⟩, hpaid⟩ := pays_query _ q r hquery
  have hlight := hk [] rfl
  rw [List.append_nil] at hlight
  have hnil : weight [] = 0 := rfl
  have hflaw : flaw q.callsPlain = 0 := by omega
  unfold flaw at hflaw
  split at hflaw
  · assumption
  · cases hflaw

/-- A statement whose text is read to the same statement calls only what has a plain name. -/
theorem Statement.callsPlain_of_read {s : Statement} (h : parseStatement s.display = .ok s) :
    s.callsPlain = true := by
  cases s with
  | query q => exact Query.callsPlain_of_read h
  | _ => rfl

/-- A query that is read from its own text is legible and read as it is. -/
theorem Query.reads_itself {q : Query} (h : parseStatement q.display = .ok (.query q)) :
    q.Legible ∧ q.reread = q := by
  have hl := legible_of_parsed h (Query.callsPlain_of_read h)
  have hread := parseStatement_display hl
  rw [h] at hread
  simp only [Except.ok.injEq, Statement.query.injEq] at hread
  exact ⟨hl, hread.symm⟩

end Rowtime.Sql
