import Rowtime.Proofs.Evaluation
import Rowtime.Proofs.Numerals
import Rowtime.Sql.Parser.Expr
import Rowtime.Sql.Printer

/-!
# Expressions that are read from their text

An expression is legible when its literals have a text, its calls have bare
names, its lists have an element and only the count is taken of all rows. What is
read from the text of a legible expression is the expression itself but for one
thing: a minus sign in front of a number is read as part of the number (`reread`).

The text of an expression ends where nothing follows that would go on with it.
How much that excludes depends on how tightly the place binds (`clear`); and how
a text may begin depends on how tightly the expression binds (`Starts`).
-/
namespace Rowtime.Sql

open Text

theorem Expr.charsList_eq (es : List Expr) : Expr.charsList es = es.map Expr.chars := by
  induction es with
  | nil => rfl
  | cons e es ih => rw [Expr.charsList, ih, List.map_cons]

theorem Expr.chars_inList (n : Bool) (e : Expr) (items : List Expr) :
    (Expr.inList n e items).chars = grouped (e.strength ≤ 4) e.chars ++ ' ' ::
      (notChars n ++ "IN (".toList ++ commaList (items.map Expr.chars) ++ [')']) := by
  rw [Expr.chars, Expr.charsList_eq]

theorem Expr.chars_call (name : String) (args : List Expr) :
    (Expr.call name args).chars =
      (asciiUpperText name).toList ++ '(' :: (commaList (args.map Expr.chars) ++ [')']) := by
  rw [Expr.chars, Expr.charsList_eq]

/-- The name of a call that is read from its text. -/
structure PlainCall (name : String) : Prop where
  plain : isPlainName name = true
  upper : asciiUpperText name = name
  other : Aggregate.ofName? name = none

namespace Expr

mutual

/-- The expression has a text from which it is read. -/
def Legible : Expr → Prop
  | .column _ => True
  | .literal v => LegibleLiteral v
  | .unary _ e => e.Legible
  | .binary _ l r => l.Legible ∧ r.Legible
  | .isNull _ e => e.Legible
  | .between _ e l h => e.Legible ∧ l.Legible ∧ h.Legible
  | .inList _ e items => e.Legible ∧ items ≠ [] ∧ LegibleList items
  | .like _ e p => e.Legible ∧ p.Legible
  | .call name args => PlainCall name ∧ LegibleList args
  | .aggregate _ _ e => e.Legible
  | .aggregateAll f d => f = .count ∧ d = false

/-- All expressions of a list have such a text. -/
def LegibleList : List Expr → Prop
  | [] => True
  | e :: r => e.Legible ∧ LegibleList r

end

theorem legibleList_iff {es : List Expr} : LegibleList es ↔ ∀ e ∈ es, e.Legible := by
  induction es with
  | nil => simp [LegibleList]
  | cons e es ih => simp [LegibleList, ih]

/-- A minus sign in front of an expression that is read as `r`, a number taking it as its own. -/
def minus (r : Expr) : Expr → Expr
  | .literal v => if isUnsigned v then .literal (Parser.negated v) else .unary .minus r
  | _ => .unary .minus r

mutual

/-- What is read from the text of an expression. -/
def reread : Expr → Expr
  | .unary .minus e => minus e.reread e
  | .unary .not e => .unary .not e.reread
  | .binary op l r => .binary op l.reread r.reread
  | .isNull n e => .isNull n e.reread
  | .between n e l h => .between n e.reread l.reread h.reread
  | .inList n e items => .inList n e.reread (rereadList items)
  | .like n e p => .like n e.reread p.reread
  | .call name args => .call name (rereadList args)
  | .aggregate f d e => .aggregate f d e.reread
  | .column c => .column c
  | .literal v => .literal v
  | .aggregateAll f d => .aggregateAll f d

/-- What is read from the texts of expressions. -/
def rereadList : List Expr → List Expr
  | [] => []
  | e :: r => e.reread :: rereadList r

end

theorem rereadList_eq (es : List Expr) : rereadList es = es.map reread := by
  induction es with
  | nil => rfl
  | cons e es ih => rw [rereadList, ih, List.map_cons]

theorem reread_inList (n : Bool) (e : Expr) (items : List Expr) :
    (Expr.inList n e items).reread = .inList n e.reread (items.map reread) := by
  rw [reread, rereadList_eq]

theorem reread_call (name : String) (args : List Expr) :
    (Expr.call name args).reread = .call name (args.map reread) := by
  rw [reread, rereadList_eq]

theorem strength_pos (e : Expr) : 1 ≤ e.strength := by
  cases e with
  | binary op _ _ => cases op <;> exact Nat.le_add_left 1 _
  | unary op _ => cases op <;> exact Nat.le_add_left 1 _
  | literal v =>
      rw [strength]
      split <;> omega
  | _ => exact Nat.le_add_left 1 _

theorem strength_le (e : Expr) : e.strength ≤ 8 := by
  cases e with
  | binary op _ _ => cases op <;> exact Nat.le_of_ble_eq_true rfl
  | unary op _ => cases op <;> exact Nat.le_of_ble_eq_true rfl
  | literal v =>
      rw [strength]
      split <;> omega
  | _ => exact Nat.le_of_ble_eq_true rfl

/-- A literal that does not begin with a minus sign stands alone. -/
theorem strength_literal {v : Value} {c : Char} {r : List Char} (h : v.literal.toList = c :: r)
    (hc : c ≠ '-') : (Expr.literal v).strength = 8 := by
  have : (some c == some '-') = false := by simpa using hc
  rw [strength, h, List.head?_cons, this]
  rfl

end Expr

namespace Parser

/-! ## What may follow -/

/-- Whether an operator comes next, behind gaps. -/
def opNext (ops : List (List Char × BinaryOp)) (s : List Char) : Bool :=
  ops.any fun o => o.1.isPrefixOf (skip s)

/-- Whether a text runs into a word, a quoted text or a number in front of it. -/
def touches (s : List Char) : Bool :=
  match s with
  | [] => false
  | c :: _ => isIdentChar c || c == '"' || c == '\'' || c == '.'

/-- Whether a predicate or a comparison comes next. -/
def predicateNext (s : List Char) : Bool :=
  wordNext "IS" s || wordNext "NOT" s || wordNext "BETWEEN" s || wordNext "IN" s ||
    wordNext "LIKE" s || opNext comparisonOps s

/-- Whether nothing comes next that would go on with an expression of a strength. -/
def clear (k : Nat) (s : List Char) : Bool :=
  !touches s && !charNext '(' s && (decide (6 < k) || !opNext productOps s) &&
    (decide (5 < k) || !opNext sumOps s) && (decide (4 < k) || !predicateNext s) &&
    (decide (2 < k) || !wordNext "AND" s) && (decide (1 < k) || !wordNext "OR" s)

theorem clear_mono {j k : Nat} (h : j ≤ k) {s : List Char} (hs : clear j s = true) :
    clear k s = true := by
  simp only [clear, Bool.and_eq_true, Bool.or_eq_true, decide_eq_true_eq] at hs ⊢
  obtain ⟨⟨⟨⟨⟨⟨h1, h2⟩, h3⟩, h4⟩, h5⟩, h6⟩, h7⟩ := hs
  exact ⟨⟨⟨⟨⟨⟨h1, h2⟩, h3.imp_left (by omega)⟩, h4.imp_left (by omega)⟩, h5.imp_left (by omega)⟩,
    h6.imp_left (by omega)⟩, h7.imp_left (by omega)⟩

theorem touches_spec {s : List Char} (h : touches s = false) :
    identFollows s = false ∧ s.head? ≠ some '"' ∧ s.head? ≠ some '\'' ∧ s.head? ≠ some '.' := by
  cases s with
  | nil => simp [identFollows]
  | cons c r => simpa [touches, identFollows, and_assoc] using h

/-- What is known behind an expression of any strength. -/
theorem clear_touches {k : Nat} {s : List Char} (h : clear k s = true) :
    touches s = false ∧ charNext '(' s = false := by
  simp only [clear, Bool.and_eq_true, Bool.not_eq_true'] at h
  exact ⟨h.1.1.1.1.1.1, h.1.1.1.1.1.2⟩

theorem clear_product {k : Nat} (hk : k ≤ 6) {s : List Char} (h : clear k s = true) :
    opNext productOps s = false := by
  simp only [clear, Bool.and_eq_true, Bool.or_eq_true, decide_eq_true_eq, Bool.not_eq_true'] at h
  exact h.1.1.1.1.2.resolve_left (by omega)

theorem clear_sum {k : Nat} (hk : k ≤ 5) {s : List Char} (h : clear k s = true) :
    opNext sumOps s = false := by
  simp only [clear, Bool.and_eq_true, Bool.or_eq_true, decide_eq_true_eq, Bool.not_eq_true'] at h
  exact h.1.1.1.2.resolve_left (by omega)

theorem clear_predicate {k : Nat} (hk : k ≤ 4) {s : List Char} (h : clear k s = true) :
    predicateNext s = false := by
  simp only [clear, Bool.and_eq_true, Bool.or_eq_true, decide_eq_true_eq, Bool.not_eq_true'] at h
  exact h.1.1.2.resolve_left (by omega)

theorem clear_and {k : Nat} (hk : k ≤ 2) {s : List Char} (h : clear k s = true) :
    wordNext "AND" s = false := by
  simp only [clear, Bool.and_eq_true, Bool.or_eq_true, decide_eq_true_eq, Bool.not_eq_true'] at h
  exact h.1.2.resolve_left (by omega)

theorem clear_or {k : Nat} (hk : k ≤ 1) {s : List Char} (h : clear k s = true) :
    wordNext "OR" s = false := by
  simp only [clear, Bool.and_eq_true, Bool.or_eq_true, decide_eq_true_eq, Bool.not_eq_true'] at h
  exact h.2.resolve_left (by omega)

/-! ## How a text begins -/

/-- What the text of an expression of a strength cannot be taken for. -/
structure Starts (k : Nat) (s : List Char) : Prop where
  solid : Solid s
  distinct : wordNext "DISTINCT" s = false
  star : charNext '*' s = false
  wild : Refuses (do let name ← identifier; exactly ['.', '*']; return name) s
  negation : 4 ≤ k → wordNext "NOT" s = false
  sign : 8 ≤ k → charNext '-' s = false

theorem Starts.mono {j k : Nat} (h : j ≤ k) {s : List Char} (hs : Starts k s) : Starts j s :=
  ⟨hs.solid, hs.distinct, hs.star, hs.wild, fun hj => hs.negation (by omega),
    fun hj => hs.sign (by omega)⟩

/-- A text that begins with a character of no word and no name. -/
theorem Starts.of_head {k : Nat} {c : Char} {r : List Char} (hg : isGap c = false)
    (hc : isIdentChar c = false) (hq : c ≠ '"') (hs : c ≠ '*') (hm : 8 ≤ k → c ≠ '-') :
    Starts k (c :: r) := by
  have hstart : isIdentStart c = false := by
    cases h : isIdentStart c with
    | false => rfl
    | true =>
        rw [(isIdentStart_spec h).1] at hc
        simp at hc
  refine ⟨⟨c, r, rfl, hg⟩, wordNext_of_head (by decide) (by decide) hg hc, ?_,
    bind_refuses (identifier_refuses_head hq hstart), fun _ =>
      wordNext_of_head (by decide) (by decide) hg hc, fun hk => ?_⟩
  · rw [charNext, skip_cons hg]
    simpa using hs
  · rw [charNext, skip_cons hg]
    simpa using hm hk

/-- A keyword does not come next where another letter stands. -/
theorem wordNext_of_first {v : String} {k c : Char} {u r : List Char} (hv : v.toList = k :: u)
    (hg : isGap c = false) (h : asciiLower k ≠ asciiLower c) : wordNext v (c :: r) = false := by
  unfold wordNext
  rw [skip_cons hg, hv, dropWord?, if_neg (by simpa using h)]

/-- A keyword does not come next where a digit stands. -/
theorem wordNext_of_digit {v : String} {k c : Char} {u r : List Char} (hv : v.toList = k :: u)
    (hk : Digits.isDigit (asciiLower k) = false) (h : Digits.isDigit c = true) :
    wordNext v (c :: r) = false := by
  have hlower : asciiLower c = c := by
    refine asciiLower_of_not_capital fun hcap => ?_
    have h1 := (capital_bounds hcap).1
    simp only [Digits.isDigit, Bool.and_eq_true, decide_eq_true_eq] at h
    have h2 : c.toNat ≤ 57 := h.2
    omega
  refine wordNext_of_first hv (isDigit_spec h).2.1 fun he => ?_
  rw [he, hlower, h] at hk
  simp at hk

/-- A text that begins with a digit. -/
theorem Starts.of_digit {k : Nat} {c : Char} {r : List Char} (h : Digits.isDigit c = true) :
    Starts k (c :: r) := by
  obtain ⟨-, hg, hstart, hm, -, -, hq, -, hs⟩ := isDigit_spec h
  refine ⟨⟨c, r, rfl, hg⟩, wordNext_of_digit rfl (by decide) h, ?_,
    bind_refuses (identifier_refuses_head hq hstart), fun _ => wordNext_of_digit rfl (by decide) h,
    fun _ => ?_⟩
  · rw [charNext, skip_cons hg]
    simpa using hs
  · rw [charNext, skip_cons hg]
    simpa using hm

theorem nameChars_head (name : String) :
    ∃ c r, nameChars name = c :: r ∧ isGap c = false ∧ c ≠ '*' ∧ c ≠ '-' ∧ c ≠ '\'' ∧ c ≠ '(' ∧
      Digits.isDigit c = false := by
  rcases nameChars_cases name with ⟨c, r, hn, -, hc, -⟩ | hn
  · obtain ⟨-, hg, -, hq, hp, hm, hs, hd⟩ := isIdentStart_spec hc
    exact ⟨c, r, hn, hg, hs, hm, hq, hp, hd⟩
  · rw [hn, Doubled.quoted, String.toList_ofList]
    exact ⟨'"', _, rfl, by decide, by decide, by decide, by decide, by decide, by decide⟩

/-- A text that begins with a name, but not with a name, a point and a star. -/
theorem Starts.of_name (k : Nat) (name : String) {rest : List Char} (h : nameEnds rest = true)
    (hw : ['.', '*'].isPrefixOf rest = false) : Starts k (nameChars name ++ rest) := by
  obtain ⟨c, r, hn, hg, hs, hm, -⟩ := nameChars_head name
  refine ⟨(nameChars_solid name).append rest, wordNext_name (by decide) (by decide) (by decide) name h,
    ?_, bind_ok_refuses (identifier_ok name h) (bind_refuses (exactly_refuses hw)),
    fun _ => wordNext_name (by decide) (by decide) (by decide) name h, fun _ => ?_⟩
  · rw [hn, List.cons_append, charNext, skip_cons hg]
    simpa using hs
  · rw [hn, List.cons_append, charNext, skip_cons hg]
    simpa using hm

/-- A text that begins with one of the words for literals. -/
theorem Starts.of_word {w : String} (hw : w = "NULL" ∨ w = "TRUE" ∨ w = "FALSE") (k : Nat)
    {rest : List Char} (h : identFollows rest = false) : Starts k (w.toList ++ rest) := by
  have hwild : ∀ {c : Char} {r : List Char}, isReserved w = true → w.toList = c :: r →
      isIdentStart c = true → r.all isIdentChar = true →
      Refuses (do let name ← identifier; exactly ['.', '*']; return name) (w.toList ++ rest) :=
    fun hres hl hc hr => bind_refuses (identifier_refuses_word hres hl hc hr h)
  rcases hw with rfl | rfl | rfl
  · exact ⟨solid_of_head rfl, rfl, rfl, hwild (by decide) rfl (by decide) (by decide),
      fun _ => rfl, fun _ => rfl⟩
  · exact ⟨solid_of_head rfl, rfl, rfl, hwild (by decide) rfl (by decide) (by decide),
      fun _ => rfl, fun _ => rfl⟩
  · exact ⟨solid_of_head rfl, rfl, rfl, hwild (by decide) rfl (by decide) (by decide),
      fun _ => rfl, fun _ => rfl⟩

theorem Starts.of_paren (k : Nat) (r : List Char) : Starts k ('(' :: r) :=
  .of_head (by decide) (by decide) (by decide) (by decide) fun _ => by decide

theorem nameEnds_of_touches {s : List Char} (h : touches s = false) : nameEnds s = true := by
  obtain ⟨hi, hq, -⟩ := touches_spec h
  simp [nameEnds, hi, hq]

theorem numberEnds_of_touches {s : List Char} (h : touches s = false) : numberEnds s = true := by
  obtain ⟨hi, -, -, hp⟩ := touches_spec h
  simp [numberEnds, hi, hp]

/-- A plain name is written as it is. -/
theorem nameChars_of_plain {name : String} (h : isPlainName name = true) :
    nameChars name = name.toList := by
  rw [nameChars, nameText, if_pos h]

theorem aggregate_chars (f : Aggregate) : f.name.toList = nameChars f.name := by
  refine (nameChars_of_plain ?_).symm
  cases f <;> decide

end Parser

end Rowtime.Sql
