import Rowtime.Proofs.BoundedText

/-!
# Rendered queries

A follower builds the tree of a query within bounds and hands over its text; what the
engine runs is what it reads from that text. A tree is renderable when its literals
have a text, when no minus sign stands directly in front of a number, when its calls
have bare names, and when its shape can be seen from its text. Bounds keep all that,
and what is read from the text of a renderable query is the query itself.

One thing is not kept in the tree that is read: a decimal without digits behind its
point is written with a zero there and read with it. It is the same number
(`Decimal.written`).
-/
namespace Rowtime

open Text Sql

/-! ## Literals -/

namespace Decimal

/-- The decimal that is read from the text of a decimal. -/
def written (d : Decimal) : Decimal :=
  if h : d.scale = 0 ∧ d.coeff * 10 < Nat.pow 2 96 then ⟨d.negative, d.coeff * 10, 1, h.2, by decide⟩
  else d

theorem written_legible (d : Decimal) : d.written.Legible := by
  unfold written
  split
  · exact .inl Nat.one_ne_zero
  · rename_i h
    rw [not_and, Nat.not_lt] at h
    by_cases hs : d.scale = 0
    · exact .inr (h hs)
    · exact .inl hs

theorem negative_written (d : Decimal) : d.written.negative = d.negative := by
  unfold written
  split <;> rfl

theorem chars_written (d : Decimal) :
    d.written.wholeChars = d.wholeChars ∧ d.written.partChars = d.partChars := by
  unfold written
  split
  · rename_i h
    constructor
    · simp only [wholeChars, h.1, show Nat.pow 10 1 = 10 from rfl, show Nat.pow 10 0 = 1 from rfl,
        Nat.div_one, Nat.mul_div_cancel _ (show 0 < 10 by decide)]
    · have hzero : Digits.lastDigits 1 (d.coeff * 10) = ['0'] := by
        simp only [Digits.lastDigits, Digits.toChar, Nat.mul_mod_left, List.nil_append]
      simp only [partChars, h.1]
      exact hzero
  · exact ⟨rfl, rfl⟩

theorem sameValue_written (d : Decimal) : d.written.sameValue d = true := by
  have hsame : d.written.atScale (max d.written.scale d.scale) =
      d.atScale (max d.written.scale d.scale) := by
    unfold written
    split
    · rename_i h
      simp [atScale, h.1]
    · rfl
  rw [sameValue, compare]
  simp only [hsame]
  simp

end Decimal

namespace Value

/-- Whether a literal has a text from which it is read, but for zeros behind a point. -/
def renderable : Value → Bool
  | .null | .boolean _ | .text _ | .numeric _ => true
  | .integer i => i != Int64.minValue
  | _ => false

/-- The literal that is read from the text of a literal. -/
def written : Value → Value
  | .numeric d => .numeric d.written
  | v => v

theorem legibleLiteral_integer {i : Int64} (h : i ≠ Int64.minValue) :
    LegibleLiteral (.integer i) := by
  have hle : -9223372036854775808 ≤ i.toInt := i.le_toInt
  have hne : i.toInt ≠ -9223372036854775808 := fun he => h (Int64.toInt.inj he)
  change -9223372036854775808 < i.toInt
  omega

theorem legible_written {v : Value} (h : v.renderable = true) : LegibleLiteral v.written := by
  cases v with
  | null => trivial
  | boolean b => trivial
  | text s => trivial
  | numeric d => exact d.written_legible
  | integer i =>
      apply legibleLiteral_integer
      simpa [renderable] using h
  | _ => cases h

theorem literal_written (v : Value) : v.written.literal = v.literal := by
  cases v with
  | numeric d =>
      obtain ⟨hwhole, hpart⟩ := d.chars_written
      rw [← String.toList_inj, written, Parser.literal_numeric, Parser.literal_numeric,
        d.negative_written, hwhole, hpart]
  | _ => rfl

theorem isUnsigned_written (v : Value) : isUnsigned v.written = isUnsigned v := by
  cases v with
  | numeric d => rw [written, isUnsigned, isUnsigned, d.negative_written]
  | _ => rfl

theorem same_written {v : Value} (h : v.renderable = true) : v.written.same v = true := by
  cases v with
  | null => rfl
  | boolean b => exact decide_eq_true rfl
  | text s => exact decide_eq_true rfl
  | numeric d => exact d.sameValue_written
  | integer i => exact decide_eq_true rfl
  | _ => cases h

end Value

namespace Sql

/-! ## Expressions -/

namespace Expr

/-- Whether an expression, apart from those in it, can be told from its text. -/
def renderableHere : Expr → Bool
  | .literal v => v.renderable
  | .unary .minus e => !e.isUnsignedNumber
  | .inList _ _ items => !items.isEmpty
  | .call name _ =>
    isPlainName name && asciiUpperText name == name && (Aggregate.ofName? name).isNone
  | .aggregateAll f d => f == .count && !d
  | _ => true

mutual

/-- The expression that is read from the text of an expression. -/
def written : Expr → Expr
  | .column c => .column c
  | .literal v => .literal v.written
  | .unary op e => .unary op e.written
  | .binary op l r => .binary op l.written r.written
  | .isNull n e => .isNull n e.written
  | .between n e l h => .between n e.written l.written h.written
  | .inList n e items => .inList n e.written (writtenList items)
  | .like n e p => .like n e.written p.written
  | .call name args => .call name (writtenList args)
  | .aggregate f d e => .aggregate f d e.written
  | .aggregateAll f d => .aggregateAll f d

/-- The expressions that are read from the texts of expressions. -/
def writtenList : List Expr → List Expr
  | [] => []
  | e :: r => e.written :: writtenList r

end

theorem writtenList_eq (es : List Expr) : writtenList es = es.map written := by
  induction es with
  | nil => rfl
  | cons e es ih => rw [writtenList, ih, List.map_cons]

theorem strength_written (e : Expr) : e.written.strength = e.strength := by
  cases e with
  | unary op e => cases op <;> rfl
  | literal v => rw [written, strength, strength, v.literal_written]
  | _ => rfl

theorem chars_written (e : Expr) : e.written.chars = e.chars := by
  have hlist : ∀ es : List Expr, (∀ x ∈ es, x.written.chars = x.chars) →
      charsList (writtenList es) = charsList es := by
    intro es ih
    rw [charsList_eq, charsList_eq, writtenList_eq, List.map_map]
    exact List.map_congr_left ih
  induction e using Expr.induct with
  | column c => rfl
  | literal v => rw [written, chars, chars, v.literal_written]
  | unary op e ih => cases op <;> rw [written, chars, chars, ih, strength_written]
  | binary op l r hl hr =>
      rw [written, chars, chars, hl, hr, groupsLeft, groupsLeft, strength_written, strength_written]
  | isNull n e ih => rw [written, chars, chars, ih, strength_written]
  | between n e l u he hl hu =>
      rw [written, chars, chars, he, hl, hu, strength_written, strength_written, strength_written]
  | inList n e items ih hitems =>
      rw [written, chars, chars, ih, strength_written, hlist items hitems]
  | like n e x ih hx => rw [written, chars, chars, ih, hx, strength_written, strength_written]
  | call name args hargs => rw [written, chars, chars, hlist args hargs]
  | aggregate f d e ih => rw [written, chars, chars, ih]
  | aggregateAll f d => rfl

theorem isUnsignedNumber_written (e : Expr) :
    e.written.isUnsignedNumber = e.isUnsignedNumber := by
  cases e with
  | literal v => exact v.isUnsigned_written
  | _ => rfl

/-- What is read from the text of a renderable expression is legible. -/
theorem legible_written {e : Expr} (he : e.every renderableHere = true) : e.written.Legible := by
  have hlist : ∀ es : List Expr, (∀ x ∈ es, x.written.Legible) → LegibleList (writtenList es) := by
    intro es ih
    rw [legibleList_iff, writtenList_eq, List.forall_mem_map]
    exact ih
  apply every_induct (P := fun e => e.written.Legible) (p := renderableHere)
  case he => exact he
  case column => exact fun _ _ => trivial
  case literal => exact fun _ hv => Value.legible_written hv
  case unary => exact fun _ _ _ ih => ih
  case binary => exact fun _ _ _ _ hl hr => ⟨hl, hr⟩
  case isNull => exact fun _ _ _ ih => ih
  case between => exact fun _ _ _ _ _ ihe ihl ihu => ⟨ihe, ihl, ihu⟩
  case inList =>
    intro _ _ items hne ihe hitems
    refine ⟨ihe, ?_, hlist items hitems⟩
    rw [writtenList_eq]
    simpa [renderableHere] using hne
  case like => exact fun _ _ _ _ ihe ihx => ⟨ihe, ihx⟩
  case call =>
    intro name args hname hargs
    obtain ⟨⟨hplain, hupper⟩, hother⟩ : (isPlainName name = true ∧ asciiUpperText name = name) ∧
        Aggregate.ofName? name = none := by simpa [renderableHere] using hname
    exact ⟨⟨hplain, hupper, hother⟩, hlist args hargs⟩
  case aggregate => exact fun _ _ _ _ ih => ih
  case aggregateAll =>
    intro f d hf
    rw [written, Legible]
    simpa [renderableHere] using hf

/-- No sign meets a number in what is read. -/
theorem signApart_written {e : Expr} (he : e.every renderableHere = true) :
    e.written.every signApart = true := by
  have hlist : ∀ es : List Expr, (∀ x ∈ es, x.written.every signApart = true) →
      everyList signApart (writtenList es) = true := by
    intro es ih
    rw [everyList_iff, writtenList_eq, List.forall_mem_map]
    exact ih
  apply every_induct (P := fun e => e.written.every signApart = true) (p := renderableHere)
  case he => exact he
  case column => exact fun _ _ => rfl
  case literal => exact fun _ _ => rfl
  case unary =>
    intro op e hop ih
    rw [written, every, ih, Bool.and_true]
    cases op with
    | not => rfl
    | minus =>
        rw [signApart, isUnsignedNumber_written]
        exact hop
  case binary => exact fun _ _ _ _ hl hr => by simp [written, every, signApart, hl, hr]
  case isNull => exact fun _ _ _ ih => by simp [written, every, signApart, ih]
  case between =>
    exact fun _ _ _ _ _ ihe ihl ihu => by simp [written, every, signApart, ihe, ihl, ihu]
  case inList =>
    exact fun _ _ items _ ihe hitems => by simp [written, every, signApart, ihe, hlist items hitems]
  case like => exact fun _ _ _ _ ihe ihx => by simp [written, every, signApart, ihe, ihx]
  case call => exact fun _ args _ hargs => by simp [written, every, signApart, hlist args hargs]
  case aggregate => exact fun _ _ _ _ ih => by simp [written, every, signApart, ih]
  case aggregateAll => exact fun _ _ _ => rfl

/-- What is read from the text of a renderable expression is the expression, numbers being equal by
value. -/
theorem same_written {e : Expr} (he : e.every renderableHere = true) :
    e.written.same e = true := by
  have hlist : ∀ es : List Expr, (∀ x ∈ es, x.written.same x = true) →
      sameList (writtenList es) es = true := by
    intro es ih
    induction es with
    | nil => rfl
    | cons x es hrest =>
        rw [List.forall_mem_cons] at ih
        rw [writtenList, sameList, ih.1, Bool.true_and]
        exact hrest ih.2
  apply every_induct (P := fun e => e.written.same e = true) (p := renderableHere)
  case he => exact he
  case column => exact fun _ _ => by simp [written, same]
  case literal => exact fun _ hv => Value.same_written hv
  case unary => exact fun _ _ _ ih => by simp [written, same, ih]
  case binary => exact fun _ _ _ _ hl hr => by simp [written, same, hl, hr]
  case isNull => exact fun _ _ _ ih => by simp [written, same, ih]
  case between => exact fun _ _ _ _ _ ihe ihl ihu => by simp [written, same, ihe, ihl, ihu]
  case inList => exact fun _ _ items _ ihe hitems => by simp [written, same, ihe, hlist items hitems]
  case like => exact fun _ _ _ _ ihe ihx => by simp [written, same, ihe, ihx]
  case call => exact fun _ args _ hargs => by simp [written, same, hlist args hargs]
  case aggregate => exact fun _ _ _ _ ih => by simp [written, same, ih]
  case aggregateAll => exact fun _ _ _ => by simp [written, same]

end Expr

/-! ## Queries -/

/-- Whether a query can be told from its text. -/
def Query.renderable (q : Query) : Bool :=
  q.shaped && q.exprs.all fun e => e.every Expr.renderableHere

/-- The query that is read from the text of a query. -/
def Query.written (q : Query) : Query := q.mapExprs Expr.written

/-- What is read from the text of a renderable query is the query, numbers being equal by value. -/
theorem Query.parse_rendered {q : Query} (hq : q.renderable = true) :
    parseStatement q.display = .ok (.query q.written) ∧ q.written.same q = true := by
  rw [renderable, Bool.and_eq_true, List.all_eq_true] at hq
  obtain ⟨hshaped, hexprs⟩ := hq
  constructor
  · have hlegible : q.written.Legible := by
      rw [Query.legible_iff, written, (shaped_mapExprs _).1, (exprs_mapExprs _).1,
        List.forall_mem_map]
      exact ⟨hshaped, fun e he => Expr.legible_written (hexprs e he)⟩
    have hreread : q.written.reread = q.written := by
      rw [Query.reread_eq_self_iff, written, (exprs_mapExprs _).1, List.forall_mem_map]
      exact fun e he => Expr.reread_eq_self_iff.mpr (Expr.signApart_written (hexprs e he))
    have hdisplay : q.written.display = q.display := by
      rw [Query.display, Query.display, written, chars_mapExprs.1 q fun e _ => e.chars_written]
    rw [← hdisplay, parseStatement_display hlegible, hreread]
  · exact same_mapExprs.1 q fun e he => Expr.same_written (hexprs e he)

end Sql

theorem Marks.bounding_renderable {s : Marks} (hs : ∀ e ∈ s.entries, e.2 ≠ Int64.minValue)
    {a : Option Advance} (ha : ∀ y ∈ a, y.former ≠ Int64.minValue) :
    Bounding (fun e => e.every Expr.renderableHere = true) s a where
  and l r hl hr := by
    rw [Expr.and, Expr.every, hl, hr]
    rfl
  false := rfl
  lower y hy := by simp [TableRef.bound, Expr.every, Expr.renderableHere, Value.renderable, ha y hy]
  upper e he := by simp [TableRef.bound, Expr.every, Expr.renderableHere, Value.renderable, hs e he]

namespace Sql

/-- A renderable query is renderable within bounds, and what is read from its text is the query
within bounds, numbers being equal by value. -/
theorem Query.renderable_bounded {q : Query} (hq : q.renderable = true) {s : Marks}
    (hs : ∀ e ∈ s.entries, e.2 ≠ Int64.minValue) {a : Option Advance}
    (ha : ∀ y ∈ a, y.former ≠ Int64.minValue) :
    (q.bounded s a).renderable = true ∧
      parseStatement (q.bounded s a).display = .ok (.query (q.bounded s a).written) ∧
      (q.bounded s a).written.same (q.bounded s a) = true := by
  have hbounded : (q.bounded s a).renderable = true := by
    rw [renderable, Bool.and_eq_true, List.all_eq_true] at hq ⊢
    rw [(shaped_bounded s a).1 q]
    exact ⟨hq.1, (Marks.bounding_renderable hs ha).forall_bounded.1 q hq.2⟩
  exact ⟨hbounded, parse_rendered hbounded⟩

/-- `SELECT -sum, F(3.0) FROM "my t" AS t UNION ALL (SELECT * FROM u WHERE NOT u.v IN (-1))`. -/
def renderedSample : Query :=
  .union
    (.select [.table "my t" (some "t")]
      ⟨false, [.expr (.unary .minus (.column ⟨none, "sum"⟩)) none,
        .expr (.call "F" [.literal (.numeric (Decimal.ofInt 3))]) none],
        none, [], none⟩ .empty)
    (.paren (.select [.table "u" none] ⟨false, [.all],
      some (.unary .not (.inList false (.column ⟨some "u", "v"⟩) [.literal (.integer (-1))])), [],
      none⟩ .empty))
    true .empty

theorem Query.renderable_bounded_sample :
    renderedSample.renderable = true ∧
      ∃ p, parseStatement (renderedSample.bounded ⟨[(⟨"my t", some "t"⟩, -5), (⟨"u", none⟩, 7)]⟩
          (some ⟨⟨"u", none⟩, 3⟩)).display = .ok (.query p) ∧
        p.same (renderedSample.bounded ⟨[(⟨"my t", some "t"⟩, -5), (⟨"u", none⟩, 7)]⟩
          (some ⟨⟨"u", none⟩, 3⟩)) = true := by
  have hq : renderedSample.renderable = true := by decide +kernel
  exact ⟨hq, _, (Query.renderable_bounded hq (by decide) (by decide)).2⟩

end Sql

end Rowtime
