import Mathlib.Algebra.Order.Field.Rat
import Mathlib.Algebra.Order.Ring.Cast
import Mathlib.Order.Compare
import Mathlib.Tactic.FieldSimp
import Mathlib.Tactic.Ring
import Rowtime.Value.Compare

/-!
# The comparison of values

Asked from either side, the comparison of two values gives the same answer: it is refused both
times, or it has no order both times, or one order is the reverse of the other. Within a family of
kinds that are compared with each other it always has an order, and this order is a total preorder;
on the exact numbers it is the order of the rational numbers that they stand for.
-/
namespace Rowtime

open Text

/-! ## The orders of the kinds -/

instance : Ord Date := ⟨Date.compare⟩

instance Date.compare_trans : Std.TransCmp Date.compare :=
  inferInstanceAs (Std.TransCmp (compareLex (compareOn Date.year)
    (compareLex (compareOn Date.month) (compareOn Date.day))))

instance Date.compare_lawful : Std.LawfulEqCmp Date.compare where
  eq_of_compare {a b} h := by
    obtain ⟨hy, hm, hd⟩ : a.year = b.year ∧ a.month = b.month ∧ a.day = b.day := by
      simpa only [Date.compare, Ordering.then_eq_eq, Std.LawfulEqOrd.compare_eq_iff_eq] using h
    cases a
    cases b
    simp_all

instance : Ord TimeOfDay := ⟨TimeOfDay.compare⟩

instance TimeOfDay.compare_trans : Std.TransCmp TimeOfDay.compare :=
  inferInstanceAs (Std.TransCmp
    (compareLex (compareOn TimeOfDay.second) (compareOn TimeOfDay.nano)))

instance TimeOfDay.compare_lawful : Std.LawfulEqCmp TimeOfDay.compare where
  eq_of_compare {a b} h := by
    obtain ⟨hs, hn⟩ : a.second = b.second ∧ a.nano = b.nano := by
      simpa only [TimeOfDay.compare, Ordering.then_eq_eq, Std.LawfulEqOrd.compare_eq_iff_eq] using h
    cases a
    cases b
    simp_all

instance Timestamp.compare_trans : Std.TransCmp Timestamp.compare :=
  have : Std.TransOrd Date := Date.compare_trans
  have : Std.TransOrd TimeOfDay := TimeOfDay.compare_trans
  inferInstanceAs (Std.TransCmp (compareLex (compareOn Timestamp.date) (compareOn Timestamp.time)))

instance Timestamp.compare_lawful : Std.LawfulEqCmp Timestamp.compare where
  eq_of_compare {a b} h := by
    obtain ⟨hd, ht⟩ : a.date = b.date ∧ a.time = b.time := by
      simpa only [Timestamp.compare, Ordering.then_eq_eq, Std.LawfulEqCmp.compare_eq_iff_eq] using h
    cases a
    cases b
    simp_all

instance Uuid.compare_trans : Std.TransCmp Uuid.compare :=
  inferInstanceAs (Std.TransCmp (compareOn Uuid.number))

instance Uuid.compare_lawful : Std.LawfulEqCmp Uuid.compare where
  eq_of_compare {a b} h := by
    have hn : a.number = b.number := Std.LawfulEqOrd.eq_of_compare h
    cases a
    cases b
    simp_all

instance Value.compareText_trans : Std.TransCmp Value.compareText :=
  inferInstanceAs (Std.TransCmp (compareOn fun s : String => trimRight isBlank s.toList))

/-! ## Exact numbers -/

namespace Decimal

/-- The rational number that a decimal stands for. -/
def toRat (d : Decimal) : ℚ := (if d.negative then -(d.coeff : ℚ) else d.coeff) / 10 ^ d.scale

/-- At a scale that holds all its digits a decimal has the coefficient of its value. -/
theorem atScale_eq {d : Decimal} {s : Nat} (h : d.scale ≤ s) :
    ((d.atScale s : Int) : ℚ) = d.toRat * 10 ^ s := by
  obtain ⟨k, rfl⟩ := Nat.exists_eq_add_of_le h
  have hcoeff : ((d.atScale (d.scale + k) : Int) : ℚ) =
      (if d.negative then -(d.coeff : ℚ) else d.coeff) * 10 ^ k := by
    rw [atScale, Nat.add_sub_cancel_left]
    cases d.negative <;> simp
  rw [hcoeff, toRat, pow_add]
  field_simp

/-- Decimals are ordered as the numbers that they stand for. -/
theorem compare_eq (a b : Decimal) : a.compare b = Ord.compare a.toRat b.toRat := by
  have hpos : (0 : ℚ) < 10 ^ max a.scale b.scale := pow_pos (by norm_num) _
  calc a.compare b
      = cmp (a.atScale (max a.scale b.scale)) (b.atScale (max a.scale b.scale)) :=
        (cmp_eq_compare _ _).symm
    _ = cmp (a.toRat * 10 ^ max a.scale b.scale) (b.toRat * 10 ^ max a.scale b.scale) := by
        rw [← atScale_eq (Nat.le_max_left ..), ← atScale_eq (Nat.le_max_right ..)]
        exact (Int.cast_strictMono.cmp_map_eq _ _).symm
    _ = Ord.compare a.toRat b.toRat := by rw [cmp_mul_pos_right hpos, cmp_eq_compare]

/-- The decimal of a 64-bit integer stands for the integer. -/
theorem toRat_ofInt (i : Int64) : (ofInt i.toInt).toRat = i.toInt := by
  have hlow := i.le_toInt
  have hhigh := i.toInt_lt
  have hcoeff : i.toInt.natAbs < Nat.pow 2 96 := by
    change i.toInt.natAbs < 79228162514264337593543950336
    omega
  have habs : ((i.toInt.natAbs : Int) : ℚ) = |(i.toInt : ℚ)| := by
    rw [Int.natCast_natAbs, Int.cast_abs]
  rw [ofInt, ofParts?, dif_pos hcoeff, dif_pos (Nat.zero_le _), Option.getD_some, toRat]
  rcases lt_or_ge i.toInt 0 with h | h
  · have hne : (i.toInt.natAbs != 0) = true := by simp; omega
    have hcast : (i.toInt : ℚ) ≤ 0 := by exact_mod_cast h.le
    rw [decide_eq_true h, hne, Bool.and_true, if_pos rfl, pow_zero, div_one]
    rw [Int.cast_natCast] at habs
    rw [habs, abs_of_nonpos hcast, neg_neg]
  · have hcast : (0 : ℚ) ≤ i.toInt := by exact_mod_cast h
    rw [decide_eq_false (not_lt.mpr h), Bool.false_and, if_neg Bool.false_ne_true, pow_zero,
      div_one]
    rw [Int.cast_natCast] at habs
    rw [habs, abs_of_nonneg hcast]

end Decimal

namespace Number

/-- The rational number that an integer or a decimal stands for. -/
def toRat? : Number → Option ℚ
  | .int i => some i.toInt
  | .dec d => some d.toRat
  | .real _ => none

/-- Exact numbers are ordered as the numbers that they stand for. -/
theorem compare?_exact {x y : Number} {p q : ℚ} (hx : x.toRat? = some p) (hy : y.toRat? = some q) :
    x.compare? y = some (Ord.compare p q) := by
  have hint : ∀ i j : Int, Ord.compare i j = Ord.compare (i : ℚ) j := by
    intro i j
    rw [← cmp_eq_compare (i : ℚ), Int.cast_strictMono.cmp_map_eq, cmp_eq_compare]
  cases x with
  | real x => cases hx
  | int i =>
      cases y with
      | real y => cases hy
      | int j =>
          cases hx
          cases hy
          exact congrArg some (hint _ _)
      | dec e =>
          cases hx
          cases hy
          rw [compare?, Decimal.compare_eq, Decimal.toRat_ofInt]
  | dec d =>
      cases y with
      | real y => cases hy
      | int j =>
          cases hx
          cases hy
          rw [compare?, Decimal.compare_eq, Decimal.toRat_ofInt]
      | dec e =>
          cases hx
          cases hy
          rw [compare?, Decimal.compare_eq]

/-- The comparison of two numbers from the other side. -/
theorem compare?_swap (x y : Number) : y.compare? x = (x.compare? y).map Ordering.swap := by
  have hreal : ∀ a b : Binary64, b.compare? a = (a.compare? b).map Ordering.swap := by
    intro a b
    rw [Binary64.compare?, Binary64.compare?, Bool.or_comm]
    split
    · rfl
    · rw [Option.map_some, ← Std.OrientedOrd.eq_swap]
  have hdec : ∀ a b : Decimal, b.compare a = (a.compare b).swap := by
    intro a b
    rw [Decimal.compare_eq, Decimal.compare_eq, ← Std.OrientedOrd.eq_swap]
  cases x with
  | real a => cases y <;> exact hreal _ _
  | int i =>
      cases y with
      | real b => exact hreal _ _
      | int j => exact congrArg some Std.OrientedOrd.eq_swap
      | dec e => exact congrArg some (hdec _ _)
  | dec d =>
      cases y with
      | real b => exact hreal _ _
      | int j => exact congrArg some (hdec _ _)
      | dec e => exact congrArg some (hdec _ _)

end Number

/-! ## Both sides of a comparison -/

namespace Value

/-- Two answers to one question, asked from either side: both are refusals, or one is the reverse of
the other, where having no order is its own reverse. -/
def Mirrored : Except Fault (Option Ordering) → Except Fault (Option Ordering) → Prop
  | .ok o, .ok p => p = o.map Ordering.swap
  | .error _, .error _ => True
  | _, _ => False

theorem sameKindOrder?_swap (a b : Value) :
    sameKindOrder? b a = (sameKindOrder? a b).map Ordering.swap := by
  -- Most pairs have no order from either side; the others are ordered by the order of their kind.
  cases a <;> cases b <;> first | rfl | exact congrArg some Std.OrientedCmp.eq_swap

/-- A value of a typed kind meets a text. -/
theorem comparePlain_literal {a : Value} {t : SqlType} (h : literalType? a = some t) (s : String) :
    comparePlain a (.text s) = compareLiteral a t s := by
  cases a <;> cases h <;> rfl

/-- A text meets a value of a typed kind. -/
theorem comparePlain_text {b : Value} {t : SqlType} (h : literalType? b = some t) (s : String) :
    comparePlain (.text s) b = (compareLiteral b t s).map Ordering.swap := by
  cases b <;> cases h <;> rfl

/-- Two values of different kinds, neither of which is a text that the other lets be read. -/
theorem comparePlain_refused {a b : Value} (h : sameKindOrder? a b = none)
    (ha : ∀ t s, literalType? a = some t → b ≠ .text s)
    (hb : ∀ t s, literalType? b = some t → a ≠ .text s) :
    comparePlain a b = .error (cannotCompare a b) := by
  unfold comparePlain
  rw [h]
  cases hla : literalType? a with
  | some t =>
      cases b with
      | text s => exact absurd rfl (ha t s hla)
      | _ => cases a <;> cases hla <;> rfl
  | none =>
      cases hlb : literalType? b with
      | none => cases a <;> rfl
      | some t =>
          cases a with
          | text s => exact absurd rfl (hb t s hlb)
          | _ => rfl

/-- Values that are not both numbers are compared as values of one kind, or as a value and a text
that is read, or not at all. -/
theorem comparePlain_cases (a b : Value) :
    (∃ o, sameKindOrder? a b = some o ∧ comparePlain a b = .ok o) ∨
      (∃ t s, literalType? a = some t ∧ b = .text s) ∨
      (∃ t s, literalType? b = some t ∧ a = .text s) ∨
      (comparePlain a b = .error (cannotCompare a b) ∧
        comparePlain b a = .error (cannotCompare b a)) := by
  cases h : sameKindOrder? a b with
  | some o =>
      refine .inl ⟨o, rfl, ?_⟩
      simp only [comparePlain, h]
  | none =>
      have hswap : sameKindOrder? b a = none := by rw [sameKindOrder?_swap, h, Option.map_none]
      by_cases ha : ∃ t s, literalType? a = some t ∧ b = .text s
      · exact .inr (.inl ha)
      · by_cases hb : ∃ t s, literalType? b = some t ∧ a = .text s
        · exact .inr (.inr (.inl hb))
        · have hna : ∀ t s, literalType? a = some t → b ≠ .text s := fun t s ht he =>
            ha ⟨t, s, ht, he⟩
          have hnb : ∀ t s, literalType? b = some t → a ≠ .text s := fun t s ht he =>
            hb ⟨t, s, ht, he⟩
          exact .inr (.inr (.inr
            ⟨comparePlain_refused h hna hnb, comparePlain_refused hswap hnb hna⟩))

theorem comparePlain_mirrored (a b : Value) :
    Mirrored ((comparePlain a b).map some) ((comparePlain b a).map some) := by
  rcases comparePlain_cases a b with ⟨o, ho, hab⟩ | ⟨t, s, ht, rfl⟩ | ⟨t, s, ht, rfl⟩ | ⟨hab, hba⟩
  · have hba : sameKindOrder? b a = some o.swap := by rw [sameKindOrder?_swap, ho, Option.map_some]
    simp only [comparePlain, ho, hba]
    rfl
  · rw [comparePlain_literal ht, comparePlain_text ht]
    cases compareLiteral a t s with
    | error why => trivial
    | ok o => rfl
  · rw [comparePlain_literal ht, comparePlain_text ht]
    cases compareLiteral b t s with
    | error why => trivial
    | ok o => exact congrArg some (Ordering.swap_swap).symm
  · rw [hab, hba]
    trivial

theorem compare?_numbers {a b : Value} {x y : Number} (hx : Number.ofValue? a = some x)
    (hy : Number.ofValue? b = some y) : a.compare? b = .ok (x.compare? y) := by
  cases a <;> cases hx <;> cases b <;> cases hy <;> rfl

/-- Values other than NULL of which one at least is no number. -/
theorem compare?_plain {a b : Value} (hab : (a.isNull || b.isNull) = false)
    (h : Number.ofValue? a = none ∨ Number.ofValue? b = none) :
    a.compare? b = (comparePlain a b).map some := by
  rw [compare?, hab, if_neg Bool.false_ne_true]
  rcases h with h | h
  · rw [h]
  · rw [h]
    cases Number.ofValue? a <;> rfl

/-- A comparison from the other side gives the reverse. -/
theorem compare?_mirrored (a b : Value) : Mirrored (a.compare? b) (b.compare? a) := by
  cases hnull : a.isNull || b.isNull with
  | true =>
      rw [compare?, compare?, Bool.or_comm b.isNull, hnull]
      rfl
  | false =>
      have hnull' : (b.isNull || a.isNull) = false := by rwa [Bool.or_comm]
      cases hx : Number.ofValue? a with
      | none =>
          rw [compare?_plain hnull (.inl hx), compare?_plain hnull' (.inr hx)]
          exact comparePlain_mirrored a b
      | some x =>
          cases hy : Number.ofValue? b with
          | none =>
              rw [compare?_plain hnull (.inr hy), compare?_plain hnull' (.inl hy)]
              exact comparePlain_mirrored a b
          | some y =>
              rw [compare?_numbers hx hy, compare?_numbers hy hx]
              exact Number.compare?_swap x y

/-- The order from the other side, if there is one. -/
theorem compare?_swap {a b : Value} {o : Option Ordering} (h : a.compare? b = .ok o) :
    b.compare? a = .ok (o.map Ordering.swap) := by
  have hm := compare?_mirrored a b
  rw [h] at hm
  cases hb : b.compare? a with
  | error why =>
      rw [hb] at hm
      exact hm.elim
  | ok p =>
      rw [hb] at hm
      exact congrArg Except.ok hm

/-! ## Families of kinds -/

/-- The families of kinds whose values have an order among each other: the exact numbers, the
numbers of double precision, the texts, and each other kind for itself. -/
inductive Family where
  | exact
  | approximate
  | text
  | boolean
  | date
  | timestamp
  | timestampTz
  | uuid
  | json
  | bytea
deriving DecidableEq

/-- The values of a family. NULL is in none, and neither is what is not a number. -/
inductive Family.Has : Family → Value → Prop
  | smallInt (i : Int16) : Has .exact (.smallInt i)
  | integer (i : Int64) : Has .exact (.integer i)
  | numeric (d : Decimal) : Has .exact (.numeric d)
  | real {x : Binary64} (h : x.isNaN = false) : Has .approximate (.real x)
  | text (s : String) : Has .text (.text s)
  | char (s : String) : Has .text (.char s)
  | boolean (b : Bool) : Has .boolean (.boolean b)
  | date (d : Date) : Has .date (.date d)
  | timestamp (t : Timestamp) : Has .timestamp (.timestamp t)
  | timestampTz (t : Timestamp) : Has .timestampTz (.timestampTz t)
  | uuid (u : Uuid) : Has .uuid (.uuid u)
  | json (s : String) : Has .json (.json s)
  | bytea (bs : List UInt8) : Has .bytea (.bytea bs)

/-- The rational number that a value of an exact kind stands for. -/
def toRat? (v : Value) : Option ℚ := (Number.ofValue? v).bind Number.toRat?

/-- The comparison has an order for the two values, and it does not put the first behind the
second. -/
def AtMost (a b : Value) : Prop := ∃ o, a.compare? b = .ok (some o) ∧ o.isLE = true

/-- The comparison is a total preorder on the values with a property: it has an order for any two of
them, by which each is equal to itself, one of two is at most the other, and what is at most a
second, which is at most a third, is at most the third. -/
structure TotalPreorder (p : Value → Prop) : Prop where
  ordered : ∀ a b, p a → p b → ∃ o, a.compare? b = .ok (some o)
  equal : ∀ a, p a → a.compare? a = .ok (some .eq)
  total : ∀ a b, p a → p b → a.AtMost b ∨ b.AtMost a
  trans : ∀ a b c, p a → p b → p c → a.AtMost b → b.AtMost c → a.AtMost c

/-- Values that are compared by keys, for which there is an order. -/
theorem TotalPreorder.of_keys {p : Value → Prop} {κ : Type} (cmp : κ → κ → Ordering)
    [Std.TransCmp cmp] (key : Value → κ → Prop) (hp : ∀ v, p v → ∃ x, key v x)
    (hcmp : ∀ a b x y, key a x → key b y → a.compare? b = .ok (some (cmp x y))) :
    TotalPreorder p := by
  have hle : ∀ a b x y, key a x → key b y → (a.AtMost b ↔ (cmp x y).isLE = true) := by
    intro a b x y hx hy
    rw [AtMost, hcmp a b x y hx hy]
    simp
  constructor
  · intro a b ha hb
    obtain ⟨x, hx⟩ := hp a ha
    obtain ⟨y, hy⟩ := hp b hb
    exact ⟨_, hcmp a b x y hx hy⟩
  · intro a ha
    obtain ⟨x, hx⟩ := hp a ha
    have hself : cmp x x = .eq := Std.ReflCmp.compare_self
    rw [hcmp a a x x hx hx, hself]
  · intro a b ha hb
    obtain ⟨x, hx⟩ := hp a ha
    obtain ⟨y, hy⟩ := hp b hb
    have hswap : cmp y x = (cmp x y).swap := Std.OrientedCmp.eq_swap
    rw [hle a b x y hx hy, hle b a y x hy hx, hswap]
    cases cmp x y <;> simp
  · intro a b c ha hb hc hab hbc
    obtain ⟨x, hx⟩ := hp a ha
    obtain ⟨y, hy⟩ := hp b hb
    obtain ⟨z, hz⟩ := hp c hc
    rw [hle a b x y hx hy] at hab
    rw [hle b c y z hy hz] at hbc
    rw [hle a c x z hx hz]
    exact Std.TransCmp.isLE_trans hab hbc

/-- The values of one kind. -/
theorem TotalPreorder.of_kind {p : Value → Prop} {κ : Type} (cmp : κ → κ → Ordering)
    [Std.TransCmp cmp] (make : κ → Value) (hp : ∀ v, p v → ∃ x, v = make x)
    (hcmp : ∀ x y, (make x).compare? (make y) = .ok (some (cmp x y))) : TotalPreorder p := by
  refine .of_keys cmp (fun v x => v = make x) hp ?_
  rintro _ _ x y rfl rfl
  exact hcmp x y

/-- Values of exact kinds are ordered as the rational numbers that they stand for. -/
theorem compare?_toRat {a b : Value} {p q : ℚ} (ha : a.toRat? = some p) (hb : b.toRat? = some q) :
    a.compare? b = .ok (some (Ord.compare p q)) := by
  obtain ⟨x, hx, hp⟩ := Option.bind_eq_some_iff.mp ha
  obtain ⟨y, hy, hq⟩ := Option.bind_eq_some_iff.mp hb
  rw [compare?_numbers hx hy, Number.compare?_exact hp hq]

/-- The exact kinds are those whose values stand for rational numbers. -/
theorem Family.has_exact {v : Value} : Family.exact.Has v ↔ ∃ q, v.toRat? = some q := by
  constructor
  · rintro (_ | _ | _) <;> exact ⟨_, rfl⟩
  · rintro ⟨q, hq⟩
    cases v <;> first | constructor | cases hq

/-- Texts are ordered without the blanks at their end, whichever kind of text they are. -/
theorem compare?_text {a b : Value} {s t : String} (ha : a.asText = some s)
    (hb : b.asText = some t) : a.compare? b = .ok (some (compareText s t)) := by
  cases a <;> cases ha <;> cases b <;> cases hb <;> rfl

/-- The comparison is a total preorder on each family. -/
theorem Family.totalPreorder (F : Family) : TotalPreorder F.Has := by
  cases F with
  | exact =>
      exact .of_keys Ord.compare (fun v q => v.toRat? = some q) (fun _ => has_exact.mp)
        fun _ _ _ _ => compare?_toRat
  | approximate =>
      refine .of_keys Ord.compare (fun v k => ∃ x, v = .real x ∧ x.isNaN = false ∧ x.orderKey = k)
        ?_ ?_
      · rintro _ (_ | _ | _ | hx)
        exact ⟨_, _, rfl, hx, rfl⟩
      · rintro _ _ _ _ ⟨x, rfl, hx, rfl⟩ ⟨y, rfl, hy, rfl⟩
        have hreal : x.compare? y = some (Ord.compare x.orderKey y.orderKey) := by
          rw [Binary64.compare?, hx, hy]
          rfl
        exact congrArg Except.ok hreal
  | text =>
      refine .of_keys compareText (fun v s => v.asText = some s) ?_ fun _ _ _ _ => compare?_text
      rintro _ ⟨⟩ <;> exact ⟨_, rfl⟩
  | boolean => exact .of_kind Ord.compare .boolean (fun | _, .boolean b => ⟨b, rfl⟩) fun _ _ => rfl
  | date => exact .of_kind Date.compare .date (fun | _, .date d => ⟨d, rfl⟩) fun _ _ => rfl
  | timestamp =>
      exact .of_kind Timestamp.compare .timestamp (fun | _, .timestamp t => ⟨t, rfl⟩) fun _ _ => rfl
  | timestampTz =>
      exact .of_kind Timestamp.compare .timestampTz (fun | _, .timestampTz t => ⟨t, rfl⟩)
        fun _ _ => rfl
  | uuid => exact .of_kind Uuid.compare .uuid (fun | _, .uuid u => ⟨u, rfl⟩) fun _ _ => rfl
  | json =>
      exact .of_kind (compareOn String.toList) .json (fun | _, .json s => ⟨s, rfl⟩) fun _ _ => rfl
  | bytea => exact .of_kind Ord.compare .bytea (fun | _, .bytea bs => ⟨bs, rfl⟩) fun _ _ => rfl

/-- The comparison answers alike from both sides, and NULL has no order with anything. On each
family it is a total preorder, and on the exact numbers it is the order of the rational numbers. -/
theorem comparison_orderly :
    (∀ a b : Value, Mirrored (a.compare? b) (b.compare? a)) ∧
      (∀ v : Value, Value.null.compare? v = .ok none ∧ v.compare? .null = .ok none) ∧
      (∀ F : Family, TotalPreorder F.Has) ∧
      (∀ v : Value, Family.exact.Has v ↔ ∃ q, v.toRat? = some q) ∧
      ∀ (a b : Value) (p q : ℚ), a.toRat? = some p → b.toRat? = some q →
        a.compare? b = .ok (some (Ord.compare p q)) := by
  refine ⟨compare?_mirrored, fun v => ⟨rfl, ?_⟩, Family.totalPreorder, fun _ => Family.has_exact,
    fun _ _ _ _ => compare?_toRat⟩
  rw [compare?, Bool.or_comm]
  rfl

/-- A text is read as a date from either side, and three is at most four by way of 3.50. -/
theorem comparison_orderly_mixed :
    Mirrored ((Value.text " 2024-06-01").compare? (.date ⟨2024, 5, 1, by decide⟩))
        (.ok (some .lt)) ∧
      (Value.smallInt 3).AtMost (.integer 4) ∧
      (Value.numeric ⟨false, 350, 2, by decide, by decide⟩).compare? (.integer 4) =
        .ok (some (Ord.compare (7 / 2 : ℚ) 4)) := by
  obtain ⟨hsides, -, hfamilies, -, hexact⟩ := comparison_orderly
  have hdate : (Value.date ⟨2024, 5, 1, by decide⟩).compare? (.text " 2024-06-01") =
      .ok (some .lt) := by decide +kernel
  have hhalf : (Value.numeric ⟨false, 350, 2, by decide, by decide⟩).toRat? = some (7 / 2) := by
    norm_num [toRat?, Number.ofValue?, Number.toRat?, Decimal.toRat]
  have hfour : (Value.integer 4).toRat? = some 4 := rfl
  have hlow : (Value.smallInt 3).AtMost (.numeric ⟨false, 350, 2, by decide, by decide⟩) :=
    ⟨.lt, by decide +kernel, rfl⟩
  have hhigh : (Value.numeric ⟨false, 350, 2, by decide, by decide⟩).AtMost (.integer 4) :=
    ⟨.lt, by decide +kernel, rfl⟩
  refine ⟨?_, ?_, hexact _ _ _ _ hhalf hfour⟩
  · rw [← hdate]
    exact hsides _ _
  · exact (hfamilies .exact).trans _ _ _ (.smallInt 3) (.numeric _) (.integer 4) hlow hhigh

end Value

end Rowtime
