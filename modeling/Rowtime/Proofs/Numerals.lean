import Mathlib.Algebra.Group.Nat.Defs
import Rowtime.Proofs.Results
import Rowtime.Proofs.Scanning
import Rowtime.Value.Literal

/-!
# Reading numbers

The digits of a number are read as the number. A decimal is read with all its
fractional digits; one without any is written with a zero behind its point, and
is read as itself only when no further digit fits into its coefficient.
-/
namespace Rowtime

open Text Sql

namespace Text.Digits

theorem toNat_toChar (n : Nat) : (toChar n).toNat = 48 + n % 10 := by
  rw [toChar, toNat_ofNat]
  left
  omega

theorem isDigit_toChar (n : Nat) : isDigit (toChar n) = true := by
  have h := toNat_toChar n
  simp only [isDigit, Bool.and_eq_true, decide_eq_true_eq]
  constructor
  · change 48 ≤ (toChar n).toNat
    omega
  · change (toChar n).toNat ≤ 57
    omega

@[simp] theorem digit_toChar (n : Nat) : digit (toChar n) = n % 10 := by
  rw [digit, toNat_toChar]
  omega

theorem lastDigits_all (w n : Nat) : (lastDigits w n).all isDigit = true := by
  induction w generalizing n with
  | zero => rfl
  | succ w ih =>
      rw [lastDigits, List.all_append, ih, List.all_cons, isDigit_toChar]
      rfl

@[simp] theorem lastDigits_length (w n : Nat) : (lastDigits w n).length = w := by
  induction w generalizing n with
  | zero => rfl
  | succ w ih => rw [lastDigits, List.length_append, ih]; rfl

theorem valueFrom_append (acc : Nat) (as bs : List Char) :
    valueFrom acc (as ++ bs) = valueFrom (valueFrom acc as) bs := by
  rw [valueFrom, valueFrom, valueFrom, List.foldl_append]

theorem valueFrom_cons (acc : Nat) (c : Char) (r : List Char) :
    valueFrom acc (c :: r) = valueFrom (acc * 10 + digit c) r := by
  rw [valueFrom, valueFrom, List.foldl_cons]

theorem le_valueFrom (acc : Nat) (ds : List Char) : acc ≤ valueFrom acc ds := by
  induction ds generalizing acc with
  | nil => exact Nat.le_refl _
  | cons c r ih =>
      rw [valueFrom_cons]
      have := ih (acc * 10 + digit c)
      omega

theorem valueFrom_lastDigits (acc w n : Nat) :
    valueFrom acc (lastDigits w n) = acc * 10 ^ w + n % 10 ^ w := by
  induction w generalizing n with
  | zero => simp [lastDigits, valueFrom, Nat.mod_one]
  | succ w ih =>
      have hmod : n % 10 ^ (w + 1) = n % 10 + 10 * (n / 10 % 10 ^ w) := by
        rw [Nat.pow_succ, Nat.mul_comm, Nat.mod_mul]
      rw [lastDigits, valueFrom_append, ih, valueFrom_cons, digit_toChar, hmod, Nat.pow_succ]
      simp only [valueFrom, List.foldl_nil]
      rw [Nat.add_mul, Nat.mul_assoc]
      omega

theorem lt_pow_count (n : Nat) : n < 10 ^ count n := by
  induction n using count.induct with
  | case1 n h =>
      rw [count, dif_pos h]
      omega
  | case2 n h ih =>
      rw [count, dif_neg h, Nat.pow_succ]
      omega

theorem count_pos (n : Nat) : 0 < count n := by
  rw [count]
  split <;> omega

theorem value_ofNat (n : Nat) : value (ofNat n) = n := by
  rw [value, ofNat, valueFrom_lastDigits, Nat.zero_mul, Nat.zero_add, Nat.mod_eq_of_lt (lt_pow_count n)]

theorem ofNat_all (n : Nat) : (ofNat n).all isDigit = true := lastDigits_all _ n

theorem ofNat_cons (n : Nat) : ∃ c r, ofNat n = c :: r ∧ isDigit c = true := by
  have hl : (ofNat n).length = count n := lastDigits_length _ n
  have ha := ofNat_all n
  cases h : ofNat n with
  | nil =>
      have := count_pos n
      rw [h] at hl
      simp at hl
      omega
  | cons c r =>
      rw [h, List.all_cons, Bool.and_eq_true] at ha
      exact ⟨c, r, rfl, ha.1⟩

end Text.Digits

open Digits

theorem isDigit_spec {c : Char} (h : isDigit c = true) :
    isIdentChar c = true ∧ isGap c = false ∧ isIdentStart c = false ∧ c ≠ '-' ∧ c ≠ '+' ∧
      c ≠ '\'' ∧ c ≠ '"' ∧ c ≠ '(' ∧ c ≠ '*' := by
  have hex : ∀ k : Char, isDigit k = false → c ≠ k := by
    rintro k hk rfl
    rw [h] at hk
    simp at hk
  refine ⟨?_, ?_, ?_, hex _ (by decide), hex _ (by decide), hex _ (by decide), hex _ (by decide),
    hex _ (by decide), hex _ (by decide)⟩
  · unfold isIdentChar
    rw [show (decide ('0' ≤ c) && decide (c ≤ '9')) = true from h, Bool.or_true]
  · have h1 := hex ' ' (by decide)
    have h2 := hex '\t' (by decide)
    have h3 := hex '\r' (by decide)
    have h4 := hex '\n' (by decide)
    simp [isGap, h1, h2, h3, h4]
  · cases hs : isIdentStart c with
    | false => rfl
    | true =>
        have := (Parser.isIdentStart_spec hs).2.2.2.2.2.2.2
        rw [h] at this
        simp at this

/-! ## Decimals -/

namespace Decimal

theorem ofParts?_eq (neg : Bool) {coeff scale : Nat} (hc : coeff < Nat.pow 2 96) (hs : scale ≤ 28) :
    ofParts? neg coeff scale = some ⟨neg && coeff != 0, coeff, scale, hc, hs⟩ := by
  rw [ofParts?, dif_pos hc, dif_pos hs]

/-- Digits before the point. -/
theorem run_whole (neg : Bool) {c : Nat} {seen : Bool} {ds : List Char}
    (hd : ds.all isDigit = true) (hv : valueFrom c ds < Nat.pow 2 96) (rest : List Char) :
    Reading.run neg ⟨c, 0, false, seen⟩ (ds ++ rest) =
      Reading.run neg ⟨valueFrom c ds, 0, false, seen || !ds.isEmpty⟩ rest := by
  induction ds generalizing c seen with
  | nil => simp [valueFrom]
  | cons k ds ih =>
      rw [List.all_cons, Bool.and_eq_true] at hd
      rw [valueFrom_cons] at hv ⊢
      have hle := le_valueFrom (c * 10 + digit k) ds
      have hnot : ¬coeffLimit ≤ c * 10 + digit k := by
        rw [coeffLimit]
        omega
      rw [List.cons_append, Reading.run]
      simp only [Bool.false_and, Bool.false_eq_true, if_false, hd.1, if_true, hnot]
      rw [ih hd.2 hv]
      simp

/-- Digits behind the point, as many as the scale has room for. -/
theorem run_part (neg : Bool) {c s : Nat} {ds : List Char} (hd : ds.all isDigit = true)
    (hv : valueFrom c ds < Nat.pow 2 96) (hs : s + ds.length ≤ 28) :
    Reading.run neg ⟨c, s, true, true⟩ ds = ofParts? neg (valueFrom c ds) (s + ds.length) := by
  induction ds generalizing c s with
  | nil => simp [Reading.run, valueFrom]
  | cons k ds ih =>
      rw [List.all_cons, Bool.and_eq_true] at hd
      rw [valueFrom_cons] at hv ⊢
      rw [List.length_cons] at hs ⊢
      have hle := le_valueFrom (c * 10 + digit k) ds
      have hnot : ¬coeffLimit ≤ c * 10 + digit k := by
        rw [coeffLimit]
        omega
      have hroom : ¬maxScale ≤ s := by
        rw [maxScale]
        omega
      rw [Reading.run]
      simp only [Bool.true_and, hroom, decide_false, Bool.false_eq_true, if_false, hd.1, if_true, hnot]
      rw [ih hd.2 hv (by omega)]
      congr 1
      omega

theorem readPlain?_digits {s : List Char} {c : Char} {r : List Char} (hs : s = c :: r)
    (hc : isDigit c = true) : readPlain? s = Reading.run false ⟨0, 0, false, false⟩ s := by
  obtain ⟨-, -, -, hm, hp, -⟩ := isDigit_spec hc
  subst hs
  unfold readPlain?
  split
  · rename_i h
    exact absurd (List.cons.inj h).1 hm
  · rename_i h
    exact absurd (List.cons.inj h).1 hp
  · rfl

/-- A decimal that reads as itself where its text has a point. -/
def Legible (d : Decimal) : Prop := d.scale ≠ 0 ∨ Nat.pow 2 96 ≤ d.coeff * 10

/-- The digits behind the point in the text of a decimal. -/
def partChars (d : Decimal) : List Char :=
  if d.scale == 0 then ['0'] else lastDigits d.scale d.coeff

/-- The digits before the point. -/
def wholeChars (d : Decimal) : List Char := Digits.ofNat (d.coeff / Nat.pow 10 d.scale)

theorem run_point (neg : Bool) (c : Nat) (r : List Char) :
    Reading.run neg ⟨c, 0, false, true⟩ ('.' :: r) = Reading.run neg ⟨c, 0, true, true⟩ r := by
  rw [Reading.run]
  simp only [Bool.false_and, Bool.false_eq_true, if_false, show isDigit '.' = false from by decide,
    beq_self_eq_true, Bool.not_false, Bool.and_self, if_true]

/-- A legible decimal without sign is read from its digits. -/
theorem read?_text {d : Decimal} (h : d.Legible) (hn : d.negative = false) :
    read? (d.wholeChars ++ '.' :: d.partChars) = some d := by
  obtain ⟨negative, coeff, scale, hc, hs⟩ := d
  simp only at hn
  subst hn
  obtain ⟨c, r, hcr, hdig⟩ := ofNat_cons (coeff / Nat.pow 10 scale)
  have hdiv : coeff / Nat.pow 10 scale ≤ coeff := Nat.div_le_self _ _
  have hwhole : valueFrom 0 (Digits.ofNat (coeff / Nat.pow 10 scale)) = coeff / Nat.pow 10 scale := value_ofNat _
  have hrun : readPlain? (Digits.ofNat (coeff / Nat.pow 10 scale) ++
      '.' :: partChars ⟨false, coeff, scale, hc, hs⟩) =
      some ⟨false, coeff, scale, hc, hs⟩ := by
    rw [readPlain?_digits (c := c) (r := r ++ '.' :: partChars ⟨false, coeff, scale, hc, hs⟩)
      (by rw [hcr]; rfl) hdig, run_whole false (ofNat_all _) (by omega), hwhole]
    have hne : (false || !(Digits.ofNat (coeff / Nat.pow 10 scale)).isEmpty) = true := by
      rw [hcr]
      rfl
    rw [hne, run_point, partChars]
    by_cases hz : scale = 0
    · subst hz
      have hbig : Nat.pow 2 96 ≤ coeff * 10 := by
        rcases h with h | h
        · exact absurd rfl h
        · exact h
      have hroom : ¬maxScale ≤ 0 := by decide
      have hlimit : coeffLimit ≤ coeff * 10 + digit '0' := by
        rw [coeffLimit]
        omega
      simp only [beq_self_eq_true, if_true]
      rw [Reading.run]
      simp only [Bool.true_and, hroom, decide_false, Bool.false_eq_true, if_false,
        show isDigit '0' = true from by decide, if_true, hlimit, Reading.close,
        show decide (5 ≤ digit '0') = false from by decide, Bool.and_false, Bool.true_or,
        show Nat.pow 10 0 = 1 from rfl, Nat.div_one]
      rw [ofParts?_eq false hc hs, Bool.false_and]
    · have hz' : (scale == 0) = false := by simpa using hz
      have hval : valueFrom (coeff / Nat.pow 10 scale) (lastDigits scale coeff) = coeff := by
        rw [valueFrom_lastDigits]
        exact Nat.div_add_mod' _ _
      rw [hz']
      simp only [Bool.false_eq_true, if_false]
      rw [run_part false (lastDigits_all _ _) (by rw [hval]; exact hc) (by simpa using hs), hval,
        lastDigits_length, Nat.zero_add, ofParts?_eq false hc hs]
      rfl
  rw [read?, wholeChars, hrun]

end Decimal

/-! ## Literals -/

namespace Sql

/-- The literals that are read from their text. -/
def LegibleLiteral : Value → Prop
  | .null | .boolean _ | .text _ => True
  | .integer i => -9223372036854775808 < i.toInt
  | .numeric d => d.Legible
  | _ => False

/-- The numbers that are written without a sign. -/
def isUnsigned : Value → Bool
  | .integer i => decide (0 ≤ i.toInt)
  | .numeric d => !d.negative
  | _ => false

namespace Parser

/-- Whether a number can end before a text. -/
def numberEnds (s : List Char) : Bool := !identFollows s && s.head? != some '.'

theorem numberEnds_spec {s : List Char} (h : numberEnds s = true) :
    identFollows s = false ∧ s.head? ≠ some '.' := by
  simpa [numberEnds] using h

theorem spanDigits_append {ds rest : List Char} (hd : ds.all isDigit = true)
    (h : ∀ c r, rest = c :: r → isDigit c = false) : spanDigits (ds ++ rest) = (ds, rest) := by
  induction ds with
  | nil =>
      cases rest with
      | nil => rfl
      | cons c r => simp [spanDigits, h c r rfl]
  | cons k ds ih =>
      rw [List.all_cons, Bool.and_eq_true] at hd
      have := ih hd.2
      simp only [spanDigits, Prod.mk.injEq] at this
      simp [spanDigits, hd.1, this.1, this.2]

theorem digits_ok {c : Char} {ds rest : List Char} (hd : (c :: ds).all isDigit = true)
    (h : ∀ k r, rest = k :: r → isDigit k = false) :
    digits (c :: ds ++ rest) = .ok (c :: ds, rest) := by
  unfold digits
  simp only [spanDigits_append hd h]
  rfl

theorem digits_refuses {c : Char} {r : List Char} (h : isDigit c = false) :
    Refuses digits (c :: r) := by
  refine ⟨⟨c :: r, .character⟩, ?_⟩
  unfold digits
  simp [spanDigits, h]

theorem number_refuses {c : Char} {r : List Char} (h : isDigit c = false) :
    Refuses number (c :: r) := by
  have hd : Refuses (α := List Char) digits (c :: r) := digits_refuses h
  obtain ⟨e, he⟩ := hd
  have hw : Refuses wholeNumber (c :: r) := by
    refine filterMap_refuses ⟨e, ?_⟩
    simp only [he]
  obtain ⟨e', he'⟩ : Refuses (do return Value.integer (← wholeNumber)) (c :: r) := bind_refuses hw
  refine ⟨e', ?_⟩
  rw [number, orElse_refuses, he']
  exact bind_refuses (filterMap_refuses (bind_refuses ⟨e, he⟩))

/-- An integer that is not negative is read from its digits. -/
theorem number_integer {i : Int64} (h : 0 ≤ i.toInt) {rest : List Char}
    (hr : numberEnds rest = true) :
    number (Digits.ofNat i.toInt.natAbs ++ rest) = .ok (.integer i, rest) := by
  obtain ⟨hi, hp⟩ := numberEnds_spec hr
  obtain ⟨c, ds, hcd, -⟩ := ofNat_cons i.toInt.natAbs
  have hall := ofNat_all i.toInt.natAbs
  have hval := value_ofNat i.toInt.natAbs
  rw [hcd] at hall hval ⊢
  have hnd : ∀ k r, rest = k :: r → isDigit k = false := by
    intro k r hk
    cases hd : isDigit k with
    | false => rfl
    | true =>
        rw [hk, identFollows, (isDigit_spec hd).1] at hi
        simp at hi
  have hdigits := digits_ok hall hnd
  have hpoint : Refuses (char '.') rest := by
    cases rest with
    | nil => exact ⟨_, rfl⟩
    | cons k r =>
        have hk : (k == '.') = false := by simpa using hp
        exact ⟨_, by rw [char, hk]; rfl⟩
  have hdec : Refuses (do return Value.numeric (← decimal)) (c :: ds ++ rest) :=
    bind_refuses (filterMap_refuses (bind_ok_refuses hdigits (bind_refuses hpoint)))
  rw [number, orElse_refuses hdec]
  have hbound : toInt64? ((i.toInt.natAbs : Nat) : Int) = some i := by
    have hlt := i.toInt_lt
    rw [Int.natAbs_of_nonneg h, toInt64?, if_pos (by omega), Int64.ofInt_toInt]
  have hwhole : wholeNumber (c :: ds ++ rest) = .ok (i, rest) := by
    refine filterMap_ok (a := c :: ds) ?_ (by rw [hval, hbound])
    rw [hdigits]
    simp [hi]
  rw [bind_ok hwhole]
  rfl

/-- A legible decimal without sign is read from its text. -/
theorem number_numeric {d : Decimal} (h : d.Legible) (hn : d.negative = false) {rest : List Char}
    (hr : identFollows rest = false) :
    number (d.wholeChars ++ '.' :: d.partChars ++ rest) = .ok (.numeric d, rest) := by
  obtain ⟨c, ds, hcd, -⟩ := ofNat_cons (d.coeff / Nat.pow 10 d.scale)
  have hall := ofNat_all (d.coeff / Nat.pow 10 d.scale)
  have hpart : ∃ k ks, d.partChars = k :: ks ∧ (k :: ks).all isDigit = true := by
    unfold Decimal.partChars
    split
    · exact ⟨'0', [], rfl, by decide⟩
    · rename_i hz
      have hlen := lastDigits_length d.scale d.coeff
      have ha := lastDigits_all d.scale d.coeff
      cases hk : lastDigits d.scale d.coeff with
      | nil =>
          rw [hk] at hlen
          simp [← hlen] at hz
      | cons k ks => exact ⟨k, ks, rfl, by rw [← hk]; exact ha⟩
  obtain ⟨k, ks, hk, hka⟩ := hpart
  have hnd : ∀ k r, rest = k :: r → isDigit k = false := by
    intro k r hk
    cases hd : isDigit k with
    | false => rfl
    | true =>
        rw [hk, identFollows, (isDigit_spec hd).1] at hr
        simp at hr
  have hread : Decimal.read? ((c :: ds) ++ '.' :: (k :: ks)) = some d := by
    rw [← hcd, ← hk]
    exact Decimal.read?_text h hn
  have hpair : (do
      let whole ← digits
      char '.'
      let part ← digits
      return (whole, part) : Parser (List Char × List Char)) (c :: ds ++ '.' :: (k :: ks ++ rest)) =
      .ok ((c :: ds, k :: ks), rest) := by
    rw [bind_ok (digits_ok (by rw [← hcd]; exact hall) (by
      intro j r hj
      rw [← (List.cons.inj hj).1]
      decide))]
    rw [bind_ok (rfl : char '.' ('.' :: (k :: ks ++ rest)) = .ok ((), k :: ks ++ rest)),
      bind_ok (digits_ok hka hnd)]
    rfl
  have hdec : decimal (c :: ds ++ '.' :: (k :: ks ++ rest)) = .ok (d, rest) := by
    rw [decimal]
    exact filterMap_ok hpair hread
  have htext : d.wholeChars ++ '.' :: d.partChars ++ rest =
      c :: ds ++ '.' :: (k :: ks ++ rest) := by
    rw [Decimal.wholeChars, hcd, hk, List.append_assoc]
    rfl
  rw [htext, number]
  exact orElse_ok (by rw [bind_ok hdec]; rfl)

theorem literal_integer (i : Int64) :
    (Value.literal (.integer i)).toList = Digits.ofInt i.toInt := by
  change (Digits.intText i.toInt).toList = _
  rw [Digits.intText, String.toList_ofList]

theorem literal_numeric (d : Decimal) :
    (Value.literal (.numeric d)).toList =
      (if d.negative then ['-'] else []) ++ (d.wholeChars ++ '.' :: d.partChars) := by
  rw [Value.literal, Decimal.wholeChars, Decimal.partChars, Decimal.display, Decimal.chars]
  cases hz : d.scale == 0 with
  | true =>
      rw [beq_iff_eq] at hz
      simp only [hz, if_true, show Nat.pow 10 0 = 1 from rfl, Nat.div_one, String.toList_append, String.toList_ofList,
        List.append_assoc]
      rfl
  | false =>
      simp only [Bool.false_eq_true, if_false, String.toList_ofList, List.append_assoc]

/-- The text of a number without sign begins with a digit. -/
theorem literal_digit {v : Value} (h : isUnsigned v = true) :
    ∃ c r, v.literal.toList = c :: r ∧ isDigit c = true := by
  cases v with
  | integer i =>
      have hi : 0 ≤ i.toInt := of_decide_eq_true h
      rw [literal_integer, Digits.ofInt, if_neg (by omega)]
      exact ofNat_cons _
  | numeric d =>
      have hn : d.negative = false := by simpa [isUnsigned] using h
      obtain ⟨c, r, hcr, hc⟩ := ofNat_cons (d.coeff / Nat.pow 10 d.scale)
      refine ⟨c, r ++ '.' :: d.partChars, ?_, hc⟩
      rw [literal_numeric, hn, Decimal.wholeChars, hcr]
      rfl
  | _ => simp [isUnsigned] at h

/-- A legible number without sign is read from its text. -/
theorem number_literal {v : Value} (hl : LegibleLiteral v) (h : isUnsigned v = true)
    {rest : List Char} (hr : numberEnds rest = true) :
    number (v.literal.toList ++ rest) = .ok (v, rest) := by
  cases v with
  | integer i =>
      have hi : 0 ≤ i.toInt := of_decide_eq_true h
      rw [literal_integer, Digits.ofInt, if_neg (by omega), number_integer hi hr]
  | numeric d =>
      have hn : d.negative = false := by simpa [isUnsigned] using h
      rw [literal_numeric, hn]
      exact number_numeric hl hn (numberEnds_spec hr).1
  | _ => simp [isUnsigned] at h

/-- A legible literal is no number, a number without sign, or a minus sign with such a number. -/
theorem legibleLiteral_cases {v : Value} (h : LegibleLiteral v) :
    v = .null ∨ (∃ b, v = .boolean b) ∨ (∃ s, v = .text s) ∨ isUnsigned v = true ∨
      ∃ w, LegibleLiteral w ∧ isUnsigned w = true ∧ v = negated w ∧
        v.literal.toList = '-' :: w.literal.toList := by
  cases v with
  | null => exact Or.inl rfl
  | boolean b => exact Or.inr (Or.inl ⟨b, rfl⟩)
  | text s => exact Or.inr (Or.inr (Or.inl ⟨s, rfl⟩))
  | integer i =>
      refine Or.inr (Or.inr (Or.inr ?_))
      have hmin : -9223372036854775808 < i.toInt := h
      by_cases hi : 0 ≤ i.toInt
      · exact Or.inl (decide_eq_true hi)
      · have hlt := i.toInt_lt
        have hneg : (-i).toInt = -i.toInt := by
          rw [Int64.toInt_neg, Int.bmod_eq_of_le (by omega) (by omega)]
        refine Or.inr ⟨.integer (-i), ?_, decide_eq_true (by omega), ?_, ?_⟩
        · change -9223372036854775808 < (-i).toInt
          omega
        · rw [negated, Int64.neg_neg]
        · rw [literal_integer, literal_integer, Digits.ofInt, Digits.ofInt, if_pos (by omega),
            if_neg (by omega), hneg, Int.natAbs_neg]
  | numeric d =>
      refine Or.inr (Or.inr (Or.inr ?_))
      cases hn : d.negative with
      | false => exact Or.inl (by simp [isUnsigned, hn])
      | true =>
          refine Or.inr ⟨.numeric d.neg, h, by simp [isUnsigned, Decimal.neg, hn], ?_, ?_⟩
          · rw [negated, Decimal.neg, Decimal.neg]
            simp
          · rw [literal_numeric, literal_numeric, hn]
            simp [Decimal.neg, hn, Decimal.wholeChars, Decimal.partChars]
  | _ => exact absurd h (by simp [LegibleLiteral])

end Parser

end Sql

end Rowtime
