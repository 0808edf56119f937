import Rowtime.Proofs.Numerals
import Rowtime.Calendar.Timestamp

/-!
# Reading dates and times

The text of a date, of a time of day and of a moment is read as what was written,
whatever the year is, whether the fraction of the second has no, three, six or nine
digits, and also in a minute whose last second lasts twice as long. Parts of a text
are read with anything behind them that does not begin with a digit, or with a point
where a fraction could follow. A decimal is read with its scale; only the sign of a
zero is not kept.
-/
namespace Rowtime

open Text Digits

/-! ## Fields of digits -/

/-- No digit comes next. -/
def DigitsEnd (s : List Char) : Prop := ∀ c r, s = c :: r → isDigit c = false

theorem digitsEnd_nil : DigitsEnd [] := by
  intro c r h
  cases h

theorem digitsEnd_cons {c : Char} {r : List Char} (h : isDigit c = false) : DigitsEnd (c :: r) := by
  intro k s hk
  rw [← (List.cons.inj hk).1]
  exact h

theorem DigitsEnd.take {s : List Char} (h : DigitsEnd s) (n : Nat) : DigitsEnd (s.take n) := by
  intro c r hc
  cases s with
  | nil => simp at hc
  | cons k s =>
      cases n with
      | zero => simp at hc
      | succ n =>
          rw [List.take_succ_cons] at hc
          rw [← (List.cons.inj hc).1]
          exact h k s rfl

theorem takeWhile_digits {ds rest : List Char} (hd : ds.all isDigit = true) (h : DigitsEnd rest) :
    (ds ++ rest).takeWhile isDigit = ds :=
  congrArg Prod.fst (Sql.Parser.spanDigits_append hd h)

namespace Text.Digits

theorem count_le {w n : Nat} (hw : 0 < w) (h : n < 10 ^ w) : count n ≤ w := by
  induction n using count.induct generalizing w with
  | case1 n hn =>
      rw [count, dif_pos hn]
      exact hw
  | case2 n hn ih =>
      obtain ⟨k, rfl⟩ : ∃ k, w = k + 1 := ⟨w - 1, by omega⟩
      rw [Nat.pow_succ] at h
      have hk : 0 < k := by
        rcases Nat.eq_zero_or_pos k with rfl | hk
        · omega
        · exact hk
      have := ih hk (by omega)
      rw [count, dif_neg hn]
      omega

theorem padded_all (w n : Nat) : (padded w n).all isDigit = true := lastDigits_all _ _

theorem padded_length {w n : Nat} (hw : 0 < w) (h : n < 10 ^ w) : (padded w n).length = w := by
  have := count_le hw h
  rw [padded, lastDigits_length]
  omega

theorem value_padded (w n : Nat) : value (padded w n) = n := by
  have hlt : n < 10 ^ max w (count n) :=
    Nat.lt_of_lt_of_le (lt_pow_count n) (Nat.pow_le_pow_right (by omega) (by omega))
  rw [value, padded, valueFrom_lastDigits, Nat.zero_mul, Nat.zero_add, Nat.mod_eq_of_lt hlt]

theorem padded_cons (w n : Nat) : ∃ c r, padded w n = c :: r ∧ isDigit c = true := by
  have hall := padded_all w n
  cases h : padded w n with
  | nil =>
      have hlen : (padded w n).length = max w (count n) := lastDigits_length _ _
      have hpos := count_pos n
      rw [h, List.length_nil] at hlen
      omega
  | cons c r =>
      rw [h, List.all_cons, Bool.and_eq_true] at hall
      exact ⟨c, r, rfl, hall.1⟩

theorem isBlank_of_isDigit {c : Char} (h : isDigit c = true) : isBlank c = false := by
  have hlo : 48 ≤ c.toNat := of_decide_eq_true (Bool.and_eq_true_iff.mp h).1
  have hhi : c.toNat ≤ 57 := of_decide_eq_true (Bool.and_eq_true_iff.mp h).2
  simp only [isBlank, Bool.or_eq_false_iff, Bool.and_eq_false_iff, decide_eq_false_iff_not,
    beq_eq_false_iff_ne, ne_eq]
  omega

theorem trimLeft_padded (w n : Nat) (rest : List Char) :
    trimLeft isBlank (padded w n ++ rest) = padded w n ++ rest := by
  obtain ⟨c, r, hc, hd⟩ := padded_cons w n
  rw [hc, trimLeft, List.cons_append, List.dropWhile_cons_of_neg]
  simp [isBlank_of_isDigit hd]

end Text.Digits

namespace Date

theorem field?_digits {w : Nat} {ds rest : List Char} (hd : ds.all isDigit = true) (hne : ds ≠ [])
    (hw : ds.length ≤ w) (hend : DigitsEnd (rest.take (w - ds.length))) :
    field? w (ds ++ rest) = some (value ds, rest) := by
  have htake : ((ds ++ rest).take w).takeWhile isDigit = ds := by
    rw [List.take_append, List.take_of_length_le hw]
    exact takeWhile_digits hd hend
  rw [field?, htake, if_neg (by simpa using hne), List.drop_left]

/-- A field that is full is read with anything behind it. -/
theorem field?_padded {w n : Nat} (hw : 0 < w) (h : n < 10 ^ w) (rest : List Char) :
    field? w (padded w n ++ rest) = some (n, rest) := by
  have hlen := padded_length hw h
  obtain ⟨c, r, hc, -⟩ := padded_cons w n
  rw [field?_digits (padded_all w n) (by rw [hc]; simp) (by omega), value_padded]
  rw [hlen, Nat.sub_self, List.take_zero]
  exact digitsEnd_nil

theorem number?_padded {n : Nat} (h : n < 100) (rest : List Char) :
    number? 2 (padded 2 n ++ rest) = some (n, rest) := by
  rw [number?, trimLeft_padded]
  exact field?_padded (by omega) h rest

theorem mark?_cons (c : Char) (rest : List Char) : mark? c (c :: rest) = some rest := by
  rw [mark?, if_pos (beq_self_eq_true c)]

/-! ## Dates -/

theorem year?_chars (y : Int) {rest : List Char} (h : DigitsEnd rest) :
    year? (yearChars y ++ rest) = some (y, rest) := by
  have hmany : ∀ r : List Char, r = padded 4 y.natAbs ++ rest →
      field? r.length r = some (y.natAbs, rest) := by
    rintro r rfl
    obtain ⟨c, r, hc, -⟩ := padded_cons 4 y.natAbs
    rw [field?_digits (padded_all _ _) (by rw [hc]; simp) (by simp) (h.take _), value_padded]
  rw [yearChars]
  split
  · rename_i hy
    -- Four digits, the first of which is neither a sign nor a blank.
    obtain ⟨c, r, hc, hd⟩ := padded_cons 4 y.natAbs
    obtain ⟨-, -, -, hm, hp, -⟩ := isDigit_spec hd
    have hfield := field?_padded (w := 4) (n := y.natAbs) (by omega) (by omega) rest
    rw [year?, trimLeft_padded]
    rw [hc] at hfield ⊢
    simp only [List.cons_append] at hfield ⊢
    split
    · rename_i he
      exact absurd (List.cons.inj he).1 hm
    · rename_i he
      exact absurd (List.cons.inj he).1 hp
    · rw [hfield, Option.map_some, Int.natAbs_of_nonneg hy.1]
  · split
    · rename_i hneg
      have htrim : trimLeft isBlank ('-' :: padded 4 y.natAbs ++ rest) =
          '-' :: (padded 4 y.natAbs ++ rest) := rfl
      rw [year?, htrim]
      simp only [hmany _ rfl, Option.map_some, Option.some.injEq, Prod.mk.injEq, and_true]
      omega
    · have htrim : trimLeft isBlank ('+' :: padded 4 y.natAbs ++ rest) =
          '+' :: (padded 4 y.natAbs ++ rest) := rfl
      rw [year?, htrim]
      simp only [hmany _ rfl, Option.map_some, Option.some.injEq, Prod.mk.injEq, and_true]
      omega

theorem month_day_lt (d : Date) : d.month < 100 ∧ d.day < 100 := by
  have hvalid := d.valid
  simp only [validDate, Bool.and_eq_true, decide_eq_true_eq] at hvalid
  obtain ⟨⟨-, hone⟩, hday⟩ := hvalid
  unfold daysInMonth at hday
  split at hday <;> (try split at hday) <;> omega

/-- A date is read from its text with anything behind it. -/
theorem scan?_chars (d : Date) (rest : List Char) : scan? (d.chars ++ rest) = some (d, rest) := by
  obtain ⟨hmonth, hday⟩ := d.month_day_lt
  have hparts : ofParts? d.year d.month d.day = some d := by rw [ofParts?, dif_pos d.valid]
  rw [scan?, chars, List.append_assoc, List.cons_append,
    year?_chars d.year (digitsEnd_cons (by decide)), Option.bind_some, mark?_cons,
    Option.bind_some, List.append_assoc, number?_padded hmonth, Option.bind_some,
    List.cons_append, mark?_cons, Option.bind_some, number?_padded hday, Option.bind_some, hparts]
  rfl

theorem read?_chars (d : Date) : read? d.chars = some d := by
  have hscan := d.scan?_chars []
  rw [List.append_nil] at hscan
  rw [read?, hscan]

end Date

/-! ## Times -/

namespace TimeOfDay

theorem optionalFraction?_nil {rest : List Char} (h : ∀ r, rest ≠ '.' :: r) :
    optionalFraction? rest = some (0, rest) := by
  unfold optionalFraction?
  split
  · rename_i r
    exact absurd rfl (h r)
  · rfl

theorem valueFrom_zeros (acc k : Nat) :
    valueFrom acc (List.replicate k '0') = acc * 10 ^ k := by
  induction k generalizing acc with
  | zero => simp [valueFrom]
  | succ k ih =>
      rw [List.replicate_succ, valueFrom_cons, ih, Nat.pow_succ, show digit '0' = 0 from rfl,
        Nat.add_zero, Nat.mul_assoc, Nat.mul_comm 10]

/-- Digits behind the point are read as so many parts of a second. -/
theorem fraction?_padded {w n : Nat} (hw : 0 < w) (hw' : w ≤ 9) (h : n < 10 ^ w)
    {rest : List Char} (hend : DigitsEnd rest) :
    fraction? (padded w n ++ rest) = some (n * 10 ^ (9 - w), rest) := by
  have hlen := padded_length hw h
  obtain ⟨c, r, hc, -⟩ := padded_cons w n
  have hvalue : value ((padded w n).take 9 ++ List.replicate (9 - w) '0') = n * 10 ^ (9 - w) := by
    rw [List.take_of_length_le (by omega), value, valueFrom_append, valueFrom_zeros]
    congr 1
    exact value_padded w n
  unfold fraction?
  simp only [takeWhile_digits (padded_all w n) hend, hlen, hvalue]
  rw [if_neg (by rw [hc]; simp), List.drop_left' hlen]

/-- What ends a time: neither a digit nor a point. -/
def End (s : List Char) : Prop := DigitsEnd s ∧ ∀ r, s ≠ '.' :: r

theorem end_nil : End [] := by
  constructor
  · exact digitsEnd_nil
  · simp

theorem optionalFraction?_chars {n : Nat} (h : n < 1000000000) {rest : List Char}
    (hend : End rest) :
    optionalFraction? (fractionChars n ++ rest) = some (n, rest) := by
  have hpoint : ∀ {w m : Nat}, 0 < w → w ≤ 9 → m < 10 ^ w →
      optionalFraction? ('.' :: padded w m ++ rest) = some (m * 10 ^ (9 - w), rest) :=
    fun hw hw' hm => fraction?_padded hw hw' hm hend.1
  unfold fractionChars
  split
  · rename_i hz
    rw [beq_iff_eq] at hz
    rw [hz]
    exact optionalFraction?_nil hend.2
  · split
    · rename_i hz
      rw [beq_iff_eq] at hz
      rw [hpoint (by omega) (by omega) (by omega)]
      congr 2
      omega
    · split
      · rename_i hz
        rw [beq_iff_eq] at hz
        rw [hpoint (by omega) (by omega) (by omega)]
        congr 2
        omega
      · rw [hpoint (by omega) (by omega) (by omega)]
        congr 2
        omega

/-- The parts of a time make that time again; the second part of a long minute is 60. -/
theorem ofParts?_parts (t : TimeOfDay) :
    ofParts? (t.second / 3600) (t.second / 60 % 60) (t.second % 60 + t.nano / 1000000000)
      (t.nano % 1000000000) = some t := by
  obtain ⟨second, nano, hsecond, hnano⟩ := t
  have hsec : second / 3600 * 3600 + second / 60 % 60 * 60 +
      min (second % 60 + nano / 1000000000) 59 = second := by omega
  have hn : (if second % 60 + nano / 1000000000 = 60 then nano % 1000000000 + 1000000000
      else nano % 1000000000) = nano := by
    split <;> omega
  simp only [ofParts?, hsec, hn]
  rw [if_pos (by omega), dif_pos ⟨hsecond, hnano⟩]

/-- A time is read from its text if its parts are. -/
theorem scanWith?_chars {part : List Char → Option (Nat × List Char)}
    (hpart : ∀ n rest, n < 100 → part (padded 2 n ++ rest) = some (n, rest)) (t : TimeOfDay)
    {rest : List Char} (hend : End rest) : scanWith? part (t.chars ++ rest) = some (t, rest) := by
  have hsecond := t.second_lt
  have hnano : t.nano < 2000000000 ∧ t.second % 60 + t.nano / 1000000000 < 100 := by
    have := t.nano_lt
    omega
  rw [scanWith?, chars, List.append_assoc, hpart _ _ (by omega), Option.bind_some, List.cons_append,
    Date.mark?_cons, Option.bind_some, List.append_assoc, hpart _ _ (by omega), Option.bind_some,
    List.cons_append, Date.mark?_cons, Option.bind_some, List.append_assoc, hpart _ _ hnano.2,
    Option.bind_some, optionalFraction?_chars (by omega) hend, Option.bind_some, ofParts?_parts]
  rfl

end TimeOfDay

/-! ## Moments -/

namespace Timestamp

theorem digits?_padded {w n : Nat} (hw : 0 < w) (h : n < 10 ^ w) (rest : List Char) :
    digits? w (padded w n ++ rest) = some (n, rest) := by
  have hlen := padded_length hw h
  simp only [digits?, List.take_left' hlen, List.drop_left' hlen]
  rw [if_pos (by simp [hlen, padded_all]), value_padded]

/-- A moment without zone is read from its text. -/
theorem readWith?_chars (t : Timestamp) : readWith? (Date.mark? 'T') (t.chars 'T') = some t := by
  have htime := TimeOfDay.scanWith?_chars (fun _ rest h => Date.number?_padded h rest) t.time
    TimeOfDay.end_nil
  rw [List.append_nil] at htime
  rw [readWith?, chars, Date.scan?_chars, Option.bind_some, Date.mark?_cons, Option.bind_some,
    TimeOfDay.scan?, htime]
  rfl

theorem toUtc?_zero (t : Timestamp) : toUtc? t 0 = some t := by
  have hlt := t.time.second_lt
  have hsame : withSecond? t.time t.time.second = some t.time := by
    rw [withSecond?, dif_pos ⟨hlt, t.time.nano_lt⟩]
  unfold toUtc?
  simp only [Int.sub_zero]
  rw [if_neg (by omega), if_neg (by omega), Int.toNat_natCast, hsame]
  rfl

/-- A moment in universal time is read from its text. -/
theorem readZoned?_chars (t : Timestamp) :
    readZoned? Date.scan? (t.chars 'T' ++ ['Z']) = some t := by
  have hend : TimeOfDay.End ['Z'] := by
    constructor
    · exact digitsEnd_cons (by decide)
    · simp
  have htime := TimeOfDay.scanWith?_chars (fun _ rest h => digits?_padded (by decide) h rest) t.time
    hend
  have hzone : offset? ['Z'] = some (0, []) := by decide
  rw [readZoned?, chars, List.append_assoc, Date.scan?_chars, Option.bind_some, List.cons_append]
  simp only [strictSeparator?, beq_self_eq_true, Bool.true_or, if_true, Option.bind_some, htime,
    hzone, List.isEmpty_nil]
  exact toUtc?_zero t

end Timestamp

/-! ## Decimals -/

namespace Decimal

/-- The decimal of the same value and scale in which zero has no sign. -/
def plain (d : Decimal) : Decimal := { d with negative := d.negative && d.coeff != 0 }

theorem run_end (neg : Bool) (c s : Nat) (point : Bool) :
    Reading.run neg ⟨c, s, point, true⟩ [] = ofParts? neg c s := by
  rw [Reading.run]
  rfl

/-- The text of a decimal behind its sign. -/
theorem run_chars (neg : Bool) (d : Decimal) :
    Reading.run neg ⟨0, 0, false, false⟩
      (if d.scale == 0 then Digits.ofNat d.coeff
        else d.wholeChars ++ '.' :: lastDigits d.scale d.coeff) =
      some { d with negative := neg && d.coeff != 0 } := by
  obtain ⟨negative, coeff, scale, hc, hs⟩ := d
  simp only [wholeChars]
  have hseen : ∀ n, (false || !(Digits.ofNat n).isEmpty) = true := by
    intro n
    obtain ⟨c, r, hcr, -⟩ := ofNat_cons n
    rw [hcr]
    rfl
  have hvalue : ∀ n, valueFrom 0 (Digits.ofNat n) = n := value_ofNat
  split
  · rename_i hz
    rw [beq_iff_eq] at hz
    subst hz
    rw [← List.append_nil (Digits.ofNat coeff), run_whole neg (ofNat_all coeff) (by rwa [hvalue]),
      hseen, hvalue, run_end, ofParts?_eq neg hc hs]
  · have hdiv : coeff / Nat.pow 10 scale ≤ coeff := Nat.div_le_self _ _
    have hval : valueFrom (coeff / Nat.pow 10 scale) (lastDigits scale coeff) = coeff := by
      rw [valueFrom_lastDigits]
      exact Nat.div_add_mod' _ _
    rw [run_whole neg (ofNat_all _) (by rw [hvalue]; omega), hseen, hvalue, run_point,
      run_part neg (lastDigits_all _ _) (by rwa [hval]) (by simpa using hs), hval,
      lastDigits_length, Nat.zero_add, ofParts?_eq neg hc hs]

/-- A decimal is read from its text with its scale. -/
theorem read?_chars (d : Decimal) : read? d.chars = some d.plain := by
  have hbody : ∃ c r, (if d.scale == 0 then Digits.ofNat d.coeff
      else d.wholeChars ++ '.' :: lastDigits d.scale d.coeff) = c :: r ∧ isDigit c = true := by
    split
    · exact ofNat_cons d.coeff
    · obtain ⟨c, r, hcr, hd⟩ := ofNat_cons (d.coeff / Nat.pow 10 d.scale)
      refine ⟨c, r ++ '.' :: lastDigits d.scale d.coeff, ?_, hd⟩
      rw [wholeChars, hcr]
      rfl
  have hchars : d.chars = (if d.negative then ['-'] else []) ++
      (if d.scale == 0 then Digits.ofNat d.coeff
        else d.wholeChars ++ '.' :: lastDigits d.scale d.coeff) := by
    rw [chars]
    split <;> simp [wholeChars]
  have hplain : readPlain? d.chars = some d.plain := by
    obtain ⟨c, r, hcr, hd⟩ := hbody
    have hrun := run_chars d.negative d
    rw [hchars]
    cases hn : d.negative with
    | true =>
        rw [hn] at hrun
        rw [plain, hn]
        exact hrun
    | false =>
        rw [hn] at hrun
        rw [plain, hn, if_neg (by simp), List.nil_append, readPlain?_digits hcr hd]
        exact hrun
  rw [read?, hplain]

/-- A decimal without the sign of a zero has the same value. -/
theorem atScale_plain (d : Decimal) (s : Nat) : d.plain.atScale s = d.atScale s := by
  unfold atScale plain
  cases d.negative with
  | false => rfl
  | true =>
      by_cases hc : d.coeff = 0
      · simp [hc]
      · simp [hc]

end Decimal

end Rowtime
