import Rowtime.Proofs.Calendar
import Rowtime.Proofs.TextEnds
import Rowtime.Value.Cast

/-!
# Displayed values are read by their type

The plain text of a date, a moment, an identifier or of bytes is read by the type as the value that
it was written for. Reading drops the blanks at both ends of a text, and there are none. Only a
moment in universal time is read with its zone in a year of four digits and not otherwise: a year
with a sign is neither read strictly nor as part of a moment without zone, since the zone is left
over.
-/
namespace Rowtime

open Text Sql.Parser

theorem closes_joined {y : List Char} (h : Closes y) (x : List Char) (c : Char) :
    Closes (x ++ c :: y) := (h.append [c]).append x

/-! ## Hexadecimal digits -/

namespace Text.Hex

theorem toChar_spec (n : Nat) :
    digit? (toChar n) = some (n % 16) ∧ isBlank (toChar n) = false ∧ toChar n ≠ ';' := by
  have hall : ∀ d < 16, digit? (if d < 10 then Char.ofNat (48 + d) else Char.ofNat (87 + d)) =
      some d ∧ isBlank (if d < 10 then Char.ofNat (48 + d) else Char.ofNat (87 + d)) = false ∧
      (if d < 10 then Char.ofNat (48 + d) else Char.ofNat (87 + d)) ≠ ';' := by
    decide
  exact hall (n % 16) (Nat.mod_lt n (by decide))

/-- Bytes are read from their digits. -/
theorem decode?_encode (bs : List UInt8) : decode? (encode bs) = some bs := by
  induction bs with
  | nil => rfl
  | cons b bs ih =>
      have hlt := b.toNat_lt
      have hvalue : b.toNat / 16 % 16 * 16 + b.toNat % 16 = b.toNat := by omega
      rw [encode, decode?, (toChar_spec _).1, (toChar_spec _).1, ih]
      simp only [hvalue, UInt8.ofNat_toNat]

theorem lastDigits_length (w n : Nat) : (lastDigits w n).length = w := by
  induction w generalizing n with
  | zero => rfl
  | succ w ih => rw [lastDigits, List.length_append, ih, List.length_singleton]

theorem value?_append (s : List Char) (c : Char) :
    value? (s ++ [c]) = (value? s).bind fun n => (digit? c).map (n * 16 + ·) :=
  List.foldl_concat ..

/-- A number is read from its last digits as far as they go. -/
theorem value?_lastDigits (w n : Nat) : value? (lastDigits w n) = some (n % 16 ^ w) := by
  induction w generalizing n with
  | zero =>
      rw [Nat.pow_zero, Nat.mod_one]
      rfl
  | succ w ih =>
      have hsplit : n / 16 % 16 ^ w * 16 + n % 16 = n % 16 ^ (w + 1) := by
        rw [Nat.pow_succ', Nat.mod_mul]
        omega
      rw [lastDigits, value?_append, ih, Option.bind_some, (toChar_spec n).1, Option.map_some,
        hsplit]

theorem lastDigits_noBlank (w n : Nat) : ∀ c ∈ lastDigits w n, isBlank c = false := by
  induction w generalizing n with
  | zero => simp [lastDigits]
  | succ w ih =>
      rw [lastDigits, List.forall_mem_append]
      exact ⟨ih (n / 16), List.forall_mem_singleton.mpr (toChar_spec n).2.1⟩

end Text.Hex

/-! ## Identifiers -/

namespace Uuid

/-- The hyphens are found between groups of the right lengths. -/
theorem hyphenated?_groups {a b c d e : List Char} (ha : a.length = 8) (hb : b.length = 4)
    (hc : c.length = 4) (hd : d.length = 4) (he : e.length = 12) :
    hyphenated? (a ++ '-' :: (b ++ '-' :: (c ++ '-' :: (d ++ '-' :: e)))) =
      simple? (a ++ b ++ c ++ d ++ e) := by
  have hlength : (a ++ '-' :: (b ++ '-' :: (c ++ '-' :: (d ++ '-' :: e)))).length = 36 := by
    simp [ha, hb, hc, hd, he]
  simp [hyphenated?, hlength, List.drop_append, ha, hb, hc, hd, List.drop_of_length_le]

theorem simple?_digits (u : Uuid) : simple? (Hex.lastDigits 32 u.number) = some u := by
  have hlt : u.number < 16 ^ 32 := u.number_lt
  rw [simple?, Hex.lastDigits_length, if_pos (beq_self_eq_true 32), Hex.value?_lastDigits,
    Option.bind_some, Nat.mod_eq_of_lt hlt, ofNat?, dif_pos u.number_lt]

/-- An identifier is read from its text. -/
theorem read?_chars (u : Uuid) : read? u.chars = some u := by
  have hlength := Hex.lastDigits_length 32 u.number
  have hdigits := u.simple?_digits
  rw [chars]
  generalize Hex.lastDigits 32 u.number = ds at hlength hdigits ⊢
  have hgroups : ds.take 8 ++ (ds.drop 8).take 4 ++ (ds.drop 12).take 4 ++ (ds.drop 16).take 4 ++
      ds.drop 20 = ds := by
    rw [← List.take_add, ← List.take_add, ← List.take_add, List.take_append_drop]
  have hread := hyphenated?_groups (a := ds.take 8) (b := (ds.drop 8).take 4)
    (c := (ds.drop 12).take 4) (d := (ds.drop 16).take 4) (e := ds.drop 20)
    (by simp [hlength]) (by simp [hlength]) (by simp [hlength]) (by simp [hlength])
    (by simp [hlength])
  rw [hgroups, hdigits] at hread
  have hwhole : (ds.take 8 ++ '-' :: ((ds.drop 8).take 4 ++ '-' :: ((ds.drop 12).take 4 ++
      '-' :: ((ds.drop 16).take 4 ++ '-' :: ds.drop 20)))).length = 36 := by
    simp [hlength]
  simp only [read?, hwhole, Nat.reduceBEq, Bool.false_eq_true, if_false, if_true, hread]

theorem chars_begin (u : Uuid) : ∃ c r, u.chars = c :: r ∧ isBlank c = false := by
  have hne : (Hex.lastDigits 32 u.number).take 8 ≠ [] := by
    simp [← List.length_eq_zero_iff, Hex.lastDigits_length]
  obtain ⟨c, r, hc⟩ := List.exists_cons_of_ne_nil hne
  have hmem : c ∈ (Hex.lastDigits 32 u.number).take 8 := hc ▸ List.mem_cons_self
  rw [chars, hc]
  exact ⟨c, _, rfl, Hex.lastDigits_noBlank _ _ c (List.mem_of_mem_take hmem)⟩

theorem trim_chars (u : Uuid) : trim u.chars = u.chars := by
  refine trim_eq_self u.chars_begin ?_
  obtain ⟨-, hblank, hsemi⟩ := Hex.toChar_spec u.number
  have hlast : (Hex.lastDigits 32 u.number).drop 20 =
      (Hex.lastDigits 31 (u.number / 16)).drop 20 ++ [Hex.toChar u.number] := by
    rw [Hex.lastDigits, List.drop_append_of_le_length (by simp [Hex.lastDigits_length])]
  have hclose : Closes ((Hex.lastDigits 32 u.number).drop 20) := ⟨_, _, hlast, hblank, hsemi⟩
  rw [chars]
  generalize Hex.lastDigits 32 u.number = ds at hclose ⊢
  exact closes_joined (closes_joined (closes_joined (closes_joined hclose _ _) _ _) _ _) _ _

end Uuid

/-! ## Dates and moments -/

namespace Date

theorem chars_begin (d : Date) : ∃ c r, d.chars = c :: r ∧ isBlank c = false := by
  rw [chars, yearChars]
  split
  · obtain ⟨c, r, hc, hd⟩ := Digits.padded_cons 4 d.year.natAbs
    rw [hc]
    exact ⟨c, _, rfl, Digits.isBlank_of_isDigit hd⟩
  · split
    · exact ⟨'-', _, rfl, by decide⟩
    · exact ⟨'+', _, rfl, by decide⟩

theorem trim_chars (d : Date) : trim d.chars = d.chars := by
  refine trim_eq_self d.chars_begin ?_
  obtain ⟨c, r, hc, -⟩ := Digits.padded_cons 2 d.day
  have hday : Closes (Digits.padded 2 d.day) :=
    closes_digits (by rw [hc]; exact List.cons_ne_nil c r) (Digits.padded_all 2 d.day)
  exact closes_joined (closes_joined hday _ _) _ _

end Date

namespace TimeOfDay

theorem closes_chars (t : TimeOfDay) : Closes t.chars := by
  have hpadded : ∀ w n, Closes (Digits.padded w n) := by
    intro w n
    obtain ⟨c, r, hc, -⟩ := Digits.padded_cons w n
    exact closes_digits (by rw [hc]; exact List.cons_ne_nil c r) (Digits.padded_all w n)
  have hfraction : fractionChars (t.nano % 1000000000) = [] ∨
      Closes (fractionChars (t.nano % 1000000000)) := by
    unfold fractionChars
    split
    · exact .inl rfl
    · right
      split
      · exact (hpadded _ _).append ['.']
      · split
        · exact (hpadded _ _).append ['.']
        · exact (hpadded _ _).append ['.']
  exact closes_joined (closes_joined ((hpadded _ _).maybe hfraction) _ _) _ _

end TimeOfDay

namespace Timestamp

variable (m : Timestamp)

theorem chars_begin (sep : Char) : ∃ c r, m.chars sep = c :: r ∧ isBlank c = false := by
  obtain ⟨c, r, hc, hb⟩ := m.date.chars_begin
  rw [chars, hc]
  exact ⟨c, _, rfl, hb⟩

theorem trim_chars (sep : Char) : trim (m.chars sep) = m.chars sep :=
  trim_eq_self (m.chars_begin sep) (closes_joined m.time.closes_chars _ _)

/-- A moment without zone is read from its text. -/
theorem read?_chars : read? (m.chars ' ') = some m := by
  have htime := TimeOfDay.scanWith?_chars (fun _ rest h => Date.number?_padded h rest) m.time
    TimeOfDay.end_nil
  rw [List.append_nil] at htime
  have hblank : trimLeft isBlank (' ' :: m.time.chars) = m.time.chars :=
    Digits.trimLeft_padded 2 (m.time.second / 3600) _
  have hread : readWith? (fun r => some (trimLeft isBlank r)) (m.chars ' ') = some m := by
    rw [readWith?, chars, Date.scan?_chars, Option.bind_some]
    simp only [hblank, Option.bind_some, TimeOfDay.scan?, htime, List.isEmpty_nil, if_true]
  simp only [read?, m.trim_chars, hread]

/-- The offset of universal time. -/
def utcOffset : List Char := ['+', '0', '0', ':', '0', '0']

theorem displayUtc_toList : m.displayUtc.toList = m.chars 'T' ++ utcOffset :=
  String.toList_ofList

theorem trim_displayUtc : trim m.displayUtc.toList = m.displayUtc.toList := by
  rw [displayUtc_toList]
  obtain ⟨c, r, hc, hb⟩ := m.chars_begin 'T'
  refine trim_eq_self ⟨c, _, by rw [hc, List.cons_append], hb⟩ (Closes.append ?_ _)
  exact ⟨['+', '0', '0', ':', '0'], '0', rfl, by decide, by decide⟩

theorem end_offset : TimeOfDay.End utcOffset :=
  ⟨digitsEnd_cons (by decide), by simp [utcOffset]⟩

/-- A year of four digits is read strictly. -/
theorem exactDate?_chars {d : Date} (hlow : 0 ≤ d.year) (hhigh : d.year ≤ 9999)
    (rest : List Char) : exactDate? (d.chars ++ rest) = some (d, rest) := by
  obtain ⟨hmonth, hday⟩ := d.month_day_lt
  have hyear : Date.yearChars d.year = Digits.padded 4 d.year.natAbs := if_pos ⟨hlow, hhigh⟩
  have hparts : Date.ofParts? d.year d.month d.day = some d := dif_pos d.valid
  rw [exactDate?, Date.chars, hyear, List.append_assoc, digits?_padded (by decide) (by omega),
    Option.bind_some, List.cons_append, Date.mark?_cons, Option.bind_some, List.append_assoc,
    digits?_padded (by decide) hmonth, Option.bind_some, List.cons_append, Date.mark?_cons,
    Option.bind_some, digits?_padded (by decide) hday, Option.bind_some,
    Int.natAbs_of_nonneg hlow, hparts]
  rfl

/-- A year with a sign is not. -/
theorem exactDate?_signed {d : Date} (h : ¬(0 ≤ d.year ∧ d.year ≤ 9999)) (rest : List Char) :
    exactDate? (d.chars ++ rest) = none := by
  have hfield : ∀ {c : Char} {r : List Char}, Digits.isDigit c = false →
      digits? 4 (c :: r) = none := by
    intro c r hc
    simp [digits?, hc]
  have hyear : digits? 4 (d.chars ++ rest) = none := by
    rw [Date.chars, Date.yearChars, if_neg h]
    split
    · exact hfield (by decide)
    · exact hfield (by decide)
  rw [exactDate?, hyear]
  rfl

/-- A moment in universal time is read from its text if its year has four digits. -/
theorem readUtc?_display (hlow : 0 ≤ m.date.year) (hhigh : m.date.year ≤ 9999) :
    readUtc? m.displayUtc.toList = some m := by
  have htime := TimeOfDay.scanWith?_chars (fun _ rest h => digits?_padded (by decide) h rest) m.time
    end_offset
  have hzone : offset? utcOffset = some (0, []) := by decide
  have hread : readZoned? exactDate? (m.chars 'T' ++ utcOffset) = some m := by
    rw [readZoned?, chars, List.append_assoc, exactDate?_chars hlow hhigh, Option.bind_some,
      List.cons_append]
    simp only [strictSeparator?, beq_self_eq_true, Bool.true_or, if_true, Option.bind_some, htime,
      hzone, List.isEmpty_nil]
    exact toUtc?_zero m
  rw [readUtc?, trim_displayUtc, displayUtc_toList, hread]

/-- With a signed year it is not read at all. -/
theorem readUtc?_signed (h : ¬(0 ≤ m.date.year ∧ m.date.year ≤ 9999)) :
    readUtc? m.displayUtc.toList = none := by
  have htime := TimeOfDay.scanWith?_chars (fun _ rest h => Date.number?_padded h rest) m.time
    end_offset
  have hzoned : readZoned? exactDate? (m.chars 'T' ++ utcOffset) = none := by
    rw [readZoned?, chars, List.append_assoc, exactDate?_signed h]
    rfl
  -- Behind blanks the time would have to begin, and behind a `T` it ends before the zone.
  have hblank : readWith? (fun r => some (trimLeft isBlank r))
      (m.chars 'T' ++ utcOffset) = none := by
    rw [readWith?, chars, List.append_assoc, Date.scan?_chars]
    rfl
  have hmark : readWith? (Date.mark? 'T') (m.chars 'T' ++ utcOffset) = none := by
    rw [readWith?, chars, List.append_assoc, Date.scan?_chars, Option.bind_some, List.cons_append,
      Date.mark?_cons, Option.bind_some, TimeOfDay.scan?, htime]
    rfl
  have hdate : Date.read? (m.chars 'T' ++ utcOffset) = none := by
    rw [Date.read?, chars, List.append_assoc, Date.scan?_chars]
    rfl
  have htrim := m.trim_displayUtc
  rw [displayUtc_toList] at htrim
  rw [readUtc?, trim_displayUtc, displayUtc_toList, hzoned]
  simp only [read?, htrim, hblank, hmark, hdate, Option.map_none]

end Timestamp

end Rowtime
