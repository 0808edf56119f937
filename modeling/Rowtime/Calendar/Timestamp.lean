import Rowtime.Calendar.Date

/-!
# Timestamps

A `Timestamp` is a date with a time of day in nanoseconds. The last second of a
minute may last two seconds: its nanoseconds go on to two thousand million, and
the second part is written as 60. Fractions are written with no, three, six or
nine digits.

A timestamp without zone is read as date, separator and time, or as a date
alone. A timestamp with zone is read strictly, with two digits for each part and
`Z` or an offset at the end, and is kept in universal time.
-/
namespace Rowtime

/-- A time of day. -/
structure TimeOfDay where
  second : Nat
  nano : Nat
  second_lt : second < 86400
  nano_lt : nano < 1000000000 ∨ (nano < 2000000000 ∧ second % 60 = 59)
deriving DecidableEq

namespace TimeOfDay

open Text

/-- The time with the given numbers; the seconds part may be 60. -/
def ofParts? (h m s nano : Nat) : Option TimeOfDay :=
  if h < 24 ∧ m < 60 ∧ s ≤ 60 ∧ nano < 1000000000 then
    let sec := h * 3600 + m * 60 + min s 59
    let n := if s = 60 then nano + 1000000000 else nano
    if hv : sec < 86400 ∧ (n < 1000000000 ∨ (n < 2000000000 ∧ sec % 60 = 59)) then
      some ⟨sec, n, hv.1, hv.2⟩
    else none
  else none

/-- The start of the day. -/
def midnight : TimeOfDay := ⟨0, 0, by decide, by decide⟩

/-- The order of the times. -/
def compare (a b : TimeOfDay) : Ordering :=
  (Ord.compare a.second b.second).then (Ord.compare a.nano b.nano)

/-- The digits of the fraction of a second. -/
def fractionChars (nano : Nat) : List Char :=
  if nano == 0 then []
  else if nano % 1000000 == 0 then '.' :: Digits.padded 3 (nano / 1000000)
  else if nano % 1000 == 0 then '.' :: Digits.padded 6 (nano / 1000)
  else '.' :: Digits.padded 9 nano

/-- The text of a time. -/
def chars (t : TimeOfDay) : List Char :=
  Digits.padded 2 (t.second / 3600) ++ ':' :: (Digits.padded 2 (t.second / 60 % 60) ++
    ':' :: (Digits.padded 2 (t.second % 60 + t.nano / 1000000000) ++
      fractionChars (t.nano % 1000000000)))

/-- Reads the digits of a fraction behind its point; digits after the ninth are passed over. -/
def fraction? (s : List Char) : Option (Nat × List Char) :=
  let ds := s.takeWhile Digits.isDigit
  if ds.isEmpty then none
  else some (Digits.value ((ds.take 9) ++ List.replicate (9 - ds.length) '0'), s.drop ds.length)

/-- Reads an optional fraction. -/
def optionalFraction? : List Char → Option (Nat × List Char)
  | '.' :: r => fraction? r
  | s => some (0, s)

/-- Reads a time whose parts are read by `part`. -/
def scanWith? (part : List Char → Option (Nat × List Char)) (s : List Char) :
    Option (TimeOfDay × List Char) :=
  (part s).bind fun h =>
  (Date.mark? ':' h.2).bind fun s =>
  (part s).bind fun m =>
  (Date.mark? ':' m.2).bind fun s =>
  (part s).bind fun sec =>
  (optionalFraction? sec.2).bind fun n =>
  (ofParts? h.1 m.1 sec.1 n.1).map fun t => (t, n.2)

/-- Reads a time with parts of one or two digits, each behind any blanks. -/
def scan? (s : List Char) : Option (TimeOfDay × List Char) :=
  scanWith? (Date.number? 2) s

end TimeOfDay

/-- A date with a time of day. -/
structure Timestamp where
  date : Date
  time : TimeOfDay
deriving DecidableEq

namespace Timestamp

open Text

/-- The order of the moments. -/
def compare (a b : Timestamp) : Ordering :=
  (a.date.compare b.date).then (a.time.compare b.time)

/-- The text of a timestamp with the given separator. -/
def chars (sep : Char) (a : Timestamp) : List Char :=
  a.date.chars ++ sep :: a.time.chars

/-- The text of a timestamp without zone. -/
def display (a : Timestamp) : String := String.ofList (a.chars ' ')

/-- The text of a timestamp in universal time, with its offset. -/
def displayUtc (a : Timestamp) : String :=
  String.ofList (a.chars 'T' ++ "+00:00".toList)

/-- Reads a timestamp whose separator is read by `sep`; it must be the whole text. -/
def readWith? (sep : List Char → Option (List Char)) (s : List Char) : Option Timestamp :=
  (Date.scan? s).bind fun d =>
  (sep d.2).bind fun s =>
  (TimeOfDay.scan? s).bind fun t =>
  if t.2.isEmpty then some ⟨d.1, t.1⟩ else none

/-- Reads a timestamp without zone: blanks or a `T` between date and time, or a date alone. -/
def read? (s : List Char) : Option Timestamp :=
  let s := trim s
  match readWith? (fun r => some (trimLeft isBlank r)) s with
  | some a => some a
  | none =>
    match readWith? (Date.mark? 'T') s with
    | some a => some a
    | none => (Date.read? s).map (⟨·, TimeOfDay.midnight⟩)

/-- Reads exactly `width` digits. -/
def digits? (width : Nat) (s : List Char) : Option (Nat × List Char) :=
  let ds := s.take width
  if ds.length == width && ds.all Digits.isDigit then some (Digits.value ds, s.drop width) else none

/-- Reads a zone offset in seconds: `Z`, or a sign with hours and minutes. -/
def offset? : List Char → Option (Int × List Char)
  | [] => none
  | c :: r =>
    if c == 'Z' || c == 'z' then some (0, r)
    else
      let sign : Option Int :=
        if c == '+' then some 1 else if c == '-' || c.toNat == 0x2212 then some (-1) else none
      sign.bind fun k =>
      (digits? 2 r).bind fun h =>
      (Date.mark? ':' h.2).bind fun s =>
      (digits? 2 s).bind fun m =>
      if h.1 < 24 ∧ m.1 < 60 then some (k * ((h.1 * 3600 + m.1 * 60 : Nat) : Int), m.2) else none

/-- The time of day at a number of seconds after midnight, with the nanoseconds of another time. -/
def withSecond? (t : TimeOfDay) (sec : Nat) : Option TimeOfDay :=
  if h : sec < 86400 ∧ (t.nano < 1000000000 ∨ (t.nano < 2000000000 ∧ sec % 60 = 59)) then
    some ⟨sec, t.nano, h.1, h.2⟩
  else none

/-- The moment in universal time of a local time that is `offset` seconds ahead. -/
def toUtc? (a : Timestamp) (offset : Int) : Option Timestamp :=
  let sec : Int := (a.time.second : Int) - offset
  if sec < 0 then
    a.date.pred?.bind fun d => (withSecond? a.time (sec + 86400).toNat).map (⟨d, ·⟩)
  else if 86400 ≤ sec then
    a.date.succ?.bind fun d => (withSecond? a.time (sec - 86400).toNat).map (⟨d, ·⟩)
  else (withSecond? a.time sec.toNat).map (⟨a.date, ·⟩)

/-- Reads a date of exactly four, two and two digits. -/
def exactDate? (s : List Char) : Option (Date × List Char) :=
  (digits? 4 s).bind fun y =>
  (Date.mark? '-' y.2).bind fun s =>
  (digits? 2 s).bind fun m =>
  (Date.mark? '-' m.2).bind fun s =>
  (digits? 2 s).bind fun d =>
  (Date.ofParts? (y.1 : Int) m.1 d.1).map fun a => (a, d.2)

/-- Reads the separator of a strict timestamp. -/
def strictSeparator? : List Char → Option (List Char)
  | c :: r => if c == 'T' || c == 't' || c == ' ' then some r else none
  | [] => none

/-- Reads a timestamp with zone whose date is read by `day`, and moves it to universal time. -/
def readZoned? (day : List Char → Option (Date × List Char)) (s : List Char) : Option Timestamp :=
  (day s).bind fun d =>
  (strictSeparator? d.2).bind fun s =>
  (TimeOfDay.scanWith? (digits? 2) s).bind fun t =>
  (offset? t.2).bind fun o =>
  if o.2.isEmpty then toUtc? ⟨d.1, t.1⟩ o.1 else none

/-- Reads a moment: strictly with its zone, or without zone as universal time. -/
def readUtc? (s : List Char) : Option Timestamp :=
  match readZoned? exactDate? (trim s) with
  | some a => some a
  | none => read? s

end Timestamp

end Rowtime
